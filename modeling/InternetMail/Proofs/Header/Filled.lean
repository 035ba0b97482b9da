import InternetMail.Proofs.Header.Adding
import InternetMail.Proofs.Header.Wire

/-!
# Maps from anywhere on the wire

A map that was read from JSON may have names without values, and names with more values than they
may have. Names without values are lost on the wire, and nothing is read of them before that either
(`getAll_filled`). The other maps, in which no name has too many values, are read as they were
written, less such names (`ofFields_fields_of_unrepeated`), and no others are read at all
(`unrepeated_of_ofFields`).

Replacing a field leaves the other values as they are, so a map then survives the wire if the new
value does (`wireSafe_set_iff`).

A map is therefore as good as its filled part, which has the names with values only: it has the same
values under each name, it is written as the same octets, and it is what is read from these.
`HeaderMap.Unrepeated` says that this part is in order.
-/

namespace InternetMail

namespace Entries

variable {κ ν : Type} [BEq κ] [LawfulBEq κ] {es : Entries κ ν}

/-- Where each key stands once, nothing is found under the key of an entry that was dropped. -/
theorem lookup_filter (h : es.keys.Nodup) (p : κ × ν → Bool) (k : κ) :
    (es.filter p).lookup k = (es.lookup k).filter fun v ↦ p (k, v) := by
  have hsub : (keys (es.filter p)).Nodup := nodup_keys_filter p h
  cases hlookup : es.lookup k with
  | none =>
    rw [List.lookup_eq_none_iff] at hlookup
    exact List.lookup_eq_none_iff.2 fun e he ↦ hlookup e (List.mem_filter.1 he).1
  | some v =>
    cases hp : p (k, v) with
    | true =>
      have hmem : (k, v) ∈ es.filter p := List.mem_filter.2 ⟨mem_of_lookup hlookup, hp⟩
      rw [Option.filter_some_pos (p := fun v ↦ p (k, v)) hp]
      exact lookup_of_mem hsub hmem
    | false =>
      rw [Option.filter_some_neg (by simp [hp])]
      refine List.lookup_eq_none_iff.2 fun e he ↦ ?_
      obtain ⟨hmem, hpe⟩ := List.mem_filter.1 he
      rw [bne_iff_ne]
      rintro rfl
      rw [lookup_of_mem h hmem, Option.some.injEq] at hlookup
      rw [← hlookup] at hp
      exact absurd (hp.symm.trans hpe) (by simp)

end Entries

namespace HeaderMap

variable {m : HeaderMap} {n : HeaderName} {value : Text}

/-! ### Names without values -/

/-- Each name stands once, and with one value at most if it may not repeat. -/
structure Unrepeated (m : HeaderMap) : Prop where
  nodup : m.entries.keys.Nodup
  single : ∀ e ∈ m.entries, e.1.isRepeatable = false → e.2.length ≤ 1

/-- A map in order repeats no name that may not repeat. -/
theorem WellFormed.unrepeated (h : m.WellFormed) : m.Unrepeated :=
  ⟨h.nodup, fun e he hn ↦ (h.single e he hn).le⟩

/-- Replacing a field leaves one value of it. -/
theorem Unrepeated.set (h : m.Unrepeated) (n : HeaderName) (value : Text) :
    (m.set n value).Unrepeated := by
  refine ⟨Entries.nodup_keys_put h.nodup, fun e he hn ↦ ?_⟩
  rcases Entries.mem_put he with rfl | he
  · exact le_rfl
  · exact h.single e he hn

/-- The map without the names that have no values. -/
def filled (m : HeaderMap) : HeaderMap :=
  ⟨m.entries.filter fun e ↦ !e.2.isEmpty⟩

/-- Such a map is in order without the names that have no values. -/
theorem Unrepeated.wellFormed_filled (h : m.Unrepeated) : m.filled.WellFormed := by
  have hnonempty : ∀ e ∈ m.filled.entries, e.2 ≠ [] := by
    intro e he
    simpa using (List.mem_filter.1 he).2
  refine ⟨Entries.nodup_keys_filter _ h.nodup, hnonempty, fun e he hn ↦ ?_⟩
  have hle := h.single e (List.mem_filter.1 he).1 hn
  have hpos := List.length_pos_of_ne_nil (hnonempty e he)
  omega

/-- Names without values are not written. -/
theorem fields_filled (m : HeaderMap) : m.filled.fields = m.fields := by
  obtain ⟨es⟩ := m
  simp only [fields, filled]
  induction es with
  | nil => rfl
  | cons e es ih =>
    rw [List.filter_cons, List.flatMap_cons, ← ih]
    cases hvalues : e.2 with
    | nil => simp
    | cons v vs => simp [hvalues]

/-- Names without values have the same values as names that are not there: none. -/
theorem getAll_filled (h : m.entries.keys.Nodup) (n : HeaderName) :
    m.filled.getAll n = m.getAll n := by
  rw [getAll, getAll, filled, Entries.lookup_filter h]
  cases m.entries.lookup n with
  | none => rfl
  | some values => cases values <;> rfl

/-- The fields of a map without too many values make that map, less the names without any. -/
theorem ofFields_fields_of_unrepeated (h : m.Unrepeated) :
    ofFields (m.fields.map Field.ofEntry) = .ok m.filled := by
  rw [← fields_filled]
  exact ofFields_fields h.wellFormed_filled

/-- After a name that may not repeat, none of the fields that are added has it. -/
theorem name_ne_of_addAll {m m' : HeaderMap} {n : HeaderName} {fs : List Field}
    (h : m.addAll fs = (.ok (), m')) (hn : n.isRepeatable = false)
    (hmem : m.contains n = true) : ∀ f ∈ fs, f.name ≠ n := by
  induction fs generalizing m with
  | nil => simp
  | cons f fs ih =>
    obtain ⟨m₁, hadd, hfs⟩ := addAll_cons_eq_ok_iff.1 h
    have hne : f.name ≠ n := by
      rintro rfl
      obtain ⟨values, hlookup⟩ := Option.isSome_iff_exists.1 hmem
      simp [add, hlookup, hn] at hadd
    have hmem₁ : m₁.contains n = true := by
      unfold add at hadd
      split at hadd
      · cases hadd
        rwa [contains, set, Entries.lookup_put_of_ne hne.symm]
      · split at hadd
        · cases hadd
          rwa [contains, Entries.lookup_put_of_ne hne.symm]
        · cases hadd
    exact List.forall_mem_cons.2 ⟨hne, ih hfs hmem₁⟩

/-- Only without too many values do the fields of a map make one. -/
theorem unrepeated_of_ofFields {m m' : HeaderMap} (hkeys : m.entries.keys.Nodup)
    (h : ofFields (m.fields.map Field.ofEntry) = .ok m') : m.Unrepeated := by
  refine ⟨hkeys, fun e he hn ↦ ?_⟩
  obtain ⟨n, values⟩ := e
  by_contra hlength
  -- the second value would have been refused
  obtain ⟨v, w, values, rfl⟩ : ∃ v w vs, values = v :: w :: vs := by
    rcases values with _ | ⟨v, _ | ⟨w, vs⟩⟩
    · simp at hlength
    · simp at hlength
    · exact ⟨v, w, vs, rfl⟩
  obtain ⟨es, es', hes⟩ := List.append_of_mem he
  have hfields : m.fields.map Field.ofEntry = (fields ⟨es⟩).map Field.ofEntry ++
      Field.ofEntry (n, v) :: Field.ofEntry (n, w) ::
        (values.map (fun u ↦ Field.ofEntry (n, u)) ++ (fields ⟨es'⟩).map Field.ofEntry) := by
    simp [fields, hes]
  rw [hfields] at h
  obtain ⟨m₀, -, hall⟩ := ofFields_append_eq_ok_iff.1 h
  obtain ⟨m₁, hadd, hrest⟩ := addAll_cons_eq_ok_iff.1 hall
  have hmem : m₁.contains n = true := Option.isSome_iff_exists.2 ⟨_, lookup_of_add hadd⟩
  exact name_ne_of_addAll hrest hn hmem _ List.mem_cons_self rfl

/-! ### Replacing fields -/

/-- A field that was set has one value. -/
theorem getAll_set_self : (m.set n value).getAll n = [value] := by
  rw [getAll, set, Entries.lookup_put_self]
  rfl

/-- A field that was removed has none. -/
theorem getAll_remove_self : (m.remove n).getAll n = [] := by
  rw [getAll, HeaderMap.remove, Entries.lookup_remove_self]
  rfl

/-- The values of a map survive the wire after one was replaced just if the new one does. -/
theorem wireSafe_set_iff (hm : m.WireSafe) : (m.set n value).WireSafe ↔ value.WireSafe := by
  constructor
  · intro h
    refine h (n, value) (mem_fields_iff.2 ⟨[value], ?_, List.mem_singleton_self value⟩)
    exact Entries.mem_of_lookup (Entries.lookup_put_self n [value] m.entries)
  · intro hvalue f hf
    obtain ⟨values, he, hv⟩ := mem_fields_iff.1 hf
    rcases Entries.mem_put he with heq | he
    · cases heq
      rwa [List.mem_singleton.1 hv]
    · exact hm f (mem_fields_iff.2 ⟨values, he, hv⟩)

/-- Removing a field leaves the values of the others as they are. -/
theorem WireSafe.remove (hm : m.WireSafe) (n : HeaderName) : (m.remove n).WireSafe := by
  intro f hf
  obtain ⟨values, he, hv⟩ := mem_fields_iff.1 hf
  exact hm f (mem_fields_iff.2 ⟨values, (List.mem_filter.1 he).1, hv⟩)

end HeaderMap

end InternetMail
