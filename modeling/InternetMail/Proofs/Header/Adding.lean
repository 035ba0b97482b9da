import InternetMail.Proofs.Entries
import InternetMail.Proofs.Header.Built
import InternetMail.Proofs.Header.Folding

/-!
# Adding fields to a header map

Fields are added one after another (`ofFields_append_eq_ok_iff`), a value comes after those that its
name has (`lookup_of_add`), and whether it is added depends on the name alone (`exists_add`). So two
maps that differ in the last value added are not the same (`beq_eq_false_of_add`); values that
differ in their number of line breaks do (`count_decodeLossy`).

These are the facts that loading mail and comparing maps rest on. A list of fields is added from the
front and stops at the first that is refused, so a longer list gives a longer map or none
(`exists_ofFields_of_longer`), and in either case not the one that the shorter list gives.
-/

namespace InternetMail

/-! ### Values with their line breaks -/

/-- A line feed is read as one, and nothing else is. -/
theorem count_readFrom (bs : Octets) :
    (readFrom none bs).count '\n' = bs.count 0x0a ∧
      ∀ p : Utf8.Begun, p.IsLong → (readFrom (some p) bs).count '\n' = bs.count 0x0a := by
  -- what is not ASCII is read as characters that are no line feeds
  have hplain : ∀ (c : Char) (t : Text), Utf8.IsPlain c → (c :: t).count '\n' = t.count '\n' :=
    fun c t hc ↦ List.count_cons_of_ne hc.1
  have hlong : ∀ (b : UInt8) (bs : Octets), 0x80 ≤ b.toNat →
      (b :: bs).count 0x0a = bs.count 0x0a := fun b bs hb ↦
    List.count_cons_of_ne (by simpa using (isFold_eq_false hb).2)
  induction bs with
  | nil => exact ⟨rfl, fun _ _ ↦ hplain _ _ Utf8.isPlain_replacement⟩
  | cons b bs ih =>
    obtain ⟨ihNone, ihSome⟩ := ih
    have hnone : (readFrom none (b :: bs)).count '\n' = (b :: bs).count 0x0a := by
      rw [readFrom]
      rcases Utf8.partsFrom_none_cons b bs with ⟨hascii, heq⟩ | ⟨hb, ⟨p, hp, heq⟩ | heq⟩
      · have hlf := isLineFeed_ofNat b.toNat hascii
        rw [UInt8.ofNat_toNat] at hlf
        rw [heq, List.map_cons, List.count_cons, List.count_cons, hlf]
        rw [readFrom] at ihNone
        rw [ihNone]
        rfl
      · rw [heq, hlong b bs hb]
        exact ihSome p hp
      · rw [heq, hlong b bs hb]
        exact (hplain _ _ Utf8.isPlain_replacement).trans ihNone
    refine ⟨hnone, fun p hp ↦ ?_⟩
    rw [readFrom]
    rcases Utf8.partsFrom_some_cons hp b bs with ⟨hb, ⟨c, hc, heq⟩ | ⟨q, hq, heq⟩⟩ | heq
    · rw [heq, hlong b bs hb]
      exact (hplain _ _ hc).trans ihNone
    · rw [heq, hlong b bs hb]
      exact ihSome q hq
    -- the octet is not part of the character, so it is looked at once more
    · rw [heq]
      exact (hplain _ _ Utf8.isPlain_replacement).trans hnone

/-- Reading octets as UTF-8 keeps their line feeds, each of which is a character of its own even
between ill-formed stretches. -/
theorem count_decodeLossy (bs : Octets) : (Utf8.decodeLossy bs).count '\n' = bs.count 0x0a :=
  (count_readFrom bs).1

namespace HeaderMap

/-! ### Fields one after another -/

/-- Fields are added one by one, and each of them has to be taken. -/
theorem addAll_cons_eq_ok_iff {m m' : HeaderMap} {f : Field} {fs : List Field} :
    m.addAll (f :: fs) = (.ok (), m') ↔
      ∃ m₁, m.add f.name (Utf8.decodeLossy f.value) = .ok m₁ ∧ m₁.addAll fs = (.ok (), m') := by
  rw [addAll]
  cases m.add f.name (Utf8.decodeLossy f.value) <;> simp

/-- Two lists of fields are added one after the other. -/
theorem addAll_append_eq_ok_iff {m m' : HeaderMap} {fs gs : List Field} :
    m.addAll (fs ++ gs) = (.ok (), m') ↔
      ∃ m₀, m.addAll fs = (.ok (), m₀) ∧ m₀.addAll gs = (.ok (), m') := by
  induction fs generalizing m with
  | nil => simp [addAll]
  | cons f fs ih =>
    rw [List.cons_append, addAll_cons_eq_ok_iff]
    simp only [addAll_cons_eq_ok_iff, ih]
    constructor
    · rintro ⟨m₁, hadd, m₀, hfs, hgs⟩
      exact ⟨m₀, ⟨m₁, hadd, hfs⟩, hgs⟩
    · rintro ⟨m₀, ⟨m₁, hadd, hfs⟩, hgs⟩
      exact ⟨m₁, hadd, m₀, hfs, hgs⟩

/-- A map of fields is what they make of the empty map. -/
theorem ofFields_eq_ok_iff {m : HeaderMap} {fs : List Field} :
    ofFields fs = .ok m ↔ empty.addAll fs = (.ok (), m) := by
  rw [ofFields]
  obtain ⟨outcome, m'⟩ := empty.addAll fs
  cases outcome <;> simp

/-- So a map of two lists is what the second makes of the map of the first. -/
theorem ofFields_append_eq_ok_iff {fs gs : List Field} {m : HeaderMap} :
    ofFields (fs ++ gs) = .ok m ↔ ∃ m₀, ofFields fs = .ok m₀ ∧ m₀.addAll gs = (.ok (), m) := by
  simp only [ofFields_eq_ok_iff, addAll_append_eq_ok_iff]

/-- Whether a value is added does not depend on the value. -/
theorem exists_add {m m' : HeaderMap} {n : HeaderName} {v : Text} (h : m.add n v = .ok m')
    (w : Text) : ∃ m'', m.add n w = .ok m'' := by
  unfold add at h ⊢
  split at h
  · exact ⟨_, rfl⟩
  · split at h
    · rename_i hrepeatable
      simp only [hrepeatable]
      exact ⟨_, rfl⟩
    · cases h

/-- A value that was added stands behind those that the name had. -/
theorem lookup_of_add {m m' : HeaderMap} {n : HeaderName} {v : Text} (h : m.add n v = .ok m') :
    m'.entries.lookup n = some (m.getAll n ++ [v]) := by
  unfold add at h
  split at h
  · rename_i hnone
    cases h
    rw [set, Entries.lookup_put_self, getAll, hnone]
    rfl
  · rename_i values hsome
    split at h
    · cases h
      rw [Entries.lookup_put_self, getAll, hsome]
      rfl
    · cases h

/-- Maps with different last fields are not the same. -/
theorem beq_eq_false_of_add {m m₁ m₂ : HeaderMap} {n : HeaderName} {v w : Text}
    (h₁ : m.add n v = .ok m₁) (h₂ : m.add n w = .ok m₂) (hne : v ≠ w) : (m₁ == m₂) = false := by
  rw [← Bool.not_eq_true]
  intro hsame
  have hlookup := Entries.lookup_of_sameEntries hsame (Entries.mem_of_lookup (lookup_of_add h₁))
  rw [lookup_of_add h₂, Option.some.injEq, List.append_cancel_left_eq,
    List.singleton_inj] at hlookup
  exact hne hlookup.symm

/-- A map in order is equal to itself. That needs a proof, as equality of maps looks every name of
the one up in the other. -/
theorem beq_self {m : HeaderMap} (h : m.WellFormed) : (m == m) = true :=
  Entries.sameEntries_self h.nodup

/-- A last field that has more line breaks makes another map, and does not have to be refused for
what it says. -/
theorem exists_ofFields_of_longer {fs gs : List Field} {f f' : Field} {m' : HeaderMap}
    (hname : f'.name = f.name) (hcount : f.value.count 0x0a < f'.value.count 0x0a)
    (h : ofFields (fs ++ f' :: gs) = .ok m') :
    ∃ m, ofFields (fs ++ [f]) = .ok m ∧ (gs = [] → (m == m') = false) := by
  obtain ⟨m₀, hm₀, hall⟩ := ofFields_append_eq_ok_iff.1 h
  obtain ⟨m₁, hadd, hgs⟩ := addAll_cons_eq_ok_iff.1 hall
  rw [hname] at hadd
  obtain ⟨m, hm⟩ := exists_add hadd (Utf8.decodeLossy f.value)
  refine ⟨m, ofFields_append_eq_ok_iff.2 ⟨m₀, hm₀, addAll_cons_eq_ok_iff.2 ⟨m, hm, rfl⟩⟩, ?_⟩
  rintro rfl
  have hne : Utf8.decodeLossy f.value ≠ Utf8.decodeLossy f'.value := by
    intro heq
    have := congrArg (List.count '\n') heq
    rw [count_decodeLossy, count_decodeLossy] at this
    omega
  obtain rfl : m₁ = m' := (Prod.mk.inj hgs).2
  exact beq_eq_false_of_add hm hadd hne

end HeaderMap

end InternetMail
