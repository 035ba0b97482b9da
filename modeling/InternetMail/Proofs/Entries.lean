import InternetMail.Entries
import Mathlib.Data.List.Nodup
import Mathlib.Data.List.Perm.Subperm

/-!
# Keys and their values

Where each key stands once, its value is the one that stands beside it (`lookup_of_mem`), and two
lists with the same entries have each other's (`lookup_of_sameEntries`, `mem_of_sameEntries`); the
order of entries does not matter to what is found (`lookup_perm`). No key stands twice after a value
was put under one (`nodup_keys_put`); if the key is new, it comes last (`put_of_not_mem`). Of many
values that are put, each counts more than the one before (`lookup_foldl_put`).

Maps of the program are lists of entries in the order in which keys first came, so there are two
ways to be the same: as lists, and with the same entries in some order (`sameEntries`), which is
what equality of maps looks at. What is found under a key depends on neither, as long as no key
stands twice.
-/

namespace InternetMail.Entries

variable {κ ν : Type} [BEq κ] {es fs : Entries κ ν} {e : κ × ν}

/-- Of two lists with the same entries, the second finds what stands in the first. -/
theorem lookup_of_sameEntries [BEq ν] [LawfulBEq ν] (h : es.sameEntries fs = true) (he : e ∈ es) :
    fs.lookup e.1 = some e.2 := by
  have hall := (Bool.and_eq_true _ _ ▸ h).2
  exact eq_of_beq (List.all_eq_true.1 hall e he)

variable [LawfulBEq κ]

/-- Where each key stands once, an entry is found under its key. If a key stood twice, only the
first of its entries would be. -/
theorem lookup_of_mem (h : es.keys.Nodup) (he : e ∈ es) : es.lookup e.1 = some e.2 := by
  induction es with
  | nil => cases he
  | cons f es ih =>
    obtain ⟨hf, hes⟩ := List.nodup_cons.1 h
    obtain ⟨k, v⟩ := f
    rcases List.mem_cons.1 he with rfl | hmem
    · simp
    · have hne : e.1 ≠ k := by
        rintro rfl
        exact hf (List.mem_map.2 ⟨e, hmem, rfl⟩)
      have hne : (e.1 == k) = false := by simpa using hne
      rw [List.lookup_cons, hne]
      exact ih hes hmem

/-- What is found under a key stands beside it. -/
theorem mem_of_lookup {k : κ} {v : ν} (h : es.lookup k = some v) : (k, v) ∈ es := by
  obtain ⟨us, vs, rfl, -⟩ := List.lookup_eq_some_iff.1 h
  simp

/-- Nothing is found under a key that does not stand there. -/
theorem lookup_eq_none {k : κ} (h : k ∉ es.keys) : es.lookup k = none := by
  rw [List.lookup_eq_none_iff]
  intro e he
  have : k ≠ e.1 := by
    rintro rfl
    exact h (List.mem_map_of_mem he)
  simpa using this

/-- Something is found exactly under the keys that stand there. -/
theorem isSome_lookup_iff {k : κ} : (es.lookup k).isSome = true ↔ k ∈ es.keys := by
  constructor
  · intro h
    obtain ⟨v, hv⟩ := Option.isSome_iff_exists.1 h
    exact List.mem_map_of_mem (mem_of_lookup hv)
  · intro h
    obtain ⟨e, he, rfl⟩ := List.mem_map.1 h
    rw [Option.isSome_iff_ne_none, Ne, List.lookup_eq_none_iff]
    exact fun hnone ↦ by simpa using hnone e he

/-! ### Putting and taking out -/

/-- No entries come in but the one that is put. -/
theorem mem_put {k : κ} {v : ν} (h : e ∈ es.put k v) : e = (k, v) ∨ e ∈ es := by
  induction es with
  | nil => exact Or.inl (List.mem_singleton.1 h)
  | cons f es ih =>
    unfold put at h
    split at h
    · rename_i hk
      rcases List.mem_cons.1 h with rfl | h
      · exact Or.inl (by rw [eq_of_beq hk])
      · exact Or.inr (List.mem_cons_of_mem f h)
    · rcases List.mem_cons.1 h with rfl | h
      · exact Or.inr List.mem_cons_self
      · exact (ih h).imp id (List.mem_cons_of_mem f)

/-- A value takes the place of the one that was there under its key, so that no key stands twice
after it. -/
theorem nodup_keys_put {k : κ} {v : ν} (h : es.keys.Nodup) : (es.put k v).keys.Nodup := by
  rw [keys_put]
  split
  · exact h
  · rename_i hk
    refine List.nodup_append.2 ⟨h, List.pairwise_singleton _ k, fun a ha b hb hab ↦ ?_⟩
    obtain rfl := List.mem_singleton.1 hb
    subst hab
    exact hk ha

omit [BEq κ] [LawfulBEq κ] in
/-- Leaving entries out makes no key stand twice. -/
theorem nodup_keys_filter (p : κ × ν → Bool) (h : es.keys.Nodup) :
    (keys (es.filter p)).Nodup :=
  h.sublist (List.filter_sublist.map _)

omit [LawfulBEq κ] in
theorem nodup_keys_remove (k : κ) (h : es.keys.Nodup) : (es.remove k).keys.Nodup :=
  nodup_keys_filter _ h

/-- A key is there after a value was put under it, and all others are that were. -/
theorem mem_keys_put {k l : κ} {v : ν} : l ∈ (es.put k v).keys ↔ l = k ∨ l ∈ es.keys := by
  rw [keys_put]
  split
  · rename_i hk
    exact ⟨Or.inr, fun h ↦ h.elim (· ▸ hk) id⟩
  · rw [List.mem_append, List.mem_singleton, or_comm]

omit [LawfulBEq κ] in
/-- Taking a key out leaves the others in their order. -/
theorem keys_remove (k : κ) (es : Entries κ ν) : (es.remove k).keys = es.keys.filter (· != k) := by
  rw [keys, remove, keys, List.filter_map]
  rfl

/-- Keys that are dropped are not found, and all others have their values. -/
theorem lookup_filter_key (p : κ → Bool) (k : κ) (es : Entries κ ν) :
    (es.filter fun e ↦ p e.1).lookup k = if p k then es.lookup k else none := by
  induction es with
  | nil => simp
  | cons e es ih =>
    obtain ⟨l, v⟩ := e
    by_cases hk : k = l
    · subst hk
      cases hp : p k <;> simp [hp, ih]
    · have hne : (k == l) = false := by simpa using hk
      cases hp : p l <;> simp [hp, ih, List.lookup_cons, hne]

/-- Nothing is found under a key that was taken out. -/
@[simp]
theorem lookup_remove_self (k : κ) (es : Entries κ ν) : (es.remove k).lookup k = none := by
  rw [remove, lookup_filter_key (· != k)]
  simp

/-- Taking a key out makes no difference to the others. -/
theorem lookup_remove_of_ne {k l : κ} (h : l ≠ k) (es : Entries κ ν) :
    (es.remove k).lookup l = es.lookup l := by
  rw [remove, lookup_filter_key (· != k)]
  simp [h]

/-- A key that is taken out leaves nothing of what was put under it. -/
theorem remove_put (k : κ) (v : ν) (es : Entries κ ν) : (es.put k v).remove k = es.remove k := by
  induction es with
  | nil => simp [put, remove]
  | cons e es ih =>
    unfold put
    split
    · rename_i hk
      simp [remove, eq_of_beq hk]
    · simp only [remove, List.filter_cons] at ih ⊢
      rw [ih]

/-! ### Putting many -/

/-- However many values are put one after another, no key stands twice after them. -/
theorem nodup_keys_foldl_put (h : es.keys.Nodup) :
    (keys (fs.foldl (fun es e ↦ es.put e.1 e.2) es)).Nodup := by
  induction fs generalizing es with
  | nil => exact h
  | cons f fs ih => exact ih (nodup_keys_put h)

/-- Every entry is one that was put, or was there before. -/
theorem mem_foldl_put (h : e ∈ fs.foldl (fun es e ↦ es.put e.1 e.2) es) : e ∈ fs ∨ e ∈ es := by
  induction fs generalizing es with
  | nil => exact Or.inr h
  | cons f fs ih =>
    rcases ih h with hfs | hput
    · exact Or.inl (List.mem_cons_of_mem f hfs)
    · rcases mem_put hput with rfl | hmem
      · exact Or.inl List.mem_cons_self
      · exact Or.inr hmem

/-- Of entries that are put, one counts more than what was there before. -/
theorem lookup_foldl_put (hfs : fs.keys.Nodup) (k : κ) :
    (fs.foldl (fun es e ↦ es.put e.1 e.2) es).lookup k = (fs.lookup k).or (es.lookup k) := by
  induction fs generalizing es with
  | nil => rfl
  | cons f fs ih =>
    obtain ⟨hf, hfs⟩ := List.nodup_cons.1 hfs
    rw [List.foldl_cons, ih hfs, List.lookup_cons]
    by_cases hk : k = f.1
    · subst hk
      simp [lookup_eq_none hf]
    · have hne : (k == f.1) = false := by simpa using hk
      rw [hne, lookup_put_of_ne hk]

/-! ### New keys -/

/-- A key that does not stand in the first list is looked for in the second. -/
theorem put_append {k : κ} (h : k ∉ es.keys) (v : ν) (fs : Entries κ ν) :
    put k v (es ++ fs) = es ++ put k v fs := by
  induction es with
  | nil => rfl
  | cons e es ih =>
    obtain ⟨hne, hes⟩ : k ≠ e.1 ∧ k ∉ keys es := by
      simpa [keys] using h
    rw [List.cons_append, put, if_neg (by simpa using hne.symm), ih hes, List.cons_append]

/-- A new key comes last. -/
theorem put_of_not_mem {k : κ} (h : k ∉ es.keys) (v : ν) : put k v es = es ++ [(k, v)] := by
  have hput := put_append h v []
  rwa [List.append_nil] at hput

/-! ### Same entries in another order -/

omit [BEq κ] [LawfulBEq κ] in
/-- As many keys, all of them among the others, are the others in some order. -/
theorem perm_keys_of_subset (hes : es.keys.Nodup) (hsub : es.keys ⊆ fs.keys)
    (hlength : es.length = fs.length) : es.keys.Perm fs.keys :=
  (hes.subperm hsub).perm_of_length_le (by simp [keys, hlength])

/-- Where each key stands once, it does not matter in which order. -/
theorem lookup_perm (h : es.keys.Nodup) (hperm : es.Perm fs) (k : κ) :
    es.lookup k = fs.lookup k := by
  have hfs : fs.keys.Nodup := (hperm.map Prod.fst).nodup_iff.1 h
  refine Option.ext fun v ↦ ⟨fun hv ↦ ?_, fun hv ↦ ?_⟩
  · exact lookup_of_mem hfs (hperm.mem_iff.1 (mem_of_lookup hv))
  · exact lookup_of_mem h (hperm.mem_iff.2 (mem_of_lookup hv))

variable [BEq ν] [LawfulBEq ν]

/-- A list in which no key stands twice has the same entries as itself. If one did, its second entry
would not be found. -/
theorem sameEntries_self (h : es.keys.Nodup) : es.sameEntries es = true := by
  rw [sameEntries, Bool.and_eq_true]
  exact ⟨beq_self_eq_true _, List.all_eq_true.2 fun e he ↦ beq_iff_eq.2 (lookup_of_mem h he)⟩

/-- There are as many entries in both, so the other has none that is not an entry of the one. -/
theorem mem_of_sameEntries (hes : es.keys.Nodup) (hfs : fs.keys.Nodup)
    (h : es.sameEntries fs = true) (he : e ∈ fs) : e ∈ es := by
  have hlength : es.length = fs.length := eq_of_beq (Bool.and_eq_true _ _ ▸ h).1
  have hsub : es.keys ⊆ fs.keys := by
    intro k hk
    obtain ⟨f, hf, rfl⟩ := List.mem_map.1 hk
    exact List.mem_map_of_mem (mem_of_lookup (lookup_of_sameEntries h hf))
  have hperm : es.keys.Perm fs.keys := perm_keys_of_subset hes hsub hlength
  obtain ⟨f, hf, hkey⟩ := List.mem_map.1 (hperm.mem_iff.2 (List.mem_map_of_mem he))
  have hlookup := lookup_of_sameEntries h hf
  rw [hkey, lookup_of_mem hfs he] at hlookup
  have : f = e := Prod.ext hkey (Option.some.inj hlookup).symm
  rwa [← this]

end InternetMail.Entries
