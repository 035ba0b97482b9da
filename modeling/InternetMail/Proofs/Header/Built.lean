import InternetMail.Header.Map
import InternetMail.Proofs.Entries
import InternetMail.Proofs.Outcome

/-!
# Header maps as their operations leave them

A map that its operations built, from nothing and whichever of them were refused on the way, has
each name once, at least one value under each, and more than one only under a name that may repeat
(`HeaderMap.Built.wellFormed`). A map that is read from JSON is not among them: its members may have
any number of values.

Each operation keeps all three, and so the induction is over the operations (`HeaderMap.Built`). The
third is what the check in `add` is for: it looks at the values that the name has and refuses a
second one, unless the name may repeat. Setting needs no check, since it leaves one value.
-/

namespace InternetMail.HeaderMap

/-- The map came about by operations on maps. -/
inductive Built : HeaderMap → Prop
  | empty : Built .empty
  | set {m : HeaderMap} (n : HeaderName) (value : Text) : Built m → Built (m.set n value)
  | setSpelled {m m' : HeaderMap} {t value : Text} : Built m → m.setSpelled t value = .ok m' →
      Built m'
  | add {m m' : HeaderMap} {n : HeaderName} {value : Text} : Built m → m.add n value = .ok m' →
      Built m'
  | addSpelled {m m' : HeaderMap} {t value : Text} : Built m → m.addSpelled t value = .ok m' →
      Built m'
  | remove {m : HeaderMap} (n : HeaderName) : Built m → Built (m.remove n)
  | removeSpelled {m : HeaderMap} (t : Text) : Built m → Built (m.removeSpelled t).2
  /-- Loading may fail after some fields; these stay. -/
  | load {m : HeaderMap} (source : Source) : Built m → Built (m.load source).2.1
  | ofOctets {m : HeaderMap} {bs : Octets} : HeaderMap.ofOctets bs = .ok m → Built m

/-- Each name stands once, with one value, or with some if it may repeat. -/
structure WellFormed (m : HeaderMap) : Prop where
  nodup : m.entries.keys.Nodup
  nonempty : ∀ e ∈ m.entries, e.2 ≠ []
  single : ∀ e ∈ m.entries, e.1.isRepeatable = false → e.2.length = 1

/-! ### Operations one by one -/

/-- The empty map is in order. -/
theorem wellFormed_empty : WellFormed .empty :=
  ⟨List.nodup_nil, by simp [HeaderMap.empty], by simp [HeaderMap.empty]⟩

/-- Putting values under a name keeps the map in order, if the name may have them. -/
theorem WellFormed.put {m : HeaderMap} (h : m.WellFormed) {n : HeaderName} {values : List Text}
    (hne : values ≠ []) (hsingle : n.isRepeatable = false → values.length = 1) :
    WellFormed ⟨m.entries.put n values⟩ := by
  refine ⟨Entries.nodup_keys_put h.nodup, fun e he ↦ ?_, fun e he ↦ ?_⟩
  · rcases Entries.mem_put he with rfl | he
    · exact hne
    · exact h.nonempty e he
  · rcases Entries.mem_put he with rfl | he
    · exact hsingle
    · exact h.single e he

/-- Setting a field leaves one value under its name. -/
theorem WellFormed.set {m : HeaderMap} (h : m.WellFormed) (n : HeaderName) (value : Text) :
    (m.set n value).WellFormed :=
  h.put (by simp) fun _ ↦ rfl

/-- Adding a value is refused where it would be one too many. -/
theorem WellFormed.add {m m' : HeaderMap} (h : m.WellFormed) {n : HeaderName} {value : Text}
    (hadd : m.add n value = .ok m') : m'.WellFormed := by
  unfold HeaderMap.add at hadd
  split at hadd
  · cases hadd
    exact h.set n value
  · split at hadd
    · rename_i hrepeatable
      cases hadd
      exact h.put (by simp) (by simp [hrepeatable])
    · cases hadd

/-- Removing a field takes its name away, and not only its values. -/
theorem WellFormed.remove {m : HeaderMap} (h : m.WellFormed) (n : HeaderName) :
    (m.remove n).WellFormed := by
  have hsub : (m.remove n).entries.Sublist m.entries := List.filter_sublist
  exact ⟨h.nodup.sublist (hsub.map Prod.fst), fun e he ↦ h.nonempty e (hsub.subset he),
    fun e he ↦ h.single e (hsub.subset he)⟩

/-- Fields that are added one after another leave the map in order, also if one is refused. -/
theorem WellFormed.addAll {m : HeaderMap} (h : m.WellFormed) (fs : List Field) :
    (m.addAll fs).2.WellFormed := by
  induction fs generalizing m with
  | nil => exact h
  | cons f fs ih =>
    unfold HeaderMap.addAll
    split
    · rename_i hadd
      exact ih (h.add hadd)
    · exact h

/-- Loading adds fields, up to the first that is refused. Those before it stay. -/
theorem WellFormed.load {m : HeaderMap} (h : m.WellFormed) (source : Source) :
    (m.load source).2.1.WellFormed := by
  unfold HeaderMap.load
  split
  · rename_i block source' _
    simp only [HeaderMap.addBlock]
    split
    · exact h.addAll _
    · exact h
  · exact h

/-- What was read from the wire is in order. -/
theorem wellFormed_ofFields {m : HeaderMap} {fs : List Field} (h : ofFields fs = .ok m) :
    m.WellFormed := by
  have hall := wellFormed_empty.addAll fs
  unfold ofFields at h
  split at h
  · rename_i heq
    cases h
    rwa [heq] at hall
  · cases h

/-! ### All of them -/

/-- What operations build is in order. -/
theorem Built.wellFormed {m : HeaderMap} (h : m.Built) : m.WellFormed := by
  induction h with
  | empty => exact wellFormed_empty
  | set n value _ ih => exact ih.set n value
  | setSpelled _ hset ih =>
    obtain ⟨n, -, rfl⟩ := map_eq_ok_iff.1 hset
    exact ih.set n _
  | add _ hadd ih => exact ih.add hadd
  | addSpelled _ hadd ih =>
    obtain ⟨n, -, hadd⟩ := bind_eq_ok_iff.1 hadd
    exact ih.add hadd
  | remove n _ ih => exact ih.remove n
  | removeSpelled t _ ih =>
    unfold HeaderMap.removeSpelled
    split
    · exact ih.remove _
    · exact ih
  | load source _ ih => exact ih.load source
  | ofOctets h =>
    obtain ⟨_, -, h⟩ := bind_eq_ok_iff.1 h
    exact wellFormed_ofFields h

end InternetMail.HeaderMap
