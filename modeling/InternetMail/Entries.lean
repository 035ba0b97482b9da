/-!
# Entries in order

Header fields, parameters and handlers are entries of a key and a value that keep the order in which
their keys came up. Putting a value under a key that is there already replaces the value where it
stands (`Entries.put`); `List.lookup` finds the value of a key.
-/

namespace InternetMail

/-- Keys with their values, in order. -/
abbrev Entries (κ ν : Type) := List (κ × ν)

namespace Entries

variable {κ ν : Type} [BEq κ]

/-- Puts a value under a key, in place of the one it has or else at the end. -/
def put (k : κ) (v : ν) : Entries κ ν → Entries κ ν
  | [] => [(k, v)]
  | e :: es => if e.1 == k then (e.1, v) :: es else e :: put k v es

/-- Takes a key out, with its value. -/
def remove (k : κ) (es : Entries κ ν) : Entries κ ν :=
  es.filter (·.1 != k)

/-- The keys, in order. -/
def keys (es : Entries κ ν) : List κ :=
  es.map Prod.fst

/-- Whether two lists have the same entries, in whatever order. -/
def sameEntries [BEq ν] (es fs : Entries κ ν) : Bool :=
  es.length == fs.length && es.all fun e ↦ fs.lookup e.1 == some e.2

/-! ### First facts -/

variable [LawfulBEq κ]

/-- What was put under a key is found there. -/
@[simp]
theorem lookup_put_self (k : κ) (v : ν) (es : Entries κ ν) :
    (put k v es).lookup k = some v := by
  induction es with
  | nil => simp [put]
  | cons e es ih =>
    obtain ⟨a, b⟩ := e
    unfold put
    by_cases h : a = k
    · simp [h]
    · have h' : (k == a) = false := by simpa using Ne.symm h
      simp [h, List.lookup_cons, h', ih]

/-- Putting a value under a key changes no other. -/
theorem lookup_put_of_ne {k l : κ} (h : l ≠ k) (v : ν) (es : Entries κ ν) :
    (put k v es).lookup l = es.lookup l := by
  have hk : (l == k) = false := by simpa using h
  induction es with
  | nil => simp [put, List.lookup_cons, hk]
  | cons e es ih =>
    obtain ⟨a, b⟩ := e
    unfold put
    by_cases ha : a = k
    · subst ha
      simp [List.lookup_cons, hk]
    · simp [ha, List.lookup_cons, ih]

/-- A key that is there keeps its place, and one that is not comes last. -/
theorem keys_put (k : κ) (v : ν) (es : Entries κ ν) :
    keys (put k v es) = if k ∈ keys es then keys es else keys es ++ [k] := by
  induction es with
  | nil => simp [put, keys]
  | cons e es ih =>
    unfold put
    by_cases h : e.1 == k
    · have : e.1 = k := eq_of_beq h
      simp [keys, this]
    · have h' : ¬ k = e.1 := by
        rintro rfl
        simp at h
      simp only [h, Bool.false_eq_true, if_false]
      simp only [keys, List.map_cons, List.mem_cons, h', false_or] at ih ⊢
      rw [ih]
      split <;> simp_all

end Entries

end InternetMail
