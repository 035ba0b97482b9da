/-!
# Runs of a list

Trimming a list at its ends, cutting it where a test holds, and cutting it into pieces of one
length. Header values, labels and lines are all taken apart with these.

Trimming removes exactly the longest run at an end on which the test holds (`strip_eq_nil_iff` says
when nothing is left), cutting where a test holds loses only the elements cut at, and cutting into
pieces loses nothing (`flatten_pieces`).
-/

namespace InternetMail.Run

variable {α : Type _}

/-- The list without its longest last run on which `p` holds. -/
def stripEnd (p : α → Bool) (xs : List α) : List α :=
  (xs.reverse.dropWhile p).reverse

/-- The list without its longest first and last runs on which `p` holds. -/
def strip (p : α → Bool) (xs : List α) : List α :=
  stripEnd p (xs.dropWhile p)

/-- The stretches between the elements on which `p` holds; one more than there are such elements. -/
def stretches (p : α → Bool) : List α → List (List α)
  | [] => [[]]
  | x :: xs =>
    if p x then [] :: stretches p xs
    else
      match stretches p xs with
      | [] => [[x]]
      | run :: runs => (x :: run) :: runs

/-- The list cut into pieces of `n` elements, the last one as long as what is left. -/
def pieces (n : Nat) : List α → List (List α)
  | [] => []
  | x :: xs =>
    if n = 0 then [x :: xs]
    else (x :: xs.take (n - 1)) :: pieces n (xs.drop (n - 1))
termination_by xs => xs.length
decreasing_by
  simp only [List.length_drop, List.length_cons]
  omega

/-- The list without `ending`, if it ends with that. -/
def dropEnding [BEq α] (ending xs : List α) : List α :=
  if ending.isSuffixOf xs then xs.take (xs.length - ending.length) else xs

/-- Whether `needle` stands somewhere in the list. -/
def contains [BEq α] (needle : List α) : List α → Bool
  | [] => needle.isEmpty
  | x :: xs => needle.isPrefixOf (x :: xs) || contains needle xs

/-! ### First facts -/

/-- Cutting into pieces loses nothing. -/
theorem flatten_pieces (n : Nat) (xs : List α) : (pieces n xs).flatten = xs := by
  fun_induction pieces n xs with
  | case1 => rfl
  | case2 x xs h => simp
  | case3 x xs h ih => simp [ih]

theorem stretches_ne_nil (p : α → Bool) (xs : List α) : stretches p xs ≠ [] := by
  cases xs with
  | nil => simp [stretches]
  | cons x xs => unfold stretches; split <;> (try split) <;> simp

theorem stripEnd_nil (p : α → Bool) : stripEnd p ([] : List α) = [] := rfl

/-- Nothing is left after a first run exactly when the test holds throughout. -/
theorem dropWhile_eq_nil_iff (p : α → Bool) (xs : List α) :
    xs.dropWhile p = [] ↔ ∀ x ∈ xs, p x = true := by
  induction xs with
  | nil => simp
  | cons x xs ih => by_cases h : p x <;> simp [h, ih]

/-- Nothing is left by trimming exactly when the test holds throughout. -/
theorem strip_eq_nil_iff (p : α → Bool) (xs : List α) :
    strip p xs = [] ↔ ∀ x ∈ xs, p x = true := by
  constructor
  · intro h
    have h' : (xs.dropWhile p).reverse.dropWhile p = [] := by
      simpa [strip, stripEnd] using h
    rw [dropWhile_eq_nil_iff] at h'
    have hnil : xs.dropWhile p = [] := by
      cases hc : xs.dropWhile p with
      | nil => rfl
      | cons y ys =>
        have hy : p y = true := h' y (by simp [hc])
        have := List.head?_dropWhile_not p xs
        rw [hc] at this
        simp [hy] at this
    exact (dropWhile_eq_nil_iff p xs).1 hnil
  · intro h
    simp [strip, stripEnd, (dropWhile_eq_nil_iff p xs).2 h]

end InternetMail.Run
