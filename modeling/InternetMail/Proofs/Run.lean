import InternetMail.Run
import Mathlib.Data.List.Basic
import Mathlib.Data.List.TakeWhile

/-!
# Where a search stops

A search for the first element that fails a test leaves a list in two: the stretch before that
element and what begins with it. `dropWhile_eq_cons_iff` says both at once, in either direction.

The other direction is what most proofs need: of a list that is put together, with a stretch in
front on which the test holds, the search gives that stretch and the rest (`takeWhile_append_cons`,
`dropWhile_append_cons`), in one way only (`append_cons_inj`). From there come the facts on
stripping at both ends, which is a search from either side, and on cutting at every element that
passes a test, where the stretches together with what is between them are the list again
(`flatMap_stretches`).
-/

namespace InternetMail.Run

variable {α : Type _} {p : α → Bool} {us xs rest : List α} {x : α}

/-- Up to the first element that fails the test is all that stands in front of it. -/
theorem takeWhile_append_cons (rest : List α) (hus : ∀ u ∈ us, p u = true) (hx : p x = false) :
    (us ++ x :: rest).takeWhile p = us := by
  rw [List.takeWhile_append_of_pos hus, List.takeWhile_cons_of_neg (by simp [hx]),
    List.append_nil]

/-- What is left begins with the first element that fails the test. -/
theorem dropWhile_append_cons (rest : List α) (hus : ∀ u ∈ us, p u = true) (hx : p x = false) :
    (us ++ x :: rest).dropWhile p = x :: rest := by
  rw [List.dropWhile_append_of_pos hus, List.dropWhile_cons_of_neg (by simp [hx])]

/-- A search stops at `x` exactly when that is the first element to fail the test. -/
theorem dropWhile_eq_cons_iff :
    xs.dropWhile p = x :: rest ∧ xs.takeWhile p = us ↔
      xs = us ++ x :: rest ∧ (∀ u ∈ us, p u = true) ∧ p x = false := by
  constructor
  · rintro ⟨h, rfl⟩
    refine ⟨by rw [← h, List.takeWhile_append_dropWhile], fun u hu ↦ List.mem_takeWhile_imp hu, ?_⟩
    have := List.head?_dropWhile_not p xs
    rw [h] at this
    simpa using this
  · rintro ⟨rfl, hus, hx⟩
    exact ⟨dropWhile_append_cons _ hus hx, takeWhile_append_cons _ hus hx⟩

/-- There is one place where the first element to fail a test stands. -/
theorem append_cons_inj {vs rest' : List α} {y : α} (hus : ∀ u ∈ us, p u = true)
    (hx : p x = false) (hvs : ∀ v ∈ vs, p v = true) (hy : p y = false)
    (h : us ++ x :: rest = vs ++ y :: rest') : us = vs ∧ x = y ∧ rest = rest' := by
  have htake := takeWhile_append_cons rest hus hx
  have hdrop := dropWhile_append_cons rest hus hx
  rw [h, takeWhile_append_cons rest' hvs hy] at htake
  rw [h, dropWhile_append_cons rest' hvs hy] at hdrop
  obtain ⟨rfl, rfl⟩ := List.cons.inj hdrop
  exact ⟨htake.symm, rfl, rfl⟩

/-- A test on a list is decided element by element. -/
theorem forall_mem_of_all {P : α → Prop} [DecidablePred P] (h : xs.all (P ·) = true) :
    ∀ x ∈ xs, P x :=
  fun x hx ↦ of_decide_eq_true (List.all_eq_true.1 h x hx)

/-! ### Trimming -/

/-- Nothing is left out if all elements fail the test, the first of them being enough. -/
theorem dropWhile_eq_self (h : ∀ x ∈ xs, p x = false) : xs.dropWhile p = xs := by
  cases xs with
  | nil => rfl
  | cons x xs => exact List.dropWhile_cons_of_neg (by simp [h x List.mem_cons_self])

/-- What is trimmed at the end is the last stretch on which the test holds. -/
theorem stripEnd_append {ys : List α} (hxs : ∀ x ∈ xs, p x = false) (hys : ∀ y ∈ ys, p y = true) :
    stripEnd p (xs ++ ys) = xs := by
  have hreverse : ∀ x ∈ xs.reverse, p x = false := by simpa using hxs
  rw [stripEnd, List.reverse_append, List.dropWhile_append_of_pos (by simpa using hys),
    dropWhile_eq_self hreverse, List.reverse_reverse]

/-- Nothing is trimmed from a list at whose ends the test does not hold. -/
theorem strip_eq_self_of_ends (hhead : ∀ x ∈ xs.head?, p x = false)
    (hlast : ∀ x ∈ xs.getLast?, p x = false) : strip p xs = xs := by
  have hdrop : ∀ ys : List α, (∀ y ∈ ys.head?, p y = false) → ys.dropWhile p = ys := by
    intro ys hys
    cases ys with
    | nil => rfl
    | cons y ys => exact List.dropWhile_cons_of_neg (by simp [hys y rfl])
  have hreverse : ∀ x ∈ xs.reverse.head?, p x = false := by simpa using hlast
  rw [strip, hdrop xs hhead, stripEnd, hdrop xs.reverse hreverse, List.reverse_reverse]

/-- Nothing is trimmed from a list on which the test never holds. -/
theorem strip_eq_self (h : ∀ x ∈ xs, p x = false) : strip p xs = xs := by
  have hend : stripEnd p (xs ++ []) = xs := stripEnd_append h (by simp)
  rw [List.append_nil] at hend
  rw [strip, dropWhile_eq_self h, hend]

/-- Trimming at the front does not get past an element on which the test fails. -/
theorem dropWhile_append_cons_of_neg (xs rest : List α) (hx : p x = false) :
    (xs ++ x :: rest).dropWhile p = xs.dropWhile p ++ x :: rest := by
  induction xs with
  | nil => simp [hx]
  | cons y xs ih => by_cases hy : p y = true <;> simp [hy, ih]

/-- An element that fails the test ends the search, so what stands behind it has no say. -/
theorem takeWhile_append_cons_of_neg (xs rest : List α) (hx : p x = false) :
    (xs ++ x :: rest).takeWhile p = xs.takeWhile p := by
  induction xs with
  | nil => simp [hx]
  | cons y xs ih => by_cases hy : p y = true <;> simp [hy, ih]

/-- Trimming the end does not go past an element that fails the test. -/
theorem stripEnd_append_cons (xs rest : List α) (hx : p x = false) :
    stripEnd p (xs ++ x :: rest) = xs ++ x :: stripEnd p rest := by
  have hreverse : (xs ++ x :: rest).reverse = rest.reverse ++ x :: xs.reverse := by simp
  rw [stripEnd, hreverse, dropWhile_append_cons_of_neg _ _ hx]
  simp [stripEnd]

/-- On either side of an element that fails the test, only the outer end is trimmed. -/
theorem strip_append_cons (xs rest : List α) (hx : p x = false) :
    strip p (xs ++ x :: rest) = xs.dropWhile p ++ x :: stripEnd p rest := by
  rw [strip, dropWhile_append_cons_of_neg _ _ hx, stripEnd_append_cons _ _ hx]

/-- A stretch in front on which the test holds throughout is trimmed with the rest of its run. -/
theorem strip_append_of_forall (xs : List α) (h : ∀ u ∈ us, p u = true) :
    strip p (us ++ xs) = strip p xs := by
  rw [strip, List.dropWhile_append_of_pos h, strip]

/-- A stretch at the end on which the test holds throughout is trimmed with the rest of its run. -/
theorem stripEnd_append_of_forall {ys : List α} (xs : List α) (h : ∀ y ∈ ys, p y = true) :
    stripEnd p (xs ++ ys) = stripEnd p xs := by
  rw [stripEnd, List.reverse_append, List.dropWhile_append_of_pos (by simpa using h), stripEnd]

/-- What is trimmed at the end is a stretch on which the test holds. -/
theorem exists_eq_stripEnd_append (p : α → Bool) (xs : List α) :
    ∃ ys, (∀ y ∈ ys, p y = true) ∧ xs = stripEnd p xs ++ ys := by
  refine ⟨(xs.reverse.takeWhile p).reverse, fun y hy ↦ ?_, ?_⟩
  · exact List.mem_takeWhile_imp (List.mem_reverse.1 hy)
  · rw [stripEnd, ← List.reverse_append, List.takeWhile_append_dropWhile, List.reverse_reverse]

/-- What is trimmed at the end alone has at most a stretch at the front more than what is trimmed at
both. -/
theorem exists_stripEnd_eq_append_strip (p : α → Bool) (xs : List α) :
    ∃ us, (∀ u ∈ us, p u = true) ∧ stripEnd p xs = us ++ strip p xs := by
  cases hd : xs.dropWhile p with
  | nil =>
    have hall : ∀ x ∈ xs, p x = true := by simpa using hd
    have hnil : stripEnd p ([] ++ xs) = [] := stripEnd_append_of_forall [] hall
    exact ⟨[], by simp, by simpa [strip, hd, stripEnd_nil] using hnil⟩
  | cons y rest =>
    obtain ⟨hxs, hall, hy⟩ := dropWhile_eq_cons_iff.1 ⟨hd, rfl⟩
    refine ⟨xs.takeWhile p, hall, ?_⟩
    have hrest : stripEnd p (y :: rest) = y :: stripEnd p rest := stripEnd_append_cons [] rest hy
    rw [strip, hd, hrest, ← stripEnd_append_cons _ _ hy, ← hxs]

/-- What is trimmed are a stretch at the front and one at the end on which the test holds. -/
theorem exists_eq_append_strip_append (p : α → Bool) (xs : List α) :
    ∃ us ys, (∀ u ∈ us, p u = true) ∧ (∀ y ∈ ys, p y = true) ∧ xs = us ++ strip p xs ++ ys := by
  obtain ⟨ys, hys, hend⟩ := exists_eq_stripEnd_append p (xs.dropWhile p)
  refine ⟨xs.takeWhile p, ys, fun u hu ↦ List.mem_takeWhile_imp hu, hys, ?_⟩
  rw [strip, List.append_assoc, ← hend, List.takeWhile_append_dropWhile]

/-- Trimming leaves out, and puts nothing in. -/
theorem strip_sublist (p : α → Bool) (xs : List α) : (strip p xs).Sublist xs := by
  obtain ⟨us, ys, -, -, heq⟩ := exists_eq_append_strip_append p xs
  nth_rewrite 2 [heq]
  exact (List.sublist_append_right us _).trans (List.sublist_append_left _ ys)

/-- Trimming at both ends does not get past a stretch on which the test fails. -/
theorem strip_append_append {core : List α} (us ys : List α) (hne : core ≠ [])
    (hcore : ∀ x ∈ core, p x = false) :
    strip p (us ++ core ++ ys) = us.dropWhile p ++ core ++ stripEnd p ys := by
  obtain ⟨x, xs, hcons⟩ := List.exists_cons_of_ne_nil hne
  have hfront : (us ++ core ++ ys).dropWhile p = us.dropWhile p ++ core ++ ys := by
    rw [hcons, List.append_assoc, List.cons_append,
      dropWhile_append_cons_of_neg us (xs ++ ys) (hcore x (by simp [hcons])), ← List.cons_append,
      List.append_assoc]
  rw [strip, hfront]
  obtain rfl | ⟨xs, y, rfl⟩ := List.eq_nil_or_concat' core
  · exact absurd rfl hne
  · have hend := stripEnd_append_cons (us.dropWhile p ++ xs) ys (hcore y (by simp))
    simpa only [List.append_assoc, List.cons_append, List.nil_append] using hend

/-- The search for a stretch finds it exactly if it stands somewhere in the list. -/
theorem contains_iff_isInfix [BEq α] [LawfulBEq α] {needle : List α} :
    contains needle xs = true ↔ needle <:+: xs := by
  induction xs with
  | nil => rw [contains, List.isEmpty_iff, List.infix_nil]
  | cons x xs ih =>
    rw [contains, Bool.or_eq_true, List.isPrefixOf_iff_prefix, ih, List.infix_cons_iff]

/-! ### Cutting -/

/-- A list without an element to cut at is one stretch. -/
theorem stretches_of_forall (h : ∀ x ∈ xs, p x = false) : stretches p xs = [xs] := by
  induction xs with
  | nil => rfl
  | cons x xs ih => simp_all [stretches]

/-- The first stretch ends at the first element to cut at. -/
theorem stretches_append_cons (hus : ∀ u ∈ us, p u = false) (hx : p x = true) :
    stretches p (us ++ x :: rest) = us :: stretches p rest := by
  induction us with
  | nil => simp [stretches, hx]
  | cons u us ih => simp_all [stretches]

/-- Each stretch, with the element that it was cut at put back. -/
theorem flatMap_stretches [BEq α] [LawfulBEq α] (x : α) (xs : List α) :
    (stretches (· == x) xs).flatMap (· ++ [x]) = xs ++ [x] := by
  induction xs with
  | nil => rfl
  | cons y xs ih =>
    unfold stretches
    split
    · rename_i hy
      rw [List.flatMap_cons, ih, eq_of_beq hy]
      rfl
    · split
      · rename_i hnil
        exact absurd hnil (stretches_ne_nil _ _)
      · rename_i run runs hs
        rw [hs, List.flatMap_cons] at ih
        rw [List.flatMap_cons, List.cons_append, List.cons_append, ih, List.cons_append]

/-- A stretch is made of elements that are not cut at. -/
theorem mem_of_mem_stretches {run : List α} (hrun : run ∈ stretches p xs) (hx : x ∈ run) :
    x ∈ xs ∧ p x = false := by
  induction xs generalizing run with
  | nil => simp_all [stretches]
  | cons y xs ih =>
    unfold stretches at hrun
    split at hrun
    · rcases List.mem_cons.1 hrun with rfl | hrun
      · cases hx
      · exact ⟨List.mem_cons_of_mem y (ih hrun hx).1, (ih hrun hx).2⟩
    · rename_i hy
      split at hrun
      · simp_all
      · rename_i first runs hs
        rcases List.mem_cons.1 hrun with rfl | hrun
        · rcases List.mem_cons.1 hx with rfl | hx
          · exact ⟨List.mem_cons_self, by simpa using hy⟩
          · have := ih (hs ▸ List.mem_cons_self) hx
            exact ⟨List.mem_cons_of_mem y this.1, this.2⟩
        · have := ih (hs ▸ List.mem_cons_of_mem first hrun) hx
          exact ⟨List.mem_cons_of_mem y this.1, this.2⟩

/-- The first stretch is empty only if the list begins with an element to cut at. -/
theorem head_of_stretches_eq_nil_cons {runs : List (List α)} (h : stretches p xs = [] :: runs) :
    ∀ x ∈ xs.head?, p x = true := by
  cases xs with
  | nil => simp
  | cons y xs =>
    unfold stretches at h
    split at h
    · simp_all
    · split at h <;> cases h

/-- A stretch after the first is empty only between two elements to cut at, or at the end. -/
theorem exists_of_nil_mem_tail_stretches (h : [] ∈ (stretches p xs).tail) :
    ∃ us x rest, xs = us ++ x :: rest ∧ p x = true ∧ ∀ y ∈ rest.head?, p y = true := by
  induction xs with
  | nil => simp [stretches] at h
  | cons y xs ih =>
    have hcons : [] ∈ (stretches p xs).tail → ∃ us x rest, y :: xs = us ++ x :: rest ∧
        p x = true ∧ ∀ y ∈ rest.head?, p y = true := by
      intro htail
      obtain ⟨us, x, rest, rfl, hx, hrest⟩ := ih htail
      exact ⟨y :: us, x, rest, rfl, hx, hrest⟩
    unfold stretches at h
    split at h
    · rename_i hy
      rw [List.tail_cons] at h
      cases hs : stretches p xs with
      | nil => exact absurd hs (stretches_ne_nil _ _)
      | cons run runs =>
        rw [hs] at h
        rcases List.mem_cons.1 h with rfl | h
        · exact ⟨[], y, xs, rfl, hy, head_of_stretches_eq_nil_cons hs⟩
        · exact hcons (by rwa [hs])
    · split at h
      · cases h
      · rename_i run runs hs
        exact hcons (by rwa [hs])

end InternetMail.Run
