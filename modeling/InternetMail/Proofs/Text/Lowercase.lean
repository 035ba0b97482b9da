import InternetMail.Text.Lowercase
import InternetMail.Proofs.Run

/-!
# Lower case of a part of a text

The lower case of a text is that of its characters one by one, but for the capital sigma, whose form
hangs on what stands on both sides of it (`sigmaForm`). So the lower case of a part has a place in
that of the whole, with the sigmas of the part in the forms that they have there
(`Text.lower_append_append`); these are the forms they have in the part alone exactly if the part
keeps its sigmas (`Text.lowerBetween_eq_lower_iff`).

A part keeps its sigmas if it has none, and where it begins and ends a word
(`Text.KeepsSigmas.of_not_mem`, `Text.KeepsSigmas.of_casedNext`).

A character takes up as much of the lower case wherever it stands, and none takes up nothing
(`length_formOf`, `Text.formOf_ne_nil`). Hence nothing can be left out of a text without its lower
case being shorter (`Text.eq_of_sublist_of_lower_eq`).

The lower case is taken with the text in front of a character at hand, reversed, as the form of a
sigma is told by the nearest letters on either side: `lowerBetween before after t` is the lower case
of `t` where `before` and `after` stand around it. All lemmas on parts are about this function, and
the lower case of a whole text is the case with nothing around it.
-/

namespace InternetMail

/-- The form of a capital sigma between `before`, nearest first, and `after`. -/
def sigmaForm (before after : Text) : Char :=
  if casedNext before && !casedNext after then 'ς' else 'σ'

/-- What a character becomes between `before`, nearest first, and `after`. -/
def formOf (before : Text) (c : Char) (after : Text) : Text :=
  if c == 'Σ' then [sigmaForm before after] else lowerChar c

namespace Text

variable {before t u after : Text}

/-- The lower case of `t` as it stands between `before`, nearest first, and `after`. -/
def lowerBetween (before after : Text) : Text → Text
  | [] => []
  | c :: t => formOf before c (t ++ after) ++ lowerBetween (c :: before) after t

/-- Each capital sigma of `t` has the same form in `t` alone as between `before` and `after`. -/
def KeepsSigmas (before t after : Text) : Prop :=
  ∀ us vs, t = us ++ 'Σ' :: vs →
    sigmaForm (us.reverse ++ before.reverse) (vs ++ after) = sigmaForm us.reverse vs

/-! ### Parts of a text -/

theorem lowerAfter_cons (before : Text) (c : Char) (t : Text) :
    lowerAfter before (c :: t) = formOf before c t ++ lowerAfter (c :: before) t := rfl

/-- The lower case of two texts is that of the first with the second behind it, and that of the
second with the first in front. -/
theorem lowerAfter_append (before t u : Text) :
    lowerAfter before (t ++ u) =
      lowerBetween before u t ++ lowerAfter (t.reverse ++ before) u := by
  induction t generalizing before with
  | nil => rfl
  | cons c t ih =>
    rw [List.cons_append, lowerAfter_cons, ih, lowerBetween, List.append_assoc, List.reverse_cons,
      List.append_assoc, List.singleton_append]

/-- The lower case of a text is that of a part with nothing around it. -/
theorem lower_eq_lowerBetween (t : Text) : lower t = lowerBetween [] [] t := by
  have happend := lowerAfter_append [] t []
  rw [List.append_nil] at happend
  rw [lower, happend]
  exact List.append_nil _

/-- A part of a text has its lower case in that of the text. -/
theorem lower_append_append (before t after : Text) :
    ∃ us vs, lower (before ++ t ++ after) = us ++ lowerBetween before.reverse after t ++ vs := by
  rw [lower, List.append_assoc, lowerAfter_append, lowerAfter_append, List.append_nil]
  exact ⟨_, _, (List.append_assoc ..).symm⟩

/-! ### Sigmas -/

/-- How long the form of a character is does not hang on what is around it: both forms of a sigma
are one character. -/
theorem length_formOf (before before' after after' : Text) (c : Char) :
    (formOf before c after).length = (formOf before' c after').length := by
  unfold formOf
  split <;> rfl

/-- Only a capital sigma has a form that does. -/
theorem formOf_eq_iff {before' after' : Text} {c : Char} :
    formOf before c after = formOf before' c after' ↔
      (c = 'Σ' → sigmaForm before after = sigmaForm before' after') := by
  by_cases hc : c = 'Σ' <;> simp [formOf, hc]

/-- The lower case is the same between other texts exactly if each sigma has the same form. -/
theorem lowerBetween_eq_iff {before' after' : Text} :
    lowerBetween before after t = lowerBetween before' after' t ↔
      ∀ us vs, t = us ++ 'Σ' :: vs → sigmaForm (us.reverse ++ before) (vs ++ after) =
        sigmaForm (us.reverse ++ before') (vs ++ after') := by
  induction t generalizing before before' with
  | nil => simp [lowerBetween]
  | cons c t ih =>
    have hparts : ∀ {a b xs ys : Text}, a.length = b.length →
        (a ++ xs = b ++ ys ↔ a = b ∧ xs = ys) := fun hlength ↦
      ⟨fun h ↦ List.append_inj h hlength, fun ⟨ha, hxs⟩ ↦ by rw [ha, hxs]⟩
    rw [lowerBetween, lowerBetween, hparts (length_formOf ..), ih, formOf_eq_iff]
    constructor
    · rintro ⟨hfirst, hrest⟩ us vs heq
      cases us with
      | nil =>
        obtain ⟨rfl, rfl⟩ := List.cons.inj heq
        exact hfirst rfl
      | cons d us =>
        obtain ⟨rfl, rfl⟩ := List.cons.inj heq
        simpa using hrest us vs rfl
    · intro h
      refine ⟨fun hc ↦ h [] t (by rw [hc]; rfl), fun us vs heq ↦ ?_⟩
      have := h (c :: us) vs (by rw [heq]; rfl)
      simpa using this

/-- **A part is lower-cased as it would be alone** exactly if it keeps its sigmas. -/
theorem lowerBetween_eq_lower_iff :
    lowerBetween before.reverse after t = lower t ↔ KeepsSigmas before t after := by
  rw [lower_eq_lowerBetween, lowerBetween_eq_iff]
  simp [KeepsSigmas]

/-- The lower case of a part that keeps its sigmas is part of the lower case. -/
theorem KeepsSigmas.lower_isInfix (h : KeepsSigmas before t after) :
    lower t <:+: lower (before ++ t ++ after) := by
  obtain ⟨us, vs, heq⟩ := lower_append_append before t after
  rw [heq, lowerBetween_eq_lower_iff.2 h]
  exact ⟨us, vs, rfl⟩

/-- A text without capital sigmas has none to lose. -/
theorem KeepsSigmas.of_not_mem (h : 'Σ' ∉ t) : KeepsSigmas before t after := by
  rintro us vs rfl
  exact absurd (List.mem_append_right us List.mem_cons_self) h

/-- Case looks past characters that it ignores, and no further than the first other. -/
theorem casedNext_append (h : casedNext u = false) (t : Text) :
    casedNext (t ++ u) = casedNext t := by
  unfold casedNext at h ⊢
  by_cases hall : ∀ c ∈ t, caseIgnorable.holds c = true
  · rw [List.dropWhile_append_of_pos hall, (Run.dropWhile_eq_nil_iff _ _).2 hall]
    exact h
  · rw [List.dropWhile_append]
    rw [← Run.dropWhile_eq_nil_iff] at hall
    cases hd : t.dropWhile caseIgnorable.holds with
    | nil => exact absurd hd hall
    | cons c rest => rfl

/-- A part keeps its sigmas where no letter with case goes on with its first or last word. -/
theorem KeepsSigmas.of_casedNext (hbefore : casedNext before.reverse = false)
    (hafter : casedNext after = false) : KeepsSigmas before t after := by
  intro us vs _
  rw [sigmaForm, sigmaForm, casedNext_append hbefore, casedNext_append hafter]

/-! ### Lengths -/

/-- No character has an empty lower case. -/
theorem formOf_ne_nil (before : Text) (c : Char) (after : Text) : formOf before c after ≠ [] := by
  unfold formOf lowerChar
  split
  · simp
  · split
    · simp
    · split
      · simp
      · split <;> simp

/-- What is left of a text does not take up more of the lower case than all of it, wherever either
of them stands. -/
theorem length_lowerBetween_le (h : u.Sublist t) (before before' after : Text) :
    (lowerBetween before after u).length ≤ (lowerBetween before' after t).length := by
  induction h generalizing before before' with
  | slnil => exact Nat.le_refl _
  | cons c _ ih =>
    rw [lowerBetween, List.length_append]
    exact Nat.le_add_left_of_le (ih before (c :: before'))
  | @cons_cons u t c _ ih =>
    rw [lowerBetween, lowerBetween, List.length_append, List.length_append,
      length_formOf before before' (u ++ after) (t ++ after)]
    exact Nat.add_le_add_left (ih (c :: before) (c :: before')) _

/-- It takes up less, unless it is all of the text. -/
theorem eq_of_sublist_of_length_lowerBetween (h : u.Sublist t) (before before' after : Text)
    (hlength : (lowerBetween before after u).length = (lowerBetween before' after t).length) :
    u = t := by
  induction h generalizing before before' with
  | slnil => rfl
  | @cons u t c h _ =>
    have hle := length_lowerBetween_le h before (c :: before') after
    have hpos := List.length_pos_iff.2 (formOf_ne_nil before' c (t ++ after))
    rw [lowerBetween, List.length_append] at hlength
    omega
  | @cons_cons u t c _ ih =>
    rw [lowerBetween, lowerBetween, List.length_append, List.length_append,
      length_formOf before before' (u ++ after) (t ++ after), Nat.add_left_cancel_iff] at hlength
    rw [ih _ _ hlength]

/-- A text that was left out of has a shorter lower case. -/
theorem eq_of_sublist_of_lower_eq (h : u.Sublist t) (heq : lower u = lower t) : u = t := by
  rw [lower_eq_lowerBetween, lower_eq_lowerBetween] at heq
  exact eq_of_sublist_of_length_lowerBetween h [] [] [] (congrArg List.length heq)

end Text

end InternetMail
