import InternetMail.Proofs.Address.Tiling
import Mathlib.Data.List.Forall2

/-!
# Positions that are checked

Address text can be read by positions alone: octets of the text, places in the list of its tokens,
and places in lists of such places. Here every position is looked up. One that lies outside what it
points into, or inside a character, ends the reading at once with a `Stop.trap`, as does a
subtraction below zero, so that a reading that does not end so has looked only at what is there.

`Follows R x y` says that a reading `x` with such checks does not come to a trap, that it fails
exactly if `y` does and with the same fault, at a place where a character begins or the text ends,
and that otherwise `R` holds between what the two read. Steps that follow each other do so one after
another (`Follows.bind`).

The checks are what this reading is about, and so they are part of what it does and not of what is
assumed of it: `Checked.get`, `Checked.slice` and `Checked.sub` fail where an array, a list or a
number of the program would. A reading in which none of them fails can be had from one without
checks, if the two are compared step by step. This is done by `Follows` for all steps in a row, for
each item of a list (`Follows.mapM`, `Follows.forM`), and after a change of what is compared
(`Follows.mono`, `Follows.map`).
-/

namespace InternetMail

variable {α β γ δ : Type}

/-- How a reading by positions ends before its time. -/
inductive Stop
  /-- The text breaks a rule. -/
  | fault (f : AddressFault)
  /-- A position lies outside what it points into. -/
  | trap
  deriving DecidableEq

/-- Reading with checked positions. -/
abbrev Checked (α : Type) := Except Stop α

namespace Checked

/-- What was looked up, if it is there. -/
def ofOption : Option α → Checked α
  | some a => .ok a
  | none => .error .trap

/-- The entry at a place of a list. -/
def get (xs : List α) (i : Nat) : Checked α :=
  ofOption xs[i]?

/-- The entries of a list from one place up to another. -/
def slice (xs : List α) (i j : Nat) : Checked (List α) :=
  if i ≤ j ∧ j ≤ xs.length then .ok ((xs.take j).drop i) else .error .trap

/-- The difference of two numbers. -/
def sub (n k : Nat) : Checked Nat :=
  if k ≤ n then .ok (n - k) else .error .trap

/-- What is looked up is what is there. -/
theorem get_eq_ok_iff {xs : List α} {i : Nat} {a : α} : get xs i = .ok a ↔ xs[i]? = some a := by
  unfold get
  cases xs[i]? <;> simp [ofOption]

/-- The item behind a prefix is at the length of that. -/
theorem get_append_cons (xs : List α) (a : α) (ys : List α) :
    get (xs ++ a :: ys) xs.length = .ok a :=
  get_eq_ok_iff.2 (by simp)

/-- What stands between two prefixes is cut out between their lengths. -/
theorem slice_append (xs ys zs : List α) :
    slice (xs ++ ys ++ zs) xs.length (xs ++ ys).length = .ok ys := by
  rw [slice, if_pos (by simp), List.take_left', List.drop_left' rfl]
  rfl

/-- The entries before one. -/
theorem slice_zero (xs ys : List α) : slice (xs ++ ys) 0 xs.length = .ok xs :=
  slice_append [] xs ys

/-- The entries behind one. -/
theorem slice_append_cons (xs : List α) (a : α) (ys : List α) :
    slice (xs ++ a :: ys) (xs.length + 1) (xs ++ a :: ys).length = .ok ys := by
  have h := slice_append (xs ++ [a]) ys []
  simpa using h

theorem sub_of_le {n k : Nat} (h : k ≤ n) : sub n k = .ok (n - k) :=
  if_pos h

end Checked

namespace Text

variable {t s : Text} {n a b : Nat}

/-- A character begins at octet `n` of the text, or the text ends there. -/
def IsBoundary (t : Text) (n : Nat) : Prop :=
  ∃ before after, t = before ++ after ∧ utf8Size before = n

/-- The text from octet `n` on, if a character begins there or the text ends. -/
def fromOctet? : Text → Nat → Option Text
  | t, 0 => some t
  | [], _ + 1 => none
  | c :: t, n + 1 => if c.utf8Size ≤ n + 1 then fromOctet? t (n + 1 - c.utf8Size) else none

/-- The text up to octet `n`, if a character begins there or the text ends. -/
def upToOctet? (t : Text) (n : Nat) : Option Text :=
  (t.fromOctet? n).map fun rest ↦ t.take (t.length - rest.length)

/-- The text from octet `a` up to octet `b`, if at both a character begins or the text ends. -/
def slice? (t : Text) (a b : Nat) : Option Text :=
  if a ≤ b then (t.fromOctet? a).bind (upToOctet? · (b - a)) else none

/-- What is left from an octet on, if a character begins there or the text ends. -/
theorem fromOctet?_eq_some_iff :
    t.fromOctet? n = some s ↔ ∃ before, t = before ++ s ∧ utf8Size before = n := by
  fun_induction fromOctet? t n with
  | case1 t =>
    constructor
    · rintro ⟨⟩
      exact ⟨[], rfl, rfl⟩
    · rintro ⟨before, rfl, h⟩
      cases before with
      | nil => rfl
      | cons c before =>
        have := c.utf8Size_pos
        rw [utf8Size_cons] at h
        omega
  | case2 n =>
    constructor
    · rintro ⟨⟩
    · rintro ⟨before, h, hsize⟩
      rw [(List.append_eq_nil_iff.1 h.symm).1] at hsize
      cases hsize
  | case3 c t n hle ih =>
    refine ih.trans ?_
    clear ih
    constructor
    · rintro ⟨before, rfl, h⟩
      exact ⟨c :: before, rfl, by rw [utf8Size_cons]; omega⟩
    · rintro ⟨before, heq, h⟩
      cases before with
      | nil => cases h
      | cons d before =>
        obtain ⟨rfl, rfl⟩ := List.cons.inj heq
        rw [utf8Size_cons] at h
        exact ⟨before, rfl, by omega⟩
  | case4 c t n hlt =>
    constructor
    · rintro ⟨⟩
    · rintro ⟨before, heq, h⟩
      cases before with
      | nil => cases h
      | cons d before =>
        obtain ⟨rfl, rfl⟩ := List.cons.inj heq
        rw [utf8Size_cons] at h
        omega

/-- There is a text from an octet on exactly if that is a boundary. -/
theorem isSome_fromOctet?_iff : (t.fromOctet? n).isSome ↔ t.IsBoundary n := by
  simp only [Option.isSome_iff_exists, fromOctet?_eq_some_iff, IsBoundary]
  exact ⟨fun ⟨after, before, h⟩ ↦ ⟨before, after, h⟩, fun ⟨before, after, h⟩ ↦ ⟨after, before, h⟩⟩

/-- What stands in front of an octet, if a character begins there or the text ends. -/
theorem upToOctet?_eq_some_iff :
    t.upToOctet? n = some s ↔ ∃ after, t = s ++ after ∧ utf8Size s = n := by
  simp only [upToOctet?, Option.map_eq_some_iff, fromOctet?_eq_some_iff]
  constructor
  · rintro ⟨after, ⟨before, rfl, h⟩, rfl⟩
    exact ⟨after, by simp [h]⟩
  · rintro ⟨after, rfl, h⟩
    exact ⟨after, ⟨s, rfl, h⟩, by simp⟩

/-- A text is cut out between two octets exactly if it stands between them. -/
theorem slice?_eq_some_iff : t.slice? a b = some s ↔ IsSlice t a b s := by
  unfold slice? IsSlice
  constructor
  · intro h
    split at h
    · rename_i hle
      obtain ⟨rest, hrest, hs⟩ := Option.bind_eq_some_iff.1 h
      obtain ⟨before, rfl, hbefore⟩ := fromOctet?_eq_some_iff.1 hrest
      obtain ⟨after, rfl, hsize⟩ := upToOctet?_eq_some_iff.1 hs
      exact ⟨before, after, by simp, hbefore, by rw [utf8Size_append]; omega⟩
    · cases h
  · rintro ⟨before, after, rfl, hbefore, hsize⟩
    rw [utf8Size_append] at hsize
    rw [if_pos (by omega)]
    refine Option.bind_eq_some_iff.2 ⟨s ++ after, ?_, ?_⟩
    · exact fromOctet?_eq_some_iff.2 ⟨before, by simp, hbefore⟩
    · exact upToOctet?_eq_some_iff.2 ⟨after, rfl, by omega⟩

namespace IsBoundary

/-- No such place lies behind the end. -/
theorem le (h : t.IsBoundary n) : n ≤ utf8Size t := by
  obtain ⟨before, after, rfl, rfl⟩ := h
  simp

theorem zero (t : Text) : t.IsBoundary 0 :=
  ⟨[], t, rfl, rfl⟩

end IsBoundary

end Text

/-- Where a part of the text begins, a character does or the text ends. -/
theorem IsSlice.isBoundary_start {t u : Text} {a b : Nat} (h : IsSlice t a b u) :
    t.IsBoundary a := by
  obtain ⟨before, after, rfl, rfl, -⟩ := h
  exact ⟨before, u ++ after, by simp, rfl⟩

/-- Where it ends, too. -/
theorem IsSlice.isBoundary_stop {t u : Text} {a b : Nat} (h : IsSlice t a b u) :
    t.IsBoundary b := by
  obtain ⟨before, after, rfl, -, rfl⟩ := h
  exact ⟨before ++ u, after, rfl, rfl⟩

/-! ### Readings that go as others do -/

/-- The reading `x` by positions of the text `t` goes as `y` does: it fails as that does, at a place
where a character begins or the text ends, or `R` holds between what they read. -/
inductive Follows (s : Strictness) (t : Text) (R : α → β → Prop) :
    Checked α → Except SyntaxFault β → Prop
  | ok {a : α} {b : β} (h : R a b) : Follows s t R (.ok a) (.ok b)
  | error {f : SyntaxFault} (h : t.IsBoundary f.position) :
    Follows s t R (.error (.fault (f.within s t))) (.error f)

namespace Follows

variable {s : Strictness} {t : Text} {R : α → β → Prop} {S : γ → δ → Prop}
  {x : Checked α} {y : Except SyntaxFault β}

/-- **One step after another**: what the first gives on both sides is what the second goes on from.
-/
theorem bind {f : α → Checked γ} {g : β → Except SyntaxFault δ} (h : Follows s t R x y)
    (hfg : ∀ a b, R a b → Follows s t S (f a) (g b)) : Follows s t S (x >>= f) (y >>= g) := by
  cases h with
  | ok h => exact hfg _ _ h
  | error h => exact .error h

/-- A step that reads the same, and what comes behind it. -/
theorem bind_eq {y : Except SyntaxFault α} {f : α → Checked γ} {g : α → Except SyntaxFault δ}
    (h : Follows s t Eq x y) (hfg : ∀ a, Follows s t S (f a) (g a)) :
    Follows s t S (x >>= f) (y >>= g) :=
  h.bind fun a _ hab ↦ hab ▸ hfg a

/-- What holds of what was read may be weakened. -/
theorem mono {R' : α → β → Prop} (h : Follows s t R x y) (hR : ∀ a b, R a b → R' a b) :
    Follows s t R' x y := by
  cases h with
  | ok h => exact .ok (hR _ _ h)
  | error h => exact .error h

/-- What was read is made into something else on both sides. -/
theorem map {f : α → γ} {g : β → δ} (h : Follows s t R x y)
    (hR : ∀ a b, R a b → S (f a) (g b)) : Follows s t S (do return f (← x)) (y.map g) := by
  cases h with
  | ok h => exact .ok (hR _ _ h)
  | error h => exact .error h

/-- What the other reading makes of its result is a step of that reading only. -/
theorem map_right {R' : α → δ → Prop} {g : β → δ} (h : Follows s t R x y)
    (hR : ∀ a b, R a b → R' a (g b)) : Follows s t R' x (y.map g) := by
  cases h with
  | ok h => exact .ok (hR _ _ h)
  | error h => exact .error h

/-- Steps over entries that belong together. -/
theorem mapM {f : α → Checked γ} {g : β → Except SyntaxFault δ} {xs : List α} {ys : List β}
    (h : List.Forall₂ R xs ys) (hfg : ∀ a b, R a b → Follows s t S (f a) (g b)) :
    Follows s t (List.Forall₂ S) (xs.mapM f) (ys.mapM g) := by
  induction h with
  | nil => exact .ok .nil
  | cons h _ ih =>
    rw [List.mapM_cons, List.mapM_cons]
    exact (hfg _ _ h).bind fun _ _ hcd ↦ ih.bind fun _ _ hrest ↦ .ok (.cons hcd hrest)

/-- Checks of item after item, each of which passes or fails alike. -/
theorem forM {f : α → Checked Unit} {g : β → Except SyntaxFault Unit} {xs : List α} {ys : List β}
    (h : List.Forall₂ R xs ys) (hfg : ∀ a b, R a b → Follows s t Eq (f a) (g b)) :
    Follows s t Eq (xs.forM f) (ys.forM g) := by
  induction h with
  | nil => exact .ok rfl
  | cons h _ ih => exact (hfg _ _ h).bind fun _ _ _ ↦ ih

end Follows

end InternetMail
