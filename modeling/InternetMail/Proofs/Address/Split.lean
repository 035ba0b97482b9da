import InternetMail.Proofs.Address.Token
import InternetMail.Proofs.Outcome

/-!
# Taking a list apart at its separators

What `Element.split` and `splitMailboxes` do at the first separator outside angle brackets. A
stretch of tokens without one is `Unbroken`, and every list is either unbroken or such a stretch, a
separator outside brackets, and the rest (`unbroken_or_exists`). That is the case split that all
statements about lists go by, so that none of them has to look at the state of the splitting; those
about all lists go by induction on the elements (`elements_induction`).

`outcome_addressList_comma` and its kin give the addresses of a list by those of its parts, at any
strictness. The strict reading refuses what they leave open: a semicolon without a group, and a
group without a semicolon or with a second colon.

The splitting keeps the tokens of the element that has begun, the group that is open and whether an
angle bracket is. Before the first separator only the first of these changes (`splitFrom_append`),
so that at a separator the pending tokens are all those before it. From there on it begins anew. A
separator inside brackets is no separator, which is why each lemma asks that the brackets in front
of it are closed (`bracketAfterAll false us = false`).
-/

namespace InternetMail

open Reported

/-! ### Stretches without a separator -/

/-- Whether an angle bracket is open after the tokens, given whether one was before them. -/
def bracketAfterAll (bracket : Bool) (ts : List Token) : Bool :=
  ts.foldl bracketAfter bracket

/-- No token on which `sep` holds stands outside angle brackets, `bracket` telling whether one is
open in front. -/
def Unbroken (sep : Token → Bool) (bracket : Bool) : List Token → Prop
  | [] => True
  | t :: ts => (sep t = true → bracket = true) ∧ Unbroken sep (bracketAfter bracket t) ts

/-- Whether the token ends what is read of an element: a comma does only outside groups. -/
def endsElement (inGroup : Bool) (t : Token) : Bool :=
  t.isSpecial ':' || t.isSpecial ';' || (t.isSpecial ',' && !inGroup)

@[simp]
theorem bracketAfterAll_nil (bracket : Bool) : bracketAfterAll bracket [] = bracket := rfl

@[simp]
theorem bracketAfterAll_cons (bracket : Bool) (t : Token) (ts : List Token) :
    bracketAfterAll bracket (t :: ts) = bracketAfterAll (bracketAfter bracket t) ts := rfl

theorem bracketAfterAll_append (bracket : Bool) (us ts : List Token) :
    bracketAfterAll bracket (us ++ ts) = bracketAfterAll (bracketAfterAll bracket us) ts :=
  List.foldl_append

/-- The bracket that is open behind the first part is open in front of the second. -/
theorem unbroken_append {sep : Token → Bool} {bracket : Bool} {us ts : List Token} :
    Unbroken sep bracket (us ++ ts) ↔
      Unbroken sep bracket us ∧ Unbroken sep (bracketAfterAll bracket us) ts := by
  induction us generalizing bracket with
  | nil => simp [Unbroken]
  | cons u us ih => simp [Unbroken, ih, and_assoc]

/-- A list is unbroken, or it has a first separator outside angle brackets. -/
theorem unbroken_or_exists (sep : Token → Bool) (bracket : Bool) (ts : List Token) :
    Unbroken sep bracket ts ∨ ∃ us t rest, ts = us ++ t :: rest ∧ Unbroken sep bracket us ∧
      bracketAfterAll bracket us = false ∧ sep t = true := by
  induction ts generalizing bracket with
  | nil => exact Or.inl trivial
  | cons t ts ih =>
    by_cases ht : sep t = true ∧ bracket = false
    · exact Or.inr ⟨[], t, ts, rfl, trivial, ht.2, ht.1⟩
    · have hb : sep t = true → bracket = true := by simpa using ht
      rcases ih (bracketAfter bracket t) with h | ⟨us, u, rest, rfl, h, hclosed, hu⟩
      · exact Or.inl ⟨hb, h⟩
      · exact Or.inr ⟨t :: us, u, rest, rfl, ⟨hb, h⟩, hclosed, hu⟩

/-- Induction on a list as it is taken apart, with one case for each way its first element goes: it
is all there is, or it ends at a comma or at a semicolon without a group (`ended`), or it is a
group, and that is left open at the end of the list, has a second colon, or is closed by its
semicolon. -/
theorem elements_induction {motive : List Token → Prop} (ts : List Token)
    (unbroken : ∀ us, Unbroken (endsElement false) false us → motive us)
    (ended : ∀ us t ts, Unbroken (endsElement false) false us → bracketAfterAll false us = false →
      endsElement false t = true → t.isSpecial ':' = false → motive ts → motive (us ++ t :: ts))
    (leftOpen : ∀ us colon members, Unbroken (endsElement false) false us →
      bracketAfterAll false us = false → colon.isSpecial ':' = true →
      Unbroken (endsElement true) false members → motive (us ++ colon :: members))
    (nested : ∀ us colon members second ts, Unbroken (endsElement false) false us →
      bracketAfterAll false us = false → colon.isSpecial ':' = true →
      Unbroken (endsElement true) false members → bracketAfterAll false members = false →
      second.isSpecial ':' = true → motive (us ++ colon :: (members ++ second :: ts)))
    (group : ∀ us colon members semicolon ts, Unbroken (endsElement false) false us →
      bracketAfterAll false us = false → colon.isSpecial ':' = true →
      Unbroken (endsElement true) false members → bracketAfterAll false members = false →
      semicolon.isSpecial ';' = true → motive ts →
      motive (us ++ colon :: (members ++ semicolon :: ts))) : motive ts := by
  induction hn : ts.length using Nat.strongRecOn generalizing ts with
  | ind n ih =>
    rcases unbroken_or_exists (endsElement false) false ts with
      hu | ⟨us, t, rest, rfl, hu, hclosed, ht⟩
    · exact unbroken ts hu
    have hlt : rest.length < n := by
      simp only [← hn, List.length_append, List.length_cons]
      omega
    cases hcolon : t.isSpecial ':' with
    | false => exact ended us t rest hu hclosed ht hcolon (ih _ hlt rest rfl)
    | true =>
      rcases unbroken_or_exists (endsElement true) false rest with
        hm | ⟨members, u, ts, rfl, hm, hmclosed, hends⟩
      · exact leftOpen us t rest hu hclosed hcolon hm
      have hlt' : ts.length < n := by
        simp only [List.length_append, List.length_cons] at hlt
        omega
      simp only [endsElement, Bool.not_true, Bool.and_false, Bool.or_false,
        Bool.or_eq_true] at hends
      rcases hends with hcolon' | hsemi
      · exact nested us t members u ts hu hclosed hcolon hm hmclosed hcolon'
      · exact group us t members u ts hu hclosed hcolon hm hmclosed hsemi (ih _ hlt' ts rfl)

/-! ### Elements -/

namespace Element

variable {s : Strictness} {us ts pending : List Token}

/-- An unbroken stretch is read as a whole. -/
theorem splitFrom_append (s : Strictness) (opening : Option Opening) {bracket : Bool}
    (h : Unbroken (endsElement opening.isSome) bracket us) (pending ts : List Token) :
    splitFrom s pending opening bracket (us ++ ts) =
      splitFrom s (pending ++ us) opening (bracketAfterAll bracket us) ts := by
  induction us generalizing pending bracket with
  | nil => simp
  | cons u us ih =>
    obtain ⟨hu, hus⟩ := h
    have hstep : splitFrom s pending opening bracket (u :: (us ++ ts)) =
        splitFrom s (pending ++ [u]) opening (bracketAfter bracket u) (us ++ ts) := by
      cases bracket with
      | true => simp [splitFrom]
      | false =>
        have hends : endsElement opening.isSome u = false := by simpa using hu
        simp only [endsElement, Bool.or_eq_false_iff, Bool.and_eq_false_iff] at hends
        cases opening <;> simp_all [splitFrom]
    rw [List.cons_append, hstep, ih hus]
    simp

/-- Without a separator there is one element. -/
theorem split_of_unbroken (h : Unbroken (endsElement false) false us) :
    split s us = pure [.mailboxes us] := by
  have := splitFrom_append s none h [] []
  simp only [List.append_nil, List.nil_append] at this
  rw [split, this, splitFrom_nil_none]

/-- At a comma the first element ends. -/
theorem split_comma {comma : Token} (h : Unbroken (endsElement false) false us)
    (hclosed : bracketAfterAll false us = false) (hcomma : comma.isSpecial ',' = true) :
    split s (us ++ comma :: ts) = do return .mailboxes us :: (← split s ts) := by
  have hk := Token.isSpecial_iff.1 hcomma
  rw [split, splitFrom_append s none h, hclosed, List.nil_append]
  simp [splitFrom, split, Token.isSpecial, hk]

/-- After a name and a colon, the rest is read as that of a group. -/
theorem split_colon {colon : Token} (h : Unbroken (endsElement false) false us)
    (hclosed : bracketAfterAll false us = false) (hcolon : colon.isSpecial ':' = true) :
    split s (us ++ colon :: ts) = splitFrom s [] (some ⟨us, colon⟩) false ts := by
  have hk := Token.isSpecial_iff.1 hcolon
  rw [split, splitFrom_append s none h, hclosed, List.nil_append]
  simp [splitFrom, Token.isSpecial, hk]

/-- At a semicolon the group ends, with the members since its colon. -/
theorem splitFrom_semicolon {phrase : List Token} {colon semicolon : Token}
    (h : Unbroken (endsElement true) false us) (hclosed : bracketAfterAll false us = false)
    (hsemi : semicolon.isSpecial ';' = true) :
    splitFrom s [] (some ⟨phrase, colon⟩) false (us ++ semicolon :: ts) = do
      return .group phrase colon us (some semicolon) :: (← split s ts) := by
  have hk := Token.isSpecial_iff.1 hsemi
  rw [splitFrom_append s (some ⟨phrase, colon⟩) h, hclosed, List.nil_append]
  simp [splitFrom, split, Token.isSpecial, hk]

/-! ### At a separator -/

section

variable {opening : Option Opening} {t : Token}

/-- One step at a colon, with or without a group. -/
theorem outcome_splitFrom_colon (h : t.isSpecial ':' = true) :
    outcome (splitFrom s pending opening false (t :: ts)) =
      match opening with
      | some _ => .error (t.fault .nestedGroup)
      | none => outcome (splitFrom s [] (some ⟨pending, t⟩) false ts) := by
  cases opening <;> simp [splitFrom, h]

/-- One step at a semicolon. Outside of groups it ends an element of incoming mail, as commas do. -/
theorem outcome_splitFrom_semicolon (h : t.isSpecial ';' = true) :
    outcome (splitFrom s pending opening false (t :: ts)) =
      match opening with
      | some g => do
        return .group g.phrase g.colon pending (some t) ::
          (← outcome (splitFrom s [] none false ts))
      | none =>
        if s = .parseHeader then do
          return .mailboxes pending :: (← outcome (splitFrom s [] none false ts))
        else .error (t.fault .unexpectedToken) := by
  have hcolon := Token.isSpecial_eq_false h (show ';' ≠ ':' by decide)
  cases opening with
  | some g =>
    simp [splitFrom, h, hcolon, -bind_pure_comp]
    rfl
  | none => cases s <;> simp [splitFrom, h, hcolon, -bind_pure_comp] <;> rfl

/-- One step at a comma outside of groups. -/
theorem outcome_splitFrom_comma (h : t.isSpecial ',' = true) :
    outcome (splitFrom s pending none false (t :: ts)) = do
      return .mailboxes pending :: (← outcome (splitFrom s [] none false ts)) := by
  have hcolon := Token.isSpecial_eq_false h (show ',' ≠ ':' by decide)
  have hsemi := Token.isSpecial_eq_false h (show ',' ≠ ';' by decide)
  simp [splitFrom, h, hcolon, hsemi, -bind_pure_comp]
  rfl

end

/-! ### Where the strict reading stops -/

/-- A semicolon that ends no group is refused. -/
theorem outcome_split_strict_semicolon {semicolon : Token}
    (h : Unbroken (endsElement false) false us) (hclosed : bracketAfterAll false us = false)
    (hsemi : semicolon.isSpecial ';' = true) (es : List Element) :
    outcome (split .strict (us ++ semicolon :: ts)) ≠ .ok es := by
  rw [split, splitFrom_append .strict none h, hclosed, List.nil_append,
    outcome_splitFrom_semicolon hsemi]
  simp

/-- A second colon is refused, as groups do not nest. -/
theorem outcome_splitFrom_strict_colon {opening : Opening} {colon : Token}
    (h : Unbroken (endsElement true) false us) (hclosed : bracketAfterAll false us = false)
    (hcolon : colon.isSpecial ':' = true) (es : List Element) :
    outcome (splitFrom .strict [] (some opening) false (us ++ colon :: ts)) ≠ .ok es := by
  rw [splitFrom_append .strict (some opening) h, hclosed, List.nil_append,
    outcome_splitFrom_colon hcolon]
  simp

/-- A group that does not end is refused. -/
theorem outcome_splitFrom_strict_of_unbroken {opening : Opening}
    (h : Unbroken (endsElement true) false us) (es : List Element) :
    outcome (splitFrom .strict [] (some opening) false us) ≠ .ok es := by
  have := splitFrom_append .strict (some opening) h [] []
  simp only [List.append_nil, List.nil_append] at this
  rw [this, splitFrom]
  simp [bind_eq_ok_iff]

end Element

/-! ### Addresses of a list by its parts -/

variable {s : Strictness} {us ts : List Token} {as : List Address}

/-- The addresses of elements are those of the first and those of the others. -/
theorem outcome_addressesOf_cons {e : Element} {es : List Element} :
    outcome (addressesOf s (e :: es)) = .ok as ↔
      ∃ as₁ as₂, outcome (e.addresses s) = .ok as₁ ∧ outcome (addressesOf s es) = .ok as₂ ∧
        as₁ ++ as₂ = as := by
  simp [addressesOf, bind_eq_ok_iff]

/-- A list without separators is one element. -/
theorem outcome_addressList_of_unbroken (h : Unbroken (endsElement false) false us) :
    outcome (addressList s us) = .ok as ↔ outcome (mailboxesOf s us) = .ok as := by
  simp [addressList, Element.split_of_unbroken h, addressesOf, Element.addresses, bind_eq_ok_iff]

/-- A list with a comma: what stands in front of it, and the list behind it. -/
theorem outcome_addressList_comma {comma : Token} (h : Unbroken (endsElement false) false us)
    (hclosed : bracketAfterAll false us = false) (hcomma : comma.isSpecial ',' = true) :
    outcome (addressList s (us ++ comma :: ts)) = .ok as ↔
      ∃ as₁ as₂, outcome (mailboxesOf s us) = .ok as₁ ∧ outcome (addressList s ts) = .ok as₂ ∧
        as₁ ++ as₂ = as := by
  rw [addressList, Element.split_comma h hclosed hcomma]
  simp only [addressList, outcome_bind, outcome_pure, bind_eq_ok_iff, Except.ok.injEq]
  constructor
  · rintro ⟨_, ⟨es, hes, rfl⟩, has⟩
    obtain ⟨as₁, as₂, h₁, h₂, rfl⟩ := outcome_addressesOf_cons.1 has
    exact ⟨as₁, as₂, h₁, ⟨es, hes, h₂⟩, rfl⟩
  · rintro ⟨as₁, as₂, h₁, ⟨es, hes, h₂⟩, rfl⟩
    exact ⟨_, ⟨es, hes, rfl⟩, outcome_addressesOf_cons.2 ⟨as₁, as₂, h₁, h₂, rfl⟩⟩

/-- A list that begins with a group: the group, and the list behind its semicolon. A comma in front
of that list is one more separator. -/
theorem outcome_addressList_group {phrase : List Token} {colon semicolon : Token}
    (hphrase : Unbroken (endsElement false) false phrase)
    (hphraseClosed : bracketAfterAll false phrase = false) (hcolon : colon.isSpecial ':' = true)
    (h : Unbroken (endsElement true) false us) (hclosed : bracketAfterAll false us = false)
    (hsemi : semicolon.isSpecial ';' = true) :
    outcome (addressList s (phrase ++ colon :: (us ++ semicolon :: ts))) = .ok as ↔
      ∃ a as₂, outcome (groupAddress s phrase colon us (some semicolon)) = .ok a ∧
        outcome (addressList s ts) = .ok as₂ ∧ a :: as₂ = as := by
  rw [addressList, Element.split_colon hphrase hphraseClosed hcolon,
    Element.splitFrom_semicolon h hclosed hsemi]
  simp only [addressList, outcome_bind, outcome_pure, bind_eq_ok_iff, Except.ok.injEq]
  constructor
  · rintro ⟨_, ⟨es, hes, rfl⟩, has⟩
    obtain ⟨as₁, as₂, h₁, h₂, rfl⟩ := outcome_addressesOf_cons.1 has
    simp only [Element.addresses, outcome_bind, outcome_pure, bind_eq_ok_iff,
      Except.ok.injEq] at h₁
    obtain ⟨a, ha, rfl⟩ := h₁
    exact ⟨a, as₂, ha, ⟨es, hes, h₂⟩, rfl⟩
  · rintro ⟨a, as₂, ha, ⟨es, hes, h₂⟩, rfl⟩
    refine ⟨_, ⟨es, hes, rfl⟩, outcome_addressesOf_cons.2 ⟨[a], as₂, ?_, h₂, rfl⟩⟩
    simp [Element.addresses, bind_eq_ok_iff, ha]

/-! ### Members of a group -/

/-- Whether the token is a comma, which is what separates the members of a group. -/
def isComma (t : Token) : Bool :=
  t.isSpecial ','

/-- Without a comma all tokens are one member. -/
theorem splitMailboxes_of_unbroken {bracket : Bool} (h : Unbroken isComma bracket us) :
    splitMailboxes bracket us = [us] := by
  induction us generalizing bracket with
  | nil => rfl
  | cons u us ih =>
    obtain ⟨hu, hus⟩ := h
    have := ih hus
    cases bracket <;> simp_all [splitMailboxes, isComma]

/-- At a comma the first member ends. -/
theorem splitMailboxes_append_comma {bracket : Bool} {comma : Token}
    (h : Unbroken isComma bracket us) (hclosed : bracketAfterAll bracket us = false)
    (hcomma : comma.isSpecial ',' = true) :
    splitMailboxes bracket (us ++ comma :: ts) = us :: splitMailboxes false ts := by
  induction us generalizing bracket with
  | nil =>
    rw [bracketAfterAll_nil] at hclosed
    simp [splitMailboxes, hclosed, hcomma]
  | cons u us ih =>
    obtain ⟨hu, hus⟩ := h
    have := ih hus hclosed
    cases bracket <;> simp_all [splitMailboxes, isComma]

end InternetMail
