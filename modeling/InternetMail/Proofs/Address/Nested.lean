import InternetMail.Proofs.Address.Lenient

/-!
# The readings are nested

Where the reading that enforces only the structure goes well, that of incoming mail does: each of
its steps does (`outcome_splitFrom_parseHeader`, `outcome_bracketMailbox_parseHeader`), with the
same elements and the same mailboxes in brackets. Only what stands between two separators without a
bracket can come out as other addresses, since simple addresses apart by white space are told apart
by the one reading and are one address to the other. With what holds of the strict reading, the
readings are nested (`parseList_nested`).

The step from one reading to the next is therefore not an equality of outcomes but of success: where
the one gives elements, the other gives the same elements, and each element that can be read by the
one can be read by the other. Only for the strict reading the addresses are the same at all levels,
and this is the claim that `parseList_nested` makes for it.
-/

namespace InternetMail

open Reported

/-! ### Elements -/

/-- A list is taken apart as before when nothing has to be refused any more. -/
theorem outcome_splitFrom_parseHeader {pending : List Token} {opening : Option Element.Opening}
    {bracket : Bool} {ts : List Token} {es : List Element}
    (h : outcome (Element.splitFrom .nonStrict pending opening bracket ts) = .ok es) :
    outcome (Element.splitFrom .parseHeader pending opening bracket ts) = .ok es := by
  fun_induction Element.splitFrom .nonStrict pending opening bracket ts generalizing es with
  | case1 => exact h
  | case2 | case4 | case7 => cases h
  | case3 | case8 =>
    exact absurd (show Strictness.nonStrict ≠ .parseHeader by decide) ‹_›
  | case5 pending bracket t ts hcolon ih =>
    rw [Element.splitFrom, if_pos hcolon]
    exact ih h
  | case6 pending bracket t ts hcolon hsemi g ih =>
    rw [Element.splitFrom, if_neg hcolon, if_pos hsemi]
    simp only [outcome_bind, outcome_pure, bind_eq_ok_iff] at h ⊢
    obtain ⟨rest, hrest, hes⟩ := h
    exact ⟨rest, ih hrest, hes⟩
  | case9 pending opening bracket t ts hcolon hsemi hcomma ih =>
    rw [Element.splitFrom.eq_def]
    simp only [if_neg hcolon, if_neg hsemi, if_pos hcomma]
    simp only [outcome_bind, outcome_pure, bind_eq_ok_iff] at h ⊢
    obtain ⟨rest, hrest, hes⟩ := h
    exact ⟨rest, ih hrest, hes⟩
  | case10 pending opening bracket t ts hcolon hsemi hcomma ih =>
    rw [Element.splitFrom.eq_def]
    simp only [if_neg hcolon, if_neg hsemi, if_neg hcomma]
    exact ih h

/-! ### Mailboxes -/

/-- What stands inside angle brackets is the same address. -/
theorem bracketed_parseHeader {bracket : Token} {inner : List Token} {x : Text}
    (h : bracketed .nonStrict bracket inner = .ok x) :
    bracketed .parseHeader bracket inner = .ok x := by
  rw [bracketed, bind_eq_ok_iff] at h ⊢
  obtain ⟨⟨route, spec⟩, hsplit, h⟩ := h
  refine ⟨(route, spec), hsplit, ?_⟩
  cases hspec : spec.isEmpty with
  | true => simp [hspec] at h
  | false =>
    simp only [hspec, Bool.false_eq_true, if_false, reduceCtorEq] at h ⊢
    rw [bind_eq_ok_iff] at h
    obtain ⟨y, hy, h⟩ := h
    rw [addrSpec, check_bind_eq_ok_iff] at hy
    obtain ⟨-, hy⟩ := hy
    cases hy
    exact h

/-- A mailbox with angle brackets is the same address. -/
theorem outcome_bracketMailbox_parseHeader {all phrase after : List Token} {bracket : Token}
    {a : Address} (h : outcome (bracketMailbox .nonStrict all phrase bracket after) = .ok a) :
    outcome (bracketMailbox .parseHeader all phrase bracket after) = .ok a := by
  rw [outcome_bracketMailbox] at h ⊢
  obtain ⟨-, -, h⟩ := bind_eq_ok_iff.1 h
  obtain ⟨spec, hspec, h⟩ := bind_eq_ok_iff.1 h
  rw [checkBrackets_parseHeader, ok_bind, bracketed_parseHeader hspec, ok_bind]
  exact h

theorem exists_mailboxesOf_parseHeader {ts : List Token} {as : List Address}
    (h : outcome (mailboxesOf .nonStrict ts) = .ok as) :
    ∃ as', outcome (mailboxesOf .parseHeader ts) = .ok as' := by
  rw [mailboxesOf] at h ⊢
  cases hws : (wordsOf ts).isEmpty with
  | true => exact ⟨[], by simp⟩
  | false =>
    cases hd : (wordsOf ts).dropWhile (!·.isSpecial '<') with
    | cons bracket after =>
      simp only [hws, hd, outcome_bind, outcome_pure, bind_eq_ok_iff, Bool.false_eq_true,
        if_false] at h ⊢
      obtain ⟨a, ha, -⟩ := h
      exact ⟨[a], a, outcome_bracketMailbox_parseHeader ha, rfl⟩
    | nil => exact ⟨_, by simp [addrSpec]; rfl⟩

/-! ### Lists -/

/-- A group is the same address, since that is its text. -/
theorem outcome_groupAddress_parseHeader {phrase members : List Token} {colon : Token}
    {close : Option Token} {a : Address}
    (h : outcome (groupAddress .nonStrict phrase colon members close) = .ok a) :
    outcome (groupAddress .parseHeader phrase colon members close) = .ok a := by
  rw [groupAddress] at h ⊢
  simp only [outcome_bind, outcome_pure, outcome_liftExcept, bind_eq_ok_iff] at h ⊢
  obtain ⟨_, _, as, hmembers, ha⟩ := h
  have hruns := exists_outcome_mailboxesOfAll_iff.1 ⟨as, hmembers⟩
  obtain ⟨as', has'⟩ := exists_outcome_mailboxesOfAll_iff.2 fun run hrun ↦
    (hruns run hrun).elim fun _ ↦ exists_mailboxesOf_parseHeader
  exact ⟨(), rfl, as', has', ha⟩

theorem exists_addressesOf_parseHeader {es : List Element} {as : List Address}
    (h : outcome (addressesOf .nonStrict es) = .ok as) :
    ∃ as', outcome (addressesOf .parseHeader es) = .ok as' := by
  induction es generalizing as with
  | nil => exact ⟨[], rfl⟩
  | cons e es ih =>
    obtain ⟨_, _, he, hes, -⟩ := outcome_addressesOf_cons.1 h
    obtain ⟨rest, hrest⟩ := ih hes
    have hfirst : ∃ first, outcome (e.addresses .parseHeader) = .ok first := by
      cases e with
      | mailboxes ts => exact exists_mailboxesOf_parseHeader he
      | group phrase colon members close =>
        simp only [Element.addresses, outcome_bind, outcome_pure, bind_eq_ok_iff] at he ⊢
        obtain ⟨a, ha, -⟩ := he
        exact ⟨[a], a, outcome_groupAddress_parseHeader ha, rfl⟩
    obtain ⟨first, hfirst⟩ := hfirst
    exact ⟨first ++ rest, outcome_addressesOf_cons.2 ⟨first, rest, hfirst, hrest, rfl⟩⟩

theorem exists_addressList_parseHeader {ts : List Token} {as : List Address}
    (h : outcome (addressList .nonStrict ts) = .ok as) :
    ∃ as', outcome (addressList .parseHeader ts) = .ok as' := by
  simp only [addressList, outcome_bind, bind_eq_ok_iff] at h ⊢
  obtain ⟨es, hes, has⟩ := h
  obtain ⟨as', has'⟩ := exists_addressesOf_parseHeader has
  exact ⟨as', es, outcome_splitFrom_parseHeader hes, has'⟩

/-! ### Texts -/

/-- **The readings are nested**: what the strict one accepts is the same list of addresses to the
others, and what is accepted by its structure is accepted in incoming mail. -/
theorem parseList_nested (t : Text) :
    (∀ as, outcome (Address.parseList .strict t) = .ok as →
      outcome (Address.parseList .nonStrict t) = .ok as ∧
        outcome (Address.parseList .parseHeader t) = .ok as) ∧
    ((∃ as, outcome (Address.parseList .nonStrict t) = .ok as) →
      ∃ as, outcome (Address.parseList .parseHeader t) = .ok as) := by
  refine ⟨fun as h ↦ ?_, fun ⟨as, h⟩ ↦ ?_⟩
  · have hread (s : Strictness) := congrArg outcome (parseList_of_strict h s)
    exact ⟨hread .nonStrict, hread .parseHeader⟩
  · obtain ⟨ts, hts, has⟩ := outcome_parseList.1 h
    obtain ⟨as', has'⟩ := exists_addressList_parseHeader has
    exact ⟨as', outcome_parseList.2 ⟨ts, tokenize_of_le (by decide) hts, has'⟩⟩

/-- A group after a comment and a quoted name before a route, and two addresses with only a blank
between them. -/
theorem parseList_nested_blank_between :
    outcome (Address.parseList .parseHeader "(c) g: a@b;, \"n\" <@r:d@e>".toList) =
      .ok [⟨"(c) g: a@b;".toList, .absent⟩, ⟨"@r:d@e".toList, .written "n".toList false⟩] ∧
    outcome (Address.parseList .nonStrict "a@b d@e".toList) =
      .ok [⟨"a@b".toList, .absent⟩, ⟨"d@e".toList, .absent⟩] ∧
    ∃ as, outcome (Address.parseList .parseHeader "a@b d@e".toList) = .ok as := by
  have hstrict : outcome (Address.parseList .strict "(c) g: a@b;, \"n\" <@r:d@e>".toList) =
      .ok [⟨"(c) g: a@b;".toList, .absent⟩, ⟨"@r:d@e".toList, .written "n".toList false⟩] := by
    decide +kernel
  have hruns : outcome (Address.parseList .nonStrict "a@b d@e".toList) =
      .ok [⟨"a@b".toList, .absent⟩, ⟨"d@e".toList, .absent⟩] := by
    decide +kernel
  exact ⟨((parseList_nested _).1 _ hstrict).2, hruns, (parseList_nested _).2 ⟨_, hruns⟩⟩

end InternetMail
