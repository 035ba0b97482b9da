import InternetMail.Proofs.Address.Split
import InternetMail.Proofs.Run
import InternetMail.Proofs.Silent

/-!
# Elements of a list by its separators

What the elements of a list are, said without the reader: stretches between the commas, colons and
semicolons that stand outside angle brackets (`IsElement`), whatever groups are open there. A colon
is nested if a group is open where it stands (`NestedColon`).

A list is its first stretch, a separator and the rest, in one way only
(`append_cons_inj_of_unbroken`), so that the elements of a list are those of its parts. In a group
the separators are commas, and its elements are the members that `splitMailboxes` finds
(`CommaSeparated.isElement_iff`).

Both are inductive and have one constructor for each way in which a list begins, so that they go by
the same case split as the reading (`unbroken_or_exists`). What they say about a list with a
separator is then an equivalence (`isElement_append_cons_iff`, `nestedColon_append_cons_iff`), and
the lemmas on commas, semicolons and colons are cases of that.
-/

namespace InternetMail

variable {us ts : List Token} {t : Token}

/-- The tokens `e` are an element of the list: a stretch between the separators outside angle
brackets, or at the end. In front of a colon stands no element but the name of a group. -/
inductive IsElement : List Token → List Token → Prop
  | last {e : List Token} : Unbroken (endsElement false) false e → IsElement e e
  | first {e ts : List Token} {separator : Token} : Unbroken (endsElement false) false e →
      bracketAfterAll false e = false →
      separator.isSpecial ',' = true ∨ separator.isSpecial ';' = true →
      IsElement (e ++ separator :: ts) e
  | behind {us ts e : List Token} {separator : Token} : Unbroken (endsElement false) false us →
      bracketAfterAll false us = false → endsElement false separator = true → IsElement ts e →
      IsElement (us ++ separator :: ts) e

/-- The colon stands outside angle brackets while a group is open: the colon of that group stands
before it, and no semicolon outside brackets between them. -/
inductive NestedColon : List Token → Token → Prop
  | inGroup {us members ts : List Token} {opener colon : Token} :
      Unbroken (endsElement false) false us → bracketAfterAll false us = false →
      opener.isSpecial ':' = true → Unbroken (endsElement true) false members →
      bracketAfterAll false members = false → colon.isSpecial ':' = true →
      NestedColon (us ++ opener :: (members ++ colon :: ts)) colon
  | behind {us ts : List Token} {separator colon : Token} :
      Unbroken (endsElement false) false us → bracketAfterAll false us = false →
      endsElement false separator = true → NestedColon ts colon →
      NestedColon (us ++ separator :: ts) colon

/-! ### The first separator -/

theorem endsElement_of_isSpecial_colon (inGroup : Bool) (h : t.isSpecial ':' = true) :
    endsElement inGroup t = true := by
  simp [endsElement, h]

theorem endsElement_of_isSpecial_semicolon (inGroup : Bool) (h : t.isSpecial ';' = true) :
    endsElement inGroup t = true := by
  simp [endsElement, h]

theorem endsElement_of_isSpecial_comma (h : t.isSpecial ',' = true) :
    endsElement false t = true := by
  simp [endsElement, h]

/-- There is one place where the first separator outside angle brackets stands. -/
theorem append_cons_inj_of_unbroken {sep : Token → Bool} {bracket : Bool} {vs rest : List Token}
    {u : Token} (hus : Unbroken sep bracket us) (husClosed : bracketAfterAll bracket us = false)
    (ht : sep t = true) (hvs : Unbroken sep bracket vs)
    (hvsClosed : bracketAfterAll bracket vs = false) (hu : sep u = true)
    (h : us ++ t :: ts = vs ++ u :: rest) : us = vs ∧ t = u ∧ ts = rest := by
  induction us generalizing vs bracket with
  | nil =>
    cases vs with
    | nil => simpa using h
    | cons v vs =>
      obtain ⟨rfl, -⟩ := List.cons.inj h
      rw [bracketAfterAll_nil] at husClosed
      simp [hvs.1 ht] at husClosed
  | cons w us ih =>
    cases vs with
    | nil =>
      obtain ⟨rfl, -⟩ := List.cons.inj h
      rw [bracketAfterAll_nil] at hvsClosed
      simp [hus.1 hu] at hvsClosed
    | cons v vs =>
      rw [List.cons_append, List.cons_append, List.cons.injEq] at h
      obtain ⟨rfl, h⟩ := h
      obtain ⟨rfl, rfl, rfl⟩ := ih hus.2 husClosed hvs.2 hvsClosed h
      exact ⟨rfl, rfl, rfl⟩

/-- A stretch with a separator outside brackets is broken. -/
theorem not_unbroken_append_cons {sep : Token → Bool} {bracket : Bool}
    (hclosed : bracketAfterAll bracket us = false) (ht : sep t = true) :
    ¬Unbroken sep bracket (us ++ t :: ts) := by
  rw [unbroken_append, hclosed]
  rintro ⟨-, h, -⟩
  cases h ht

/-! ### Elements by their parts -/

/-- Without a separator the list is its own and only element. -/
theorem isElement_iff_of_unbroken {e : List Token} (h : Unbroken (endsElement false) false us) :
    IsElement us e ↔ e = us := by
  constructor
  · rintro (_ | ⟨he, hclosed, hsep⟩ | ⟨hu, hclosed, hsep, -⟩)
    · rfl
    · refine absurd h (not_unbroken_append_cons hclosed ?_)
      rcases hsep with hsep | hsep <;> simp [endsElement, hsep]
    · exact absurd h (not_unbroken_append_cons hclosed hsep)
  · rintro rfl
    exact .last h

/-- With one, the stretch in front of it is an element unless that is the name of a group, and all
others are those behind it. -/
theorem isElement_append_cons_iff {e : List Token} (hu : Unbroken (endsElement false) false us)
    (hclosed : bracketAfterAll false us = false) (ht : endsElement false t = true) :
    IsElement (us ++ t :: ts) e ↔ (e = us ∧ t.isSpecial ':' = false) ∨ IsElement ts e := by
  constructor
  · intro h
    generalize hxs : us ++ t :: ts = xs at h
    cases h with
    | last he =>
      rw [← hxs] at he
      exact absurd he (not_unbroken_append_cons hclosed ht)
    | @first _ _ separator he heclosed hsep =>
      have hends : endsElement false separator = true := by
        rcases hsep with hsep | hsep
        · exact endsElement_of_isSpecial_comma hsep
        · exact endsElement_of_isSpecial_semicolon false hsep
      obtain ⟨rfl, rfl, rfl⟩ := append_cons_inj_of_unbroken hu hclosed ht he heclosed hends hxs
      refine Or.inl ⟨rfl, ?_⟩
      rcases hsep with hsep | hsep <;> exact Token.isSpecial_eq_false hsep (by decide)
    | behind hvs hvsclosed hsep hrest =>
      obtain ⟨rfl, rfl, rfl⟩ := append_cons_inj_of_unbroken hu hclosed ht hvs hvsclosed hsep hxs
      exact Or.inr hrest
  · rintro (⟨rfl, hcolon⟩ | h)
    · refine .first hu hclosed ?_
      simpa [endsElement, hcolon, or_comm] using ht
    · exact .behind hu hclosed ht h

/-- Without a separator there is no colon that could be nested. -/
theorem not_nestedColon_of_unbroken {colon : Token} (h : Unbroken (endsElement false) false us) :
    ¬NestedColon us colon := by
  rintro (⟨hu, hclosed, hopener, -⟩ | ⟨hu, hclosed, hsep, -⟩)
  · exact not_unbroken_append_cons hclosed (endsElement_of_isSpecial_colon false hopener) h
  · exact not_unbroken_append_cons hclosed hsep h

/-- A colon is nested in the group that opens at the first separator, or behind that separator. -/
theorem nestedColon_append_cons_iff {colon : Token} (hu : Unbroken (endsElement false) false us)
    (hclosed : bracketAfterAll false us = false) (ht : endsElement false t = true) :
    NestedColon (us ++ t :: ts) colon ↔
      (t.isSpecial ':' = true ∧ colon.isSpecial ':' = true ∧ ∃ members rest,
        ts = members ++ colon :: rest ∧ Unbroken (endsElement true) false members ∧
          bracketAfterAll false members = false) ∨ NestedColon ts colon := by
  constructor
  · intro h
    generalize hxs : us ++ t :: ts = xs at h
    cases h with
    | inGroup hvs hvsclosed hopener hmembers hmclosed hcolon =>
      obtain ⟨rfl, rfl, rfl⟩ := append_cons_inj_of_unbroken hu hclosed ht hvs hvsclosed
        (endsElement_of_isSpecial_colon false hopener) hxs
      exact Or.inl ⟨hopener, hcolon, _, _, rfl, hmembers, hmclosed⟩
    | behind hvs hvsclosed hsep hrest =>
      obtain ⟨rfl, rfl, rfl⟩ := append_cons_inj_of_unbroken hu hclosed ht hvs hvsclosed hsep hxs
      exact Or.inr hrest
  · rintro (⟨ht, hcolon, members, rest, rfl, hmembers, hmclosed⟩ | h)
    · exact .inGroup hu hclosed ht hmembers hmclosed hcolon
    · exact .behind hu hclosed ht h

/-! ### Members of a group -/

/-- Where more tokens are separators, fewer stretches are without one. -/
theorem Unbroken.imp {sep sep' : Token → Bool} {bracket : Bool} (h : Unbroken sep bracket us)
    (hsep : ∀ t, sep' t = true → sep t = true) : Unbroken sep' bracket us := by
  induction us generalizing bracket with
  | nil => trivial
  | cons u us ih => exact ⟨fun hu ↦ h.1 (hsep u hu), ih h.2⟩

/-- What has no separator of a list has no comma. -/
theorem splitMailboxes_eq_singleton (h : Unbroken (endsElement false) false us) :
    splitMailboxes false us = [us] := by
  refine splitMailboxes_of_unbroken (h.imp fun t ht ↦ ?_)
  exact endsElement_of_isSpecial_comma ht

/-- Stretches without a separator, with commas between them. -/
inductive CommaSeparated : List Token → Prop
  | last {us : List Token} : Unbroken (endsElement false) false us → CommaSeparated us
  | comma {us ts : List Token} {comma : Token} : Unbroken (endsElement false) false us →
      bracketAfterAll false us = false → comma.isSpecial ',' = true → CommaSeparated ts →
      CommaSeparated (us ++ comma :: ts)

theorem bracketAfter_of_isSpecial_comma (bracket : Bool) (h : t.isSpecial ',' = true) :
    bracketAfter bracket t = bracket := by
  have hk := Token.isSpecial_iff.1 h
  simp [bracketAfter, Token.isSpecial, hk]

/-- The inside of a group has no other separators than commas. -/
theorem commaSeparated_of_unbroken (h : Unbroken (endsElement true) false us) :
    CommaSeparated us := by
  induction hn : us.length using Nat.strong_induction_on generalizing us with
  | _ n ih =>
    rcases unbroken_or_exists (endsElement false) false us with
      hu | ⟨first, t, rest, rfl, hfirst, hclosed, ht⟩
    · exact .last hu
    obtain ⟨-, hmember, hrest⟩ := unbroken_append.1 h
    rw [hclosed] at hmember hrest
    have hcomma : t.isSpecial ',' = true := by
      rw [← Bool.not_eq_false]
      intro hc
      have hends : endsElement true t = true := by simpa [endsElement, hc] using ht
      cases hmember hends
    rw [bracketAfter_of_isSpecial_comma false hcomma] at hrest
    have hlt : rest.length < n := by
      simp only [← hn, List.length_append, List.length_cons]
      omega
    exact .comma hfirst hclosed hcomma (ih _ hlt hrest rfl)

/-- Splitting a list whose separators are commas is splitting the members of a group. -/
theorem CommaSeparated.split_eq {s : Strictness} (h : CommaSeparated us) :
    Element.split s us = pure ((splitMailboxes false us).map .mailboxes) := by
  have := Reported.lawfulMonad Recovery
  induction h with
  | last hu =>
    rw [Element.split_of_unbroken hu, splitMailboxes_eq_singleton hu]
    rfl
  | comma hu hclosed hcomma _ ih =>
    have hmember := hu.imp fun _ ↦ endsElement_of_isSpecial_comma
    rw [Element.split_comma hu hclosed hcomma, ih, pure_bind,
      splitMailboxes_append_comma hmember hclosed hcomma, List.map_cons]

/-- The addresses of elements without groups are those of their mailboxes. -/
theorem addressesOf_mailboxes (s : Strictness) (runs : List (List Token)) :
    addressesOf s (runs.map .mailboxes) = mailboxesOfAll s runs := by
  induction runs with
  | nil => rfl
  | cons run runs ih =>
    rw [List.map_cons, addressesOf, mailboxesOfAll, ih]
    rfl

/-- Members of a group are read like a list of mailboxes. -/
theorem addressList_members {s : Strictness} (h : Unbroken (endsElement true) false us) :
    addressList s us = mailboxesOfAll s (splitMailboxes false us) := by
  have := Reported.lawfulMonad Recovery
  rw [addressList, (commaSeparated_of_unbroken h).split_eq, pure_bind, addressesOf_mailboxes]

section

variable {e : List Token} {comma semicolon colon : Token}

/-- A comma ends an element. -/
theorem isElement_comma_iff (hu : Unbroken (endsElement false) false us)
    (hclosed : bracketAfterAll false us = false) (hcomma : comma.isSpecial ',' = true) :
    IsElement (us ++ comma :: ts) e ↔ e = us ∨ IsElement ts e := by
  have hcolon := Token.isSpecial_eq_false hcomma (show ',' ≠ ':' by decide)
  rw [isElement_append_cons_iff hu hclosed (endsElement_of_isSpecial_comma hcomma), hcolon]
  simp

/-- And so it ends a member. -/
theorem mem_splitMailboxes_comma_iff (hu : Unbroken (endsElement false) false us)
    (hclosed : bracketAfterAll false us = false) (hcomma : comma.isSpecial ',' = true) :
    e ∈ splitMailboxes false (us ++ comma :: ts) ↔ e = us ∨ e ∈ splitMailboxes false ts := by
  rw [splitMailboxes_append_comma (hu.imp fun _ ↦ endsElement_of_isSpecial_comma) hclosed hcomma,
    List.mem_cons]

/-- A colon behind a comma is as nested as without what is in front. -/
theorem nestedColon_comma_iff (hu : Unbroken (endsElement false) false us)
    (hclosed : bracketAfterAll false us = false) (hcomma : comma.isSpecial ',' = true) :
    NestedColon (us ++ comma :: ts) colon ↔ NestedColon ts colon := by
  have hcolon := Token.isSpecial_eq_false hcomma (show ',' ≠ ':' by decide)
  rw [nestedColon_append_cons_iff hu hclosed (endsElement_of_isSpecial_comma hcomma), hcolon]
  simp

/-- What stands inside a group up to the end are its members, and no colon is nested there. -/
theorem CommaSeparated.isElement_iff (h : CommaSeparated us) :
    IsElement us e ↔ e ∈ splitMailboxes false us := by
  induction h with
  | last hu =>
    rw [isElement_iff_of_unbroken hu, splitMailboxes_eq_singleton hu, List.mem_singleton]
  | comma hu hclosed hcomma _ ih =>
    rw [isElement_comma_iff hu hclosed hcomma, mem_splitMailboxes_comma_iff hu hclosed hcomma, ih]

/-- Where there are only commas, no colon is nested. -/
theorem CommaSeparated.not_nestedColon (h : CommaSeparated us) : ¬NestedColon us colon := by
  induction h with
  | last hu => exact not_nestedColon_of_unbroken hu
  | comma hu hclosed hcomma _ ih => rwa [nestedColon_comma_iff hu hclosed hcomma]

/-- Behind a group that is closed the list goes on. -/
theorem CommaSeparated.isElement_semicolon_iff (h : CommaSeparated us)
    (hclosed : bracketAfterAll false us = false) (hsemi : semicolon.isSpecial ';' = true) :
    IsElement (us ++ semicolon :: ts) e ↔ e ∈ splitMailboxes false us ∨ IsElement ts e := by
  induction h with
  | last hu =>
    have hcolon := Token.isSpecial_eq_false hsemi (show ';' ≠ ':' by decide)
    rw [isElement_append_cons_iff hu hclosed (endsElement_of_isSpecial_semicolon false hsemi),
      splitMailboxes_eq_singleton hu, List.mem_singleton, hcolon]
    simp
  | comma hu huclosed hcomma _ ih =>
    rw [bracketAfterAll_append, huclosed, bracketAfterAll_cons,
      bracketAfter_of_isSpecial_comma false hcomma] at hclosed
    rw [List.append_assoc, List.cons_append, isElement_comma_iff hu huclosed hcomma,
      mem_splitMailboxes_comma_iff hu huclosed hcomma, ih hclosed, or_assoc]

/-- The semicolon of a group ends it, and from there on no colon is nested in it. -/
theorem CommaSeparated.nestedColon_semicolon_iff (h : CommaSeparated us)
    (hclosed : bracketAfterAll false us = false) (hsemi : semicolon.isSpecial ';' = true) :
    NestedColon (us ++ semicolon :: ts) colon ↔ NestedColon ts colon := by
  induction h with
  | last hu =>
    have hcolon := Token.isSpecial_eq_false hsemi (show ';' ≠ ':' by decide)
    rw [nestedColon_append_cons_iff hu hclosed (endsElement_of_isSpecial_semicolon false hsemi),
      hcolon]
    simp
  | comma hu huclosed hcomma _ ih =>
    rw [bracketAfterAll_append, huclosed, bracketAfterAll_cons,
      bracketAfter_of_isSpecial_comma false hcomma] at hclosed
    rw [List.append_assoc, List.cons_append, nestedColon_comma_iff hu huclosed hcomma, ih hclosed]

variable {members : List Token} {opener : Token}

/-- The name of a group is no element. -/
theorem isElement_colon_iff (hu : Unbroken (endsElement false) false us)
    (hclosed : bracketAfterAll false us = false) (hcolon : colon.isSpecial ':' = true) :
    IsElement (us ++ colon :: ts) e ↔ IsElement ts e := by
  rw [isElement_append_cons_iff hu hclosed (endsElement_of_isSpecial_colon false hcolon), hcolon]
  simp

/-- In a group that is left open no colon is nested. -/
theorem not_nestedColon_open (hu : Unbroken (endsElement false) false us)
    (hclosed : bracketAfterAll false us = false) (hopener : opener.isSpecial ':' = true)
    (hmembers : Unbroken (endsElement true) false members) :
    ¬NestedColon (us ++ opener :: members) colon := by
  rw [nestedColon_append_cons_iff hu hclosed (endsElement_of_isSpecial_colon false hopener)]
  rintro (⟨-, hcolon, first, rest, rfl, -, hfclosed⟩ | h)
  · exact not_unbroken_append_cons hfclosed (endsElement_of_isSpecial_colon true hcolon) hmembers
  · exact (commaSeparated_of_unbroken hmembers).not_nestedColon h

/-- A colon that is nested stands behind a group that is closed. -/
theorem nestedColon_group_iff (hu : Unbroken (endsElement false) false us)
    (hclosed : bracketAfterAll false us = false) (hopener : opener.isSpecial ':' = true)
    (hmembers : Unbroken (endsElement true) false members)
    (hmclosed : bracketAfterAll false members = false) (hsemi : semicolon.isSpecial ';' = true) :
    NestedColon (us ++ opener :: (members ++ semicolon :: ts)) colon ↔ NestedColon ts colon := by
  rw [nestedColon_append_cons_iff hu hclosed (endsElement_of_isSpecial_colon false hopener),
    (commaSeparated_of_unbroken hmembers).nestedColon_semicolon_iff hmclosed hsemi, or_iff_right]
  rintro ⟨-, hcolon, first, rest, heq, hfirst, hfclosed⟩
  obtain ⟨-, rfl, -⟩ := append_cons_inj_of_unbroken hmembers hmclosed
    (endsElement_of_isSpecial_semicolon true hsemi) hfirst hfclosed
    (endsElement_of_isSpecial_colon true hcolon) heq
  rw [Token.isSpecial_eq_false hsemi (by decide)] at hcolon
  cases hcolon

end

end InternetMail
