import InternetMail.Address.Parser
import InternetMail.Proofs.Address.Split
import InternetMail.Proofs.Address.Strict

/-!
# Lists that the strict reading accepts

`StrictList ts as` says how the tokens of a list, comments among them, make up its addresses. It
follows the productions of the grammar, and `outcome_addressList_strict` says that it is exactly
what the strict reading finds.

One direction takes a list apart at its first separator outside angle brackets. The other needs that
what the grammar derives has none there but those it says (`Mailbox.unbroken`, `Members.unbroken`).

What the derivation needs of separators is that they are commas, colons or semicolons
(`IsSeparator`), so the lemmas hold of those that end an element and of those that end a member,
where only commas do. The comments of a list are in it and are not derived. They are never
separators and open no bracket, so the two lists are unbroken together (`unbroken_wordsOf`).

The last section takes this to texts. Reading a text is finding its tokens, which may fail, and
reading these as a list, and the notices in between play no part in what is read
(`outcome_parseList_strict`, `outcome_parse_strict`).
-/

namespace InternetMail

open Reported Grammar

/-! ### Separators in what the grammar derives -/

/-- The test holds at most on commas, colons and semicolons. -/
def IsSeparator (sep : Token → Bool) : Prop :=
  ∀ t, sep t = true →
    t.isSpecial ',' = true ∨ t.isSpecial ':' = true ∨ t.isSpecial ';' = true

/-- What ends an element is a separator, in a group or outside. -/
theorem isSeparator_endsElement (inGroup : Bool) : IsSeparator (endsElement inGroup) := by
  intro t h
  simp only [endsElement, Bool.or_eq_true, Bool.and_eq_true] at h
  rcases h with (h | h) | ⟨h, -⟩ <;> simp [h]

theorem isSeparator_isComma : IsSeparator isComma :=
  fun _ h ↦ Or.inl h

/-- Other special characters are none. -/
theorem IsSeparator.eq_false_of_isSpecial {sep : Token → Bool} (hsep : IsSeparator sep)
    {t : Token} {c : Char} (ht : t.isSpecial c = true) (hcomma : c ≠ ',') (hcolon : c ≠ ':')
    (hsemi : c ≠ ';') : sep t = false := by
  rw [← Bool.not_eq_true]
  intro h
  rcases hsep t h with h | h | h
  · exact absurd h (by simp [Token.isSpecial_eq_false ht hcomma])
  · exact absurd h (by simp [Token.isSpecial_eq_false ht hcolon])
  · exact absurd h (by simp [Token.isSpecial_eq_false ht hsemi])

/-- Nor is a token that is none of the three. -/
theorem IsSeparator.eq_false {sep : Token → Bool} (hsep : IsSeparator sep) {t : Token}
    (ht : ∀ c ∈ [',', ':', ';'], t.isSpecial c = false) : sep t = false := by
  rw [← Bool.not_eq_true]
  intro h
  simp only [List.forall_mem_cons] at ht
  rcases hsep t h with h | h | h <;> simp_all

variable {sep : Token → Bool}

/-- Comments do not count. -/
theorem unbroken_wordsOf (hsep : IsSeparator sep) {bracket : Bool} {ts : List Token} :
    Unbroken sep bracket (wordsOf ts) ↔ Unbroken sep bracket ts := by
  induction ts generalizing bracket with
  | nil => rfl
  | cons t ts ih =>
    by_cases ht : t.isComment = true
    · have hno := Token.isSpecial_eq_false_of_isComment ht
      have hs : sep t = false := hsep.eq_false fun c _ ↦ hno c
      simp [wordsOf, ht, Unbroken, bracketAfter, hno, hs, ← ih]
    · simp [wordsOf, ht, Unbroken, ← ih]

/-- Comments open and close no bracket. -/
theorem bracketAfterAll_wordsOf {bracket : Bool} {ts : List Token} :
    bracketAfterAll bracket (wordsOf ts) = bracketAfterAll bracket ts := by
  induction ts generalizing bracket with
  | nil => rfl
  | cons t ts ih =>
    by_cases ht : t.isComment = true
    · have hno := Token.isSpecial_eq_false_of_isComment ht
      simp [wordsOf, ht, bracketAfter, hno, ← ih]
    · simp [wordsOf, ht, ← ih]

/-- Tokens that are neither separators nor brackets leave everything as it is. -/
theorem unbroken_of_forall {bracket : Bool} {ts : List Token} (hsep : ∀ t ∈ ts, sep t = false)
    (hleft : ∀ t ∈ ts, t.isSpecial '<' = false) (hright : ∀ t ∈ ts, t.isSpecial '>' = false) :
    Unbroken sep bracket ts ∧ bracketAfterAll bracket ts = bracket := by
  induction ts with
  | nil => simp [Unbroken]
  | cons t ts ih => simp_all [Unbroken, bracketAfter]

/-- Inside angle brackets everything goes but the closing one. -/
theorem unbroken_inside (sep : Token → Bool) {ts : List Token}
    (hright : ∀ t ∈ ts, t.isSpecial '>' = false) :
    Unbroken sep true ts ∧ bracketAfterAll true ts = true := by
  induction ts with
  | nil => simp [Unbroken]
  | cons t ts ih => simp_all [Unbroken, bracketAfter]

/-- Angle brackets in one element keep separators inside, and are closed at its end. -/
theorem unbroken_brackets (hsep : IsSeparator sep) {phrase inner : List Token} {left right : Token}
    (hphrase : Unbroken sep false phrase) (hclosed : bracketAfterAll false phrase = false)
    (hleft : left.isSpecial '<' = true) (hinner : ∀ t ∈ inner, t.isSpecial '>' = false)
    (hright : right.isSpecial '>' = true) :
    Unbroken sep false (phrase ++ left :: (inner ++ [right])) ∧
      bracketAfterAll false (phrase ++ left :: (inner ++ [right])) = false := by
  obtain ⟨hin, hopen⟩ := unbroken_inside sep hinner
  have hs := hsep.eq_false_of_isSpecial hleft (by decide) (by decide) (by decide)
  have hopens : bracketAfter false left = true := by simp [bracketAfter, hleft]
  have hcloses : bracketAfter true right = false := by
    simp [bracketAfter, hright, Token.isSpecial_eq_false hright (show '>' ≠ '<' by decide)]
  constructor
  · rw [unbroken_append, hclosed]
    refine ⟨hphrase, by simp [hs], ?_⟩
    rw [hopens, unbroken_append, hopen]
    exact ⟨hin, by simp, trivial⟩
  · rw [bracketAfterAll_append, hclosed, bracketAfterAll_cons, hopens, bracketAfterAll_append,
      hopen, bracketAfterAll_cons, hcloses, bracketAfterAll_nil]

namespace Grammar

/-- A phrase has words and periods in it, and neither separates. -/
theorem PhraseOrNone.unbroken (hsep : IsSeparator sep) {ws : List Token} (h : PhraseOrNone ws) :
    Unbroken sep false ws ∧ bracketAfterAll false ws = false := by
  refine unbroken_of_forall (fun t ht ↦ hsep.eq_false ?_) (h.isSpecial_eq_false (by decide))
    (h.isSpecial_eq_false (by decide))
  simp [h.isSpecial_eq_false (c := ',') (by decide) t ht,
    h.isSpecial_eq_false (c := ':') (by decide) t ht,
    h.isSpecial_eq_false (c := ';') (by decide) t ht]

/-- An addr-spec has no separator. -/
theorem AddrSpec.unbroken (hsep : IsSeparator sep) {ws : List Token} (h : AddrSpec ws) :
    Unbroken sep false ws ∧ bracketAfterAll false ws = false := by
  refine unbroken_of_forall (fun t ht ↦ hsep.eq_false ?_)
    (h.isSpecial_eq_false (by decide) (by decide)) (h.isSpecial_eq_false (by decide) (by decide))
  simp [h.isSpecial_eq_false (c := ',') (by decide) (by decide) t ht,
    h.isSpecial_eq_false (c := ':') (by decide) (by decide) t ht,
    h.isSpecial_eq_false (c := ';') (by decide) (by decide) t ht]

/-- A mailbox closes the brackets that it opens and has no separator outside of them. -/
theorem Mailbox.unbroken (hsep : IsSeparator sep) {ws phrase path : List Token}
    (h : Mailbox ws phrase path) : Unbroken sep false ws ∧ bracketAfterAll false ws = false := by
  cases h with
  | bare h => exact h.unbroken hsep
  | @bracketed _ route spec left right hphrase hleft hroute hspec hright =>
    obtain ⟨hu, hclosed⟩ := hphrase.unbroken hsep
    exact unbroken_brackets hsep hu hclosed hleft (hroute.isSpecial_append_eq_false hspec) hright

/-- A mailbox has its separators inside its brackets. -/
theorem MailboxOrNone.unbroken (hsep : IsSeparator sep) {ws : List Token} (h : MailboxOrNone ws) :
    Unbroken sep false ws ∧ bracketAfterAll false ws = false := by
  rcases h with rfl | ⟨_, _, h⟩
  · exact ⟨trivial, rfl⟩
  · exact h.unbroken hsep

/-- The members of a group have commas outside brackets, but no colon and no semicolon. -/
theorem Members.unbroken {ws : List Token} (h : Members ws) :
    Unbroken (endsElement true) false ws ∧ bracketAfterAll false ws = false := by
  induction h with
  | last h => exact h.unbroken (isSeparator_endsElement true)
  | @cons us ws comma h hcomma _ ih =>
    obtain ⟨hu, hclosed⟩ := h.unbroken (isSeparator_endsElement true)
    have hk := Token.isSpecial_iff.1 hcomma
    have hends : endsElement true comma = false := by simp [endsElement, Token.isSpecial, hk]
    have hafter : bracketAfter false comma = false := by
      simp [bracketAfter, Token.isSpecial, hk]
    constructor
    · rw [unbroken_append, hclosed]
      exact ⟨hu, by simp [hends], by rw [hafter]; exact ih.1⟩
    · rw [bracketAfterAll_append, hclosed, bracketAfterAll_cons, hafter]
      exact ih.2

end Grammar

/-! ### Members of a group -/

/-- What stands between the commas of a group are mailboxes or nothing exactly when the grammar
derives its members. -/
theorem forall_splitMailboxes_iff {ts : List Token} :
    (∀ run ∈ splitMailboxes false ts, MailboxOrNone (wordsOf run)) ↔ Members (wordsOf ts) := by
  constructor
  · -- on the length, for what is left behind a comma is no tail by the recursion of `ts`
    induction hn : ts.length using Nat.strong_induction_on generalizing ts with
    | _ n ih =>
      intro h
      rcases unbroken_or_exists isComma false ts with
        hu | ⟨us, comma, rest, rfl, hu, hclosed, hcomma⟩
      · rw [splitMailboxes_of_unbroken hu] at h
        exact .last (h ts (by simp))
      · rw [splitMailboxes_append_comma hu hclosed hcomma, List.forall_mem_cons] at h
        have hlt : rest.length < n := by
          simp only [← hn, List.length_append, List.length_cons]
          omega
        rw [wordsOf_append, wordsOf_cons_of_isSpecial hcomma]
        exact .cons h.1 hcomma (ih _ hlt rfl h.2)
  · generalize hws : wordsOf ts = ws
    intro h
    induction h generalizing ts with
    | last h =>
      have hu := (h.unbroken isSeparator_isComma).1
      rw [← hws, unbroken_wordsOf isSeparator_isComma] at hu
      rw [splitMailboxes_of_unbroken hu]
      simpa [hws] using h
    | cons h hcomma _ ih =>
      obtain ⟨us', ts', rfl, rfl, rfl⟩ := exists_of_wordsOf_eq_append_cons hws
      obtain ⟨hu, hclosed⟩ := h.unbroken isSeparator_isComma
      rw [unbroken_wordsOf isSeparator_isComma] at hu
      rw [bracketAfterAll_wordsOf] at hclosed
      rw [splitMailboxes_append_comma hu hclosed hcomma, List.forall_mem_cons]
      exact ⟨h, ih rfl⟩

/-! ### Lists -/

/-- The tokens of a group, comments among them. -/
inductive StrictGroup : List Token → Prop
  | intro {phrase members : List Token} {colon semicolon : Token} : Phrase (wordsOf phrase) →
      colon.isSpecial ':' = true → Members (wordsOf members) → semicolon.isSpecial ';' = true →
      StrictGroup (phrase ++ colon :: (members ++ [semicolon]))

/-- The tokens of a group end with its semicolon. -/
theorem StrictGroup.exists_eq_concat {ts : List Token} (h : StrictGroup ts) :
    ∃ us semicolon, ts = us ++ [semicolon] ∧ semicolon.isSpecial ';' = true := by
  cases h with
  | @intro phrase members colon semicolon _ _ _ hsemi =>
    exact ⟨phrase ++ colon :: members, semicolon, by simp, hsemi⟩

/-- The address that a group is. -/
def groupOf (ts : List Token) : Address :=
  ⟨sourceOf ts, .absent⟩

/-- The tokens of a list, comments among them, and the addresses that they make up. -/
inductive StrictList : List Token → List Address → Prop
  | none {ts : List Token} : wordsOf ts = [] → StrictList ts []
  | comma {us ts : List Token} {comma : Token} {as : List Address} : wordsOf us = [] →
      comma.isSpecial ',' = true → StrictList ts as → StrictList (us ++ comma :: ts) as
  | last {ts phrase path : List Token} : Mailbox (wordsOf ts) phrase path →
      StrictList ts [mailboxAddress ts phrase path]
  | mailbox {us ts phrase path : List Token} {comma : Token} {as : List Address} :
      Mailbox (wordsOf us) phrase path → comma.isSpecial ',' = true → StrictList ts as →
      StrictList (us ++ comma :: ts) (mailboxAddress us phrase path :: as)
  | group {us ts : List Token} {as : List Address} : StrictGroup us → StrictList ts as →
      StrictList (us ++ ts) (groupOf us :: as)

/-- What the strict reading finds is what the productions make up. -/
theorem StrictList.of_outcome {ts : List Token} {as : List Address}
    (h : outcome (addressList .strict ts) = .ok as) : StrictList ts as := by
  induction ts using elements_induction generalizing as with
  | unbroken us hu =>
    rw [outcome_addressList_of_unbroken hu, outcome_mailboxesOf_strict] at h
    rcases h with ⟨hws, rfl⟩ | ⟨phrase, path, hmailbox, rfl⟩
    · exact .none hws
    · exact .last hmailbox
  | ended us t ts hu hclosed ht hcolon ih =>
    have ht' : t.isSpecial ';' = true ∨ t.isSpecial ',' = true := by
      simpa [endsElement, hcolon] using ht
    rcases ht' with hsemi | hcomma
    · -- a semicolon without a group
      simp only [addressList, outcome_bind, bind_eq_ok_iff] at h
      obtain ⟨es, hes, -⟩ := h
      exact absurd hes (Element.outcome_split_strict_semicolon hu hclosed hsemi es)
    · obtain ⟨as₁, as₂, h₁, h₂, rfl⟩ := (outcome_addressList_comma hu hclosed hcomma).1 h
      rcases outcome_mailboxesOf_strict.1 h₁ with ⟨hws, rfl⟩ | ⟨phrase, path, hmailbox, rfl⟩
      · exact .comma hws hcomma (ih h₂)
      · exact .mailbox hmailbox hcomma (ih h₂)
  | leftOpen us colon members hu hclosed hcolon hm =>
    simp only [addressList, Element.split_colon hu hclosed hcolon, outcome_bind,
      bind_eq_ok_iff] at h
    obtain ⟨es, hes, -⟩ := h
    exact absurd hes (Element.outcome_splitFrom_strict_of_unbroken hm es)
  | nested us colon members second ts hu hclosed hcolon hm hmclosed hsecond =>
    simp only [addressList, Element.split_colon hu hclosed hcolon, outcome_bind,
      bind_eq_ok_iff] at h
    obtain ⟨es, hes, -⟩ := h
    exact absurd hes (Element.outcome_splitFrom_strict_colon hm hmclosed hsecond es)
  | group us colon members semicolon ts hu hclosed hcolon hm hmclosed hsemi ih =>
    obtain ⟨a, as', ha, hts, rfl⟩ :=
      (outcome_addressList_group hu hclosed hcolon hm hmclosed hsemi).1 h
    obtain ⟨hphrase, hmembers, rfl⟩ := outcome_groupAddress_strict.1 ha
    have hgroup : StrictGroup (us ++ colon :: (members ++ [semicolon])) :=
      .intro hphrase hcolon (forall_splitMailboxes_iff.1 hmembers) hsemi
    simpa [groupOf] using StrictList.group hgroup (ih hts)

/-- **A list that the productions make up is read**, as the addresses they say. By induction on the
list, at its first separator. -/
theorem StrictList.outcome {ts : List Token} {as : List Address} (h : StrictList ts as) :
    outcome (addressList .strict ts) = .ok as := by
  have hsep := isSeparator_endsElement false
  induction h with
  | none hws =>
    have hu : Unbroken (endsElement false) false _ :=
      (unbroken_wordsOf hsep).1 (by rw [hws]; trivial)
    exact (outcome_addressList_of_unbroken hu).2 (outcome_mailboxesOf_strict.2 (Or.inl ⟨hws, rfl⟩))
  | comma hws hcomma _ ih =>
    have hu : Unbroken (endsElement false) false _ :=
      (unbroken_wordsOf hsep).1 (by rw [hws]; trivial)
    have hclosed := bracketAfterAll_wordsOf.symm.trans (congrArg (bracketAfterAll false) hws)
    exact (outcome_addressList_comma hu hclosed hcomma).2
      ⟨[], _, outcome_mailboxesOf_strict.2 (Or.inl ⟨hws, rfl⟩), ih, rfl⟩
  | last hmailbox =>
    have hu := (unbroken_wordsOf hsep).1 (hmailbox.unbroken hsep).1
    exact (outcome_addressList_of_unbroken hu).2
      (outcome_mailboxesOf_strict.2 (Or.inr ⟨_, _, hmailbox, rfl⟩))
  | mailbox hmailbox hcomma _ ih =>
    have hu := (unbroken_wordsOf hsep).1 (hmailbox.unbroken hsep).1
    have hclosed := bracketAfterAll_wordsOf.symm.trans (hmailbox.unbroken hsep).2
    exact (outcome_addressList_comma hu hclosed hcomma).2
      ⟨_, _, outcome_mailboxesOf_strict.2 (Or.inr ⟨_, _, hmailbox, rfl⟩), ih, rfl⟩
  | group hgroup _ ih =>
    obtain ⟨hphrase, hcolon, hmembers, hsemi⟩ := hgroup
    have hp := PhraseOrNone.unbroken hsep (Or.inr hphrase)
    have hm := hmembers.unbroken
    rw [unbroken_wordsOf hsep, bracketAfterAll_wordsOf] at hp
    rw [unbroken_wordsOf (isSeparator_endsElement true), bracketAfterAll_wordsOf] at hm
    have hlist := (outcome_addressList_group hp.1 hp.2 hcolon hm.1 hm.2 hsemi).2
      ⟨_, _, outcome_groupAddress_strict.2
        ⟨hphrase, forall_splitMailboxes_iff.2 hmembers, rfl⟩, ih, rfl⟩
    simpa [groupOf] using hlist

/-- The strict reading accepts the tokens of a list exactly as the productions make it up. -/
theorem outcome_addressList_strict {ts : List Token} {as : List Address} :
    Reported.outcome (addressList .strict ts) = .ok as ↔ StrictList ts as :=
  ⟨StrictList.of_outcome, StrictList.outcome⟩

/-! ### Texts -/

/-- Notices do not make a reading fail. -/
theorem outcome_forM_note {ε ν : Type} (ns : List ν) :
    Reported.outcome (ns.forM note : ExceptT ε (Reported ν) Unit) = .ok () := by
  induction ns with
  | nil => rfl
  | cons n ns ih =>
    rw [List.forM_eq_forM] at ih ⊢
    rw [List.forM_cons, outcome_bind, outcome_note]
    exact ih

/-- The tokens of a text are found or a fault, and the notices about them make no difference. -/
theorem outcome_readTokens (s : Strictness) (t : Text) :
    Reported.outcome (readTokens s t) = tokenize s t := by
  rw [readTokens]
  simp only [outcome_bind, outcome_liftExcept, outcome_forM_note, outcome_pure]
  cases tokenize s t <;> rfl

/-- A text is read as its tokens are, at any strictness. -/
theorem outcome_readingOf_eq_ok_iff {α : Type} {s : Strictness} {t : Text}
    {x : List Token → Parsing α} {y : α} :
    Reported.outcome (readingOf s t do x (← readTokens s t)) = .ok y ↔
      ∃ ts, tokenize s t = .ok ts ∧ Reported.outcome (x ts) = .ok y := by
  rw [readingOf, outcome_restate, mapError_eq_ok_iff, outcome_bind, outcome_readTokens,
    bind_eq_ok_iff]

/-- The addresses of a text are those of its tokens. -/
theorem outcome_parseList {s : Strictness} {t : Text} {as : List Address} :
    Reported.outcome (Address.parseList s t) = .ok as ↔
      ∃ ts, tokenize s t = .ok ts ∧ Reported.outcome (addressList s ts) = .ok as :=
  outcome_readingOf_eq_ok_iff

/-- **Strict lists**: the tokens of the text, and what the grammar makes of them. -/
theorem outcome_parseList_strict {t : Text} {as : List Address} :
    Reported.outcome (Address.parseList .strict t) = .ok as ↔
      ∃ ts, tokenize .strict t = .ok ts ∧ StrictList ts as := by
  simp only [outcome_parseList, outcome_addressList_strict]

/-- There is one address and no other. -/
theorem onlyAddress_eq_ok_iff {ts : List Token} {as : List Address} {a : Address} :
    onlyAddress ts as = .ok a ↔ as = [a] := by
  rcases as with _ | ⟨b, _ | ⟨c, as⟩⟩ <;> simp [onlyAddress]

/-- The reading of exactly one address is that of a list of one. -/
theorem outcome_parse {s : Strictness} {t : Text} {a : Address} :
    Reported.outcome (Address.parse s t) = .ok a ↔
      ∃ ts, tokenize s t = .ok ts ∧ Reported.outcome (addressList s ts) = .ok [a] := by
  rw [Address.parse, outcome_readingOf_eq_ok_iff]
  simp only [outcome_bind, outcome_liftExcept, bind_eq_ok_iff, onlyAddress_eq_ok_iff,
    exists_eq_right]

/-- A single address is a list of one. -/
theorem outcome_parse_strict {t : Text} {a : Address} :
    Reported.outcome (Address.parse .strict t) = .ok a ↔
      ∃ ts, tokenize .strict t = .ok ts ∧ StrictList ts [a] := by
  simp only [outcome_parse, outcome_addressList_strict]

end InternetMail
