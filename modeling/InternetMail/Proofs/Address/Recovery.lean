import InternetMail.Proofs.Address.Elements
import InternetMail.Proofs.Address.OpenLiteral

/-!
# What cannot be put right in incoming mail

In incoming mail a list of addresses is read whatever is left open in it, strays or is missing, but
for three things. A domain literal that is not closed would take in the rest of the list. A colon in
a group that is open could begin another one. And a sign `@` right behind an opening bracket begins
a route, which cannot be told from an address if no colon ends it.

`Unrecoverable t f` says where one of these stands in a text, in terms of the tokens and of the
separators among them. The reading of the text fails if there is one, and then with a fault of that
sort (`outcome_parseList_parseHeader`). A text can have several such faults, and which of them it is
that is found first depends on the order of the reader's steps; nothing is said about that.

The reader splits a list first and reads its elements then, and a group in it by splitting and
reading once more. What keeps a list from being read is therefore said by its parts: elements with a
bad bracket, at any depth, and colons of nested groups (`unreadable_iff`). By induction on the
elements the reading fails as this says (`failsAs_addressList`), where `FailsAs` leaves open which
of several faults comes first. At the first separator there are three ways to go on: behind a comma
or a stray semicolon, behind a group, and not at all if the group stays open or has a colon in it.
-/

namespace InternetMail

open Reported

variable {us ts : List Token} {t : Token} {f : SyntaxFault}

/-- The words of an element have the sign `@` right behind their first opening angle bracket, and no
colon between that and the closing bracket or the end. -/
inductive HopWithoutColon : List Token → Token → Prop
  | intro {phrase hop after : List Token} {left sign : Token} :
      (∀ u ∈ phrase, u.isSpecial '<' = false) → left.isSpecial '<' = true →
      sign.isSpecial '@' = true →
      (∀ u ∈ hop, u.isSpecial ':' = false ∧ u.isSpecial '>' = false) →
      (∀ u ∈ after.head?, u.isSpecial '>' = true) →
      HopWithoutColon (phrase ++ left :: sign :: (hop ++ after)) sign

/-- What keeps the tokens of a list from being read in incoming mail, with the token at which it is
noticed. -/
inductive Unreadable (ts : List Token) : SyntaxFault → Prop
  | nestedColon {colon : Token} : NestedColon ts colon → Unreadable ts (colon.fault .nestedGroup)
  | hopWithoutColon {e : List Token} {sign : Token} : IsElement ts e →
      HopWithoutColon (wordsOf e) sign → Unreadable ts (sign.fault .unexpectedToken)

/-! ### Mailboxes -/

/-- A route cannot be split off if it has no colon: the fault is at its sign. -/
theorem splitRoute_eq_error_iff {inner : List Token} :
    splitRoute inner = .error f ↔
      ∃ sign hop, inner = sign :: hop ∧ sign.isSpecial '@' = true ∧
        (∀ u ∈ hop, u.isSpecial ':' = false) ∧ f = sign.fault .unexpectedToken := by
  cases inner with
  | nil => simp [splitRoute]
  | cons sign hop =>
    cases hsign : sign.isSpecial '@' with
    | false =>
      simp only [splitRoute, hsign, Bool.false_eq_true, if_false, reduceCtorEq, false_iff]
      rintro ⟨_, _, heq, hsign', -⟩
      cases heq
      rw [hsign] at hsign'
      cases hsign'
    | true =>
      have hcolon := Token.isSpecial_eq_false hsign (show '@' ≠ ':' by decide)
      cases hd : hop.dropWhile (!·.isSpecial ':') with
      | nil =>
        have hnone : ∀ u ∈ hop, u.isSpecial ':' = false := by simpa using hd
        simp only [splitRoute, hsign, if_true, List.dropWhile_cons, hcolon, Bool.not_false, hd,
          Except.error.injEq]
        constructor
        · rintro rfl
          exact ⟨sign, hop, rfl, hsign, hnone, rfl⟩
        · rintro ⟨_, _, heq, -, -, rfl⟩
          cases heq
          rfl
      | cons colon spec =>
        obtain ⟨hhop, -, hc⟩ := Run.dropWhile_eq_cons_iff.1 ⟨hd, rfl⟩
        simp only [splitRoute, hsign, if_true, List.dropWhile_cons, hcolon, Bool.not_false, hd,
          reduceCtorEq, false_iff]
        rintro ⟨_, _, heq, -, hnone, -⟩
        cases heq
        have hmem : colon ∈ hop := by
          rw [hhop]
          simp
        simp [hnone colon hmem] at hc

/-- Nothing else in brackets is refused, as an address may be missing or of any form. -/
theorem bracketed_parseHeader_eq_error_iff (bracket : Token) {inner : List Token} :
    bracketed .parseHeader bracket inner = .error f ↔ splitRoute inner = .error f := by
  rw [bracketed, bind_eq_error_iff, or_iff_left]
  rintro ⟨⟨route, spec⟩, -, h⟩
  cases hspec : spec.isEmpty with
  | true =>
    simp only [hspec, if_true] at h
    cases h
  | false =>
    simp only [hspec] at h
    cases h

/-- In angle brackets only a hop without its colon is refused. -/
theorem outcome_bracketMailbox_parseHeader_eq_error_iff {all phrase after : List Token}
    {bracket : Token} :
    outcome (bracketMailbox .parseHeader all phrase bracket after) = .error f ↔
      splitRoute (after.takeWhile (!·.isSpecial '>')) = .error f := by
  have hname (spec : Text) : ¬(do
      let name ← nameInBrackets .parseHeader all phrase
      return ⟨spec, name⟩ : Except SyntaxFault Address) = .error f := by
    rw [nameInBrackets]
    split
    · rintro ⟨⟩
    · rintro ⟨⟩
  rw [outcome_bracketMailbox, checkBrackets_parseHeader, ok_bind, bind_eq_error_iff,
    bracketed_parseHeader_eq_error_iff, or_iff_left]
  rintro ⟨spec, -, h⟩
  exact hname spec h

/-- Such a hop by the reader's own steps: the first opening bracket, and the tokens behind it up to
a closing one. -/
theorem hopWithoutColon_iff {ws : List Token} {sign : Token} :
    HopWithoutColon ws sign ↔ ∃ left after hop, ws.dropWhile (!·.isSpecial '<') = left :: after ∧
      after.takeWhile (!·.isSpecial '>') = sign :: hop ∧ sign.isSpecial '@' = true ∧
      ∀ u ∈ hop, u.isSpecial ':' = false := by
  constructor
  · rintro ⟨hphrase, hleft, hsign, hhop, hafter⟩
    rename_i phrase hop after left
    have hright := Token.isSpecial_eq_false hsign (show '@' ≠ '>' by decide)
    refine ⟨left, sign :: (hop ++ after), hop,
      Run.dropWhile_append_cons _ (by simpa using hphrase) (by simpa using hleft), ?_, hsign,
      fun u hu ↦ (hhop u hu).1⟩
    rw [List.takeWhile_cons_of_pos (by simp [hright]),
      List.takeWhile_append_of_pos fun u hu ↦ by simp [(hhop u hu).2]]
    cases after with
    | nil => simp
    | cons right after => simp [hafter right rfl]
  · rintro ⟨left, after, hop, hd, htake, hsign, hcolon⟩
    obtain ⟨hws, hphrase, hleft⟩ := Run.dropWhile_eq_cons_iff.1 ⟨hd, rfl⟩
    have hafter := List.takeWhile_append_dropWhile (p := (!·.isSpecial '>')) (l := after)
    rw [hws, ← hafter, htake, List.cons_append]
    refine .intro (by simpa using hphrase) (by simpa using hleft) hsign ?_ ?_
    · intro u hu
      have hinner : u ∈ after.takeWhile (!·.isSpecial '>') := by
        rw [htake]
        exact List.mem_cons_of_mem sign hu
      exact ⟨hcolon u hu, by simpa using List.mem_takeWhile_imp hinner⟩
    · intro right hright
      have := List.head?_dropWhile_not (!·.isSpecial '>') after
      rw [hright] at this
      simpa using this

/-- An element is refused exactly if its first bracket begins with a hop that has no colon. -/
theorem outcome_mailboxesOf_parseHeader_eq_error_iff :
    outcome (mailboxesOf .parseHeader ts) = .error f ↔
      ∃ sign, HopWithoutColon (wordsOf ts) sign ∧ f = sign.fault .unexpectedToken := by
  simp only [mailboxesOf, hopWithoutColon_iff]
  generalize wordsOf ts = ws
  cases hd : ws.dropWhile (!·.isSpecial '<') with
  | nil =>
    simp only [reduceCtorEq, false_and, exists_false, iff_false, if_false]
    split
    · simp
    · simp [addrSpec]
  | cons left after =>
    have hne : ws.isEmpty = false := by
      cases ws with
      | nil => cases hd
      | cons w ws => rfl
    simp only [hne, Bool.false_eq_true, if_false, outcome_bind, outcome_pure, bind_eq_error_iff,
      reduceCtorEq, and_false, exists_false, or_false, splitRoute_eq_error_iff,
      outcome_bracketMailbox_parseHeader_eq_error_iff, List.cons.injEq]
    constructor
    · rintro ⟨sign, hop, hinner, hsign, hcolon, rfl⟩
      exact ⟨sign, ⟨left, after, hop, ⟨rfl, rfl⟩, hinner, hsign, hcolon⟩, rfl⟩
    · rintro ⟨sign, ⟨_, _, hop, ⟨rfl, rfl⟩, hinner, hsign, hcolon⟩, rfl⟩
      exact ⟨sign, hop, hinner, hsign, hcolon, rfl⟩

/-! ### Where incoming mail goes on -/

namespace Element

/-- A comma or a semicolon ends an element. -/
theorem outcome_split_parseHeader_append_cons (hu : Unbroken (endsElement false) false us)
    (hclosed : bracketAfterAll false us = false) (ht : endsElement false t = true)
    (hcolon : t.isSpecial ':' = false) :
    outcome (split .parseHeader (us ++ t :: ts)) =
      (outcome (split .parseHeader ts)).map (.mailboxes us :: ·) := by
  have hsep : t.isSpecial ';' = true ∨ t.isSpecial ',' = true := by
    simpa [endsElement, hcolon] using ht
  rcases hsep with hsemi | hcomma
  · rw [split, splitFrom_append .parseHeader none hu, hclosed, List.nil_append,
      outcome_splitFrom_semicolon hsemi, split]
    cases outcome (splitFrom .parseHeader [] none false ts) <;> rfl
  · rw [split_comma hu hclosed hcomma, outcome_bind]
    cases outcome (split .parseHeader ts) <;> rfl

/-- A group that is closed ends an element. -/
theorem outcome_split_group {s : Strictness} {members : List Token} {colon semicolon : Token}
    (hu : Unbroken (endsElement false) false us) (hclosed : bracketAfterAll false us = false)
    (hcolon : colon.isSpecial ':' = true) (hmembers : Unbroken (endsElement true) false members)
    (hmclosed : bracketAfterAll false members = false)
    (hsemi : semicolon.isSpecial ';' = true) :
    outcome (split s (us ++ colon :: (members ++ semicolon :: ts))) =
      (outcome (split s ts)).map (.group us colon members (some semicolon) :: ·) := by
  rw [split_colon hu hclosed hcolon, splitFrom_semicolon hmembers hmclosed hsemi, outcome_bind]
  cases outcome (split s ts) <;> rfl

/-- A group that is left open ends with the list. -/
theorem outcome_split_parseHeader_open {members : List Token} {colon : Token}
    (hu : Unbroken (endsElement false) false us) (hclosed : bracketAfterAll false us = false)
    (hcolon : colon.isSpecial ':' = true) (hmembers : Unbroken (endsElement true) false members) :
    outcome (split .parseHeader (us ++ colon :: members)) = .ok [.group us colon members none] := by
  have := splitFrom_append .parseHeader (some ⟨us, colon⟩) hmembers [] []
  simp only [List.append_nil, List.nil_append] at this
  rw [split_colon hu hclosed hcolon, this, splitFrom]
  rfl

/-- A colon is refused while a group is open. -/
theorem outcome_split_nested {s : Strictness} {members : List Token} {colon colon' : Token}
    (hu : Unbroken (endsElement false) false us) (hclosed : bracketAfterAll false us = false)
    (hcolon : colon.isSpecial ':' = true) (hmembers : Unbroken (endsElement true) false members)
    (hmclosed : bracketAfterAll false members = false) (hcolon' : colon'.isSpecial ':' = true) :
    outcome (split s (us ++ colon :: (members ++ colon' :: ts))) =
      .error (colon'.fault .nestedGroup) := by
  rw [split_colon hu hclosed hcolon, splitFrom_append s (some ⟨us, colon⟩) hmembers, hmclosed,
    outcome_splitFrom_colon hcolon']

end Element

/-! ### Lists by their parts -/

/-- Members are read one after another, and the reading fails with a fault of one of them. -/
theorem failsAs_mailboxesOfAll (s : Strictness) (runs : List (List Token)) :
    FailsAs (outcome (mailboxesOfAll s runs)) fun f ↦
      ∃ run ∈ runs, outcome (mailboxesOf s run) = .error f := by
  induction runs with
  | nil => exact (FailsAs.ok []).congr fun f ↦ by simp
  | cons run runs ih =>
    simp only [mailboxesOfAll, outcome_bind, outcome_pure]
    exact ((FailsAs.self _).bind fun as ↦ ih.bind_ok (as ++ ·)).congr fun f ↦ by simp

/-- A group fails as its members do. -/
theorem failsAs_groupAddress (phrase members : List Token) (colon : Token) (close : Option Token) :
    FailsAs (outcome (groupAddress .parseHeader phrase colon members close)) fun f ↦
      ∃ run ∈ splitMailboxes false members, outcome (mailboxesOf .parseHeader run) = .error f := by
  have hname : checkGroupName .parseHeader phrase colon = .ok () := rfl
  simp only [groupAddress, hname, outcome_bind, outcome_liftExcept, ok_bind, outcome_pure]
  exact (failsAs_mailboxesOfAll .parseHeader _).bind_ok _

/-- A list with one element more fails as that element and the rest do. The rest is taken apart
before the addresses of the element are read. -/
theorem failsAs_addressList_of_split {s : Strictness} {ts' : List Token} {e : Element}
    {P Q : SyntaxFault → Prop}
    (hsplit : outcome (Element.split s ts') = (outcome (Element.split s ts)).map (e :: ·))
    (he : FailsAs (outcome (e.addresses s)) P) (hts : FailsAs (outcome (addressList s ts)) Q) :
    FailsAs (outcome (addressList s ts')) fun f ↦ P f ∨ Q f := by
  simp only [addressList, outcome_bind, hsplit] at hts ⊢
  cases hes : outcome (Element.split s ts) with
  | error f' =>
    rw [hes] at hts
    exact ⟨fun _ h ↦ Or.inr (hts.of_error h), fun _ _ ↦ ⟨f', rfl⟩⟩
  | ok es =>
    rw [hes] at hts
    simp only [Except.map, ok_bind, addressesOf, outcome_bind, outcome_pure] at hts ⊢
    exact he.bind fun as ↦ hts.bind_ok (as ++ ·)

/-- A list without separators is one element. -/
theorem outcome_addressList_of_unbroken_eq (hu : Unbroken (endsElement false) false us) :
    outcome (addressList .parseHeader us) = outcome (mailboxesOf .parseHeader us) := by
  rw [addressList, Element.split_of_unbroken hu, outcome_bind, outcome_pure, ok_bind]
  simp only [addressesOf, Element.addresses, outcome_bind, outcome_pure, ok_bind, List.append_nil]
  cases outcome (mailboxesOf .parseHeader us) <;> rfl

/-! ### What keeps a list from being read, by its parts -/

/-- What keeps a list from being read is a nested colon, or an element that cannot be read. -/
theorem unreadable_iff : Unreadable ts f ↔
    (∃ colon, NestedColon ts colon ∧ f = colon.fault .nestedGroup) ∨
      ∃ e, IsElement ts e ∧ outcome (mailboxesOf .parseHeader e) = .error f := by
  simp only [outcome_mailboxesOf_parseHeader_eq_error_iff]
  constructor
  · rintro (h | ⟨he, hhop⟩)
    · exact Or.inl ⟨_, h, rfl⟩
    · exact Or.inr ⟨_, he, _, hhop, rfl⟩
  · rintro (⟨colon, h, rfl⟩ | ⟨e, he, sign, hhop, rfl⟩)
    · exact .nestedColon h
    · exact .hopWithoutColon he hhop

section

variable {colon semicolon : Token} {members : List Token}

/-- Without a separator it is the element. -/
theorem unreadable_iff_of_unbroken (hu : Unbroken (endsElement false) false us) :
    Unreadable us f ↔ outcome (mailboxesOf .parseHeader us) = .error f := by
  simp [unreadable_iff, isElement_iff_of_unbroken hu, not_nestedColon_of_unbroken hu]

/-- With one that opens no group it is the first element or something behind it. -/
theorem unreadable_append_cons_iff (hu : Unbroken (endsElement false) false us)
    (hclosed : bracketAfterAll false us = false) (ht : endsElement false t = true)
    (hcolon : t.isSpecial ':' = false) :
    Unreadable (us ++ t :: ts) f ↔
      outcome (mailboxesOf .parseHeader us) = .error f ∨ Unreadable ts f := by
  simp only [unreadable_iff, isElement_append_cons_iff hu hclosed ht,
    nestedColon_append_cons_iff hu hclosed ht, hcolon, Bool.false_eq_true, false_and, false_or,
    and_true, or_and_right, exists_or, exists_eq_left]
  exact or_left_comm

/-- In a group that stays open it is one of the members. -/
theorem unreadable_open_iff (hu : Unbroken (endsElement false) false us)
    (hclosed : bracketAfterAll false us = false) (hcolon : colon.isSpecial ':' = true)
    (hmembers : Unbroken (endsElement true) false members) :
    Unreadable (us ++ colon :: members) f ↔
      ∃ run ∈ splitMailboxes false members, outcome (mailboxesOf .parseHeader run) = .error f := by
  simp [unreadable_iff, not_nestedColon_open hu hclosed hcolon hmembers,
    isElement_colon_iff hu hclosed hcolon, (commaSeparated_of_unbroken hmembers).isElement_iff]

/-- With a group it is one of the members or something behind the group. -/
theorem unreadable_group_iff (hu : Unbroken (endsElement false) false us)
    (hclosed : bracketAfterAll false us = false) (hcolon : colon.isSpecial ':' = true)
    (hmembers : Unbroken (endsElement true) false members)
    (hmclosed : bracketAfterAll false members = false) (hsemi : semicolon.isSpecial ';' = true) :
    Unreadable (us ++ colon :: (members ++ semicolon :: ts)) f ↔
      (∃ run ∈ splitMailboxes false members,
        outcome (mailboxesOf .parseHeader run) = .error f) ∨ Unreadable ts f := by
  simp only [unreadable_iff, nestedColon_group_iff hu hclosed hcolon hmembers hmclosed hsemi,
    isElement_colon_iff hu hclosed hcolon,
    (commaSeparated_of_unbroken hmembers).isElement_semicolon_iff hmclosed hsemi, or_and_right,
    exists_or]
  exact or_left_comm

end

/-! ### Lists -/

/-- In incoming mail a list fails for what keeps it from being read, and for nothing else. -/
theorem failsAs_addressList (ts : List Token) :
    FailsAs (outcome (addressList .parseHeader ts)) (Unreadable ts) := by
  have hgroup (phrase members : List Token) (colon : Token) (close : Option Token) :=
    (failsAs_groupAddress phrase members colon close).bind_ok fun a ↦ [a]
  induction ts using elements_induction with
  | unbroken us hu =>
    rw [outcome_addressList_of_unbroken_eq hu]
    exact (FailsAs.self _).congr fun f ↦ (unreadable_iff_of_unbroken hu).symm
  | ended us t ts hu hclosed ht hcolon ih =>
    exact (failsAs_addressList_of_split
      (Element.outcome_split_parseHeader_append_cons hu hclosed ht hcolon)
      (FailsAs.self (outcome (mailboxesOf .parseHeader us))) ih).congr fun f ↦
        (unreadable_append_cons_iff hu hclosed ht hcolon).symm
  | leftOpen us colon members hu hclosed hcolon hm =>
    have hsplit := Element.outcome_split_parseHeader_open hu hclosed hcolon hm
    simp only [addressList, outcome_bind, hsplit, ok_bind, addressesOf, Element.addresses,
      outcome_pure]
    exact ((hgroup us members colon none).bind_ok _).congr fun f ↦
      (unreadable_open_iff hu hclosed hcolon hm).symm
  | nested us colon members second ts hu hclosed hcolon hm hmclosed hsecond =>
    -- the second colon is the fault, before any element is read
    have hfault : outcome (addressList .parseHeader
        (us ++ colon :: (members ++ second :: ts))) = .error (second.fault .nestedGroup) := by
      rw [addressList, outcome_bind,
        Element.outcome_split_nested hu hclosed hcolon hm hmclosed hsecond]
      rfl
    refine ⟨fun f hf ↦ ?_, fun f _ ↦ ⟨_, hfault⟩⟩
    rw [hfault] at hf
    cases hf
    exact .nestedColon (.inGroup hu hclosed hcolon hm hmclosed hsecond)
  | group us colon members semicolon ts hu hclosed hcolon hm hmclosed hsemi ih =>
    have haddresses :
        outcome ((Element.group us colon members (some semicolon)).addresses .parseHeader) =
          (outcome (groupAddress .parseHeader us colon members (some semicolon)) >>=
            fun a ↦ .ok [a]) := by
      simp only [Element.addresses, outcome_bind, outcome_pure]
    exact (failsAs_addressList_of_split
      (Element.outcome_split_group hu hclosed hcolon hm hmclosed hsemi)
      (haddresses ▸ hgroup us members colon (some semicolon)) ih).congr fun f ↦
        (unreadable_group_iff hu hclosed hcolon hm hmclosed hsemi).symm

/-! ### Texts -/

/-- What keeps a text from being read in incoming mail: a domain literal that is begun and not
closed, a colon outside angle brackets in a group that is open, or a sign `@` that is the first
thing in the first brackets of an element and no colon ends the route that it begins. -/
inductive Unrecoverable (t : Text) : SyntaxFault → Prop
  | openLiteral {f : SyntaxFault} : OpenLiteral t f → Unrecoverable t f
  | unreadable {ts : List Token} {f : SyntaxFault} : tokenize .parseHeader t = .ok ts →
      Unreadable ts f → Unrecoverable t f

/-- The tokens come first: a text without them fails as it must, and any other as its tokens do. -/
theorem failsAs_readTokens (t : Text) :
    FailsAs (outcome (do addressList .parseHeader (← readTokens .parseHeader t)))
      (Unrecoverable t) := by
  rw [outcome_bind, outcome_readTokens]
  cases hts : tokenize .parseHeader t with
  | error f =>
    refine ⟨fun f' hf' ↦ ?_, fun _ _ ↦ ⟨f, rfl⟩⟩
    cases hf'
    exact .openLiteral (tokenize_parseHeader_eq_error_iff.1 hts)
  | ok ts =>
    refine (failsAs_addressList ts).congr fun f ↦ ⟨.unreadable hts, ?_⟩
    rintro (hopen | ⟨hts', h⟩)
    · rw [tokenize_parseHeader_eq_error_iff.2 hopen] at hts
      cases hts
    · rw [hts] at hts'
      cases hts'
      exact h

/-- **In incoming mail every list of addresses is read, but for one of three reasons.** The fault
names one that the text has, and the place where it stands; a text that has none is read. -/
theorem outcome_parseList_parseHeader (t : Text) :
    (∀ e, outcome (Address.parseList .parseHeader t) = .error e →
      ∃ f, e = .ofAddress (f.within .parseHeader t) ∧ Unrecoverable t f) ∧
    ((∃ f, Unrecoverable t f) → ∃ e, outcome (Address.parseList .parseHeader t) = .error e) := by
  have hread := failsAs_readTokens t
  simp only [Address.parseList, readingOf, outcome_restate, mapError_eq_error_iff]
  constructor
  · rintro _ ⟨f, hf, rfl⟩
    exact ⟨f, rfl, hread.of_error hf⟩
  · rintro ⟨f, hf⟩
    obtain ⟨f', hf'⟩ := hread.exists_error hf
    exact ⟨_, f', hf', rfl⟩

end InternetMail
