import InternetMail.Proofs.Address.Recovery

/-!
# Mailboxes of incoming mail that are in order

Incoming mail is read with its broken places put right. In a mailbox that is only its angle
brackets: they are closed at the end if they were not before, what stands behind them is left out,
and a route that no colon ends is refused. `InOrder ws` says of the words of a mailbox that there is
nothing of this in them, and then, and only then, it is read without anything to report
(`exists_mailboxesOf_iff_inOrder`).

A name of a mailbox, and any words without brackets, are never put right, whatever they are:
incoming mail takes them as they stand. So `InOrder` looks at the brackets only. A group is in order
if each of its members is and it has its semicolon (`GroupInOrder`).
-/

namespace InternetMail

open Reported

variable {ts ws phrase inner after : List Token} {left : Token} {t : Text} {a : Address}

/-- What stands in angle brackets does not close them, and if it begins with the sign `@`, which
begins a route, it has a colon. -/
structure HoldsPath (inner : List Token) : Prop where
  open_ : ∀ u ∈ inner, u.isSpecial '>' = false
  colon : ∀ u ∈ inner.head?, u.isSpecial '@' = true → ∃ v ∈ inner, v.isSpecial ':' = true

/-- The words of a mailbox are in order, if there are any: they have no angle brackets, or these
hold a path and stand at the end. -/
inductive InOrder : List Token → Prop
  | plain {ws : List Token} : (∀ u ∈ ws, u.isSpecial '<' = false) → InOrder ws
  | brackets {phrase inner : List Token} {left right : Token} :
      (∀ u ∈ phrase, u.isSpecial '<' = false) → left.isSpecial '<' = true → HoldsPath inner →
      right.isSpecial '>' = true → InOrder (phrase ++ left :: (inner ++ [right]))

/-! ### What angle brackets hold -/

theorem exists_splitRoute_iff :
    (∃ parts, splitRoute inner = .ok parts) ↔
      ∀ u ∈ inner.head?, u.isSpecial '@' = true → ∃ v ∈ inner, v.isSpecial ':' = true := by
  rw [← not_iff_not]
  have herror : (¬∃ parts, splitRoute inner = .ok parts) ↔ ∃ f, splitRoute inner = .error f := by
    cases splitRoute inner <;> simp
  rw [herror]
  simp only [splitRoute_eq_error_iff, not_forall, not_exists, not_and, Bool.not_eq_true]
  constructor
  · rintro ⟨_, sign, hop, rfl, hsign, hcolon, rfl⟩
    refine ⟨sign, rfl, hsign, List.forall_mem_cons.2 ⟨?_, hcolon⟩⟩
    exact Token.isSpecial_eq_false hsign (by decide)
  · rintro ⟨sign, hhead, hsign, hcolon⟩
    obtain ⟨hop, rfl⟩ := List.head?_eq_some_iff.1 hhead
    exact ⟨_, sign, hop, rfl, hsign, (List.forall_mem_cons.1 hcolon).2, rfl⟩

/-- Nothing comes after a route exactly if its only colon is the last there is. -/
theorem eq_nil_iff_of_splitRoute {route spec : List Token} (hne : inner ≠ [])
    (h : splitRoute inner = .ok (route, spec)) :
    spec = [] ↔ ∃ u ∈ inner.head?, u.isSpecial '@' = true ∧
      ∀ v ∈ inner.dropLast, v.isSpecial ':' = false := by
  obtain ⟨first, rest, rfl⟩ := List.exists_cons_of_ne_nil hne
  rw [splitRoute] at h
  simp only [List.head?_cons, Option.mem_some_iff, exists_eq_left']
  split at h
  · rename_i hsign
    rw [hsign, eq_self, true_and]
    split at h
    · cases h
    · rename_i colon spec hd
      obtain ⟨heq, hhop, hcolon⟩ := Run.dropWhile_eq_cons_iff.1 ⟨hd, rfl⟩
      cases h
      rw [heq]
      constructor
      · rintro rfl
        rw [List.dropLast_concat]
        simpa using hhop
      · intro hnone
        by_contra hspec
        have hmem : colon ∈ ((first :: rest).takeWhile (!·.isSpecial ':') ++
            colon :: spec).dropLast := by
          rw [List.dropLast_append_of_ne_nil (by simp), List.dropLast_cons_of_ne_nil hspec]
          simp
        simp [hnone colon hmem] at hcolon
  · rename_i hsign
    cases h
    simp [hsign]

/-- Brackets are read if a colon ends the route in them. -/
theorem exists_bracketed_parseHeader_iff (left : Token) :
    (∃ t, bracketed .parseHeader left inner = .ok t) ↔
      ∀ u ∈ inner.head?, u.isSpecial '@' = true → ∃ v ∈ inner, v.isSpecial ':' = true := by
  rw [← exists_splitRoute_iff]
  cases hsplit : splitRoute inner with
  | error f =>
    rw [← bracketed_parseHeader_eq_error_iff left] at hsplit
    simp [hsplit]
  | ok parts =>
    simp only [Except.ok.injEq, exists_eq', iff_true]
    cases h : bracketed .parseHeader left inner with
    | ok t => exact ⟨t, rfl⟩
    | error f =>
      rw [bracketed_parseHeader_eq_error_iff, hsplit] at h
      cases h

/-- All the text in brackets is read unless it is no more than a route. -/
theorem bracketed_eq_rawOf_iff (left : Token) (hraw : ∀ u ∈ inner, u.raw ≠ []) :
    bracketed .parseHeader left inner = .ok (rawOf inner) ↔
      ∀ u ∈ inner.head?, u.isSpecial '@' = true → ∃ v ∈ inner.dropLast, v.isSpecial ':' = true := by
  by_cases hnil : inner = []
  · subst hnil
    simp [bracketed, splitRoute, rawOf]
    rfl
  have hne : rawOf inner ≠ [] := by
    obtain ⟨u, us, rfl⟩ := List.exists_cons_of_ne_nil hnil
    simp [rawOf, hraw u List.mem_cons_self]
  rw [bracketed_eq_ok_iff]
  constructor
  · rintro ⟨route, spec, hsplit, -, h⟩ u hu hsign
    have hspec : spec ≠ [] := by
      rcases h with ⟨-, -, h⟩ | ⟨hspec, -⟩
      · exact absurd h.symm hne
      · exact hspec
    rw [ne_eq, eq_nil_iff_of_splitRoute hnil hsplit] at hspec
    push Not at hspec
    simpa using hspec u hu hsign
  · intro hcolon
    obtain ⟨⟨route, spec⟩, hsplit⟩ := exists_splitRoute_iff.2 fun u hu hsign ↦
      (hcolon u hu hsign).imp fun _ ↦ And.imp_left (List.dropLast_subset _ ·)
    refine ⟨route, spec, hsplit, by simp, Or.inr ⟨?_, rawOf spec, rfl, ?_⟩⟩
    · rw [ne_eq, eq_nil_iff_of_splitRoute hnil hsplit]
      rintro ⟨u, hu, hsign, hnone⟩
      obtain ⟨v, hv, hc⟩ := hcolon u hu hsign
      rw [hnone v hv] at hc
      cases hc
    · rw [← rawOf_append, append_of_splitRoute hsplit]

/-! ### Mailboxes -/

theorem bracketMailbox_parseHeader_eq_pure_iff :
    bracketMailbox .parseHeader ts phrase left after = pure a ↔
      ∃ inner right, after = inner ++ [right] ∧ (∀ u ∈ inner, u.isSpecial '>' = false) ∧
        right.isSpecial '>' = true ∧ ∃ spec, bracketed .parseHeader left inner = .ok spec ∧
          (if phrase.isEmpty then ⟨spec, nameOfComments ts⟩
            else ⟨spec, .written (phraseText phrase) false⟩ : Address) = a := by
  have hread : ∀ {inner : List Token} {right : Token}, (∀ u ∈ inner, u.isSpecial '>' = false) →
      right.isSpecial '>' = true →
      (bracketMailbox .parseHeader ts phrase left (inner ++ [right]) = pure a ↔
        ∃ spec, bracketed .parseHeader left inner = .ok spec ∧
          (if phrase.isEmpty then ⟨spec, nameOfComments ts⟩
            else ⟨spec, .written (phraseText phrase) false⟩ : Address) = a) := by
    intro inner right hinner hright
    have hi : ∀ u ∈ inner, (!u.isSpecial '>') = true := by simpa using hinner
    have hr : (!right.isSpecial '>') = false := by simpa using hright
    rw [bracketMailbox]
    simp only [Run.dropWhile_append_cons _ hi hr, Run.takeWhile_append_cons _ hi hr]
    simp only [reduceCtorEq, if_false, bind_eq_pure_iff, liftExcept_eq_pure_iff]
    refine exists_congr fun spec ↦ and_congr_right fun _ ↦ ?_
    split <;> exact pure_eq_pure_iff
  constructor
  · intro h
    obtain ⟨inner, right, rfl, hinner, hright⟩ := exists_right_of_bracketMailbox h
    exact ⟨inner, right, rfl, hinner, hright, (hread hinner hright).1 h⟩
  · rintro ⟨inner, right, rfl, hinner, hright, h⟩
    exact (hread hinner hright).2 h

/-- Without angle brackets all words are the address. -/
theorem mailboxesOf_parseHeader_plain (h : ∀ u ∈ wordsOf ts, u.isSpecial '<' = false) :
    mailboxesOf .parseHeader ts =
      pure (if wordsOf ts = [] then [] else [⟨rawOf (wordsOf ts), nameOfComments ts⟩]) := by
  have hd : (wordsOf ts).dropWhile (!·.isSpecial '<') = [] := by simpa using h
  rw [mailboxesOf]
  simp only [hd, List.isEmpty_iff]
  split <;> rfl

theorem mailboxesOf_parseHeader_brackets {as : List Address}
    (hws : wordsOf ts = phrase ++ left :: after) (hphrase : ∀ u ∈ phrase, u.isSpecial '<' = false)
    (hleft : left.isSpecial '<' = true) :
    mailboxesOf .parseHeader ts = pure as ↔
      ∃ a, bracketMailbox .parseHeader ts phrase left after = pure a ∧ [a] = as := by
  have hp : ∀ u ∈ phrase, (!u.isSpecial '<') = true := by simpa using hphrase
  have hl : (!left.isSpecial '<') = false := by simpa using hleft
  have hne : (phrase ++ left :: after).isEmpty = false := by simp
  rw [mailboxesOf, hws]
  simp only [hne, Run.dropWhile_append_cons _ hp hl, Run.takeWhile_append_cons _ hp hl]
  simp only [Bool.false_eq_true, if_false, bind_eq_pure_iff, pure_eq_pure_iff]

/-- **A mailbox of incoming mail is read without anything to report exactly if its words are in
order.** -/
theorem exists_mailboxesOf_iff_inOrder :
    (∃ as, mailboxesOf .parseHeader ts = pure as) ↔ InOrder (wordsOf ts) := by
  constructor
  · rintro ⟨as, has⟩
    cases hd : (wordsOf ts).dropWhile (!·.isSpecial '<') with
    | nil => exact .plain (by simpa using hd)
    | cons left after =>
      obtain ⟨hws, hphrase, hleft⟩ := Run.dropWhile_eq_cons_iff.1 ⟨hd, rfl⟩
      have hphrase : ∀ u ∈ (wordsOf ts).takeWhile (!·.isSpecial '<'), u.isSpecial '<' = false := by
        simpa using hphrase
      have hleft : left.isSpecial '<' = true := by simpa using hleft
      obtain ⟨a, ha, -⟩ := (mailboxesOf_parseHeader_brackets hws hphrase hleft).1 has
      obtain ⟨inner, right, rfl, hopen, hright, spec, hspec, -⟩ :=
        bracketMailbox_parseHeader_eq_pure_iff.1 ha
      rw [hws]
      exact .brackets hphrase hleft ⟨hopen, (exists_bracketed_parseHeader_iff left).1 ⟨spec, hspec⟩⟩
        hright
  · intro h
    generalize hws : wordsOf ts = ws at h
    cases h with
    | plain h => exact ⟨_, mailboxesOf_parseHeader_plain (hws ▸ h)⟩
    | @brackets phrase inner left right hphrase hleft hinner hright =>
      obtain ⟨spec, hspec⟩ := (exists_bracketed_parseHeader_iff left).2 hinner.colon
      have ha : bracketMailbox .parseHeader ts phrase left (inner ++ [right]) = pure _ :=
        bracketMailbox_parseHeader_eq_pure_iff.2
          ⟨inner, right, rfl, hinner.open_, hright, spec, hspec, rfl⟩
      exact ⟨_, (mailboxesOf_parseHeader_brackets hws hphrase hleft).2 ⟨_, ha, rfl⟩⟩

/-! ### Groups -/

/-- The tokens are a group in order: a name, a colon, members apart by commas that are in order one
by one, and a semicolon at the end. -/
inductive GroupInOrder : List Token → Prop
  | intro {phrase members : List Token} {colon semicolon : Token} :
      Unbroken (endsElement false) false phrase → bracketAfterAll false phrase = false →
      colon.isSpecial ':' = true → Unbroken (endsElement true) false members →
      bracketAfterAll false members = false →
      (∀ run ∈ splitMailboxes false members, InOrder (wordsOf run)) →
      semicolon.isSpecial ';' = true → GroupInOrder (phrase ++ colon :: (members ++ [semicolon]))

/-- A group of incoming mail is read without anything to report exactly if it is in order. -/
theorem cleanGroup_parseHeader_iff :
    CleanGroup .parseHeader ts a ↔ GroupInOrder ts ∧ groupOf ts = a := by
  constructor
  · rintro ⟨hphrase, hpclosed, hcolon, hmembers, hmclosed, hsemi, ha⟩
    obtain ⟨-, hall, hgroup⟩ := groupAddress_eq_pure_iff.1 ha
    refine ⟨.intro hphrase hpclosed hcolon hmembers hmclosed (fun run hrun ↦ ?_) hsemi, hgroup⟩
    exact exists_mailboxesOf_iff_inOrder.1 (exists_mailboxesOfAll_iff.1 hall run hrun)
  · rintro ⟨⟨hphrase, hpclosed, hcolon, hmembers, hmclosed, hruns, hsemi⟩, hgroup⟩
    refine .intro hphrase hpclosed hcolon hmembers hmclosed hsemi
      (groupAddress_eq_pure_iff.2 ⟨rfl, exists_mailboxesOfAll_iff.2 fun run hrun ↦ ?_, hgroup⟩)
    exact exists_mailboxesOf_iff_inOrder.2 (hruns run hrun)

end InternetMail
