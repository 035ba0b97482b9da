import InternetMail.Address.Mailbox
import InternetMail.Proofs.Outcome
import InternetMail.Proofs.Run

/-!
# Mailboxes with angle brackets

Reading a mailbox with angle brackets is three steps, one after another: the brackets are looked at,
then what stands in them, and then what stands in front of them (`outcome_bracketMailbox`). The
three are functions of their own here, so that each of them can be dealt with on its own. Only the
first of them differs with what is done about brackets that are not in order, and it says nothing
about the address: whenever that is read, it is made up in the same way
(`exists_bracketed_of_bracketMailbox`).

What stands in brackets is a route and an addr-spec. Both together are all of it
(`append_of_splitRoute`), and so the text that is read is all of the text, unless there is no
addr-spec (`eq_or_of_bracketed`).
-/

namespace InternetMail

open Reported

/-! ### Mailboxes in steps -/

/-- Checks that angle brackets are closed and that no token stands behind them. -/
def checkBrackets (s : Strictness) (bracket : Token) (after : List Token) :
    Except SyntaxFault Unit :=
  match after.dropWhile (!·.isSpecial '>') with
  | [] => if s = .parseHeader then .ok () else .error (bracket.fault .unterminatedRoute)
  | [_] => .ok ()
  | _ :: extra :: _ =>
    if s = .parseHeader then .ok () else .error (extra.fault .unexpectedToken)

/-- The display name of a mailbox with angle brackets. -/
def nameInBrackets (s : Strictness) (all phrase : List Token) : Except SyntaxFault DisplayName :=
  if phrase.isEmpty then .ok (nameOfComments all)
  else do
    let _ ← (if s = .strict then checkPhrase phrase else .ok ())
    return .written (phraseText phrase) false

theorem outcome_bracketMailbox (s : Strictness) (all phrase : List Token) (bracket : Token)
    (after : List Token) :
    outcome (bracketMailbox s all phrase bracket after) = do
      checkBrackets s bracket after
      let spec ← bracketed s bracket (after.takeWhile (!·.isSpecial '>'))
      return ⟨spec, ← nameInBrackets s all phrase⟩ := by
  rw [bracketMailbox, checkBrackets, nameInBrackets]
  generalize bracketed s bracket (after.takeWhile (!·.isSpecial '>')) = spec
  generalize checkPhrase phrase = checked
  generalize after.dropWhile (!·.isSpecial '>') = left
  rcases left with _ | ⟨close, _ | ⟨extra, rest⟩⟩ <;>
    cases s <;> cases phrase.isEmpty <;> cases spec <;> cases checked <;> rfl

/-- Incoming mail may leave brackets open, and have something behind them. -/
theorem checkBrackets_parseHeader (bracket : Token) (after : List Token) :
    checkBrackets .parseHeader bracket after = .ok () := by
  rw [checkBrackets]
  split <;> rfl

/-- A mailbox with angle brackets is what stands in them, and its name is what stands in front. If
nothing does, it is what a comment says. -/
theorem exists_bracketed_of_bracketMailbox {s : Strictness} {ts phrase after : List Token}
    {bracket : Token} {a : Address}
    (h : outcome (bracketMailbox s ts phrase bracket after) = .ok a) :
    ∃ spec, bracketed s bracket (after.takeWhile (!·.isSpecial '>')) = .ok spec ∧
      (if phrase.isEmpty then ⟨spec, nameOfComments ts⟩
        else ⟨spec, .written (phraseText phrase) false⟩ : Address) = a := by
  rw [outcome_bracketMailbox] at h
  obtain ⟨-, -, h⟩ := bind_eq_ok_iff.1 h
  obtain ⟨spec, hspec, h⟩ := bind_eq_ok_iff.1 h
  obtain ⟨name, hname, h⟩ := bind_eq_ok_iff.1 h
  cases h
  refine ⟨spec, hspec, ?_⟩
  rw [nameInBrackets] at hname
  split at hname
  · cases hname
    rw [if_pos ‹_›]
  · obtain ⟨-, -, hname⟩ := bind_eq_ok_iff.1 hname
    cases hname
    rw [if_neg ‹_›]

/-! ### What stands in brackets -/

@[simp]
theorem rawOf_append (us ts : List Token) : rawOf (us ++ ts) = rawOf us ++ rawOf ts :=
  List.flatMap_append

theorem bracketed_eq_ok_iff {s : Strictness} {bracket : Token} {inner : List Token} {t : Text} :
    bracketed s bracket inner = .ok t ↔ ∃ route spec, splitRoute inner = .ok (route, spec) ∧
      (s = .strict → checkRoute route = .ok ()) ∧
      ((spec = [] ∧ s = .parseHeader ∧ [] = t) ∨
        (spec ≠ [] ∧ ∃ u, addrSpec s spec = .ok u ∧ rawOf route ++ u = t)) := by
  rw [bracketed, bind_eq_ok_iff, Prod.exists]
  refine exists_congr fun route ↦ exists_congr fun spec ↦ and_congr_right fun _ ↦ ?_
  cases spec with
  | nil => cases s <;> simp [check_bind_eq_ok_iff, pure, Except.pure]
  | cons u us => cases s <;> simp [bind_eq_ok_iff, pure, Except.pure, Unique.exists_iff]

/-- A route and what comes after it are all there was. -/
theorem append_of_splitRoute {inner route spec : List Token}
    (h : splitRoute inner = .ok (route, spec)) : route ++ spec = inner := by
  cases inner with
  | nil =>
    cases h
    rfl
  | cons first inner =>
    rw [splitRoute] at h
    split at h
    · split at h
      · cases h
      · rename_i hd
        obtain ⟨heq, -⟩ := Run.dropWhile_eq_cons_iff.1 ⟨hd, rfl⟩
        cases h
        rw [List.append_assoc, List.singleton_append, ← heq]
    · cases h
      rfl

theorem eq_rawOf_of_addrSpec {s : Strictness} {ws : List Token} {t : Text}
    (h : addrSpec s ws = .ok t) : t = rawOf ws := by
  cases s with
  | parseHeader =>
    cases h
    rfl
  | _ =>
    simp only [addrSpec, bind_eq_ok_iff] at h
    obtain ⟨-, -, h⟩ := h
    cases h
    rfl

/-- What is read of brackets is the text in them, or nothing if that is no more than a route. -/
theorem eq_or_of_bracketed {s : Strictness} {bracket : Token} {inner : List Token} {t : Text}
    (h : bracketed s bracket inner = .ok t) : t = rawOf inner ∨ t = [] := by
  obtain ⟨route, spec, hsplit, -, h⟩ := bracketed_eq_ok_iff.1 h
  rw [← append_of_splitRoute hsplit]
  rcases h with ⟨rfl, -, rfl⟩ | ⟨-, u, hu, rfl⟩
  · exact Or.inr rfl
  · rw [eq_rawOf_of_addrSpec hu]
    exact Or.inl (rawOf_append route spec).symm

end InternetMail
