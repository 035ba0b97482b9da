import InternetMail.Address.Token
import InternetMail.Notice

/-!
# Elements of an address list

An address list is elements apart by commas: mailboxes and groups. `Element.split` finds them by the
commas, colons and semicolons that stand outside angle brackets; what an element is made of is
looked at later.

The members of a group are apart by commas alone, and `splitMailboxes` finds those: a group is
closed by the first semicolon and cannot hold another, so that no colon or semicolon of its own
level is left inside.
-/

namespace InternetMail

/-- Reading address text: it may fail with a fault, and reports how the text was put right. -/
abbrev Parsing (α : Type) := ExceptT SyntaxFault (Reported Recovery) α

/-- An element of an address list. -/
inductive Element
  /-- What stands between two separators: one mailbox, several, or none. -/
  | mailboxes (tokens : List Token)
  /-- A group: its name, the colon, its members, and the semicolon if it is closed. -/
  | group (phrase : List Token) (colon : Token) (members : List Token) (close : Option Token)

/-- Whether an angle bracket is open after the token, given whether one was before it. -/
def bracketAfter (open_ : Bool) (t : Token) : Bool :=
  if t.isSpecial '<' then true else if t.isSpecial '>' then false else open_

/-- The stretches between the commas outside angle brackets, `bracket` telling whether one is open.
-/
def splitMailboxes (bracket : Bool) : List Token → List (List Token)
  | [] => [[]]
  | t :: ts =>
    if t.isSpecial ',' && !bracket then [] :: splitMailboxes false ts
    else
      match splitMailboxes (bracketAfter bracket t) ts with
      | [] => [[t]]
      | run :: runs => (t :: run) :: runs

namespace Element

/-- A group that has been begun: its name and the colon. -/
structure Opening where
  phrase : List Token
  colon : Token

/-- The elements of a list, where `pending` is what was read of the first one, after `opening` if
that is a group, and `bracket` tells whether an angle bracket is open. -/
def splitFrom (s : Strictness) (pending : List Token) (opening : Option Opening)
    (bracket : Bool) : List Token → Parsing (List Element)
  | [] =>
    match opening with
    | none => return [.mailboxes pending]
    | some g => do
      if s ≠ .parseHeader then throw (g.colon.fault .unterminatedGroup)
      Reported.note .closedGroup
      return [.group g.phrase g.colon pending none]
  | t :: ts =>
    if t.isSpecial ':' && !bracket then
      match opening with
      | some _ => throw (t.fault .nestedGroup)
      | none => splitFrom s [] (some ⟨pending, t⟩) false ts
    else if t.isSpecial ';' && !bracket then
      match opening with
      | some g => do
        return .group g.phrase g.colon pending (some t) :: (← splitFrom s [] none false ts)
      | none => do
        if s ≠ .parseHeader then throw (t.fault .unexpectedToken)
        Reported.note .straySemicolon
        return .mailboxes pending :: (← splitFrom s [] none false ts)
    else if t.isSpecial ',' && !bracket && opening.isNone then do
      return .mailboxes pending :: (← splitFrom s [] none false ts)
    else splitFrom s (pending ++ [t]) opening (bracketAfter bracket t) ts

/-- The elements of an address list. -/
def split (s : Strictness) (ts : List Token) : Parsing (List Element) :=
  splitFrom s [] none false ts

/-- At the end of the list, what was read of its last element is that element. -/
theorem splitFrom_nil_none (s : Strictness) (pending : List Token) (bracket : Bool) :
    splitFrom s pending none bracket [] = pure [.mailboxes pending] := by
  rw [splitFrom]

end Element

end InternetMail
