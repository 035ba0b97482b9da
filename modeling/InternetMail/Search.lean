import InternetMail.Message.Fields

/-!
# Searching messages

A query asks for authors, recipients, text in fields, or a date, and queries are put together by
`and`, `or` and `not`. Text is looked for without regard to case. A field that cannot be read
matches nothing; that is reported, and `not` turns it into a match.
-/

namespace InternetMail

/-- How two values have to compare. -/
inductive Comparison
  | lt
  | le
  | eq
  | ne
  | ge
  | gt
  deriving DecidableEq, Repr

/-- Whether values in the order `o` compare like that. -/
def Comparison.admits : Comparison → Ordering → Bool
  | .lt, o => o == .lt
  | .le, o => o != .gt
  | .eq, o => o == .eq
  | .ne, o => o != .eq
  | .ge, o => o != .lt
  | .gt, o => o == .gt

/-- Whether two values compare like that. -/
def Comparison.holds {α : Type} [Ord α] (c : Comparison) (a b : α) : Bool :=
  c.admits (compare a b)

/-- What to look for in a message. -/
inductive Query
  /-- An author with this address. -/
  | author (a : Address)
  /-- An author who is shown with this text. -/
  | authorText (needle : Text)
  /-- A recipient with this address. -/
  | recipient (kind : RecipientKind) (a : Address)
  /-- A recipient who is shown with this text. -/
  | recipientText (kind : RecipientKind) (needle : Text)
  /-- This text in the subject. -/
  | subject (needle : Text)
  /-- This text in a field. -/
  | field (name : HeaderName) (needle : Text)
  /-- A date that compares like this to another. -/
  | sentDate (c : Comparison) (date : Date)
  | and (a b : Query)
  | or (a b : Query)
  | not (q : Query)

/-- Whether a text stands in another, without regard to case. -/
def containsIgnoringCase (haystack needle : Text) : Bool :=
  Run.contains (Text.lower needle) (Text.lower haystack)

variable [MultiByte.Codec]

namespace Search

/-- Whether one of some addresses passes a test. Addresses that cannot be read are passed over. -/
def anyAddress (as : Attempt (List Address)) (p : Address → Reported Notice Bool) :
    Reported Notice Bool := do
  match ← as.run with
  | .ok as => as.anyM p
  | .error e =>
    Reported.report (.skippedAddressField e.message)
    return false

/-- Whether an address is shown with a text. -/
def isShownWith (needle : Text) (a : Address) : Reported Notice Bool := do
  return containsIgnoringCase (← a.ask).formatUnicode needle

/-- Whether a text stands in a value of a field. A value that cannot be decoded is passed over. -/
def isInValue (n : HeaderName) (needle : Text) (value : Text) : Reported Notice Bool := do
  match ← (decodeHeaderValue (Utf8.encode value)).run with
  | .ok t => return containsIgnoringCase t needle
  | .error e =>
    Reported.report (.skippedField n.display e.message)
    return false

/-- Whether a text stands in a field. -/
def isInField (m : Message) (n : HeaderName) (needle : Text) : Reported Notice Bool :=
  (m.headers.getAll n).anyM (isInValue n needle)

/-- Whether the date of a message passes a comparison. A date that cannot be read, or is missing,
does not. -/
def isSent (m : Message) (c : Comparison) (date : Date) : Reported Notice Bool := do
  match m.sentDate with
  | .ok (some sent) => return c.holds sent date
  | .ok none => return false
  | .error e =>
    Reported.report (.skippedDate e.message)
    return false

end Search

namespace Query

/-- Whether a message is what the query asks for. The second of two queries is looked at only if the
first does not decide. -/
def isMatch (m : Message) : Query → Reported Notice Bool
  | author a => Search.anyAddress m.authors fun b ↦ return b == a
  | authorText needle => Search.anyAddress m.authors (Search.isShownWith needle)
  | recipient kind a => Search.anyAddress (m.recipients kind) fun b ↦ return b == a
  | recipientText kind needle =>
    Search.anyAddress (m.recipients kind) (Search.isShownWith needle)
  | subject needle => Search.isInField m StandardName.subject needle
  | field n needle => Search.isInField m n needle
  | sentDate c date => Search.isSent m c date
  | and a b => do if ← isMatch m a then isMatch m b else return false
  | or a b => do if ← isMatch m a then return true else isMatch m b
  | not q => do return !(← isMatch m q)

end Query

end InternetMail
