import InternetMail.Address.Format
import InternetMail.Address.Mailbox

/-!
# Reading addresses

The ways to read addresses from a text: a list of any length (`Address.parseList`), exactly one
(`Address.parse`), and the members of a group (`Address.groupMembers`), each with a strictness. All
of them report how broken text was put right, and fail with a fault that names the text, the broken
rule and the octet where it was noticed.
-/

namespace InternetMail

/-- How an open token was put right. -/
def Token.recovery? (t : Token) : Option Recovery :=
  if t.closed then none
  else
    match t.kind with
    | .quotedString => some .closedQuote
    | .comment => some .closedComment
    | _ => none

/-- The tokens of a text, reporting those that were closed at its end. -/
def readTokens (s : Strictness) (t : Text) : Parsing (List Token) := do
  let ts ← tokenize s t
  (ts.filterMap Token.recovery?).forM Reported.note
  return ts

/-- A reading of the text `t`, with its faults and recoveries put in terms of that text. -/
def readingOf {α : Type} (s : Strictness) (t : Text) (x : Parsing α) : Attempt α :=
  Reported.restate (fun fault ↦ .ofAddress (fault.within s t)) (.recovered · t) x

/-- The only address of a list that was read from the tokens. -/
def onlyAddress (ts : List Token) : List Address → Except SyntaxFault Address
  | [a] => .ok a
  | [] => .error ⟨.emptyAddress, 0⟩
  | _ => .error ⟨.multipleAddresses, ((ts.find? (·.isSpecial ',')).map Token.start).getD 0⟩

namespace Address

/-- The addresses of a list. Empty elements are left out. -/
def parseList (s : Strictness) (t : Text) : Attempt (List Address) :=
  readingOf s t do addressList s (← readTokens s t)

/-- The address of a text that is exactly one. -/
def parse (s : Strictness) (t : Text) : Attempt Address :=
  readingOf s t do
    let ts ← readTokens s t
    onlyAddress ts (← addressList s ts)

/-- The members of a group, nothing if the text is not a group. -/
def membersOf (s : Strictness) (t : Text) : Attempt (Option (List Address)) :=
  readingOf s t do
    let ts ← readTokens s t
    if isGroupText (Text.trim t) then groupMembers s ts else return none

/-- The members of an address that is a group. -/
def members (strict : Bool) (a : Address) : Attempt (Option (List Address)) :=
  membersOf (if strict then .strict else .nonStrict) a.spec

/-- Checks that the address, as it is written without display name, is one by the full grammar. -/
def validate (a : Address) : Attempt Unit := do
  let _ ← parse .strict (formatSpec a.spec)

end Address

end InternetMail
