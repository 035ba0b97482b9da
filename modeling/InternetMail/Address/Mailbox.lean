import InternetMail.Address.Basic
import InternetMail.Address.Element

/-!
# Mailboxes and groups

What the elements of an address list are read as:

    group       =  phrase ":" [#mailbox] ";"
    mailbox     =  addr-spec  /  [phrase] "<" [route] addr-spec ">"
    route       =  1#("@" domain) ":"
    addr-spec   =  local-part "@" domain
    local-part  =  word *("." word)
    domain      =  sub-domain *("." sub-domain)

All of it is enforced only by the strict reading. The other two look at less, and where the text
cannot be right they put it right or refuse it.
-/

namespace InternetMail

/-- The tokens that are not comments. -/
def wordsOf (ts : List Token) : List Token :=
  ts.filter (!·.isComment)

/-- The display name that a comment gives, if one of them says anything. -/
def nameOfComments (ts : List Token) : DisplayName :=
  match ts.find? fun t ↦ t.isComment && !(Text.trim t.value).isEmpty with
  | some t => .written (Text.trim t.value) false
  | none => .absent

/-- What a phrase says: its words, with a space wherever something stood between two of them. -/
def phraseText : List Token → Text
  | [] => []
  | [t] => t.value
  | t :: u :: ts => t.value ++ (if t.stop < u.start then [' '] else []) ++ phraseText (u :: ts)

/-! ### Checks of the strict reading -/

/-- Checks that the tokens are items apart by single periods. -/
def checkDotted (isItem : Token → Bool) : List Token → Except SyntaxFault Unit
  | [] => .ok ()
  | [t] => if isItem t then .ok () else .error (t.fault .unexpectedToken)
  | [t, dot] => .error ((if isItem t then dot else t).fault .unexpectedToken)
  | t :: dot :: u :: ts =>
    if !isItem t then .error (t.fault .unexpectedToken)
    else if !dot.isSpecial '.' then .error (dot.fault .unexpectedToken)
    else checkDotted isItem (u :: ts)

/-- Checks the domain that stands after the token `at_`. -/
def checkDomain (at_ : Token) (domain : List Token) : Except SyntaxFault Unit :=
  if domain.isEmpty then .error ⟨.missingDomain, at_.next⟩
  else checkDotted Token.isSubDomain domain

/-- Checks one hop of a route. -/
def checkHop : List Token → Except SyntaxFault Unit
  | [] => .ok ()
  | t :: domain =>
    if t.isSpecial '@' then checkDomain t domain else .error (t.fault .unexpectedToken)

/-- Checks a route, which ends with its colon. -/
def checkRoute (route : List Token) : Except SyntaxFault Unit :=
  if route.isEmpty then .ok ()
  else (Run.stretches (·.isSpecial ',') route.dropLast).forM checkHop

/-- Checks a phrase. Periods are let through, as in `John Q. Public`. -/
def checkPhrase (phrase : List Token) : Except SyntaxFault Unit :=
  match phrase.find? fun t ↦ !(t.isWord || t.isSpecial '.') with
  | some t => .error (t.fault .unexpectedToken)
  | none => .ok ()

/-- Checks an addr-spec: one `@`, a local part before it and a domain after it. -/
def checkAddrSpec (ws : List Token) : Except SyntaxFault Unit :=
  match ws.dropWhile (!·.isSpecial '@') with
  | [] =>
    match ws.getLast? with
    | some t => .error ⟨.missingDomain, t.stop⟩
    | none => .ok ()
  | at_ :: domain =>
    match domain.find? (·.isSpecial '@') with
    | some t => .error (t.fault .unexpectedToken)
    | none => do
      let localPart := ws.takeWhile (!·.isSpecial '@')
      if localPart.isEmpty then throw (at_.fault .emptyAddress)
      checkDotted Token.isWord localPart
      checkDomain at_ domain

/-- Checks an addr-spec less strictly: it does not begin with `@` and has no special characters but
that and the period. -/
def checkLooseAddrSpec (ws : List Token) : Except SyntaxFault Unit :=
  match ws.head? with
  | none => .ok ()
  | some first =>
    if first.isSpecial '@' then .error (first.fault .emptyAddress)
    else
      match ws.find? fun t ↦ t.isAnySpecial && !t.isSpecial '.' && !t.isSpecial '@' with
      | some t => .error (t.fault .unexpectedToken)
      | none => .ok ()

/-- The text of an addr-spec, without blanks and comments. -/
def addrSpec (s : Strictness) (ws : List Token) : Except SyntaxFault Text := do
  match s with
  | .strict => checkAddrSpec ws
  | .nonStrict => checkLooseAddrSpec ws
  | .parseHeader => pure ()
  return rawOf ws

/-! ### Mailboxes -/

/-- The runs of tokens between blanks or comments that do not stand next to a special character. -/
def gapRuns : List Token → List (List Token)
  | [] => [[]]
  | [t] => [[t]]
  | t :: u :: ts =>
    if t.stop < u.start && !t.isAnySpecial && !u.isAnySpecial then [t] :: gapRuns (u :: ts)
    else
      match gapRuns (u :: ts) with
      | [] => [[t]]
      | run :: runs => (t :: run) :: runs

/-- The runs of a list of simple addresses with only blanks between them, if it is one. -/
def addressRuns? (ws : List Token) : Option (List (List Token)) :=
  let runs := gapRuns ws
  if 1 < runs.length && runs.all (·.any (·.isSpecial '@')) then some runs else none

/-- What stands inside angle brackets, as a route and an addr-spec. A route begins with `@` and ends
with its colon. -/
def splitRoute (inner : List Token) : Except SyntaxFault (List Token × List Token) :=
  match inner with
  | first :: _ =>
    if first.isSpecial '@' then
      match inner.dropWhile (!·.isSpecial ':') with
      | [] => .error (first.fault .unexpectedToken)
      | colon :: spec => .ok (inner.takeWhile (!·.isSpecial ':') ++ [colon], spec)
    else .ok ([], inner)
  | [] => .ok ([], [])

/-- The address that stands inside the angle brackets that `bracket` opens. The null path `<>` is an
address only in incoming mail. -/
def bracketed (s : Strictness) (bracket : Token) (inner : List Token) :
    Except SyntaxFault Text := do
  let (route, spec) ← splitRoute inner
  if s = .strict then checkRoute route
  if spec.isEmpty then
    if s = .parseHeader then return []
    else throw (bracket.fault .emptyAddress)
  else return rawOf route ++ (← addrSpec s spec)

/-- A mailbox with angle brackets: `phrase` stands before the one that `bracket` opens, and `after`
behind it. `all` are the tokens of the element, comments among them. -/
def bracketMailbox (s : Strictness) (all phrase : List Token) (bracket : Token)
    (after : List Token) : Parsing Address := do
  let inner := after.takeWhile (!·.isSpecial '>')
  match after.dropWhile (!·.isSpecial '>') with
  | [] =>
    if s ≠ .parseHeader then throw (bracket.fault .unterminatedRoute)
    Reported.note .closedRoute
  | [_] => pure ()
  | _ :: extra :: _ =>
    if s ≠ .parseHeader then throw (extra.fault .unexpectedToken)
    Reported.note .textAfterRoute
  let spec ← bracketed s bracket inner
  if phrase.isEmpty then return ⟨spec, nameOfComments all⟩
  if s = .strict then checkPhrase phrase
  return ⟨spec, .written (phraseText phrase) false⟩

/-- The addresses between two separators. -/
def mailboxesOf (s : Strictness) (ts : List Token) : Parsing (List Address) := do
  let ws := wordsOf ts
  if ws.isEmpty then return []
  match ws.dropWhile (!·.isSpecial '<') with
  | bracket :: after =>
    return [← bracketMailbox s ts (ws.takeWhile (!·.isSpecial '<')) bracket after]
  | [] =>
    match if s = .nonStrict then addressRuns? ws else none with
    | some runs => runs.mapM fun run ↦ do return ⟨← addrSpec s run, .absent⟩
    | none => return [⟨← addrSpec s ws, nameOfComments ts⟩]

/-- The addresses between several separators, one after another. -/
def mailboxesOfAll (s : Strictness) : List (List Token) → Parsing (List Address)
  | [] => return []
  | ts :: rest => do
    let first ← mailboxesOf s ts
    return first ++ (← mailboxesOfAll s rest)

/-! ### Groups -/

/-- Checks the name of a group, which stands before its colon. -/
def checkGroupName (s : Strictness) (phrase : List Token) (colon : Token) :
    Except SyntaxFault Unit :=
  if s ≠ .strict then .ok ()
  else if (wordsOf phrase).isEmpty then .error (colon.fault .unexpectedToken)
  else checkPhrase (wordsOf phrase)

/-- A group is one address, whose text is the group's, with a semicolon if it lacks that. Its
members only have to be addresses. -/
def groupAddress (s : Strictness) (phrase : List Token) (colon : Token) (members : List Token)
    (close : Option Token) : Parsing Address := do
  checkGroupName s phrase colon
  let _ ← mailboxesOfAll s (splitMailboxes false members)
  let source := sourceOf (phrase ++ colon :: members ++ close.toList)
  return ⟨source ++ (if close.isNone then [';'] else []), .absent⟩

/-- The addresses of an element. -/
def Element.addresses (s : Strictness) : Element → Parsing (List Address)
  | .mailboxes ts => mailboxesOf s ts
  | .group phrase colon members close => do
    return [← groupAddress s phrase colon members close]

/-- The addresses of elements, one after another. -/
def addressesOf (s : Strictness) : List Element → Parsing (List Address)
  | [] => return []
  | e :: es => do
    let first ← e.addresses s
    return first ++ (← addressesOf s es)

/-- The addresses of a list. -/
def addressList (s : Strictness) (ts : List Token) : Parsing (List Address) := do
  addressesOf s (← Element.split s ts)

/-- The name, the colon and the rest of a group, by the first colon outside angle brackets. -/
def groupParts? (bracket : Bool) : List Token → Option (List Token × Token × List Token)
  | [] => none
  | t :: ts =>
    if t.isSpecial ':' && !bracket then some ([], t, ts)
    else
      (groupParts? (bracketAfter bracket t) ts).map fun (phrase, colon, rest) ↦
        (t :: phrase, colon, rest)

/-- The tokens before the last semicolon. -/
def beforeLastSemicolon? (ts : List Token) : Option (List Token) :=
  match ts.reverse.dropWhile (!·.isSpecial ';') with
  | [] => none
  | _ :: before => some before.reverse

/-- The members of a group, if the tokens are one. -/
def groupMembers (s : Strictness) (ts : List Token) : Parsing (Option (List Address)) := do
  match groupParts? false ts with
  | none => return none
  | some (phrase, colon, rest) =>
    match beforeLastSemicolon? rest with
    | none => return none
    | some members =>
      checkGroupName s phrase colon
      return some (← addressList s members)

end InternetMail
