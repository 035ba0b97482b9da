import InternetMail.Address.Parser
import InternetMail.Proofs.Address.Cursor

/-!
# Addresses by the places of tokens

Address lists as they are read with nothing but places in the list of tokens: an element is a first
place and the place after its last, its words are a list of places, and text is cut out of the input
by the octets that tokens begin and end at. Faults are put at the token of a place, or at the end of
the text behind the last of them.

Each place, each stretch of places and each octet is looked up (`Checked`), in the order in which
the reading comes to it.

The definitions follow the reading by tokens (`Address.parseList`) function by function and bear its
names, with a list of places where that has a list of tokens, and with checks where the program has
an index, a range or a difference. Nothing is proved here. That each of them gives what its namesake
gives is proved in the modules on places.
-/

namespace InternetMail

namespace Lexeme

def isSpecial (u : Lexeme) (c : Char) : Bool :=
  u.kind == .special c

def isAnySpecial (u : Lexeme) : Bool :=
  match u.kind with
  | .special _ => true
  | _ => false

def isWord (u : Lexeme) : Bool :=
  u.kind == .atom || u.kind == .quotedString

def isSubDomain (u : Lexeme) : Bool :=
  u.kind == .atom || u.kind == .domainLiteral

def isComment (u : Lexeme) : Bool :=
  u.kind == .comment

end Lexeme

/-- A text with its tokens, which are called by their places. -/
structure Indexed where
  strictness : Strictness
  input : Text
  lexemes : List Lexeme

namespace Indexed

variable (p : Indexed)

/-- The token at a place. -/
def token (i : Nat) : Checked Lexeme :=
  Checked.get p.lexemes i

/-- The text between two octets. -/
def text (start stop : Nat) : Checked Text :=
  Checked.ofOption (p.input.slice? start stop)

/-- A rule broken at an octet. -/
def fault (rule : SyntaxRule) (position : Nat) : Stop :=
  .fault ⟨rule, p.strictness, p.input, position⟩

/-- A rule broken at the token at a place, or at the end of the text if there is none. -/
def faultAt (rule : SyntaxRule) (i : Nat) : Stop :=
  p.fault rule ((p.lexemes[i]?.map Lexeme.start).getD (Text.utf8Size p.input))

/-- The places from one up to another. -/
def places (start stop : Nat) : List Nat :=
  List.range' start (stop - start)

/-- The first of the places whose token passes the test. -/
def find? (test : Lexeme → Bool) : List Nat → Checked (Option Nat)
  | [] => return none
  | i :: is => do if test (← p.token i) then return some i else find? test is

/-- How many of the places come before the first whose token is the special character `c`. -/
def findSpecial? (c : Char) : List Nat → Checked (Option Nat)
  | [] => return none
  | i :: is => do
    if (← p.token i).isSpecial c then return some 0
    else return (← findSpecial? c is).map (· + 1)

/-- The places of the tokens that are not comments. -/
def words : List Nat → Checked (List Nat)
  | [] => return []
  | i :: is => do
    if (← p.token i).isComment then words is else return i :: (← words is)

/-- The stretches of the places between those of commas. -/
def hops : List Nat → Checked (List (List Nat))
  | [] => return [[]]
  | i :: is => do
    let ends := (← p.token i).isSpecial ','
    let rest ← hops is
    if ends then return [] :: rest
    else
      match rest with
      | [] => return [[i]]
      | hop :: rest => return (i :: hop) :: rest

/-! ### Texts of tokens -/

/-- The display name that a comment gives. -/
def nameOfComments (start stop : Nat) : Checked DisplayName := do
  match ← p.find? (fun u ↦ u.isComment && !(Text.trim u.value).isEmpty) (places start stop) with
  | some i => return .written (Text.trim (← p.token i).value) false
  | none => return .absent

/-- What a phrase says, where `previous` is the octet that the token before it ends at. -/
def phraseText (previous : Option Nat) : List Nat → Checked Text
  | [] => return []
  | i :: is => do
    let u ← p.token i
    let space := if previous.any (· < u.start) then [' '] else []
    return space ++ u.value ++ (← phraseText (some u.stop) is)

/-- The text of the tokens without what stands between them. -/
def raw : List Nat → Checked Text
  | [] => return []
  | i :: is => do
    let u ← p.token i
    return (← p.text u.start u.stop) ++ (← raw is)

/-! ### Checks -/

/-- Checks that the items, `k` places after the first, take turns with periods. -/
def checkTurns (isItem : Lexeme → Bool) : Nat → List Nat → Checked Unit
  | _, [] => return
  | k, i :: is => do
    let u ← p.token i
    if !(if k % 2 = 0 then isItem u else u.isSpecial '.') then throw (p.faultAt .unexpectedToken i)
    else checkTurns isItem (k + 1) is

/-- Checks that the last of the items is not a period, if they take turns with periods. -/
def checkLast (items : List Nat) : Checked Unit := do
  if items.length % 2 = 0 then
    throw (p.faultAt .unexpectedToken (← Checked.get items (← Checked.sub items.length 1)))
  else return

/-- Checks that the tokens after the place `anchor` are items apart by single periods. -/
def checkDotted (items : List Nat) (anchor : Nat) (empty : SyntaxRule) (isItem : Lexeme → Bool) :
    Checked Unit := do
  if items.isEmpty then throw (p.faultAt empty (anchor + 1))
  else
    p.checkTurns isItem 0 items
    p.checkLast items

def checkHop : List Nat → Checked Unit
  | [] => return
  | i :: domain => do
    if (← p.token i).isSpecial '@' then p.checkDotted domain i .missingDomain Lexeme.isSubDomain
    else throw (p.faultAt .unexpectedToken i)

def checkRoute (route : List Nat) : Checked Unit := do
  if route.isEmpty then return
  else (← p.hops route.dropLast).forM p.checkHop

def checkPhrase (phrase : List Nat) : Checked Unit := do
  match ← p.find? (fun u ↦ !(u.isWord || u.isSpecial '.')) phrase with
  | some i => throw (p.faultAt .unexpectedToken i)
  | none => return

def checkAddrSpec (words : List Nat) : Checked Unit := do
  match ← p.findSpecial? '@' words with
  | none =>
    let last ← p.token (← Checked.get words (← Checked.sub words.length 1))
    throw (p.fault .missingDomain last.stop)
  | some at_ =>
    let domain ← Checked.slice words (at_ + 1) words.length
    match ← p.findSpecial? '@' domain with
    | some k => throw (p.faultAt .unexpectedToken (← Checked.get words (at_ + 1 + k)))
    | none =>
      let localPart ← Checked.slice words 0 at_
      if localPart.isEmpty then throw (p.faultAt .emptyAddress (← Checked.get words at_))
      else
        p.checkDotted localPart (← Checked.get words 0) .emptyAddress Lexeme.isWord
        p.checkDotted domain (← Checked.get words at_) .missingDomain Lexeme.isSubDomain

def checkLooseAddrSpec (words : List Nat) : Checked Unit := do
  let first ← Checked.get words 0
  if (← p.token first).isSpecial '@' then throw (p.faultAt .emptyAddress first)
  else
    match ← p.find? (fun u ↦ u.isAnySpecial && !u.isSpecial '.' && !u.isSpecial '@') words with
    | some i => throw (p.faultAt .unexpectedToken i)
    | none => return

/-- The text of an addr-spec. -/
def addrSpec (words : List Nat) : Checked Text := do
  match p.strictness with
  | .strict => p.checkAddrSpec words
  | .nonStrict => p.checkLooseAddrSpec words
  | .parseHeader => pure ()
  p.raw words

/-! ### Mailboxes -/

/-- The runs between blanks or comments of the places from `start` on, where `ks` are the places in
`words` that are still to come. -/
def runsFrom (words : List Nat) (start : Nat) : List Nat → Checked (List (List Nat))
  | [] => return [← Checked.slice words start words.length]
  | k :: ks => do
    let previous ← p.token (← Checked.get words (← Checked.sub k 1))
    let next ← p.token (← Checked.get words k)
    if previous.stop < next.start && !previous.isAnySpecial && !next.isAnySpecial then
      return (← Checked.slice words start k) :: (← runsFrom words k ks)
    else runsFrom words start ks

/-- The runs of a list of simple addresses with only blanks between them, if it is one. -/
def addressRuns? (words : List Nat) : Checked (Option (List (List Nat))) := do
  let runs ← p.runsFrom words 0 (places 1 words.length)
  if 1 < runs.length then
    if ← runs.allM fun run ↦ do return (← p.findSpecial? '@' run).isSome then
      return some runs
    else return none
  else return none

/-- The runs of several simple addresses, if the reading tells these apart. -/
def simpleRuns? (words : List Nat) : Checked (Option (List (List Nat))) :=
  if p.strictness = .nonStrict then p.addressRuns? words else pure none

/-- What stands inside angle brackets, as a route and an addr-spec. -/
def splitRoute (inner : List Nat) : Checked (List Nat × List Nat) := do
  match inner.head? with
  | none => return ([], inner)
  | some i =>
    if (← p.token i).isSpecial '@' then
      match ← p.findSpecial? ':' inner with
      | none => throw (p.faultAt .unexpectedToken (← Checked.get inner 0))
      | some colon =>
        return (← Checked.slice inner 0 (colon + 1),
          ← Checked.slice inner (colon + 1) inner.length)
    else return ([], inner)

/-- The address inside the angle brackets that the token at place `bracket` of `words` opens. -/
def bracketed (words : List Nat) (bracket : Nat) (inner : List Nat) : Checked Text := do
  let (route, spec) ← p.splitRoute inner
  if p.strictness = .strict then p.checkRoute route
  if spec.isEmpty then
    if p.strictness = .parseHeader then return []
    else throw (p.faultAt .emptyAddress (← Checked.get words bracket))
  else return (← p.raw route) ++ (← p.addrSpec spec)

/-- The place in `words` of the closing bracket, or the one behind their last if there is none. -/
def closing (words : List Nat) (bracket : Nat) : Checked Nat := do
  let after ← Checked.slice words (bracket + 1) words.length
  match ← p.findSpecial? '>' after with
  | some k => return bracket + 1 + k
  | none =>
    if p.strictness = .parseHeader then return words.length
    else throw (p.faultAt .unterminatedRoute (← Checked.get words bracket))

/-- Checks that no token stands behind the closing bracket. -/
def checkBehind (words : List Nat) (close : Nat) : Checked Unit :=
  match words[close + 1]? with
  | some extra =>
    if p.strictness = .parseHeader then pure () else throw (p.faultAt .unexpectedToken extra)
  | none => pure ()

/-- The display name that a phrase gives, or a comment if there is none. -/
def nameOf (start stop : Nat) (phrase : List Nat) : Checked DisplayName := do
  if phrase.isEmpty then p.nameOfComments start stop
  else
    let _ ← (if p.strictness = .strict then p.checkPhrase phrase else pure ())
    return .written (← p.phraseText none phrase) false

/-- A mailbox with angle brackets, of which the first opens at place `bracket` of `words`. -/
def bracketMailbox (start stop : Nat) (words : List Nat) (bracket : Nat) : Checked Address := do
  let close ← p.closing words bracket
  p.checkBehind words close
  let spec ← p.bracketed words bracket (← Checked.slice words (bracket + 1) close)
  return ⟨spec, ← p.nameOf start stop (← Checked.slice words 0 bracket)⟩

/-- The addresses between two separators. -/
def mailboxes (start stop : Nat) : Checked (List Address) := do
  let words ← p.words (places start stop)
  if words.isEmpty then return []
  else
    match ← p.findSpecial? '<' words with
    | some bracket => return [← p.bracketMailbox start stop words bracket]
    | none =>
      match ← p.simpleRuns? words with
      | some runs => runs.mapM fun run ↦ do return ⟨← p.addrSpec run, .absent⟩
      | none => return [⟨← p.addrSpec words, ← p.nameOfComments start stop⟩]

/-! ### Lists and groups -/

/-- An element of a list: its first place and the one after its last, and the places of its colon
and its semicolon if it is a group and has one. -/
structure Element where
  start : Nat
  stop : Nat
  colon : Option Nat
  close : Option Nat

/-- The elements of a list that ends before the place `stop`, where the one at hand began at `start`
and has its colon at `colon`, and `bracket` tells whether an angle bracket is open. -/
def splitFrom (stop start : Nat) (bracket : Bool) (colon : Option Nat) :
    List Nat → Checked (List Element)
  | [] =>
    match colon with
    | none => return [⟨start, stop, none, none⟩]
    | some c =>
      if p.strictness = .parseHeader then return [⟨start, stop, some c, none⟩]
      else throw (p.faultAt .unterminatedGroup c)
  | i :: is => do
    let u ← p.token i
    if u.isSpecial '<' && !bracket then splitFrom stop start true colon is
    else if u.isSpecial '>' && bracket then splitFrom stop start false colon is
    else if u.isSpecial ':' && !bracket then
      match colon with
      | some _ => throw (p.faultAt .nestedGroup i)
      | none => splitFrom stop start bracket (some i) is
    else if u.isSpecial ';' && !bracket then
      match colon with
      | some c =>
        return ⟨start, i + 1, some c, some i⟩ :: (← splitFrom stop (i + 1) bracket none is)
      | none =>
        if p.strictness = .parseHeader then
          return ⟨start, i, none, none⟩ :: (← splitFrom stop (i + 1) bracket none is)
        else throw (p.faultAt .unexpectedToken i)
    else if u.isSpecial ',' && !bracket && colon.isNone then
      return ⟨start, i, none, none⟩ :: (← splitFrom stop (i + 1) bracket none is)
    else splitFrom stop start bracket colon is

/-- Checks the name of a group, which stands before its colon. -/
def checkGroupName (start colon : Nat) : Checked Unit := do
  if p.strictness = .strict then
    let words ← p.words (places start colon)
    if words.isEmpty then throw (p.faultAt .unexpectedToken colon) else p.checkPhrase words
  else return

/-- The address of a group, whose members are read by `list`. -/
def group (list : Nat → Nat → Checked (List Address)) (e : Element) (colon : Nat) :
    Checked Address := do
  p.checkGroupName e.start colon
  let _ ← list (colon + 1) (e.close.getD e.stop)
  let first ← p.token e.start
  let last ← p.token (← Checked.sub e.stop 1)
  return ⟨(← p.text first.start last.stop) ++ (if e.close.isNone then [';'] else []), .absent⟩

/-- The addresses of an element, where the members of groups are read by `list`. -/
def addresses (list : Nat → Nat → Checked (List Address)) (e : Element) : Checked (List Address) :=
  match e.colon with
  | some colon => do return [← p.group list e colon]
  | none => p.mailboxes e.start e.stop

/-- The addresses of elements, one after another. -/
def addressesOf (list : Nat → Nat → Checked (List Address)) :
    List Element → Checked (List Address)
  | [] => return []
  | e :: es => do
    let first ← p.addresses list e
    return first ++ (← addressesOf list es)

/-- The addresses of a list from one place up to another. Reading the members of a group comes to an
end since these are fewer tokens; members elsewhere would be a trap too. -/
def list (start stop : Nat) : Checked (List Address) := do
  p.addressesOf
    (fun i j ↦ if _ : start < i ∧ i ≤ j ∧ j ≤ stop then list i j else throw .trap)
    (← p.splitFrom stop start false none (places start stop))
termination_by stop - start

/-- The place of the first colon outside angle brackets, the first of the tokens being at `i`. -/
def colonFrom? (bracket : Bool) (i : Nat) : List Lexeme → Option Nat
  | [] => none
  | u :: us =>
    if u.isSpecial '<' then colonFrom? true (i + 1) us
    else if u.isSpecial '>' then colonFrom? false (i + 1) us
    else if u.isSpecial ':' && !bracket then some i
    else colonFrom? bracket (i + 1) us

/-- The place of the last semicolon. -/
def lastSemicolon? : List Lexeme → Option Nat
  | [] => none
  | u :: us =>
    match lastSemicolon? us with
    | some k => some (k + 1)
    | none => if u.isSpecial ';' then some 0 else none

/-- The members of a group, if the tokens are one. -/
def groupMembers : Checked (Option (List Address)) := do
  match colonFrom? false 0 p.lexemes, lastSemicolon? p.lexemes with
  | some colon, some semicolon =>
    if semicolon < colon then return none
    else
      p.checkGroupName 0 colon
      return some (← p.list (colon + 1) semicolon)
  | _, _ => return none

/-! ### Readings of a text -/

/-- The text with its tokens. -/
def read (s : Strictness) (t : Text) : Checked Indexed := do
  return ⟨s, t, ← Cursor.tokenize s t⟩

/-- The addresses of a list. -/
def parseList (s : Strictness) (t : Text) : Checked (List Address) := do
  let p ← read s t
  p.list 0 p.lexemes.length

/-- The only one of the addresses of a list. A text that is several is refused at its first comma,
or at its beginning. -/
def only : List Address → Checked Address
  | [a] => return a
  | [] => throw (p.fault .emptyAddress 0)
  | _ =>
    throw (p.fault .multipleAddresses
      (((p.lexemes.find? (·.isSpecial ',')).map Lexeme.start).getD 0))

/-- The address of a text that is exactly one. -/
def parse (s : Strictness) (t : Text) : Checked Address := do
  let p ← read s t
  p.only (← p.list 0 p.lexemes.length)

/-- The members of a group, nothing if the text is not a group. -/
def membersOf (s : Strictness) (t : Text) : Checked (Option (List Address)) := do
  let p ← read s t
  if Address.isGroupText (Text.trim t) then p.groupMembers else return none

end Indexed

end InternetMail
