import InternetMail.Error
import InternetMail.Text.Quoted

/-!
# Readers

The small readers that header fields, content types and encoded words are read with. A reader takes
a value off the front of some octets and gives what is left, or stops with a `Mismatch`: where it
stopped and what it expected there.
-/

namespace InternetMail

/-- What a reader expected. -/
inductive Expectation
  /-- Fixed octets. -/
  | literal
  /-- At least one octet of a class. -/
  | run
  /-- At least one octet outside a set of delimiters. -/
  | undelimited
  /-- Octets that end somewhere ahead. -/
  | ending
  /-- One of several forms; `last` is what the last of them expected. -/
  | oneOf (last : Expectation)
  /-- A header field where the input had ended. -/
  | field
  /-- A field name where a line break stood. -/
  | fieldName
  /-- The colon after a field name. -/
  | colon
  /-- An octet of a field name where another stood. -/
  | fieldNameOctet (found : UInt8)
  /-- A well-formed field name. -/
  | validFieldName
  /-- The quote at the end of a parameter value. -/
  | closingQuote
  /-- Room for an octet written by number. -/
  | escapeLength
  /-- An octet written by number. -/
  | escape
  /-- An encoded word without white space in it. -/
  | unbrokenWord
  /-- Base64 in an encoded word. -/
  | base64
  deriving DecidableEq

/-- The expectation in words. -/
def Expectation.message : Expectation → String
  | .literal => "Tag"
  | .run => "TakeWhile1"
  | .undelimited => "IsNot"
  | .ending => "Take until"
  | .oneOf last => "Alternative, " ++ last.message
  | .field => "header(): empty input"
  | .fieldName => "header(): field name starts with new line"
  | .colon => "header(): expected ':' after field name"
  | .fieldNameOctet found =>
    "header(): invalid character in field name: " ++ quotedChar (Octet.toChar found)
  | .validFieldName => "header(): invalid header name"
  | .closingQuote => "quoted_value(): unterminated quoted string"
  | .escapeLength => "quoted_printable_byte(): input too short to be quoted_printable"
  | .escape => "quoted_printable_byte(): invalid input"
  | .unbrokenWord => "encoded_word(): encoded text contains white space"
  | .base64 => "encoded_word(): invalid base64"

/-- Where a reader stopped and what it expected there. -/
structure Mismatch where
  input : Octets
  expected : Expectation
  deriving DecidableEq

/-- What some malformed input looks like at its start. -/
def excerpt (bs : Octets) : String :=
  String.ofList ((Utf8.decodeLossy bs).take 30)

/-- The error of a reader that stopped. -/
def Error.ofMismatch (input : Octets) (expected : String) : Error :=
  ⟨"Parsing error", some ("In input: \"" ++ excerpt input ++ "...\",\nError: " ++ expected), none,
    .parse⟩

/-- The error of a reader that was given too little. -/
def Error.incomplete : Error :=
  (ofSummary "Parsing Error: Incomplete").withKind .parse

/-- The error of a mismatch. -/
def Mismatch.toError (m : Mismatch) : Error :=
  .ofMismatch m.input m.expected.message

/-- The mismatch with its parts named, as logs show it. -/
def Mismatch.describe (m : Mismatch) : String :=
  "ParsingError \x7b input: " ++ Text.quoted (Utf8.decodeLossy m.input) ++ ", error: " ++
    Text.quoted m.expected.message.toList ++ " \x7d"

/-- Takes a value off the front of some octets, and gives what is left. -/
abbrev Reader (α : Type) := Octets → Except Mismatch (α × Octets)

namespace Reader

/-- Reads the octets of `word` and nothing else. -/
def literal (word : Octets) : Reader Unit := fun bs ↦
  if word.isPrefixOf bs then .ok ((), bs.drop word.length) else .error ⟨bs, .literal⟩

/-- Reads all octets up to the first on which `p` does not hold; there has to be one. -/
def run (p : UInt8 → Bool) (expected : Expectation := .run) : Reader Octets := fun bs ↦
  if (bs.takeWhile p).isEmpty then .error ⟨bs, expected⟩
  else .ok (bs.takeWhile p, bs.dropWhile p)

/-- The octets before the first place where `word` stands, and the octets from there on. -/
def splitBefore (word : Octets) : Octets → Option (Octets × Octets)
  | [] => if word.isEmpty then some ([], []) else none
  | b :: bs =>
    if word.isPrefixOf (b :: bs) then some ([], b :: bs)
    else (splitBefore word bs).map fun (found, rest) ↦ (b :: found, rest)

/-- Reads all octets before the first place where `word` stands. -/
def before (word : Octets) : Reader Octets := fun bs ↦
  match splitBefore word bs with
  | some found => .ok found
  | none => .error ⟨bs, .ending⟩

/-- Reads what `first` reads, or else what `second` reads. -/
def orElse {α : Type} (first second : Reader α) : Reader α := fun bs ↦
  match first bs with
  | .ok r => .ok r
  | .error _ =>
    match second bs with
    | .ok r => .ok r
    | .error m => .error ⟨bs, .oneOf m.expected⟩

/-- Reads as many values as there are one after another, each of at least one octet. -/
def many {α : Type} (r : Reader α) (bs : Octets) : List α × Octets :=
  match r bs with
  | .error _ => ([], bs)
  | .ok (a, rest) =>
    if rest.length < bs.length then
      let (as, rest) := many r rest
      (a :: as, rest)
    else ([], bs)
termination_by bs.length

end Reader

end InternetMail
