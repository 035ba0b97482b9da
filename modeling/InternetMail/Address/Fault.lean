import InternetMail.Text.Quoted

/-!
# Faults of address text

How strictly address text is read, the rule that a text can break, and the fault itself: the broken
rule with the text and the octet it was noticed at.
-/

namespace InternetMail

/-- How much of the address grammar is enforced, loosest first. -/
inductive Strictness
  /-- Incoming mail: what is left open is closed at the end of the text. -/
  | parseHeader
  /-- Structure only; simple addresses apart by white space are told apart. -/
  | nonStrict
  /-- The full grammar, in which an address has a domain. -/
  | strict
  deriving DecidableEq, Repr

/-- The name of a strictness in settings and messages. -/
def Strictness.name : Strictness → String
  | .parseHeader => "parse-header"
  | .nonStrict => "non-strict"
  | .strict => "strict"

/-- The strictness of a name. -/
def Strictness.ofName? : String → Option Strictness
  | "parse-header" => some .parseHeader
  | "non-strict" => some .nonStrict
  | "strict" => some .strict
  | _ => none

/-- The rule of the grammar that a text breaks. -/
inductive SyntaxRule
  | unexpectedToken
  | unterminatedQuote
  | unterminatedComment
  | unterminatedDomainLiteral
  | unterminatedRoute
  | unterminatedGroup
  | nestedGroup
  | emptyAddress
  | missingDomain
  | multipleAddresses
  | invalidCharacter
  deriving DecidableEq, Repr

/-- What breaking the rule looks like, in words. -/
def SyntaxRule.message : SyntaxRule → String
  | .unexpectedToken => "unexpected token"
  | .unterminatedQuote => "unterminated quoted string"
  | .unterminatedComment => "unterminated comment"
  | .unterminatedDomainLiteral => "unterminated domain literal"
  | .unterminatedRoute => "missing '>'"
  | .unterminatedGroup => "missing ';' at end of group"
  | .nestedGroup => "nested group"
  | .emptyAddress => "empty address"
  | .missingDomain => "missing domain"
  | .multipleAddresses => "more than one address"
  | .invalidCharacter => "invalid character"

/-- A broken rule and where it was noticed, as an octet of the text's UTF-8 form. -/
structure SyntaxFault where
  rule : SyntaxRule
  position : Nat
  deriving DecidableEq

/-- A syntax fault with the text that was read and how strictly it was read. -/
structure AddressFault where
  rule : SyntaxRule
  strictness : Strictness
  input : Text
  position : Nat
  deriving DecidableEq

/-- The fault of the text `input`. -/
def SyntaxFault.within (f : SyntaxFault) (strictness : Strictness) (input : Text) :
    AddressFault :=
  ⟨f.rule, strictness, input, f.position⟩

/-- The fault in words. -/
def AddressFault.message (f : AddressFault) : String :=
  s!"{f.rule.message} at position {f.position} in {f.input.quoted}"

end InternetMail
