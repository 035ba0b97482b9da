import InternetMail.Header.Name
import InternetMail.Reader

/-!
# Header fields and mail on the wire

A header field is a name, a colon, and a value that goes on to the first line break after which no
space or TAB follows. A mail is some fields, an empty line and a body (`Mail.split`).

Values are kept as they stand on the wire, with the line breaks they are folded at; only the white
space before them and the line break after them are dropped.
-/

namespace InternetMail

/-- A header field on the wire. -/
structure Field where
  name : HeaderName
  value : Octets
  deriving DecidableEq

namespace Field

/-- Whether the octet is a space or a TAB. -/
def isFold (b : UInt8) : Bool :=
  b == 0x20 || b == 0x09

/-- The octets up to the end of a value, its line break apart, and those after it. A CR before the
line break is still part of what this gives. -/
def splitValue : Octets → Octets × Octets
  | [] => ([], [])
  | b :: bs =>
    if b == 0x0a && !bs.head?.any isFold then ([], bs)
    else
      let (value, rest) := splitValue bs
      (b :: value, rest)

/-- Reads a value and the line break after it, which may be missing at the end. -/
def readValue (bs : Octets) : Octets × Octets :=
  let (value, rest) := splitValue bs
  (Run.dropEnding [0x0d] value, rest)

/-- Reads a name and the colon after it. -/
def readName : Reader HeaderName := fun bs ↦
  if bs.isEmpty then .error ⟨bs, .field⟩
  else if [0x0a].isPrefixOf bs || [0x0d, 0x0a].isPrefixOf bs then .error ⟨bs, .fieldName⟩
  else
    let name := bs.takeWhile fun b ↦ b != 0x3a && !Octet.isControlOrSpace b
    match bs.drop name.length with
    | [] => .error ⟨bs, .colon⟩
    | b :: rest =>
      if b != 0x3a then .error ⟨b :: rest, .fieldNameOctet b⟩
      else
        match HeaderName.ofOctets? name with
        | some n => .ok (n, rest)
        | none => .error ⟨bs, .validFieldName⟩

/-- Reads a field. -/
def read : Reader Field := fun bs ↦ do
  let (name, bs) ← readName bs
  let (value, rest) := readValue (bs.dropWhile isFold)
  return (⟨name, value⟩, rest)

/-- Reads all fields up to the first place where none stands. -/
def readAll (bs : Octets) : List Field × Octets :=
  Reader.many read bs

end Field

namespace Error

/-- Neither a field nor an empty line stands where one has to. -/
def malformedHeader (rest : Octets) : Error :=
  (ofSummary "Could not parse mail headers").withDetails
    ("Expected a header field or an empty line, found: \"" ++ excerpt rest ++ "...\"")
    |>.withKind .parse

end Error

namespace Mail

/-- What follows an empty line, if the octets begin with one. -/
def afterEmptyLine? : Octets → Option Octets
  | 0x0d :: 0x0a :: body => some body
  | 0x0a :: body => some body
  | _ => none

/-- The fields and the body of a mail. A mail that ends after its fields has no body. -/
def split (bs : Octets) : Outcome (List Field × Octets) :=
  let (fields, rest) := Field.readAll bs
  match afterEmptyLine? rest with
  | some body => .ok (fields, body)
  | none => if rest.isEmpty then .ok (fields, []) else .error (.malformedHeader rest)

end Mail

end InternetMail
