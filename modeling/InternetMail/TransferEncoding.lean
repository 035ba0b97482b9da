import InternetMail.Base64
import InternetMail.Notice
import InternetMail.QuotedPrintable

/-!
# Transfer encodings

The encoding that a body travels in. Three of them leave the body as it is and say only what octets
it has; base64 and quoted-printable write it in safe ASCII (`TransferEncoding.encode`).
`TransferEncoding.forText` and `TransferEncoding.forOctets` choose the mildest encoding that gets a
body through.
-/

namespace InternetMail

/-- How a body is encoded for transport. -/
inductive TransferEncoding
  | sevenBit
  | eightBit
  | binary
  | base64
  | quotedPrintable
  /-- An encoding that cannot be done or undone here. -/
  | other (name : Text)
  deriving DecidableEq, Repr

namespace Error

/-- An encoding that cannot be done or undone. -/
def unsupportedTransfer (name : Text) : Error :=
  (ofSummary ("Unsupported Content-Transfer-Encoding: " ++ String.ofList name)).withKind
    .unsupportedEncoding

/-- A body that is not base64. -/
def malformedBody (fault : Base64.RunFault) : Error :=
  (ofRun fault).withSummary "Could not decode base64 body"

end Error

namespace TransferEncoding

/-- The name of the encoding. -/
def name : TransferEncoding → Text
  | sevenBit => "7bit".toList
  | eightBit => "8bit".toList
  | binary => "binary".toList
  | base64 => "base64".toList
  | quotedPrintable => "quoted-printable".toList
  | other name => name

/-- The encodings that can be done and undone. -/
def supported : List TransferEncoding :=
  [base64, sevenBit, eightBit, binary, quotedPrintable]

/-- The encoding that some octets name, in any case and with blanks around. -/
def ofOctets (bs : Octets) : TransferEncoding :=
  let name := Octets.foldAscii bs.trim
  match supported.find? fun e ↦ Utf8.encode e.name == name with
  | some e => e
  | none => other (Utf8.decodeLossy name)

/-- Whether the encoding leaves a body as it is. -/
def isIdentity : TransferEncoding → Bool
  | sevenBit | eightBit | binary => true
  | _ => false

/-! ### Choosing an encoding -/

/-- The longest line that may travel as it is. -/
def lineLimit : Nat := 998

/-- Whether the octet is a control other than TAB and those of line breaks. -/
def isUnsafeControl (b : UInt8) : Bool :=
  Octet.isControl b && b != 0x0d && b != 0x0a && b != 0x09

/-- The encoding for a text: none if its lines are short and have only ASCII characters and no
controls, quoted-printable if at most a third of it is otherwise, and base64 for the rest. -/
def forText (body : Octets) : TransferEncoding :=
  let long := (Run.stretches (· == 0x0a) body).any fun line ↦ lineLimit < line.length
  let exposed := body.countP fun b ↦ !Octet.isAscii b || isUnsafeControl b
  if exposed == 0 && !long then sevenBit
  else if exposed * 3 ≤ body.length then quotedPrintable
  else base64

/-- Whether the octets have a CR without an LF after it or an LF without a CR before it;
`afterReturn` tells whether a CR stands before them. -/
def hasBareBreak (afterReturn : Bool) : Octets → Bool
  | [] => false
  | b :: bs =>
    (b == 0x0d && bs.head? != some 0x0a) || (b == 0x0a && !afterReturn) ||
      hasBareBreak (b == 0x0d) bs

/-- The encoding for octets that have to come back exactly: base64 where quoted-printable would
change line breaks, or where there are controls. -/
def forOctets (body : Octets) : TransferEncoding :=
  if hasBareBreak false body || body.any isUnsafeControl then base64 else forText body

/-! ### Encoding and decoding -/

/-- The longest line of base64, without its line break. -/
def base64LineLimit : Nat := 76

/-- Base64 in lines, each with a line break. -/
def base64Lines (body : Octets) : Octets :=
  (Run.pieces base64LineLimit (Base64.encode body)).flatMap (· ++ [0x0d, 0x0a])

/-- The encoded form of a body. -/
def encode (e : TransferEncoding) (body : Octets) : Outcome Octets :=
  match e with
  | sevenBit | eightBit | binary => .ok body
  | base64 => .ok (base64Lines body)
  | quotedPrintable => .ok (QuotedPrintable.encode body)
  | other name => .error (.unsupportedTransfer name)

/-- The body of an encoded form. White space in base64 does not count, and its last block need not
be filled up. -/
def decode (e : TransferEncoding) (form : Octets) : Outcome Octets :=
  match e with
  | sevenBit | eightBit | binary => .ok form
  | base64 =>
    (Base64.readRun .optional (form.filter (!Octet.isSpace ·))).mapError Error.malformedBody
  | quotedPrintable => .ok (QuotedPrintable.decode form)
  | other name => .error (.unsupportedTransfer name)

end TransferEncoding

end InternetMail
