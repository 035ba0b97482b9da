import InternetMail.ContentType.Basic
import InternetMail.Notice
import InternetMail.Reader

/-!
# Reading content types

Type and subtype are tokens with a slash between them. Parameters follow, each after a semicolon,
with a value that is quoted or goes on to white space or the next semicolon. Only white space and
semicolons may be left over (`ContentType.parse`).
-/

namespace InternetMail.ContentType

/-- Whether a token may hold the octet. -/
def isTokenOctet (b : UInt8) : Bool :=
  !Octet.isControlOrSpace b && Octet.isAscii b && !specials.contains (Octet.toChar b)

/-- What a quoted value says, from after its opening quote. An octet after a backslash stands for
itself. -/
def quotedBody : Octets → Except Mismatch (Octets × Octets)
  | [] => .error ⟨[], .closingQuote⟩
  | 0x22 :: rest => .ok ([], rest)
  | 0x5c :: b :: rest => (quotedBody rest).map fun (value, rest) ↦ (b :: value, rest)
  | b :: rest => (quotedBody rest).map fun (value, rest) ↦ (b :: value, rest)

/-- Reads a value between quotes. -/
def readQuoted : Reader Octets := fun bs ↦ do
  let (_, bs) ← Reader.literal [0x22] bs
  quotedBody bs

/-- Reads a value without quotes. -/
def readUnquoted : Reader Octets :=
  Reader.run (fun b ↦ b != 0x3b && b != 0x22 && !Octet.isBlank b) .undelimited

/-- A parameter that was read: its name and its value. -/
abbrev RawParameter := Octets × Octets

/-- Reads a parameter with the semicolon before it. White space may stand between its parts. -/
def readParameter : Reader RawParameter := fun bs ↦ do
  let (_, bs) ← Reader.literal [0x3b] bs.trimStart
  let (name, bs) ← Reader.run isTokenOctet .run bs.trimStart
  let (_, bs) ← Reader.literal [0x3d] bs.trimStart
  let (value, rest) ← Reader.orElse readQuoted readUnquoted bs.trimStart
  return ((name, value), rest)

/-- A content type that was read: type, subtype and parameters. -/
abbrev Raw := Octets × Octets × List RawParameter

/-- Reads a content type. -/
def read : Reader Raw := fun bs ↦ do
  let (primary, bs) ← Reader.run isTokenOctet .run bs.trimStart
  let (_, bs) ← Reader.literal [0x2f] bs.trimStart
  let (sub, bs) ← Reader.run isTokenOctet .run bs.trimStart
  let (parameters, rest) := Reader.many readParameter bs
  return ((primary, sub, parameters), rest)

/-- The content type that was read. Of two parameters of one name the later value counts. -/
def ofRaw : Raw → ContentType
  | (primary, sub, parameters) =>
    parameters.foldl
      (fun ct p ↦ ct.setParameter (Utf8.decodeLossy p.1) (Utf8.decodeLossy p.2))
      (ofNames (Utf8.decodeLossy primary) (Utf8.decodeLossy sub))

end InternetMail.ContentType

namespace InternetMail.Error

/-- The summary of a text that is no content type. -/
def contentTypeSummary (t : Text) : String :=
  "Invalid content type: " ++ t.quoted

/-- A text that does not begin with a content type. -/
def malformedContentType (t : Text) (m : Mismatch) : Error :=
  m.toError.withSummary (contentTypeSummary t)

/-- Text that follows a content type. -/
def textAfterContentType (t : Text) (rest : Octets) : Error :=
  (ofSummary (contentTypeSummary t)).withDetails
    ("Unexpected text after parameters: " ++ Text.quoted (Utf8.decodeLossy rest.trim))
    |>.withKind .parse

end InternetMail.Error

namespace InternetMail.ContentType

/-- The content type that a text writes. -/
def parse (t : Text) : Outcome ContentType :=
  match read (Utf8.encode t) with
  | .error m => .error (.malformedContentType t m)
  | .ok (raw, rest) =>
    if rest.any fun b ↦ b != 0x3b && !Octet.isSpace b then
      .error (.textAfterContentType t rest)
    else .ok (ofRaw raw)

end InternetMail.ContentType
