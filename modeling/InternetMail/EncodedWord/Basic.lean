import InternetMail.Base64
import InternetMail.Charset.Basic
import InternetMail.QuotedPrintable
import InternetMail.Reader

/-!
# Encoded words

An encoded word, `=?charset?Q?text?=` or `=?charset?B?text?=`, carries text of any charset in a
header field. `EncodedWord.read` reads one off the front of some octets, and `EncodedWord.decode`
reads a text that is exactly one encoded word.
-/

namespace InternetMail

/-- How the octets of an encoded word are written. -/
inductive WordEncoding
  /-- Base64. -/
  | b
  /-- Octets written by number where they are not safe, and `_` for a space. -/
  | q
  deriving DecidableEq, Repr

/-- The letter of the encoding. -/
def WordEncoding.letter : WordEncoding → Char
  | .b => 'B'
  | .q => 'Q'

namespace Error

/-- A text that is not an encoded word. -/
def trailingAfterWord (word : Text) : Error :=
  ⟨s!"Invalid encoded word: {String.ofList word}",
    some "Trailing characters after the encoded word.", none, .parse⟩

/-- A text that does not begin with an encoded word. -/
def malformedWord (word : Text) (m : Mismatch) : Error :=
  m.toError.withSummary s!"Invalid encoded word: {String.ofList word}"

end Error

/-- An encoded word with its encoding undone; the octets are in the charset still. -/
structure EncodedWord where
  label : Octets
  encoding : WordEncoding
  octets : Octets

namespace EncodedWord

/-- Reads the encoding of a word and the question marks around it. -/
def readEncoding : Reader WordEncoding := fun bs ↦
  match bs with
  | 0x3f :: 0x42 :: 0x3f :: rest | 0x3f :: 0x62 :: 0x3f :: rest => .ok (.b, rest)
  | 0x3f :: 0x51 :: 0x3f :: rest | 0x3f :: 0x71 :: 0x3f :: rest => .ok (.q, rest)
  | _ => .error ⟨bs, .oneOf .literal⟩

/-- The octets of a word in base64. Filling may be missing or excessive. -/
def readBase64 (text : Octets) : Except Mismatch Octets :=
  match Base64.readBlocks text with
  | .ok bs => .ok bs
  | .error _ =>
    match Base64.readUnfilledBlocks (Run.stripEnd (· == Base64.pad) text) with
    | .ok bs => .ok bs
    | .error _ => .error ⟨text, .base64⟩

/-- Reads an encoded word. A language after the charset, as in `US-ASCII*EN`, is dropped. -/
def read : Reader EncodedWord := fun bs ↦ do
  let (_, bs) ← Reader.literal (.ofAscii "=?") bs
  let (label, bs) ← Reader.run (fun b ↦ b != 0x3f && !Octet.isControlOrSpace b) .run bs
  let (encoding, bs) ← readEncoding bs
  let (text, bs) ← Reader.before (.ofAscii "?=") bs
  let (_, rest) ← Reader.literal (.ofAscii "?=") bs
  if text.any Octet.isControlOrSpace then throw ⟨text, .unbrokenWord⟩
  let octets ←
    match encoding with
    | .b => readBase64 text
    | .q => pure (QuotedPrintable.decodeWord text)
  return (⟨label.takeWhile (· != 0x2a), encoding, octets⟩, rest)

/-- The charset that the word names and the octets it carries, for a text that is exactly one
encoded word. -/
def parse (word : Text) : Outcome (Charset × Octets) :=
  match read (Utf8.encode (Text.trim word)) with
  | .error m => .error (.malformedWord word m)
  | .ok (w, rest) =>
    if !rest.isEmpty then .error (.trailingAfterWord word)
    else (Charset.resolve (Utf8.decodeLossy w.label)).map fun charset ↦ (charset, w.octets)

/-- The text that an encoded word says. -/
def decode [MultiByte.Codec] (word : Text) : Attempt Text := do
  let (charset, octets) ← parse word
  charset.decode octets

end EncodedWord

end InternetMail
