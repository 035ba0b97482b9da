import InternetMail.Charset.Label
import InternetMail.Notice

/-!
# Reading and writing in a charset

Every charset takes octets apart into characters and malformed stretches (`Charset.chars`), and
writes some texts as octets (`Charset.octets?`). Decoding always gives a text, in which U+FFFD
stands for each malformed stretch; encoding fails at a character that the charset does not have.

The multi-byte charsets are read and written by a codec. All others write a text character by
character (`Charset.octetsOf?`).
-/

namespace InternetMail

namespace Error

/-- A charset label means no charset. -/
def unknownCharset (label : Text) : Error :=
  ⟨s!"Unsupported charset: {String.ofList label}",
    some "The charset label is not a known encoding.", none, .unsupportedEncoding⟩

/-- A text has a character that the charset does not have. -/
def unmappable (charset : String) : Error :=
  ⟨s!"Text contains characters that cannot be encoded as {charset}", none, none,
    .unsupportedEncoding⟩

end Error

namespace Charset

/-- The charset that is meant by a label, as it stands in a parameter or an encoded word: the case
does not matter, nor white space and quotes around it. -/
def resolve (label : Text) : Outcome Charset :=
  let bare := Text.trim (Run.strip (· == '"') (Text.trim label))
  match ofLabel? (String.ofList (Text.foldAscii bare)) with
  | some charset => .ok charset
  | none => .error (.unknownCharset label)

variable [MultiByte.Codec]

/-! ### Decoding -/

/-- What the octets say, `none` standing for each malformed stretch. -/
def chars (charset : Charset) (bs : Octets) : List (Option Char) :=
  match charset with
  | .ascii => bs.map fun b ↦ if b < 128 then some (Octet.toChar b) else none
  | .utf8 =>
    (Utf8.parts bs).map fun
      | .char c => some c
      | .illFormed _ _ => none
  | .utf16 order => Utf16.chars (Utf16.units order bs)
  | .singleByte s => bs.map s.charOf?
  | .multiByte m => MultiByte.Codec.chars m bs
  | .replacement => if bs.isEmpty then [] else [none]

/-- The text that the octets say, with U+FFFD for each malformed stretch. -/
def text (charset : Charset) (bs : Octets) : Text :=
  (charset.chars bs).map (·.getD Utf8.replacement)

/-- Reads the octets, reporting whether anything was malformed. -/
def decode (charset : Charset) (bs : Octets) : Reported Notice Text := do
  if (charset.chars bs).any Option.isNone then
    Reported.report <|
      match charset with
      | .ascii => .replacedNonAscii
      | _ => .replacedMalformed charset.name
  return charset.text bs

/-! ### Encoding -/

/-- The octets of a character, if the charset has it. In a multi-byte charset it is a text by
itself. -/
def octetsOf? (charset : Charset) (c : Char) : Option Octets :=
  match charset with
  | .ascii => if c.toNat < 128 then some [Octet.ofAscii c] else none
  | .utf8 => some (String.utf8EncodeChar c)
  | .utf16 order => some (Utf16.encodeChar order c)
  | .singleByte s => (s.octetOf? c).map ([·])
  | .multiByte m => MultiByte.Codec.octets? m [c]
  | .replacement => none

/-- The octets of a text character by character, if the charset has all of these. -/
def octetsEach? (charset : Charset) : Text → Option Octets
  | [] => some []
  | c :: t => do return (← charset.octetsOf? c) ++ (← charset.octetsEach? t)

/-- The octets of a text, if the charset has all its characters. -/
def octets? (charset : Charset) (t : Text) : Option Octets :=
  match charset with
  | .multiByte m => MultiByte.Codec.octets? m t
  | _ => charset.octetsEach? t

/-- Writes a text. Nothing at all can be written in the replacement charset. -/
def encode (charset : Charset) (t : Text) : Outcome Octets :=
  if charset = .replacement then .error (.unmappable charset.name)
  else
    match charset.octets? t with
    | some bs => .ok bs
    | none => .error (.unmappable charset.name)

@[simp]
theorem value_decode (charset : Charset) (bs : Octets) :
    (charset.decode bs).value = charset.text bs := by
  unfold decode
  split <;> rfl

end Charset

end InternetMail
