import InternetMail.Text.Basic

/-!
# Multi-byte charsets of East Asia

These charsets write a character as several octets, by tables that are no part of this library. How
they read and write is a parameter of everything that decodes or encodes text: a `MultiByte.Codec`.
A codec is asked for whole texts, since ISO-2022-JP switches between character sets within one.

All of the charsets agree with ASCII on the octets below 128, but for the controls that ISO-2022-JP
switches with. `MultiByte.AsciiPart` is the codec that goes no further than that. Its priority is
low, so that it stands in only where a program brings no tables and a statement names no codec; what
is said of every codec is said of the tables, whatever they are.
-/

namespace InternetMail

/-- The charsets in which an East Asian character is several octets. -/
inductive MultiByte
  | gbk
  | gb18030
  | big5
  | eucJp
  | iso2022Jp
  | shiftJis
  | eucKr
  deriving DecidableEq, Repr

namespace MultiByte

/-- The name of the charset. -/
def name : MultiByte → String
  | .gbk => "GBK"
  | .gb18030 => "gb18030"
  | .big5 => "Big5"
  | .eucJp => "EUC-JP"
  | .iso2022Jp => "ISO-2022-JP"
  | .shiftJis => "Shift_JIS"
  | .eucKr => "EUC-KR"

/-- How the multi-byte charsets are read and written. -/
class Codec where
  /-- What octets say, `none` standing for each malformed stretch. -/
  chars : MultiByte → Octets → List (Option Char)
  /-- The octets of a text, if the charset has all its characters. -/
  octets? : MultiByte → Text → Option Octets

namespace AsciiPart

/-- Whether the code point is an ASCII character that stands for itself. Shifts and escapes do not
where they switch between character sets. -/
def standsForItself (m : MultiByte) (n : Nat) : Bool :=
  n < 128 && !(m == .iso2022Jp && (n == 0x0e || n == 0x0f || n == 0x1b))

/-- The character of an octet. -/
def charOf? (m : MultiByte) (b : UInt8) : Option Char :=
  if standsForItself m b.toNat then some (Char.ofNat b.toNat) else none

/-- The octet of a character. -/
def octetOf? (m : MultiByte) (c : Char) : Option UInt8 :=
  if standsForItself m c.toNat then some (UInt8.ofNat c.toNat) else none

/-- The ASCII part of the charsets: every other octet counts as malformed and every other character
as missing. -/
instance (priority := low) codec : Codec where
  chars m bs := bs.map (charOf? m)
  octets? m t := t.mapM (octetOf? m)

end AsciiPart

end MultiByte

end InternetMail
