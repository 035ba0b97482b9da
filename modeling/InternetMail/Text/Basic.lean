import InternetMail.Run

/-!
# Texts and octets

Mail travels as octets and says text. Both are lists here, so that every reader in the library is a
recursion on what is left to read.

Comparison of header names, charset labels and media types ignores the case of the ASCII letters and
of no others (`Text.foldAscii`, `Octet.foldAscii`).
-/

namespace InternetMail

/-- A text, as its characters. -/
abbrev Text := List Char

/-- The wire form of something, as its octets. -/
abbrev Octets := List UInt8

namespace Octet

/-- A space, a TAB, a CR or an LF: what surrounds names and values on the wire. -/
def isBlank (b : UInt8) : Bool :=
  b == 0x20 || b == 0x09 || b == 0x0a || b == 0x0d

/-- The ASCII white space: blanks and the form feed. -/
def isSpace (b : UInt8) : Bool :=
  isBlank b || b == 0x0c

/-- An ASCII control octet or a space: nothing that may stand in a name or a token. -/
def isControlOrSpace (b : UInt8) : Bool :=
  b < 33 || b == 127

/-- An ASCII control octet. -/
def isControl (b : UInt8) : Bool :=
  b < 32 || b == 127

/-- The ASCII letters and digits. -/
def isAlphanumeric (b : UInt8) : Bool :=
  (0x30 ≤ b && b ≤ 0x39) || (0x41 ≤ b && b ≤ 0x5a) || (0x61 ≤ b && b ≤ 0x7a)

/-- Whether the octet is an ASCII character. -/
def isAscii (b : UInt8) : Bool :=
  b < 128

/-- The octet with an ASCII capital made small. -/
def toLower (b : UInt8) : UInt8 :=
  if 0x41 ≤ b && b ≤ 0x5a then b + 0x20 else b

/-- The octet with a small ASCII letter made a capital. -/
def toUpper (b : UInt8) : UInt8 :=
  if 0x61 ≤ b && b ≤ 0x7a then b - 0x20 else b

/-- The octet of an ASCII character. -/
def ofAscii (c : Char) : UInt8 :=
  UInt8.ofNat c.toNat

/-- The character of an octet, read as a code point. -/
def toChar (b : UInt8) : Char :=
  Char.ofNat b.toNat

/-- The upper case hexadecimal digit of a number below sixteen. -/
def hexDigit (n : UInt8) : UInt8 :=
  if n < 10 then 0x30 + n else 0x37 + n

/-- The value of a hexadecimal digit in either case. -/
def hexValue? (b : UInt8) : Option UInt8 :=
  if 0x30 ≤ b && b ≤ 0x39 then some (b - 0x30)
  else if 0x41 ≤ b && b ≤ 0x46 then some (b - 0x37)
  else if 0x61 ≤ b && b ≤ 0x66 then some (b - 0x57)
  else none

end Octet

namespace Octets

/-- The octets of an ASCII text. -/
def ofAscii (s : String) : Octets :=
  s.toList.map Octet.ofAscii

/-- Whether every octet is an ASCII character. -/
def isAscii (bs : Octets) : Bool :=
  bs.all Octet.isAscii

/-- The octets with the ASCII capitals made small. -/
def foldAscii (bs : Octets) : Octets :=
  bs.map Octet.toLower

/-- The octets without the blanks at both ends. -/
def trim (bs : Octets) : Octets :=
  Run.strip Octet.isBlank bs

/-- The octets without the blanks at the front. -/
def trimStart (bs : Octets) : Octets :=
  bs.dropWhile Octet.isBlank

/-- The octets without the blanks at the end. -/
def trimEnd (bs : Octets) : Octets :=
  Run.stripEnd Octet.isBlank bs

end Octets

namespace Text

/-- The number of octets that the UTF-8 form of the text takes. -/
def utf8Size (t : Text) : Nat :=
  t.foldr (fun c n ↦ c.utf8Size + n) 0

/-- Whether every character is an ASCII character. -/
def isAscii (t : Text) : Bool :=
  t.all fun c ↦ c.toNat < 128

/-- The text with the ASCII capitals made small. -/
def foldAscii (t : Text) : Text :=
  t.map Char.toLower

/-- The text with each occurrence of `c` replaced by `other`. -/
def replaceChar (c : Char) (other : Text) (t : Text) : Text :=
  t.flatMap fun d ↦ if d == c then other else [d]

/-- The texts one after another, with `between` put between them. -/
def joined (between : Text) : List Text → Text
  | [] => []
  | [t] => t
  | t :: ts => t ++ between ++ joined between ts

theorem joined_cons (between t : Text) {ts : List Text} (hts : ts ≠ []) :
    joined between (t :: ts) = t ++ between ++ joined between ts := by
  rw [joined]
  exact hts

/-- The first line of the text, without the LF or the CR LF that ends it. -/
def firstLine (t : Text) : Text :=
  let line := t.takeWhile (· != '\n')
  if t.contains '\n' then Run.dropEnding ['\r'] line else line

@[simp]
theorem utf8Size_nil : utf8Size [] = 0 := rfl

@[simp]
theorem utf8Size_cons (c : Char) (t : Text) : utf8Size (c :: t) = c.utf8Size + utf8Size t := by
  simp [utf8Size]

@[simp]
theorem utf8Size_append (t u : Text) : utf8Size (t ++ u) = utf8Size t + utf8Size u := by
  induction t with
  | nil => simp
  | cons c t ih => simp [ih, Nat.add_assoc]

end Text

/-- A space, a TAB, a CR or an LF. -/
def isBlankChar (c : Char) : Bool :=
  c == ' ' || c == '\t' || c == '\r' || c == '\n'

/-- The ASCII white space: blanks and the form feed. -/
def isSpaceChar (c : Char) : Bool :=
  isBlankChar c || c == '\x0c'

/-- The control characters: code points below 32 and from 127 to 159. -/
def isControlChar (c : Char) : Bool :=
  c.toNat < 32 || (127 ≤ c.toNat && c.toNat < 160)

end InternetMail
