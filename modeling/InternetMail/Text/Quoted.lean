import InternetMail.Text.Basic
import InternetMail.Text.Unprintable

/-!
# Quoted text

How messages show a piece of text: between double quotes, with the quote, the backslash and the
usual controls escaped by a letter and every other character that cannot be shown escaped by its
number.
-/

namespace InternetMail

/-- The lower case hexadecimal digits of `n`. -/
def hexDigits (n : Nat) : String :=
  String.ofList (Nat.toDigits 16 n)

/-- A character written by its number. -/
def escapedByNumber (c : Char) : String :=
  "\\u\x7b" ++ hexDigits c.toNat ++ "\x7d"

/-- A character as quoted text shows it, between `quote` marks. -/
def escapedChar (quote : Char) (c : Char) : String :=
  if c == '\x00' then "\\0"
  else if c == '\t' then "\\t"
  else if c == '\r' then "\\r"
  else if c == '\n' then "\\n"
  else if c == quote || c == '\\' then String.ofList ['\\', c]
  else if c.toNat < 32 || unprintable.holds c then escapedByNumber c
  else c.toString

/-- The text between double quotes. -/
def Text.quoted (t : Text) : String :=
  "\"" ++ String.join (t.map (escapedChar '"')) ++ "\""

/-- The character between single quotes. -/
def quotedChar (c : Char) : String :=
  "'" ++ escapedChar '\'' c ++ "'"

end InternetMail
