import InternetMail.Text.Basic
import InternetMail.Text.Ranges

/-!
# White space

The property `White_Space`: what is trimmed from labels and names, and what a display name may hold
only inside and singly if it is to be written without quotes.
-/

namespace InternetMail

/-- The property `White_Space`. -/
def whiteSpace : Ranges := [
  (0x09, 0x0d), (0x20, 0x20), (0x85, 0x85), (0xa0, 0xa0), (0x1680, 0x1680), (0x2000, 0x200a),
  (0x2028, 0x2029), (0x202f, 0x202f), (0x205f, 0x205f), (0x3000, 0x3000)]

/-- Whether the character is white space. -/
def isWhite (c : Char) : Bool :=
  whiteSpace.holds c

namespace Text

/-- The text without the white space at both ends. -/
def trim (t : Text) : Text :=
  Run.strip isWhite t

/-- The text without the white space at the front. -/
def trimStart (t : Text) : Text :=
  t.dropWhile isWhite

/-- The text without the white space at the end. -/
def trimEnd (t : Text) : Text :=
  Run.stripEnd isWhite t

end Text

/-- Blanks are white space. -/
theorem isWhite_of_isBlankChar {c : Char} (h : isBlankChar c = true) : isWhite c = true := by
  simp only [isBlankChar, Bool.or_eq_true, beq_iff_eq] at h
  rcases h with ((rfl | rfl) | rfl) | rfl <;> decide

end InternetMail
