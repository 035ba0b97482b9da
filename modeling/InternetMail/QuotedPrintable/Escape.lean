import InternetMail.QuotedPrintable
import InternetMail.Reader

/-!
# Single escapes

One octet that is written as `=` and two hexadecimal digits, read by itself and with the reason why
it cannot be read.
-/

namespace InternetMail.QuotedPrintable

/-- Reads one octet that is written by number. -/
def readEscape : Reader UInt8 := fun bs ↦
  match bs with
  | b :: high :: low :: rest =>
    match if b == 0x3d then escaped? high low else none with
    | some octet => .ok (octet, rest)
    | none => .error ⟨bs, .escape⟩
  | _ => .error ⟨bs, .escapeLength⟩

/-- The digits of an octet say it. -/
theorem escaped_digits (b : UInt8) :
    escaped? (Octet.hexDigit (b / 16)) (Octet.hexDigit (b % 16)) = some b := by
  have h : ∀ n < 256, escaped? (Octet.hexDigit (UInt8.ofNat n / 16))
      (Octet.hexDigit (UInt8.ofNat n % 16)) = some (UInt8.ofNat n) := by
    decide +kernel
  simpa using h b.toNat b.toNat_lt

end InternetMail.QuotedPrintable
