import InternetMail.Proofs.Text.Octet
import InternetMail.QuotedPrintable.Escape

/-!
# The `Q` form reads what it writes

Octet by octet, what an encoded word has for an octet is read as that octet, whatever follows
(`decodeWord_encodeWord`).
-/

namespace InternetMail.QuotedPrintable

/-- An octet that is kept as it is neither begins an escape nor stands for a space. -/
theorem isWordPlain_ne : ∀ b, isWordPlain b = true → (b == 0x3d) = false ∧ (b == 0x5f) = false :=
  Octet.forall_of_digits _ (by decide)

theorem decodeWord_encodeWordOctet (b : UInt8) (rest : Octets) :
    decodeWord (encodeWordOctet b ++ rest) = b :: decodeWord rest := by
  unfold encodeWordOctet
  split
  · rename_i hspace
    rw [eq_of_beq hspace, List.singleton_append, decodeWord.eq_def]
    rfl
  · split
    · rename_i hplain
      obtain ⟨hescape, hspace⟩ := isWordPlain_ne b hplain
      rw [List.singleton_append, decodeWord.eq_def]
      simp only [hescape, hspace, Bool.false_eq_true, if_false]
    · show decodeWord (0x3d :: Octet.hexDigit (b / 16) :: Octet.hexDigit (b % 16) :: rest) = _
      rw [decodeWord.eq_def]
      simp only [beq_self_eq_true, if_true, escaped_digits]

/-- The `Q` form of octets is read as these octets. -/
theorem decodeWord_encodeWord (bs : Octets) : decodeWord (encodeWord bs) = bs := by
  induction bs with
  | nil => rfl
  | cons b bs ih =>
    rw [encodeWord, List.flatMap_cons, decodeWord_encodeWordOctet]
    exact congrArg (b :: ·) ih

end InternetMail.QuotedPrintable
