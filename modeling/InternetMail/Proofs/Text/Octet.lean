import InternetMail.Text.Basic

/-!
# Octets and ASCII characters one by one

There are so few octets that what holds of each can be looked up, one digit after the other. ASCII
characters are looked up as well; beyond ASCII no character is a capital.

An octet is decided by its two digits of four bits, so that a fact about all of them is sixteen
facts about sixteen octets and not one about 256 (`Octet.forall_of_digits`), which is what
evaluation can do without running too deep.
-/

namespace InternetMail

theorem Octet.forall_of_digits (p : UInt8 → Prop)
    (h : ∀ high < 16, ∀ low < 16, p (UInt8.ofNat (high * 16 + low))) : ∀ b, p b := by
  intro b
  have hb := b.toNat_lt
  have hdigits := h (b.toNat / 16) (by omega) (b.toNat % 16) (by omega)
  rwa [Nat.div_add_mod', UInt8.ofNat_toNat] at hdigits

namespace Text

/-- What holds of the first 128 characters holds of ASCII. -/
theorem forall_of_ascii (p : Char → Prop) (h : ∀ n < 0x80, p (Char.ofNat n)) :
    ∀ c : Char, c.toNat < 0x80 → p c := by
  intro c hc
  have hchar := h c.toNat hc
  rwa [Char.ofNat_toNat] at hchar

theorem toLower_of_not_ascii {c : Char} (h : ¬c.toNat < 0x80) : c.toLower = c := by
  unfold Char.toLower
  split
  · rename_i hupper
    have hle : c.toNat ≤ 0x5a := hupper.2
    omega
  · rfl

theorem toLower_toLower (c : Char) : c.toLower.toLower = c.toLower := by
  by_cases hc : c.toNat < 0x80
  · exact forall_of_ascii (fun c ↦ c.toLower.toLower = c.toLower) (by decide) c hc
  · rw [toLower_of_not_ascii hc, toLower_of_not_ascii hc]

theorem foldAscii_foldAscii (t : Text) : t.foldAscii.foldAscii = t.foldAscii := by
  rw [foldAscii, foldAscii, List.map_map]
  exact List.map_congr_left fun c _ ↦ toLower_toLower c

end Text

end InternetMail
