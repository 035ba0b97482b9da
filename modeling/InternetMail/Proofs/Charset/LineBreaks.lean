import InternetMail.Proofs.Charset.Inverse
import InternetMail.Proofs.Message.ValueText
import InternetMail.Proofs.QuotedPrintable.Body

/-!
# Octets of line breaks in charsets

In most charsets only CR and LF have the octets of these (`Charset.ne_break_of_octets?`). In UTF-16
other characters have them too, and quoted-printable takes them for line breaks.

A text in UTF-16 is read as another one as soon as one of these octets is lost or replaced
(`Charset.text_append_ne`): octets say a character of theirs only by beginning with its form. So
what quoted-printable makes of a text without line breaks is read as that text just if it keeps all
of its octets (`Charset.text_endedLines_eq_iff`).

In UTF-16 the reading goes by pairs of octets, so that one octet less moves all that follow and one
octet replaced makes another unit. Either way the first place where the octets differ is in a unit
of its own, and what is read up to there is the same text (`exists_of_text_eq_cons`). A text cannot
be read from octets other than its own that begin as its own do, and this is the only property of
the charset that is used.
-/

namespace InternetMail

namespace Utf16

variable {order : ByteOrder} {bs : Octets} {c : Char} {cs : List (Option Char)}

/-- A unit is read from its two octets. -/
theorem exists_of_units_eq_cons {unit : Nat} {us : List (Option Nat)}
    (h : units order bs = some unit :: us) :
    unit < 0x10000 ∧ ∃ rest, bs = octetsOf order unit ++ rest ∧ us = units order rest := by
  match bs, h with
  | a :: b :: rest, h =>
    obtain ⟨hunit, rfl⟩ := List.cons.inj h
    have ha := a.toNat_lt
    have hb := b.toNat_lt
    cases order with
    | littleEndian =>
      obtain rfl : b.toNat * 256 + a.toNat = unit := Option.some.inj hunit
      refine ⟨by omega, rest, ?_, rfl⟩
      have hhigh : (b.toNat * 256 + a.toNat) / 256 = b.toNat := by omega
      have hlow : (b.toNat * 256 + a.toNat) % 256 = a.toNat := by omega
      simp only [octetsOf, hhigh, hlow, UInt8.ofNat_toNat, List.cons_append, List.nil_append]
    | bigEndian =>
      obtain rfl : a.toNat * 256 + b.toNat = unit := Option.some.inj hunit
      refine ⟨by omega, rest, ?_, rfl⟩
      have hhigh : (a.toNat * 256 + b.toNat) / 256 = a.toNat := by omega
      have hlow : (a.toNat * 256 + b.toNat) % 256 = b.toNat := by omega
      simp only [octetsOf, hhigh, hlow, UInt8.ofNat_toNat, List.cons_append, List.nil_append]

theorem toNat_ofNat {n : Nat} (h : n.isValidChar) : (Char.ofNat n).toNat = n := by
  rw [Char.ofNat, dif_pos h]
  rfl

theorem encodeChar_ofNat {n : Nat} (h : n.isValidChar) (hn : n < 0x10000) :
    encodeChar order (Char.ofNat n) = octetsOf order n := by
  rw [encodeChar, unitsOf, toNat_ofNat h, if_pos hn, List.flatMap_singleton]

/-- Two surrogates are the form of the character that they are read as. -/
theorem encodeChar_ofNat_surrogates {high low : Nat} (h₁ : 0xD800 ≤ high) (h₂ : high < 0xDC00)
    (h₃ : 0xDC00 ≤ low) (h₄ : low < 0xE000) :
    encodeChar order (Char.ofNat (0x10000 + (high - 0xD800) * 0x400 + (low - 0xDC00))) =
      octetsOf order high ++ octetsOf order low := by
  have hvalid : (0x10000 + (high - 0xD800) * 0x400 + (low - 0xDC00)).isValidChar :=
    Or.inr ⟨by omega, by omega⟩
  have hhigh : 0xD800 + (0x10000 + (high - 0xD800) * 0x400 + (low - 0xDC00) - 0x10000) / 0x400 =
      high := by omega
  have hlow : 0xDC00 + (0x10000 + (high - 0xD800) * 0x400 + (low - 0xDC00) - 0x10000) % 0x400 =
      low := by omega
  rw [encodeChar, unitsOf, toNat_ofNat hvalid, if_neg (by omega), hhigh, hlow, List.flatMap_cons,
    List.flatMap_singleton]

/-- A character is read only where its form stands. -/
theorem exists_of_chars_eq_cons (h : chars (units order bs) = some c :: cs) :
    ∃ rest, bs = encodeChar order c ++ rest ∧ cs = chars (units order rest) := by
  cases hunits : units order bs with
  | nil => simp [hunits, chars] at h
  | cons unit us =>
    cases unit with
    | none => simp [hunits, chars] at h
    | some unit =>
      obtain ⟨hlt, rest, rfl, rfl⟩ := exists_of_units_eq_cons hunits
      rw [hunits, chars.eq_def] at h
      dsimp only at h
      -- a high surrogate is followed by a low one, and both are the character
      split at h
      · rename_i hhigh
        split at h
        · rename_i low rest' hrest
          obtain ⟨-, rest, rfl, rfl⟩ := exists_of_units_eq_cons hrest
          split at h
          · rename_i hlow
            obtain ⟨hc, rfl⟩ := List.cons.inj h
            obtain rfl := Option.some.inj hc
            refine ⟨rest, ?_, rfl⟩
            rw [encodeChar_ofNat_surrogates hhigh.1 hhigh.2 hlow.1 hlow.2, List.append_assoc]
          · simp at h
        · simp at h
      · rename_i hhigh
        split at h
        · simp at h
        · rename_i hlow
          obtain ⟨hc, rfl⟩ := List.cons.inj h
          obtain rfl := Option.some.inj hc
          have hvalid : unit.isValidChar := by
            rw [Nat.isValidChar]
            omega
          exact ⟨rest, by rw [encodeChar_ofNat hvalid hlt], rfl⟩

end Utf16

namespace Charset

variable {charset : Charset} {order : ByteOrder} {t : Text} {raw us rest out : Octets} {b : UInt8}
  {c : Char}

/-! ### UTF-16 -/

/-- The replacement character may stand for something malformed, but every other character is read
only where its form stands. -/
theorem exists_of_text_eq_cons [MultiByte.Codec] (h : text (.utf16 order) raw = c :: t)
    (hc : c ≠ Utf8.replacement) : ∃ rest, raw = Utf16.encodeChar order c ++ rest := by
  obtain ⟨d, ds, hchars, hd, -⟩ := List.map_eq_cons_iff.1 h
  cases d with
  | none => exact absurd hd.symm hc
  | some d =>
    obtain rfl : d = c := hd
    obtain ⟨rest, hrest, -⟩ := Utf16.exists_of_chars_eq_cons hchars
    exact ⟨rest, hrest⟩

/-- Once an octet of a CR or LF in the form of a text gives way to something else, it is the form of
another text. -/
theorem text_append_ne [MultiByte.Codec] (h : octets? (.utf16 order) t = some (us ++ b :: rest))
    (hb : b = 0x0d ∨ b = 0x0a) (hout : out.head? ≠ some b) :
    text (.utf16 order) (us ++ out) ≠ t := by
  induction t generalizing us with
  | nil => exact absurd (Option.some.inj h) (by simp)
  | cons c t ih =>
    have hwhole : isWhole (.utf16 order) = true := rfl
    obtain ⟨form, raw, hform, hraw, h⟩ := (octets?_cons_eq_some_iff hwhole).1 h
    obtain rfl : Utf16.encodeChar order c = form := Option.some.inj hform
    have hread : ∀ bs, text (.utf16 order) (Utf16.encodeChar order c ++ bs) =
        c :: text (.utf16 order) bs := by
      intro bs
      rw [text, chars_append hwhole hform bs]
      rfl
    obtain ⟨us', rfl, hrest⟩ | ⟨bs, heq, hrest⟩ := List.append_eq_append_iff.1 h
    · -- the octet belongs to a later character
      rw [List.append_assoc, hread]
      exact fun htext ↦ ih (hraw.trans (congrArg some hrest)) (List.cons.inj htext).2
    · cases bs with
      | nil =>
        rw [List.append_nil] at heq
        rw [← heq, hread]
        have hraw' : octets? (.utf16 order) t = some ([] ++ b :: rest) :=
          hraw.trans (congrArg some hrest.symm)
        exact fun htext ↦ ih hraw' (List.cons.inj htext).2
      | cons b' bs =>
        obtain rfl : b = b' := (List.cons.inj hrest).1
        -- the form of the replacement character has neither octet
        have hc : c ≠ Utf8.replacement := by
          rintro rfl
          have hmem : b ∈ Utf16.encodeChar order Utf8.replacement := by simp [heq]
          cases order <;> rcases hb with rfl | rfl <;> revert hmem <;> decide
        intro htext
        obtain ⟨rest', hrest'⟩ := exists_of_text_eq_cons htext hc
        rw [heq, List.append_assoc] at hrest'
        rw [List.append_cancel_left hrest'] at hout
        exact hout rfl

/-! ### Other charsets -/

/-- An octet of a text belongs to the form of one of its characters. -/
theorem exists_of_mem_octets? [MultiByte.Codec] (hwhole : charset.isWhole = true)
    (h : charset.octets? t = some raw) (hb : b ∈ raw) :
    ∃ c ∈ t, ∃ form, charset.octetsOf? c = some form ∧ b ∈ form := by
  induction t generalizing raw with
  | nil =>
    obtain rfl := Option.some.inj ((octets?_nil hwhole).symm.trans h)
    exact absurd hb List.not_mem_nil
  | cons c t ih =>
    obtain ⟨form, rest, hform, hrest, rfl⟩ := (octets?_cons_eq_some_iff hwhole).1 h
    rcases List.mem_append.1 hb with hb | hb
    · exact ⟨c, List.mem_cons_self, form, hform, hb⟩
    · obtain ⟨d, hd, hform⟩ := ih hrest hb
      exact ⟨d, List.mem_cons_of_mem c hd, hform⟩

/-- In a whole charset other than UTF-16 an ASCII octet is the form of its own character, and in no
form of another. -/
theorem eq_toChar_of_octetsOf? [MultiByte.Codec] (hwhole : charset.isWhole = true)
    (hunits : ∀ order, charset ≠ .utf16 order) {form : Octets}
    (hform : charset.octetsOf? c = some form) (hb : b ∈ form) (hlt : b.toNat < 0x80) :
    c = Octet.toChar b := by
  cases charset with
  | ascii =>
    obtain ⟨hascii, hform⟩ := Option.ite_none_right_eq_some.1 hform
    obtain rfl := Option.some.inj hform
    rw [List.mem_singleton.1 hb, (toChar_ofAscii hascii).2]
  | utf8 =>
    obtain rfl := Option.some.inj hform
    exact (eq_toChar_of_mem_encodeChar hb hlt).1
  | singleByte s =>
    obtain ⟨b', hb', rfl⟩ := Option.map_eq_some_iff.1 hform
    obtain rfl := List.mem_singleton.1 hb
    have hread := SingleByte.charOf?_of_octetOf? hb'
    rw [SingleByte.charOf?, if_pos (UInt8.lt_iff_toNat_lt.2 hlt)] at hread
    exact (Option.some.inj hread).symm
  | utf16 order => exact absurd rfl (hunits order)
  | multiByte m => exact absurd hwhole (by simp [isWhole])
  | replacement => exact absurd hwhole (by simp [isWhole])

/-- So only CR and LF have the octets of these. -/
theorem ne_break_of_octets? [MultiByte.Codec] (hwhole : charset.isWhole = true)
    (hunits : ∀ order, charset ≠ .utf16 order) (ht : ∀ c ∈ t, c ≠ '\r' ∧ c ≠ '\n')
    (h : charset.octets? t = some raw) : ∀ b ∈ raw, b ≠ 0x0d ∧ b ≠ 0x0a := by
  intro b hb
  obtain ⟨c, hc, form, hform, hbform⟩ := exists_of_mem_octets? hwhole h hb
  have hchar := eq_toChar_of_octetsOf? hwhole hunits hform hbform
  constructor
  · rintro rfl
    exact (ht c hc).1 (hchar (by decide))
  · rintro rfl
    exact (ht c hc).2 (hchar (by decide))

/-! ### Quoted-printable -/

/-- What quoted-printable makes of a text without line breaks is read as that text just if its
octets of line breaks are kept. -/
theorem text_endedLines_eq_iff [MultiByte.Codec] (hwhole : charset.isWhole = true)
    (ht : ∀ c ∈ t, c ≠ '\r' ∧ c ≠ '\n') (h : charset.octets? t = some raw) :
    charset.text (QuotedPrintable.endedLines raw) = t ↔ QuotedPrintable.Keeps raw := by
  constructor
  · intro htext
    by_cases hunits : ∀ order, charset ≠ .utf16 order
    · exact QuotedPrintable.keeps_of_forall (ne_break_of_octets? hwhole hunits ht h)
    · obtain ⟨order, rfl⟩ := not_forall_not.1 hunits
      obtain heq | ⟨us, rest, out, rfl, -, hout⟩ | ⟨us, rfl, hout⟩ :=
        QuotedPrintable.endedLines_eq_self_or_exists raw
      · exact QuotedPrintable.endedLines_eq_self_iff.1 heq
      · rw [hout] at htext
        exact absurd htext (text_append_ne h (Or.inr rfl) (by simp))
      · rw [hout, ← List.append_nil us] at htext
        exact absurd htext (text_append_ne h (Or.inl rfl) (by simp))
  · intro hkeeps
    rw [QuotedPrintable.endedLines_eq_self_iff.2 hkeeps, text_of_octets? hwhole h]

end Charset

end InternetMail
