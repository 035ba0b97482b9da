import InternetMail.Charset.Basic
import InternetMail.Proofs.Text.Octet
import InternetMail.Proofs.Text.Utf8

/-!
# Charsets read what they write

A charset that the library has as a whole, without help from a codec, reads each character it
writes, whatever octets follow (`Charset.chars_append`). It writes a text character by character
(`Charset.octets?_cons_eq_some_iff`). So it reads a text it has written, and a text whose characters
were written in several stretches is read stretch by stretch (`Charset.text_of_octets?`).

The charsets that are whole are those with a rule or a table in the library: UTF-8, UTF-16 in either
order, ASCII, and the ones of single octets. Each has a reason of its own for why a character is
read again: the proof of UTF-8, the pairs of units of UTF-16, and for a table that no two octets of
it stand for one character. Above that level nothing depends on which charset it is.
-/

namespace InternetMail

/-! ### Single octets -/

/-- An ASCII character is one octet below 128. -/
theorem toChar_ofAscii {c : Char} (h : c.toNat < 128) :
    Octet.ofAscii c < 128 ∧ Octet.toChar (Octet.ofAscii c) = c := by
  have hnat : (UInt8.ofNat c.toNat).toNat = c.toNat :=
    Utf8.toNat_ofNat_of_lt (Nat.lt_trans h (by decide))
  refine ⟨?_, ?_⟩
  · rw [UInt8.lt_iff_toNat_lt, Octet.ofAscii, hnat]
    exact h
  · rw [Octet.toChar, Octet.ofAscii, hnat, Char.ofNat_toNat]

namespace SingleByte

-- Stated with `String.ofList`, which a literal unfolds to, so that no row has to be decoded.
theorem flatMap_toList_cons (row : Text) (rows : List String) :
    (String.ofList row :: rows).flatMap String.toList = row ++ rows.flatMap String.toList := by
  rw [List.flatMap_cons, String.toList_ofList]

/-- A table has a place for each octet from 128 on. -/
theorem length_upperHalf (s : SingleByte) : s.upperHalf.length = 128 := by
  unfold upperHalf rows c1Controls
  cases s <;> (try rw [List.flatMap_append]) <;> (repeat rw [flatMap_toList_cons]) <;> rfl

/-- The octet of a character says that character. -/
theorem charOf?_of_octetOf? {s : SingleByte} {c : Char} {b : UInt8} (h : s.octetOf? c = some b) :
    s.charOf? b = some c := by
  unfold octetOf? at h
  split at h
  · rename_i hascii
    obtain ⟨hlt, hchar⟩ : UInt8.ofNat c.toNat < 128 ∧ _ := toChar_ofAscii hascii
    cases h
    rw [charOf?, if_pos hlt]
    exact congrArg some hchar
  · -- the place of `c` in the upper half, and the octet is that place
    split at h
    · cases h
    · rename_i hmark
      simp only [Option.ite_none_right_eq_some, Option.some.injEq] at h
      obtain ⟨hplace, rfl⟩ := h
      have hnat : (UInt8.ofNat (s.upperHalf.idxOf c + 128)).toNat = s.upperHalf.idxOf c + 128 :=
        Utf8.toNat_ofNat_of_lt (by omega)
      have hupper : ¬UInt8.ofNat (s.upperHalf.idxOf c + 128) < 128 := by
        rw [UInt8.lt_iff_toNat_lt, hnat]
        exact Nat.not_lt.2 (Nat.le_add_left 128 _)
      have hfound : s.upperHalf[s.upperHalf.idxOf c]? = some c := by
        have hlength : s.upperHalf.idxOf c < s.upperHalf.length := by
          rw [length_upperHalf]
          exact hplace
        rw [List.getElem?_eq_getElem hlength, List.getElem_idxOf hlength]
      rw [charOf?, if_neg hupper, hnat, Nat.add_sub_cancel, hfound]
      simpa using hmark

end SingleByte

/-! ### UTF-16 -/

namespace Utf16

/-- A unit is read from its two octets, in the order in which they were written. -/
theorem units_octetsOf (order : ByteOrder) {unit : Nat} (h : unit < 0x10000) (bs : Octets) :
    units order (octetsOf order unit ++ bs) = some unit :: units order bs := by
  have hhigh : (UInt8.ofNat (unit / 256)).toNat = unit / 256 :=
    Utf8.toNat_ofNat_of_lt (by omega)
  have hlow : (UInt8.ofNat (unit % 256)).toNat = unit % 256 :=
    Utf8.toNat_ofNat_of_lt (by omega)
  have hunit : unit / 256 * 256 + unit % 256 = unit := by omega
  cases order with
  | littleEndian =>
    show units .littleEndian (UInt8.ofNat (unit % 256) :: UInt8.ofNat (unit / 256) :: bs) = _
    simp only [units, hhigh, hlow, hunit]
  | bigEndian =>
    show units .bigEndian (UInt8.ofNat (unit / 256) :: UInt8.ofNat (unit % 256) :: bs) = _
    simp only [units, hhigh, hlow, hunit]

/-- A character is read from its units: it is no surrogate, and a pair of these gives it back. -/
theorem chars_encodeChar (order : ByteOrder) (c : Char) (bs : Octets) :
    chars (units order (encodeChar order c ++ bs)) = some c :: chars (units order bs) := by
  have hvalid := Utf8.isValidChar_toNat c
  unfold encodeChar unitsOf
  split
  · rename_i hsmall
    have hhigh : ¬(0xD800 ≤ c.toNat ∧ c.toNat < 0xDC00) := by omega
    have hlow : ¬(0xDC00 ≤ c.toNat ∧ c.toNat < 0xE000) := by omega
    rw [List.flatMap_singleton, units_octetsOf order hsmall, chars.eq_def]
    simp only [if_neg hhigh, if_neg hlow, Char.ofNat_toNat]
  · rename_i hlarge
    have hfirst : 0xD800 + (c.toNat - 0x10000) / 0x400 < 0xDC00 := by omega
    have hsecond : 0xDC00 + (c.toNat - 0x10000) % 0x400 < 0xE000 := by omega
    have hwhole : 0x10000 + (0xD800 + (c.toNat - 0x10000) / 0x400 - 0xD800) * 0x400 +
        (0xDC00 + (c.toNat - 0x10000) % 0x400 - 0xDC00) = c.toNat := by omega
    rw [List.flatMap_cons, List.flatMap_singleton, List.append_assoc,
      units_octetsOf order (by omega), units_octetsOf order (by omega), chars.eq_def]
    simp only [Nat.le_add_right, hfirst, hsecond, and_self, if_true, hwhole, Char.ofNat_toNat]

end Utf16

namespace Charset

/-! ### Whole charsets -/

/-- Whether the library has the charset as a whole. -/
def isWhole : Charset → Bool
  | .ascii | .utf8 | .utf16 _ | .singleByte _ => true
  | .multiByte _ | .replacement => false

variable [MultiByte.Codec]

/-- What is written for a character is read as that character, whatever follows. -/
theorem chars_append {charset : Charset} (hwhole : charset.isWhole = true) {c : Char}
    {form : Octets} (h : charset.octetsOf? c = some form) (bs : Octets) :
    charset.chars (form ++ bs) = some c :: charset.chars bs := by
  cases charset with
  | ascii =>
    obtain ⟨hascii, h⟩ := Option.ite_none_right_eq_some.1 h
    cases h
    obtain ⟨hlt, hchar⟩ := toChar_ofAscii hascii
    simp only [chars, List.singleton_append, List.map_cons, if_pos hlt, hchar]
  | utf8 =>
    cases h
    have hparts : Utf8.parts (String.utf8EncodeChar c ++ bs) = .char c :: Utf8.parts bs :=
      Utf8.parts_encodeChar c bs
    rw [chars, hparts]
    rfl
  | utf16 order =>
    cases h
    exact Utf16.chars_encodeChar order c bs
  | singleByte s =>
    obtain ⟨b, hb, rfl⟩ := Option.map_eq_some_iff.1 h
    rw [chars, List.singleton_append, List.map_cons, SingleByte.charOf?_of_octetOf? hb]
    rfl
  | multiByte m => cases hwhole
  | replacement => cases hwhole

/-- A whole charset has no shifts, so each character of a text is written as if it were alone. -/
theorem octets?_eq_octetsEach? {charset : Charset} (hwhole : charset.isWhole = true) (t : Text) :
    charset.octets? t = charset.octetsEach? t := by
  cases charset with
  | multiByte m => cases hwhole
  | _ => rfl

/-- The empty text is written as nothing. -/
theorem octets?_nil {charset : Charset} (hwhole : charset.isWhole = true) :
    charset.octets? [] = some [] := by
  rw [octets?_eq_octetsEach? hwhole]
  rfl

/-- A text is written as its first character is, and then the rest of it. -/
theorem octets?_cons_eq_some_iff {charset : Charset} (hwhole : charset.isWhole = true) {c : Char}
    {t : Text} {bs : Octets} : charset.octets? (c :: t) = some bs ↔
      ∃ form rest, charset.octetsOf? c = some form ∧ charset.octets? t = some rest ∧
        form ++ rest = bs := by
  rw [octets?_eq_octetsEach? hwhole, octets?_eq_octetsEach? hwhole, octetsEach?]
  cases charset.octetsOf? c <;> cases charset.octetsEach? t <;> simp

/-- A whole charset reads a text that it wrote. -/
theorem text_of_octets? {charset : Charset} (hwhole : charset.isWhole = true) {t : Text}
    {bs : Octets} (h : charset.octets? t = some bs) : charset.text bs = t := by
  have hchars : charset.chars bs = t.map some := by
    induction t generalizing bs with
    | nil =>
      obtain rfl := Option.some.inj ((octets?_nil hwhole).symm.trans h)
      cases charset with
      | multiByte m => cases hwhole
      | _ => rfl
    | cons c t ih =>
      obtain ⟨form, rest, hform, hrest, rfl⟩ := (octets?_cons_eq_some_iff hwhole).1 h
      rw [chars_append hwhole hform, ih hrest, List.map_cons]
  rw [text, hchars, List.map_map]
  exact List.map_id t

/-! ### UTF-8 and its ASCII part -/

/-- UTF-8 can write every text. -/
theorem octets?_utf8 (t : Text) : octets? .utf8 t = some (Utf8.encode t) := by
  induction t with
  | nil => rfl
  | cons c t ih => exact (octets?_cons_eq_some_iff rfl).2 ⟨_, _, rfl, ih, rfl⟩

/-- ASCII can write ASCII texts, as UTF-8 does. -/
theorem octets?_ascii {t : Text} (h : Text.isAscii t = true) :
    octets? .ascii t = some (Utf8.encode t) := by
  induction t with
  | nil => rfl
  | cons c t ih =>
    rw [Text.isAscii, List.all_cons, Bool.and_eq_true, decide_eq_true_eq] at h
    obtain ⟨hlt, hchar⟩ := toChar_ofAscii h.1
    have hform : String.utf8EncodeChar c = [Octet.ofAscii c] := by
      rw [← Utf8.encodeChar_toChar (Octet.ofAscii c) (UInt8.lt_iff_toNat_lt.1 hlt), hchar]
    refine (octets?_cons_eq_some_iff rfl).2 ⟨_, _, if_pos h.1, ih h.2, ?_⟩
    rw [Utf8.encode_cons, hform]

end Charset

end InternetMail
