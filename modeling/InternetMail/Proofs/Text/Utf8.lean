import InternetMail.Proofs.Text.Octet
import InternetMail.Text.Utf8

/-!
# Reading UTF-8 that was written

A text is read from its UTF-8 form again, whatever follows it (`parts_encode_append`,
`decodeLossy_encode`). The first octet of a character and the octets after it are dealt with as
numbers: `ofLead_two` and its kin say what a first octet begins, `next_last` and `next_tail` what an
octet in the range that is owed adds to it.

The reader keeps the character that has begun, with how many octets it is owed and in which ranges
(`Begun`). So the lemmas follow a character through its octets, one lemma for each length
(`parts_two` and its kin), and `parts_encodeChar` puts them together. The last part is what is
needed where octets may be ill-formed: what an octet does where a character may begin
(`partsFrom_none_cons`) and where one has begun (`partsFrom_some_cons`), and that no character of
more than one octet is white space.
-/

namespace InternetMail.Utf8

/-! ### Octets of a character -/

/-- The first octet of two. -/
theorem ofLead_two {b : UInt8} (h₁ : 0xC2 ≤ b.toNat) (h₂ : b.toNat ≤ 0xDF) :
    Begun.ofLead b = some ⟨b.toNat - 0xC0, 1, [tail]⟩ := by
  simp [Begun.ofLead, UInt8.le_iff_toNat_le, h₁, h₂]

/-- The first of three octets narrows the range of the second at both ends of its own range. -/
theorem ofLead_three {b : UInt8} (h₁ : 0xE0 ≤ b.toNat) (h₂ : b.toNat ≤ 0xEF) :
    ∃ low high, Begun.ofLead b = some ⟨b.toNat - 0xE0, 1, [(low, high), tail]⟩ ∧
      low.toNat = (if b.toNat = 0xE0 then 0xA0 else 0x80) ∧
      high.toNat = if b.toNat = 0xED then 0x9F else 0xBF := by
  have hno : ¬(b.toNat ≤ 0xDF) := by omega
  by_cases hE0 : b.toNat = 0xE0
  · obtain rfl : b = 0xE0 := UInt8.toNat.inj hE0
    exact ⟨0xA0, 0xBF, rfl, rfl, rfl⟩
  by_cases hED : b.toNat = 0xED
  · obtain rfl : b = 0xED := UInt8.toNat.inj hED
    exact ⟨0x80, 0x9F, rfl, rfl, rfl⟩
  refine ⟨0x80, 0xBF, ?_, by simp [hE0], by simp [hED]⟩
  have hE1 : 0xE1 ≤ b.toNat := by omega
  have hne₁ : b ≠ 0xE0 := fun h ↦ hE0 (h ▸ rfl)
  have hne₂ : b ≠ 0xED := fun h ↦ hED (h ▸ rfl)
  simp [Begun.ofLead, UInt8.le_iff_toNat_le, hno, hne₁, hne₂, hE1, h₂, tail]

/-- So does the first of four. -/
theorem ofLead_four {b : UInt8} (h₁ : 0xF0 ≤ b.toNat) (h₂ : b.toNat ≤ 0xF4) :
    ∃ low high, Begun.ofLead b = some ⟨b.toNat - 0xF0, 1, [(low, high), tail, tail]⟩ ∧
      low.toNat = (if b.toNat = 0xF0 then 0x90 else 0x80) ∧
      high.toNat = if b.toNat = 0xF4 then 0x8F else 0xBF := by
  have hcases : b.toNat = 0xF0 ∨ b.toNat = 0xF1 ∨ b.toNat = 0xF2 ∨ b.toNat = 0xF3 ∨
      b.toNat = 0xF4 := by omega
  rcases hcases with h | h | h | h | h
  · obtain rfl : b = 0xF0 := UInt8.toNat.inj h
    exact ⟨0x90, 0xBF, rfl, rfl, rfl⟩
  · obtain rfl : b = 0xF1 := UInt8.toNat.inj h
    exact ⟨0x80, 0xBF, rfl, rfl, rfl⟩
  · obtain rfl : b = 0xF2 := UInt8.toNat.inj h
    exact ⟨0x80, 0xBF, rfl, rfl, rfl⟩
  · obtain rfl : b = 0xF3 := UInt8.toNat.inj h
    exact ⟨0x80, 0xBF, rfl, rfl, rfl⟩
  · obtain rfl : b = 0xF4 := UInt8.toNat.inj h
    exact ⟨0x80, 0x8F, rfl, rfl, rfl⟩

/-- The last octet of a character. -/
theorem next_last {value taken : Nat} {low high b : UInt8} (h₁ : low.toNat ≤ b.toNat)
    (h₂ : b.toNat ≤ high.toNat) :
    Begun.next ⟨value, taken, [(low, high)]⟩ b =
      ([.char (Char.ofNat (value * 64 + (b.toNat - 0x80)))], none) := by
  simp [Begun.next, UInt8.le_iff_toNat_le, h₁, h₂]

/-- An octet of a character before the last. -/
theorem next_tail {value taken : Nat} {low high b : UInt8} {range : UInt8 × UInt8}
    {owed : List (UInt8 × UInt8)} (h₁ : low.toNat ≤ b.toNat) (h₂ : b.toNat ≤ high.toNat) :
    Begun.next ⟨value, taken, (low, high) :: range :: owed⟩ b =
      ([], some ⟨value * 64 + (b.toNat - 0x80), taken + 1, range :: owed⟩) := by
  simp [Begun.next, UInt8.le_iff_toNat_le, h₁, h₂]

/-! ### Characters -/

theorem toNat_ofNat_of_lt {n : Nat} (h : n < 256) : (UInt8.ofNat n).toNat = n := by
  simp [Nat.mod_eq_of_lt h]

/-- An ASCII octet is a character where one may begin. -/
theorem parts_cons_of_ascii {b : UInt8} (h : b.toNat < 0x80) (bs : Octets) :
    partsFrom none (b :: bs) = .char (Char.ofNat b.toNat) :: partsFrom none bs := by
  have hlt : b < 0x80 := UInt8.lt_iff_toNat_lt.2 h
  simp [partsFrom, start, hlt]

/-- A first octet of several begins a character. -/
theorem partsFrom_none_of_ofLead {b : UInt8} {p : Begun} (h : 0x80 ≤ b.toNat)
    (hp : Begun.ofLead b = some p) (bs : Octets) :
    partsFrom none (b :: bs) = partsFrom (some p) bs := by
  have hlt : ¬b < 0x80 := by
    rw [UInt8.lt_iff_toNat_lt]
    simpa using h
  simp [partsFrom, start, hlt, hp]

/-- An octet after it completes the character, adds to it, or gives it up. -/
theorem partsFrom_some_of_next {p : Begun} {b : UInt8} {ps : List Part} {q : Option Begun}
    (h : p.next b = (ps, q)) (bs : Octets) :
    partsFrom (some p) (b :: bs) = ps ++ partsFrom q bs := by
  simp [partsFrom, h]

/-- Characters are numbers, without the surrogates. -/
theorem isValidChar_toNat (c : Char) :
    c.toNat < 0xd800 ∨ 0xdfff < c.toNat ∧ c.toNat < 0x110000 := by
  have := c.valid
  simpa [UInt32.isValidChar, Nat.isValidChar] using this

/-- Two octets say the character they were made from. -/
theorem parts_two {v : Nat} (h₁ : 0x80 ≤ v) (h₂ : v < 0x800) (bs : Octets) :
    partsFrom none
        (UInt8.ofNat (v / 64 % 0x20 + 0xc0) :: UInt8.ofNat (v % 0x40 + 0x80) :: bs) =
      .char (Char.ofNat v) :: partsFrom none bs := by
  have hb₁ := toNat_ofNat_of_lt (show v / 64 % 0x20 + 0xc0 < 256 by omega)
  have hb₂ := toNat_ofNat_of_lt (show v % 0x40 + 0x80 < 256 by omega)
  have htail : tail.1.toNat = 0x80 ∧ tail.2.toNat = 0xBF := ⟨rfl, rfl⟩
  rw [partsFrom_none_of_ofLead (by omega) (ofLead_two (by omega) (by omega)),
    partsFrom_some_of_next (next_last (by omega) (by omega)), hb₁, hb₂,
    show (v / 64 % 0x20 + 0xc0 - 0xC0) * 64 + (v % 0x40 + 0x80 - 0x80) = v by omega]
  rfl

/-- So do three, of which surrogates are not made. -/
theorem parts_three {v : Nat} (h₁ : 0x800 ≤ v) (h₂ : v < 0x10000)
    (hvalid : v < 0xd800 ∨ 0xdfff < v) (bs : Octets) :
    partsFrom none
        (UInt8.ofNat (v / 4096 % 0x10 + 0xe0) :: UInt8.ofNat (v / 64 % 0x40 + 0x80) ::
          UInt8.ofNat (v % 0x40 + 0x80) :: bs) =
      .char (Char.ofNat v) :: partsFrom none bs := by
  have hb₁ := toNat_ofNat_of_lt (show v / 4096 % 0x10 + 0xe0 < 256 by omega)
  have hb₂ := toNat_ofNat_of_lt (show v / 64 % 0x40 + 0x80 < 256 by omega)
  have hb₃ := toNat_ofNat_of_lt (show v % 0x40 + 0x80 < 256 by omega)
  have htail : tail.1.toNat = 0x80 ∧ tail.2.toNat = 0xBF := ⟨rfl, rfl⟩
  obtain ⟨low, high, hlead, hlow, hhigh⟩ :=
    ofLead_three (b := UInt8.ofNat (v / 4096 % 0x10 + 0xe0)) (by omega) (by omega)
  -- the narrowed range shuts out longer forms and surrogates, which `v` is not
  have hrange : low.toNat ≤ v / 64 % 0x40 + 0x80 ∧ v / 64 % 0x40 + 0x80 ≤ high.toNat := by
    rw [hlow, hhigh, hb₁]
    constructor <;> split <;> omega
  rw [partsFrom_none_of_ofLead (by omega) hlead,
    partsFrom_some_of_next (next_tail (by omega) (by omega)),
    partsFrom_some_of_next (next_last (by omega) (by omega)), hb₁, hb₂, hb₃]
  rw [show ((v / 4096 % 0x10 + 0xe0 - 0xE0) * 64 + (v / 64 % 0x40 + 0x80 - 0x80)) * 64 +
    (v % 0x40 + 0x80 - 0x80) = v by omega]
  rfl

/-- So do four. -/
theorem parts_four {v : Nat} (h₁ : 0x10000 ≤ v) (h₂ : v < 0x110000) (bs : Octets) :
    partsFrom none
        (UInt8.ofNat (v / 262144 % 0x08 + 0xf0) :: UInt8.ofNat (v / 4096 % 0x40 + 0x80) ::
          UInt8.ofNat (v / 64 % 0x40 + 0x80) :: UInt8.ofNat (v % 0x40 + 0x80) :: bs) =
      .char (Char.ofNat v) :: partsFrom none bs := by
  have hb₁ := toNat_ofNat_of_lt (show v / 262144 % 0x08 + 0xf0 < 256 by omega)
  have hb₂ := toNat_ofNat_of_lt (show v / 4096 % 0x40 + 0x80 < 256 by omega)
  have hb₃ := toNat_ofNat_of_lt (show v / 64 % 0x40 + 0x80 < 256 by omega)
  have hb₄ := toNat_ofNat_of_lt (show v % 0x40 + 0x80 < 256 by omega)
  have htail : tail.1.toNat = 0x80 ∧ tail.2.toNat = 0xBF := ⟨rfl, rfl⟩
  obtain ⟨low, high, hlead, hlow, hhigh⟩ :=
    ofLead_four (b := UInt8.ofNat (v / 262144 % 0x08 + 0xf0)) (by omega) (by omega)
  have hrange : low.toNat ≤ v / 4096 % 0x40 + 0x80 ∧ v / 4096 % 0x40 + 0x80 ≤ high.toNat := by
    rw [hlow, hhigh, hb₁]
    constructor <;> split <;> omega
  rw [partsFrom_none_of_ofLead (by omega) hlead,
    partsFrom_some_of_next (next_tail (by omega) (by omega)),
    partsFrom_some_of_next (next_tail (by omega) (by omega)),
    partsFrom_some_of_next (next_last (by omega) (by omega)), hb₁, hb₂, hb₃, hb₄]
  rw [show (((v / 262144 % 0x08 + 0xf0 - 0xF0) * 64 + (v / 4096 % 0x40 + 0x80 - 0x80)) * 64 +
    (v / 64 % 0x40 + 0x80 - 0x80)) * 64 + (v % 0x40 + 0x80 - 0x80) = v by omega]
  rfl

/-- A character is read from its UTF-8 form. -/
theorem parts_encodeChar (c : Char) (bs : Octets) :
    partsFrom none (String.utf8EncodeChar c ++ bs) = .char c :: partsFrom none bs := by
  have hvalid := isValidChar_toNat c
  have hc : Char.ofNat c.toNat = c := Char.ofNat_toNat c
  have hval : c.val.toNat = c.toNat := rfl
  simp only [String.utf8EncodeChar, hval]
  generalize c.toNat = v at hvalid hc
  split
  · have hb := toNat_ofNat_of_lt (show v < 256 by omega)
    rw [List.singleton_append, parts_cons_of_ascii (by omega), hb, hc]
  split
  · rw [← hc]
    exact parts_two (by omega) (by omega) bs
  split
  · rw [← hc]
    exact parts_three (by omega) (by omega) (by omega) bs
  · rw [← hc]
    exact parts_four (by omega) (by omega) bs

/-! ### Texts -/

theorem encode_cons (c : Char) (t : Text) :
    encode (c :: t) = String.utf8EncodeChar c ++ encode t := rfl

/-- Two texts are encoded one after the other. -/
@[simp]
theorem encode_append (t u : Text) : encode (t ++ u) = encode t ++ encode u :=
  List.flatMap_append

/-- A text is read from its UTF-8 form, whatever follows it. -/
theorem parts_encode_append (t : Text) (bs : Octets) :
    parts (encode t ++ bs) = t.map .char ++ parts bs := by
  induction t with
  | nil => rfl
  | cons c t ih =>
    rw [encode_cons, List.append_assoc, parts, parts_encodeChar, ← parts, ih]
    rfl

/-- The parts of an encoded text are its characters. -/
theorem parts_encode (t : Text) : parts (encode t) = t.map .char := by
  have h := parts_encode_append t []
  rw [List.append_nil] at h
  rw [h]
  exact List.append_nil _

/-- A text is read from its UTF-8 form. -/
theorem decodeLossy_encode (t : Text) : decodeLossy (encode t) = t := by
  have htoChar : Part.toChar ∘ Part.char = id := rfl
  rw [decodeLossy, parts_encode, List.map_map, htoChar, List.map_id]

/-- An ASCII octet is the form of its character. -/
theorem encodeChar_toChar :
    ∀ b : UInt8, b.toNat < 0x80 → String.utf8EncodeChar (Octet.toChar b) = [b] :=
  Octet.forall_of_digits _ (by decide)

/-- Octets of ASCII are the UTF-8 form of their characters. -/
theorem encode_map_toChar {bs : Octets} (h : ∀ b ∈ bs, b.toNat < 0x80) :
    encode (bs.map Octet.toChar) = bs := by
  induction bs with
  | nil => rfl
  | cons b bs ih =>
    rw [List.forall_mem_cons] at h
    rw [List.map_cons, encode_cons, encodeChar_toChar b h.1, ih h.2, List.singleton_append]

/-! ### Octets that a reading meets -/

/-- The character is begun by octets that can end as no ASCII character. -/
structure Begun.IsLong (p : Begun) : Prop where
  owed : p.owed ≠ []
  range : ∀ r ∈ p.owed, 0x80 ≤ r.1.toNat
  value : ∀ r ∈ p.owed.head?, 0x10 ≤ p.value * 64 + (r.1.toNat - 0x80)
  last : p.owed.length = 1 → ∀ r ∈ p.owed.head?, 0x80 ≤ p.value * 64 + (r.1.toNat - 0x80)

/-- The octets that a character of several can begin with. -/
theorem toNat_of_isSome_ofLead :
    ∀ b, (Begun.ofLead b).isSome = true → 0xC2 ≤ b.toNat ∧ b.toNat ≤ 0xF4 :=
  Octet.forall_of_digits _ (by decide)

/-- A character that has begun is not of ASCII, even if it were given up now. -/
theorem isLong_of_ofLead {b : UInt8} {p : Begun} (h : Begun.ofLead b = some p) : p.IsLong := by
  have htail : tail.1.toNat = 0x80 := rfl
  have hrange := toNat_of_isSome_ofLead b (by simp [h])
  have hcases : 0xC2 ≤ b.toNat ∧ b.toNat ≤ 0xDF ∨ 0xE0 ≤ b.toNat ∧ b.toNat ≤ 0xEF ∨
      0xF0 ≤ b.toNat ∧ b.toNat ≤ 0xF4 := by omega
  rcases hcases with ⟨h₁, h₂⟩ | ⟨h₁, h₂⟩ | ⟨h₁, h₂⟩
  · rw [ofLead_two h₁ h₂] at h
    rw [← Option.some.inj h]
    refine ⟨by simp, by simp [htail], ?_, ?_⟩
    · simp [htail]
      omega
    · simp [htail]
      omega
  · obtain ⟨low, high, hp, hlow, -⟩ := ofLead_three h₁ h₂
    rw [hp] at h
    rw [← Option.some.inj h]
    refine ⟨by simp, ?_, ?_, by simp⟩
    · simp [htail]
      split at hlow <;> omega
    · simp
      split at hlow <;> omega
  · obtain ⟨low, high, hp, hlow, -⟩ := ofLead_four h₁ h₂
    rw [hp] at h
    rw [← Option.some.inj h]
    refine ⟨by simp, ?_, ?_, by simp⟩
    · simp [htail]
      split at hlow <;> omega
    · simp
      split at hlow <;> omega

/-- No white space of ASCII: neither a line break nor a fold. -/
def IsPlain (c : Char) : Prop :=
  c ≠ '\n' ∧ c ≠ ' ' ∧ c ≠ '\t'

instance : DecidablePred IsPlain :=
  fun c ↦ inferInstanceAs (Decidable (c ≠ '\n' ∧ c ≠ ' ' ∧ c ≠ '\t'))

/-- A number beyond ASCII is no white space, nor is what it becomes if it is no character. -/
theorem isPlain_ofNat {n : Nat} (h : 0x80 ≤ n) : IsPlain (Char.ofNat n) := by
  -- a surrogate, or what lies beyond the last character, makes the character zero
  have hn : (Char.ofNat n).toNat = n ∨ (Char.ofNat n).toNat = 0 := by
    by_cases hvalid : n.isValidChar
    · have hchar : Char.ofNat n = Char.ofNatAux n hvalid := dif_pos hvalid
      rw [hchar]
      exact Or.inl rfl
    · have hchar : Char.ofNat n = Char.ofNatAux 0 (Or.inl (by decide)) := dif_neg hvalid
      rw [hchar]
      exact Or.inr rfl
  refine ⟨?_, ?_, ?_⟩ <;>
    · intro hc
      rw [hc] at hn
      revert hn
      simp
      omega

theorem isPlain_replacement : IsPlain replacement := by
  decide

/-- What an octet does where a character may begin. -/
theorem partsFrom_none_cons (b : UInt8) (bs : Octets) :
    b.toNat < 0x80 ∧
        partsFrom none (b :: bs) = .char (Char.ofNat b.toNat) :: partsFrom none bs ∨
      0x80 ≤ b.toNat ∧
        ((∃ p : Begun, p.IsLong ∧ partsFrom none (b :: bs) = partsFrom (some p) bs) ∨
          partsFrom none (b :: bs) = .illFormed 1 false :: partsFrom none bs) := by
  by_cases hb : b.toNat < 0x80
  · exact Or.inl ⟨hb, parts_cons_of_ascii hb bs⟩
  · refine Or.inr ⟨by omega, ?_⟩
    cases hlead : Begun.ofLead b with
    | some p =>
      exact Or.inl ⟨p, isLong_of_ofLead hlead, partsFrom_none_of_ofLead (by omega) hlead bs⟩
    | none =>
      have hlt : ¬b < 0x80 := fun h ↦ hb (UInt8.lt_iff_toNat_lt.1 h)
      exact Or.inr (by simp [partsFrom, start, hlt, hlead])

/-- What it does after a character was begun: it ends that character, goes on with it, or is read as
if none had been begun. -/
theorem partsFrom_some_cons {p : Begun} (hp : p.IsLong) (b : UInt8) (bs : Octets) :
    0x80 ≤ b.toNat ∧
        ((∃ c, IsPlain c ∧ partsFrom (some p) (b :: bs) = .char c :: partsFrom none bs) ∨
          ∃ q : Begun, q.IsLong ∧ partsFrom (some p) (b :: bs) = partsFrom (some q) bs) ∨
      partsFrom (some p) (b :: bs) = .illFormed p.taken false :: partsFrom none (b :: bs) := by
  obtain ⟨value, taken, owed⟩ := p
  cases owed with
  | nil => exact absurd rfl hp.owed
  | cons r owed =>
    obtain ⟨low, high⟩ := r
    have hlow : 0x80 ≤ low.toNat := hp.range (low, high) (by simp)
    have hvalue : 0x10 ≤ value * 64 + (low.toNat - 0x80) := hp.value (low, high) rfl
    by_cases hin : low.toNat ≤ b.toNat ∧ b.toNat ≤ high.toNat
    · refine Or.inl ⟨by omega, ?_⟩
      cases owed with
      | nil =>
        have hlast : 0x80 ≤ value * 64 + (low.toNat - 0x80) := hp.last rfl (low, high) rfl
        exact Or.inl ⟨_, isPlain_ofNat (by omega),
          partsFrom_some_of_next (next_last hin.1 hin.2) bs⟩
      | cons r owed =>
        -- what was read so far is already too large for a character of ASCII
        have hnext : ∀ r' ∈ (r :: owed).head?,
            0x80 ≤ (value * 64 + (b.toNat - 0x80)) * 64 + (r'.1.toNat - 0x80) := by
          intro r' _
          omega
        have hlong : Begun.IsLong ⟨value * 64 + (b.toNat - 0x80), taken + 1, r :: owed⟩ := by
          refine ⟨by simp, fun r' hr' ↦ hp.range r' (List.mem_cons_of_mem _ hr'),
            fun r' hr' ↦ ?_, fun _ ↦ hnext⟩
          exact Nat.le_trans (show 0x10 ≤ 0x80 by decide) (hnext r' hr')
        exact Or.inr ⟨_, hlong, partsFrom_some_of_next (next_tail hin.1 hin.2) bs⟩
    · have hno : (low ≤ b && b ≤ high) = false := by
        simpa [UInt8.le_iff_toNat_le] using hin
      exact Or.inr (by simp [partsFrom, Begun.next, hno])

end InternetMail.Utf8
