import InternetMail.Proofs.Header.Name
import InternetMail.Proofs.Message.ValueText

/-!
# Spellings of a name

Texts are spelled alike if nothing tells them apart but the case of ASCII letters and the blanks
around them (`Text.SpelledAlike`). They are read as the same name then, or both as none
(`HeaderName.ofText?_eq_of_spelledAlike`), and two names differ in more than the case of their plain
texts (`HeaderName.eq_of_foldAscii_text`).

A name may be looked up among those of the standards first and kept as one of them, or else be kept
as octets (`HeaderName.Form`). Neither the form nor the spelling is part of what the name is: each
name has one form, and a spelling that is looked up gives the form of the name that it is read as
(`form_injective`, `map_form_ofOctets?`).

So octets are a name exactly if something is left without the blanks around it, all of it in
printable ASCII and without a colon; they are the same name as others exactly if the two agree but
for such blanks and the case of letters; and a name is read from whatever it is written as, in any
case (`ofOctets?_spellings`).

Letters are folded octet by octet in the program, and only those of ASCII. On the UTF-8 form of a
text this is folding its characters, as no octet of another character is a letter
(`map_toLower_encodeChar`), so the two readings of a name, from a text and from octets, are compared
through its key: the octets without the blanks around them, in lower case (`key_of_ofOctets?`). That
every octet of a standard name is one that a name may have is what makes the order of the two
lookups irrelevant (`isNameKey_of_standardName`).
-/

namespace InternetMail

/-! ### Spellings of a name -/

/-- The texts are the same but for the case of ASCII letters and blanks around them, which are
spaces, TABs and line breaks. -/
def Text.SpelledAlike (t u : Text) : Prop :=
  foldAscii (Run.strip isBlankChar t) = foldAscii (Run.strip isBlankChar u)

/-- Folding the octets of a character is folding the character. -/
theorem map_toLower_encodeChar (c : Char) :
    (String.utf8EncodeChar c).map Octet.toLower = String.utf8EncodeChar c.toLower := by
  by_cases hc : c.toNat < 0x80
  · exact Text.forall_of_ascii (fun c ↦ (String.utf8EncodeChar c).map Octet.toLower =
      String.utf8EncodeChar c.toLower) (by decide) c hc
  · -- none of the octets is an ASCII letter
    obtain ⟨b, bs, heq, hbs⟩ := encodeChar_of_not_ascii (Nat.le_of_not_lt hc)
    have hoctet : ∀ b : UInt8, 0x80 ≤ b.toNat → Octet.toLower b = b :=
      Octet.forall_of_digits _ (by decide)
    rw [Text.toLower_of_not_ascii hc, heq, List.map_congr_left fun b hb ↦ hoctet b (hbs b hb),
      List.map_id']

/-- Folding the octets of a text is folding the text. -/
theorem foldAscii_encode (t : Text) :
    Octets.foldAscii (Utf8.encode t) = Utf8.encode (Text.foldAscii t) := by
  induction t with
  | nil => rfl
  | cons c t ih =>
    have hcons : Text.foldAscii (c :: t) = c.toLower :: Text.foldAscii t := rfl
    rw [Octets.foldAscii] at ih ⊢
    rw [hcons, Utf8.encode_cons, Utf8.encode_cons, List.map_append, map_toLower_encodeChar, ih]

namespace HeaderName

/-- Texts that are spelled alike are read as the same name, or both as none. -/
theorem ofText?_eq_of_spelledAlike {t u : Text} (h : t.SpelledAlike u) : ofText? t = ofText? u := by
  have hkey : Octets.foldAscii (Octets.trim (Utf8.encode t)) =
      Octets.foldAscii (Octets.trim (Utf8.encode u)) := by
    rw [trim_encode, trim_encode, foldAscii_encode, foldAscii_encode]
    exact congrArg Utf8.encode h
  simp only [ofText?, ofOctets?, hkey]

/-- Octets in ASCII are made small as the characters that they are. -/
theorem foldAscii_map_toChar {bs : Octets} (h : ∀ b ∈ bs, isNameOctet b = true) :
    Text.foldAscii (bs.map Octet.toChar) = (Octets.foldAscii bs).map Octet.toChar := by
  have hoctet : ∀ b, isNameOctet b = true →
      (Octet.toChar b).toLower = Octet.toChar (Octet.toLower b) :=
    Octet.forall_of_digits _ (by decide)
  rw [Text.foldAscii, Octets.foldAscii, List.map_map, List.map_map]
  exact List.map_congr_left fun b hb ↦ hoctet b (h b hb)

/-- The plain text of a name is the name in some case. -/
theorem foldAscii_text (n : HeaderName) : n.text.foldAscii = n.key.map Octet.toChar := by
  have hkey := (isNameOctet_key n).2
  unfold text
  split
  · rename_i s hs
    obtain ⟨hspelling, hoctets⟩ := isNameOctet_spelling s
    rw [hspelling, foldAscii_map_toChar hoctets, foldAscii_spelling_of_standard? hs]
  · have hlower : Octets.foldAscii n.key = n.key := by
      rw [Octets.foldAscii, List.map_congr_left fun b hb ↦ (hkey b hb).2, List.map_id']
    rw [foldAscii_map_toChar fun b hb ↦ (hkey b hb).1, hlower]

/-- Names are the same if their plain texts are but for the case of letters. -/
theorem eq_of_foldAscii_text {a b : HeaderName} (h : a.text.foldAscii = b.text.foldAscii) :
    a = b := by
  have hascii : ∀ n : HeaderName, ∀ b ∈ n.key, b.toNat < 0x80 := fun n b hb ↦
    isAscii_of_isNameOctet b ((isNameOctet_key n).2 b hb).1
  have hkey : a.key = b.key := by
    rw [← Utf8.encode_map_toChar (hascii a), ← Utf8.encode_map_toChar (hascii b),
      ← foldAscii_text, ← foldAscii_text, h]
  cases a
  cases b
  congr

end HeaderName

/-! ### Octets of a name in either case -/

/-- A name octet is one in either case. -/
theorem isNameOctet_toLower : ∀ b, isNameOctet (Octet.toLower b) = isNameOctet b :=
  Octet.forall_of_digits _ (by decide)

theorem Octet.toLower_toLower : ∀ b, Octet.toLower (Octet.toLower b) = Octet.toLower b :=
  Octet.forall_of_digits _ (by decide)

/-- Printable ASCII without the space, and no colon. -/
theorem isNameOctet_iff : ∀ b, isNameOctet b = true ↔ 33 ≤ b.toNat ∧ b.toNat ≤ 126 ∧ b ≠ 0x3a :=
  Octet.forall_of_digits _ (by decide)

theorem Octets.foldAscii_foldAscii (bs : Octets) : bs.foldAscii.foldAscii = bs.foldAscii := by
  rw [foldAscii, foldAscii, List.map_map]
  exact List.map_congr_left fun b _ ↦ Octet.toLower_toLower b

/-- A key is made of name octets, and of at least one. -/
theorem isNameKey_foldAscii_iff {bs : Octets} :
    isNameKey bs.foldAscii = true ↔ bs ≠ [] ∧ ∀ b ∈ bs, isNameOctet b = true := by
  simp [isNameKey, Octets.foldAscii, isNameOctet_toLower, Octet.toLower_toLower]

/-! ### Case and blanks -/

theorem isBlankChar_toLower (c : Char) : isBlankChar c.toLower = isBlankChar c := by
  by_cases hc : c.toNat < 0x80
  · exact Text.forall_of_ascii (fun c ↦ isBlankChar c.toLower = isBlankChar c) (by decide) c hc
  · rw [Text.toLower_of_not_ascii hc]

/-- Letters are no blanks, so that folding and stripping can be done in either order. -/
theorem Text.foldAscii_strip (t : Text) :
    foldAscii (Run.strip isBlankChar t) = Run.strip isBlankChar (foldAscii t) := by
  have hcomp : isBlankChar ∘ Char.toLower = isBlankChar := funext isBlankChar_toLower
  simp only [foldAscii, Run.strip, Run.stripEnd, List.dropWhile_map, hcomp, ← List.map_reverse]

/-- Texts that agree but for the case of letters are spelled alike. -/
theorem Text.spelledAlike_of_foldAscii {t u : Text} (h : t.foldAscii = u.foldAscii) :
    t.SpelledAlike u := by
  rw [SpelledAlike, foldAscii_strip, foldAscii_strip, h]

namespace HeaderName

variable {bs : Octets} {n k : HeaderName}

/-! ### Reading a name -/

/-- **The key of a name is what it was read from**, without blanks around it and in lower case. -/
theorem key_of_ofOctets? (h : ofOctets? bs = some n) : n.key = bs.trim.foldAscii := by
  by_cases hkey : isNameKey bs.trim.foldAscii = true
  · rw [ofOctets?, dif_pos hkey] at h
    rw [← Option.some.inj h]
  · rw [ofOctets?, dif_neg hkey] at h
    cases h

/-- **What is a name**: something is left without the blanks, and all of it is name octets. -/
theorem isSome_ofOctets?_iff :
    (ofOctets? bs).isSome = true ↔ bs.trim ≠ [] ∧ ∀ b ∈ bs.trim, isNameOctet b = true := by
  rw [← isNameKey_foldAscii_iff, ofOctets?]
  split <;> simp_all

/-- Names are the same exactly if they are the same in lower case. -/
theorem eq_iff_key : n = k ↔ n.key = k.key := by
  cases n
  cases k
  simp

/-! ### Forms of a name -/

/-- What a name is kept as: one of those that the standards define, or else its octets in lower
case. -/
inductive Form
  | standard (s : StandardName)
  | custom (key : Octets)
  deriving DecidableEq

/-- The form of the name that some octets spell, with blanks around it. Only what is none of the
standards' names is looked at octet by octet. -/
def Form.ofOctets? (bs : Octets) : Option Form :=
  match StandardName.ofOctets? bs.trim with
  | some s => some (.standard s)
  | none =>
    if bs.trim.isEmpty then none
    else
      (bs.trim.mapM fun b ↦ if isNameOctet b then some (Octet.toLower b) else none).map .custom

/-- The form that a name is kept as. -/
def form (n : HeaderName) : Form :=
  match n.standard? with
  | some s => .standard s
  | none => .custom n.key

/-- The standard form of a name has the key of the name. -/
theorem key_of_standard? {s : StandardName} (h : n.standard? = some s) : s.key = n.key :=
  foldAscii_spelling_of_standard? h

/-- A name has one form, and no other name has it. -/
theorem form_injective : Function.Injective form := by
  intro n k h
  refine eq_iff_key.2 ?_
  unfold form at h
  split at h
  · rename_i s hs
    split at h
    · rename_i s' hs'
      rw [← key_of_standard? hs, Form.standard.inj h, key_of_standard? hs']
    · cases h
  · split at h
    · cases h
    · exact Form.custom.inj h

/-- A standard name is found in any case. -/
theorem ofOctets?_foldAscii (bs : Octets) :
    StandardName.ofOctets? bs.foldAscii = StandardName.ofOctets? bs := by
  rw [StandardName.ofOctets?, StandardName.ofOctets?, Octets.foldAscii_foldAscii]

/-- Reading octet by octet gives all of them folded, or nothing if one of them cannot be in a name.
-/
theorem mapM_toLower (bs : Octets) :
    (bs.mapM fun b ↦ if isNameOctet b then some (Octet.toLower b) else none) =
      if bs.all isNameOctet then some bs.foldAscii else none := by
  induction bs with
  | nil => rfl
  | cons b bs ih =>
    rw [List.mapM_cons, ih, List.all_cons]
    by_cases hb : isNameOctet b = true
    · by_cases hbs : bs.all isNameOctet = true <;> simp [hb, hbs, Octets.foldAscii]
    · simp [hb]

/-- What the standards define is a name. -/
theorem isNameKey_of_standardName {s : StandardName} (h : StandardName.ofOctets? bs = some s) :
    isNameKey bs.foldAscii = true := by
  rw [StandardName.ofOctets?] at h
  have hfound := List.find?_some h
  rw [← eq_of_beq hfound]
  exact (ofStandard s).isNameKey_key

/-- Looking a spelling up and reading it come to the same name. -/
theorem map_form_ofOctets? (bs : Octets) : (ofOctets? bs).map form = Form.ofOctets? bs := by
  have hform : ∀ h : isNameKey bs.trim.foldAscii = true, form ⟨bs.trim.foldAscii, h⟩ =
      match StandardName.ofOctets? bs.trim with
      | some s => .standard s
      | none => .custom bs.trim.foldAscii := by
    intro h
    rw [form, standard?, ofOctets?_foldAscii]
  unfold Form.ofOctets?
  split
  · rename_i s hs
    have hkey := isNameKey_of_standardName hs
    rw [ofOctets?, dif_pos hkey, Option.map_some, hform, hs]
  · rename_i hs
    rw [mapM_toLower]
    by_cases hkey : isNameKey bs.trim.foldAscii = true
    · have hname := isNameKey_foldAscii_iff.1 hkey
      rw [ofOctets?, dif_pos hkey, Option.map_some, hform, hs]
      simp [hname.1, List.all_eq_true.2 hname.2]
    · rw [ofOctets?, dif_neg hkey]
      rw [isNameKey_foldAscii_iff, not_and] at hkey
      by_cases hnil : bs.trim = []
      · simp [hnil]
      · have hall : bs.trim.all isNameOctet = false := by
          rw [← Bool.not_eq_true, List.all_eq_true]
          exact hkey hnil
        simp [hall]

/-! ### Names as they are written -/

/-- A name as it is written is the name in some case. -/
theorem foldAscii_display (n : HeaderName) : n.display.foldAscii = n.key.map Octet.toChar := by
  obtain ⟨name, hdisplay, hname, hfold⟩ := exists_display n
  rw [hdisplay, foldAscii_map_toChar hname, hfold]

/-- A name is read from what it is shown as, in any case. -/
theorem ofText?_of_foldAscii_display {t : Text} (h : t.foldAscii = n.display.foldAscii) :
    ofText? t = some n := by
  obtain ⟨name, hencode, -, -, hread⟩ := exists_encode_display n
  rw [ofText?_eq_of_spelledAlike (Text.spelledAlike_of_foldAscii h), ofText?, hencode, hread]

/-- What is read as a name, which of them are the same name, and that a name is read from each of
the ways it is written, in any case. -/
theorem ofOctets?_spellings :
    (∀ bs : Octets, (ofOctets? bs).isSome = true ↔
      bs.trim ≠ [] ∧ ∀ b ∈ bs.trim, 33 ≤ b.toNat ∧ b.toNat ≤ 126 ∧ b ≠ 0x3a) ∧
    (∀ (as bs : Octets) (n k : HeaderName), ofOctets? as = some n → ofOctets? bs = some k →
      (n = k ↔ as.trim.foldAscii = bs.trim.foldAscii) ∧
      (Form.ofOctets? as = Form.ofOctets? bs ↔ as.trim.foldAscii = bs.trim.foldAscii)) ∧
    ∀ (n : HeaderName) (t : Text),
      t.foldAscii = n.display.foldAscii ∨ t.foldAscii = n.text.foldAscii → ofText? t = some n := by
  refine ⟨fun bs ↦ ?_, fun as bs n k hn hk ↦ ?_, fun n t h ↦ ?_⟩
  · rw [isSome_ofOctets?_iff]
    exact and_congr_right fun _ ↦ forall₂_congr fun b _ ↦ isNameOctet_iff b
  · have hname : n = k ↔ as.trim.foldAscii = bs.trim.foldAscii := by
      rw [eq_iff_key, key_of_ofOctets? hn, key_of_ofOctets? hk]
    refine ⟨hname, ?_⟩
    rw [← map_form_ofOctets?, ← map_form_ofOctets?, hn, hk, Option.map_some, Option.map_some,
      Option.some.injEq, form_injective.eq_iff, hname]
  · rcases h with h | h
    · exact ofText?_of_foldAscii_display h
    · exact ofText?_of_foldAscii_display (by rw [h, foldAscii_text, foldAscii_display])

/-- Two spellings with an empty word and an acronym in them, and what the name is written as. -/
theorem ofOctets?_spellings_acronym : ∃ n k : HeaderName,
    ofOctets? (.ofAscii "\t x--mD5-9foo\r\n") = some n ∧
    ofOctets? (.ofAscii "X--Md5-9FOO") = some k ∧ n = k ∧
    n.display = "X--MD5-9foo".toList ∧ ofText? "x--md5-9fOO".toList = some n := by
  obtain ⟨-, heq, hread⟩ := ofOctets?_spellings
  have hn : ofOctets? (.ofAscii "\t x--mD5-9foo\r\n") =
      some ⟨.ofAscii "x--md5-9foo", by decide +kernel⟩ := by decide +kernel
  have hk : ofOctets? (.ofAscii "X--Md5-9FOO") =
      some ⟨.ofAscii "x--md5-9foo", by decide +kernel⟩ := by decide +kernel
  exact ⟨_, _, hn, hk, (heq _ _ _ _ hn hk).1.2 (by decide +kernel), by decide +kernel,
    hread _ _ (Or.inl (by decide +kernel))⟩

end HeaderName

end InternetMail
