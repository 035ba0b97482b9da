import InternetMail.Address.Format
import InternetMail.Proofs.EncodedWord.RoundTrip
import Mathlib.Data.List.Chain

/-!
# Encoded words are short and safe in a phrase

A chunk is closed before it exceeds the budget, so every chunk fits if each character alone does,
and none is empty (`packChunks_fits`). The budget is what the delimiters and the name of the charset
leave of the 75 characters of a word, which is always enough for a character (`size_le_budget`). A
word is an atom (`isAtomChar_writeWord`), and single spaces stand between the words, so that a
phrase keeps them without quotes (`quotePhrase_joined`).

The bounds go from the character up: at most four octets in any charset, at most four characters for
an octet in either transfer form, and so at most sixteen for a character. With at most nineteen for
the opening of a word and two for its end that is well below seventy-five, and the budget is never
too small for one character. A chunk is closed when the next character would not fit, so it is the
induction on the text that keeps "the open chunk fits" (`packChunks_fits`).

Neither form of a word has a blank in it, or any other character that would end an atom, so that a
name that is written in encoded words needs no quotes and every word stays one.
-/

namespace InternetMail

/-! ### How long a character is -/

/-- A code unit is two octets. -/
theorem Utf16.length_octetsOf (order : ByteOrder) (unit : Nat) :
    (octetsOf order unit).length = 2 := by
  cases order <;> rfl

/-- A character is one or two code units. -/
theorem Utf16.length_encodeChar_le (order : ByteOrder) (c : Char) :
    (encodeChar order c).length ≤ 4 := by
  rw [encodeChar, unitsOf]
  split <;> simp [length_octetsOf]

namespace Charset

/-- No whole charset takes more than four octets for a character. -/
theorem length_octetsOf?_le [MultiByte.Codec] {charset : Charset} (hwhole : charset.isWhole = true)
    {c : Char} {form : Octets} (h : charset.octetsOf? c = some form) : form.length ≤ 4 := by
  cases charset with
  | ascii =>
    obtain ⟨-, h⟩ := Option.ite_none_right_eq_some.1 h
    cases h
    simp
  | utf8 =>
    cases h
    rw [String.length_utf8EncodeChar]
    exact c.utf8Size_le_four
  | utf16 order =>
    cases h
    exact Utf16.length_encodeChar_le order c
  | singleByte s =>
    obtain ⟨b, -, rfl⟩ := Option.map_eq_some_iff.1 h
    simp
  | multiByte m => cases hwhole
  | replacement => cases h

/-- **No character takes more than four octets**, in any of the charsets that are whole. -/
theorem length_octets?_singleton_le [MultiByte.Codec] {charset : Charset}
    (hwhole : charset.isWhole = true) {c : Char} {form : Octets}
    (h : charset.octets? [c] = some form) : form.length ≤ 4 := by
  obtain ⟨form, rest, hform, hrest, rfl⟩ := (octets?_cons_eq_some_iff hwhole).1 h
  obtain rfl := Option.some.inj ((octets?_nil hwhole).symm.trans hrest)
  rw [List.append_nil]
  exact length_octetsOf?_le hwhole hform

/-- The longest name of a charset that is whole has fourteen characters. -/
theorem length_name_le {charset : Charset} (hwhole : charset.isWhole = true) :
    charset.name.length ≤ 14 := by
  cases charset with
  | ascii => decide
  | utf8 => decide
  | utf16 order => cases order <;> decide
  | singleByte s => cases s <;> decide
  | multiByte m => cases hwhole
  | replacement => cases hwhole

end Charset

/-! ### How long a word is -/

/-- Four characters for every three octets that were begun. -/
theorem Base64.length_encode (bs : Octets) : (encode bs).length = (bs.length + 2) / 3 * 4 := by
  fun_induction encode bs with
  | case1 => rfl
  | case2 => simp
  | case3 => simp
  | case4 a b c rest n ih =>
    simp only [List.length_cons, ih]
    omega

/-- An octet is written as itself, as an underscore, or as three characters. -/
theorem QuotedPrintable.length_encodeWordOctet_le :
    ∀ b, (QuotedPrintable.encodeWordOctet b).length ≤ 3 :=
  Octet.forall_of_digits _ (by decide)

theorem QuotedPrintable.length_encodeWord_le (bs : Octets) :
    (QuotedPrintable.encodeWord bs).length ≤ bs.length * 3 := by
  induction bs with
  | nil => exact Nat.le_refl _
  | cons b bs ih =>
    have hb := length_encodeWordOctet_le b
    rw [encodeWord] at ih ⊢
    rw [List.flatMap_cons, List.length_append, List.length_cons]
    omega

namespace WordEncoding

/-- The size of a form is what it takes. -/
theorem length_write (encoding : WordEncoding) (bs : Octets) :
    (encoding.write bs).length = encoding.size bs := by
  cases encoding with
  | b => exact Base64.length_encode bs
  | q => rfl

/-- Either form takes at most four characters for an octet. -/
theorem size_le (encoding : WordEncoding) (bs : Octets) : encoding.size bs ≤ bs.length * 4 := by
  cases encoding with
  | b =>
    simp only [size]
    omega
  | q =>
    have hle := QuotedPrintable.length_encodeWord_le bs
    simp only [size]
    omega

end WordEncoding

/-- A word is its opening, the chunk in its form, and two characters at the end. -/
theorem length_writeWord (charset : Charset) (encoding : WordEncoding) (chunk : Octets) :
    (writeWord charset encoding chunk).length =
      (wordOpening charset encoding).length + encoding.size chunk + 2 := by
  rw [writeWord, List.length_append, List.length_append, List.length_map, encoding.length_write]
  rfl

/-- An opening is short, as names are. -/
theorem length_wordOpening_le {charset : Charset} (hwhole : charset.isWhole = true)
    (encoding : WordEncoding) : (wordOpening charset encoding).length ≤ 19 := by
  have hname := Charset.length_name_le hwhole
  rw [wordOpening, List.length_append, List.length_append, String.length_toList]
  simp only [List.length_cons, List.length_nil]
  omega

/-- A character alone does not exceed what the delimiters leave of a word. -/
theorem size_le_budget {charset : Charset} (hwhole : charset.isWhole = true)
    (encoding : WordEncoding) {form : Octets} (h : form.length ≤ 4) :
    encoding.size form ≤ encodedWordLimit - ((wordOpening charset encoding).length + 2) := by
  have hsize := encoding.size_le form
  have hopening := length_wordOpening_le hwhole encoding
  rw [encodedWordLimit]
  omega

/-! ### Chunks fit -/

/-- Every chunk is within the budget and not empty, if what was begun is and each character is. -/
theorem packChunks_fits {encode : Text → Option Octets} {size : Octets → Nat} {budget : Nat}
    {begun t : Text} {current : Octets} {chunks : List Octets}
    (hnil : ∀ u, encode u = some [] → u = [])
    (hfits : ∀ c form, encode [c] = some form → size form ≤ budget)
    (hbegun : encode begun = some current) (hcurrent : size current ≤ budget)
    (h : packChunks encode size budget begun current t = some chunks) :
    ∀ chunk ∈ chunks, chunk ≠ [] ∧ size chunk ≤ budget := by
  induction t generalizing begun current chunks with
  | nil =>
    rw [packChunks, Option.some.injEq] at h
    split at h
    · simp [← h]
    · rename_i hne
      rw [← h]
      exact List.forall_mem_singleton.2 ⟨by simpa using hne, hcurrent⟩
  | cons c t ih =>
    obtain ⟨candidate, hcandidate, ⟨-, hne, first, rest, hfirst, hrest, rfl⟩ | ⟨hgoes, hrest⟩⟩ :=
      packChunks_cons_eq_some_iff.1 h
    · -- the chunk is closed as it is, and the character begins the next one
      exact List.forall_mem_cons.2 ⟨⟨hne, hcurrent⟩, ih hfirst (hfits c first hfirst) hrest⟩
    · refine ih hcandidate ?_ hrest
      rcases hgoes with hgoes | rfl
      · exact hgoes
      · obtain rfl := hnil _ hbegun
        exact hfits c candidate hcandidate

/-! ### Words are atoms -/

/-- The characters of atoms: visible ASCII characters that are not special. -/
def IsAtomChar (c : Char) : Prop :=
  (0x20 < c.toNat ∧ c.toNat < 0x7f) ∧ isSpecial c = false

instance : DecidablePred IsAtomChar :=
  fun c ↦ inferInstanceAs (Decidable ((0x20 < c.toNat ∧ c.toNat < 0x7f) ∧ isSpecial c = false))

/-- A character of an atom is no blank. -/
theorem IsAtomChar.isWhite_eq_false {c : Char} (h : IsAtomChar c) : isWhite c = false := by
  obtain ⟨⟨hlow, hhigh⟩, -⟩ := h
  simp only [isWhite, whiteSpace, Ranges.holds, List.any_cons, List.any_nil, Bool.or_eq_false_iff,
    Bool.and_eq_false_iff, decide_eq_false_iff_not, and_true]
  omega

/-- The name of a charset can be part of an atom. -/
theorem isAtomChar_of_isLabelOctet : ∀ b, Charset.isLabelOctet b = true →
    IsAtomChar (Octet.toChar b) :=
  Octet.forall_of_digits _ (by decide)

theorem isAtomChar_encodeWordOctet (b : UInt8) :
    ∀ b' ∈ QuotedPrintable.encodeWordOctet b, IsAtomChar (Octet.toChar b') := by
  have hplain : ∀ b, QuotedPrintable.isWordPlain b = true → IsAtomChar (Octet.toChar b) :=
    Octet.forall_of_digits _ (by decide)
  have hdigit : ∀ n : UInt8, n < 16 → IsAtomChar (Octet.toChar (Octet.hexDigit n)) :=
    Octet.forall_of_digits _ (by decide)
  rw [QuotedPrintable.encodeWordOctet]
  split
  · exact Run.forall_mem_of_all (by decide)
  · split
    · rename_i hb
      simpa using hplain b hb
    · have hhigh : b / 16 < 16 := by
        have hb := b.toNat_lt
        rw [UInt8.lt_iff_toNat_lt, UInt8.toNat_div]
        exact Nat.div_lt_of_lt_mul hb
      have hlow : b % 16 < 16 := UInt8.mod_lt b (by decide)
      have hequals : IsAtomChar (Octet.toChar 0x3d) := by decide
      simpa [QuotedPrintable.escape] using ⟨hequals, hdigit _ hhigh, hdigit _ hlow⟩

/-- So can either form of a chunk. -/
theorem isAtomChar_write : ∀ (encoding : WordEncoding) (chunk : Octets),
    ∀ b ∈ encoding.write chunk, IsAtomChar (Octet.toChar b) :=
  forall_mem_write (by decide) (by decide) isAtomChar_encodeWordOctet

/-- **A word is an atom.** -/
theorem isAtomChar_writeWord {charset : Charset} (hwhole : charset.isWhole = true)
    (encoding : WordEncoding) (chunk : Octets) :
    ∀ c ∈ writeWord charset encoding chunk, IsAtomChar c := by
  obtain ⟨label, hname, -, hlabel, -⟩ := Charset.exists_name hwhole
  rw [EncodedWord.writeWord_eq hname, List.forall_mem_map]
  exact EncodedWord.forall_mem_octetsOf (Run.forall_mem_of_all (by decide))
    (fun b hb ↦ isAtomChar_of_isLabelOctet b (hlabel b hb)) (isAtomChar_write encoding chunk)

/-! ### Atoms with single spaces -/

/-- No two neighbours have a property exactly if the text is a chain of those that do not. -/
theorem any_zip_drop_eq_false_iff {f : Char × Char → Bool} {t : Text} :
    (t.zip (t.drop 1)).any f = false ↔ t.IsChain fun c d ↦ f (c, d) = false := by
  induction t with
  | nil => simp
  | cons c t ih =>
    cases t with
    | nil => simp
    | cons d t =>
      rw [List.isChain_cons_cons, ← ih]
      simp

/-- White space is loose at the ends and next to other white space. -/
theorem hasLooseWhite_eq_false_iff {t : Text} : hasLooseWhite t = false ↔
    (∀ c ∈ t.head?, isWhite c = false) ∧ (∀ c ∈ t.getLast?, isWhite c = false) ∧
      t.IsChain fun c d ↦ (isWhite c && isWhite d) = false := by
  have hany : ∀ c : Option Char, c.any isWhite = false ↔ ∀ d ∈ c, isWhite d = false := by
    intro c
    cases c <;> simp
  rw [hasLooseWhite, Bool.or_eq_false_iff, Bool.or_eq_false_iff, any_zip_drop_eq_false_iff,
    and_assoc, hany, hany]

/-- Such a text begins and ends with a word. -/
theorem head?_joined {words : List Text} (hne : words ≠ [])
    (hwords : ∀ word ∈ words, word ≠ [] ∧ ∀ c ∈ word, isWhite c = false) :
    Text.joined [' '] words ≠ [] ∧ ∀ c ∈ (Text.joined [' '] words).head?, isWhite c = false := by
  obtain ⟨word, hword, rest, hrest⟩ := (spacedBy_joined hne).exists_first
  obtain ⟨hword, hwhite⟩ := hwords word hword
  rw [← hrest]
  refine ⟨List.append_ne_nil_of_left_ne_nil hword rest, fun c hc ↦ ?_⟩
  rw [List.head?_append_of_ne_nil _ hword] at hc
  exact hwhite c (List.mem_of_head? hc)

/-- Words that are joined end as the last of them does. -/
theorem getLast?_joined {words : List Text} (hne : words ≠ [])
    (hwords : ∀ word ∈ words, word ≠ [] ∧ ∀ c ∈ word, isWhite c = false) :
    ∀ c ∈ (Text.joined [' '] words).getLast?, isWhite c = false := by
  obtain ⟨word, hword, rest, hrest⟩ := (spacedBy_joined hne).exists_last
  obtain ⟨hword, hwhite⟩ := hwords word hword
  intro c hc
  rw [← hrest, List.getLast?_append_of_ne_nil _ hword] at hc
  exact hwhite c (List.mem_of_getLast? hc)

/-- The only white space between words is one space, and so none of it is next to another. -/
theorem isChain_joined {words : List Text}
    (hwords : ∀ word ∈ words, word ≠ [] ∧ ∀ c ∈ word, isWhite c = false) :
    (Text.joined [' '] words).IsChain fun c d ↦ (isWhite c && isWhite d) = false := by
  have hword : ∀ {word : Text}, (∀ c ∈ word, isWhite c = false) →
      word.IsChain fun c d ↦ (isWhite c && isWhite d) = false := by
    intro word h
    refine List.Pairwise.isChain (List.pairwise_of_forall_mem_list fun c hc d _ ↦ ?_)
    rw [h c hc, Bool.false_and]
  fun_induction Text.joined [' '] words with
  | case1 => exact .nil
  | case2 word => exact hword (hwords word List.mem_cons_self).2
  | case3 word words hne ih =>
    rw [List.forall_mem_cons] at hwords
    obtain ⟨⟨-, hfirst⟩, hwords⟩ := hwords
    have hnext := head?_joined hne hwords
    refine List.isChain_append.2 ⟨List.isChain_append.2 ⟨hword hfirst, .singleton ' ', ?_⟩,
      ih hwords, ?_⟩
    · intro c hc d _
      rw [hfirst c (List.mem_of_getLast? hc), Bool.false_and]
    · intro c _ d hd
      rw [hnext.2 d hd, Bool.and_false]

/-- Atoms with single spaces between them stand in a phrase as they are. -/
theorem quotePhrase_joined {words : List Text} (hne : words ≠ [])
    (hwords : ∀ word ∈ words, word ≠ [] ∧ ∀ c ∈ word, IsAtomChar c) :
    quotePhrase (Text.joined [' '] words) = Text.joined [' '] words := by
  have hwhite : ∀ word ∈ words, word ≠ [] ∧ ∀ c ∈ word, isWhite c = false := fun word hword ↦
    ⟨(hwords word hword).1, fun c hc ↦ ((hwords word hword).2 c hc).isWhite_eq_false⟩
  obtain ⟨hempty, hhead⟩ := head?_joined hne hwhite
  have hloose : hasLooseWhite (Text.joined [' '] words) = false :=
    hasLooseWhite_eq_false_iff.2 ⟨hhead, getLast?_joined hne hwhite, isChain_joined hwhite⟩
  have hspecial : (Text.joined [' '] words).any isSpecial = false := by
    rw [List.any_eq_false]
    intro c hc
    rcases mem_joined hc with hc | ⟨word, hword, hc⟩
    · rw [List.mem_singleton.1 hc]
      decide
    · simp [((hwords word hword).2 c hc).2]
  rw [quotePhrase, hloose, hspecial, List.isEmpty_eq_false_iff.2 hempty]
  rfl

/-! ### Encoded text -/

/-- The word carries the text `s`: it is an atom of at most 75 characters and says `s`, which is not
empty. -/
structure Carries [MultiByte.Codec] (word s : Text) : Prop where
  length_le : word.length ≤ encodedWordLimit
  isAtomChar : ∀ c ∈ word, IsAtomChar c
  outcome_decode : Reported.outcome (EncodedWord.decode word) = .ok s
  ne_nil : s ≠ []

/-- A word whose chunk fits is one that a reader takes, and what it carries is the text of the
chunk. -/
theorem carries_writeWord [MultiByte.Codec] {charset : Charset} (hwhole : charset.isWhole = true)
    {encoding : WordEncoding} {chunk : Octets} {s : Text} (hs : charset.octets? s = some chunk)
    (hne : chunk ≠ [])
    (hsize : encoding.size chunk ≤ encodedWordLimit - ((wordOpening charset encoding).length + 2)) :
    Carries (writeWord charset encoding chunk) s := by
  have hopening := length_wordOpening_le hwhole encoding
  refine ⟨?_, isAtomChar_writeWord hwhole encoding chunk, ?_, ?_⟩
  · rw [encodedWordLimit] at hsize ⊢
    rw [length_writeWord]
    omega
  · rw [EncodedWord.outcome_decode_writeWord hwhole, Charset.text_of_octets? hwhole hs]
  · rintro rfl
    exact hne (Option.some.inj ((Charset.octets?_nil hwhole).symm.trans hs)).symm

/-- **Encoded words are well formed.** A text that needs encoding is written as words with single
spaces between them, which is a phrase as it stands. Each of the words carries a piece of the text,
and the pieces are the whole text. -/
theorem encodeText_wellFormed [MultiByte.Codec] {t label e : Text} {charset : Charset}
    {choice : Option WordEncoding} (hlabel : Charset.resolve label = .ok charset)
    (hwhole : charset.isWhole = true) (hneeds : needsEncoding t = true)
    (he : encodeText t label choice = .ok e) :
    quotePhrase e = e ∧ ∃ words texts : List Text, words ≠ [] ∧ e = Text.joined [' '] words ∧
      texts.flatten = t ∧ List.Forall₂ Carries words texts := by
  obtain ⟨encoding, chunks, texts, hpacked, hne, rfl, hflatten, htexts⟩ :=
    exists_packed_of_encodeText hlabel hwhole hneeds he
  have hfits : ∀ chunk ∈ chunks, chunk ≠ [] ∧
      encoding.size chunk ≤ encodedWordLimit - ((wordOpening charset encoding).length + 2) :=
    packChunks_fits (fun _ ↦ Charset.eq_nil_of_octets? hwhole)
      (fun _ _ h ↦ size_le_budget hwhole encoding (Charset.length_octets?_singleton_le hwhole h))
      (Charset.octets?_nil hwhole) (size_le_budget hwhole encoding (Nat.zero_le 4)) hpacked
  have hcarries : List.Forall₂ Carries (chunks.map (writeWord charset encoding)) texts := by
    rw [List.forall₂_map_left_iff]
    exact ((List.forall₂_and_left _ _).2 ⟨hfits, htexts.flip⟩).imp fun chunk s h ↦
      carries_writeWord hwhole h.2 h.1.1 h.1.2
  refine ⟨quotePhrase_joined (by simpa using hne) fun word hword ↦ ?_, _, texts, by simpa using hne,
    rfl, hflatten, hcarries⟩
  obtain ⟨chunk, -, rfl⟩ := List.mem_map.1 hword
  exact ⟨(isVisibleWord_writeWord hwhole encoding chunk).isSpaceChar.1,
    isAtomChar_writeWord hwhole encoding chunk⟩

/-- A comma and the letters outside ASCII are written by number, and none of the letters is divided.
-/
theorem encodeText_wellFormed_utf8 :
    ∃ e, encodeText "Zażółć gęślą jaźń, proszę!".toList "utf-8".toList none = .ok e ∧
      e = ("=?UTF-8?Q?Za=C5=BC=C3=B3=C5=82=C4=87_g=C4=99=C5=9Bl=C4=85_ja=C5=BA=C5=84?= " ++
        "=?UTF-8?Q?=2C_prosz=C4=99!?=").toList ∧
      quotePhrase e = e ∧ ∃ words texts : List Text, words ≠ [] ∧ e = Text.joined [' '] words ∧
        texts.flatten = "Zażółć gęślą jaźń, proszę!".toList ∧
        List.Forall₂ Carries words texts := by
  have hlabel : Charset.resolve "utf-8".toList = .ok .utf8 := rfl
  have he : encodeText "Zażółć gęślą jaźń, proszę!".toList "utf-8".toList none =
      .ok ("=?UTF-8?Q?Za=C5=BC=C3=B3=C5=82=C4=87_g=C4=99=C5=9Bl=C4=85_ja=C5=BA=C5=84?= " ++
        "=?UTF-8?Q?=2C_prosz=C4=99!?=").toList := by
    decide +kernel
  exact ⟨_, he, rfl, encodeText_wellFormed hlabel rfl (by decide +kernel) he⟩

end InternetMail
