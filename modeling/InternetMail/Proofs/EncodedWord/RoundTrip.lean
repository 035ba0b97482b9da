import InternetMail.Proofs.EncodedWord.Spacing
import InternetMail.Proofs.EncodedWord.Word
import Mathlib.Data.List.Forall2

/-!
# Encoded texts decode back

A text is packed into chunks that are the forms of its stretches (`exists_texts_packChunks`), each
chunk is carried by one word (`outcome_decodeSpacedWord_writeWord`), and of words that stand apart
only what they say is kept (`outcome_decodeText_of_spacedBy`). So decoding gives the text again
(`decodeText_encodeText`), also after the header it stands in was folded anew; a text that needs no
encoding has no encoded word in it (`outcome_decodeText_of_contains`).

The three steps are kept apart. Packing is about octets, and gives chunks whose texts make up the
text. What a single word is read as is proved of words (`EncodedWord.parse_writeWord`). And decoding
a text needs to know of its words only what each of them says by itself (`Decodes`), because between
two encoded words the white space is dropped and every text that is encoded is encoded as a whole.

Folding may put any white space between two words, and reading a header unfolds it and decodes what
is left. So the result is also about every value that is the encoded text with other white space
between its words (`Respaced`).
-/

namespace InternetMail

/-! ### Chunks -/

section

variable {encode : Text → Option Octets} {size : Octets → Nat} {budget : Nat} {begun t : Text}
  {current : Octets} {chunks : List Octets}

/-- A character goes to the chunk begun if that stays within the budget or is empty so far. If not,
the chunk is closed, and the character begins the next one. -/
theorem packChunks_cons_eq_some_iff {c : Char} :
    packChunks encode size budget begun current (c :: t) = some chunks ↔
      ∃ candidate, encode (begun ++ [c]) = some candidate ∧
        (budget < size candidate ∧ current ≠ [] ∧ (∃ first rest, encode [c] = some first ∧
            packChunks encode size budget [c] first t = some rest ∧ current :: rest = chunks) ∨
          (size candidate ≤ budget ∨ current = []) ∧
            packChunks encode size budget (begun ++ [c]) candidate t = some chunks) := by
  rw [packChunks]
  simp only [Option.bind_eq_bind, Option.bind_eq_some_iff]
  refine exists_congr fun candidate ↦ and_congr_right fun _ ↦ ?_
  by_cases hclosed : budget < size candidate ∧ current ≠ []
  · have hcond : (decide (budget < size candidate) && !current.isEmpty) = true := by
      simpa using hclosed
    have hgoes : ¬(size candidate ≤ budget ∨ current = []) := by
      rw [not_or, Nat.not_le]
      exact hclosed
    simp only [hcond, if_true, Option.bind_eq_some_iff, Option.pure_def, Option.some.injEq]
    constructor
    · rintro ⟨first, hfirst, rest, hrest, rfl⟩
      exact Or.inl ⟨hclosed.1, hclosed.2, first, rest, hfirst, hrest, rfl⟩
    · rintro (⟨-, -, first, rest, hfirst, hrest, rfl⟩ | h)
      · exact ⟨first, hfirst, rest, hrest, rfl⟩
      · exact absurd h.1 hgoes
  · have hcond : (decide (budget < size candidate) && !current.isEmpty) = false := by
      simpa using hclosed
    have hgoes : size candidate ≤ budget ∨ current = [] := by
      rwa [not_and_or, Nat.not_lt, not_not] at hclosed
    simp only [hcond, Bool.false_eq_true, if_false, hgoes, true_and]
    exact ⟨Or.inr, fun h ↦ h.resolve_left fun h ↦ hclosed ⟨h.1, h.2.1⟩⟩

/-- If only the empty text is encoded as nothing, the chunks are the forms of stretches of what was
begun and what comes after it. -/
theorem exists_texts_packChunks (hnil : ∀ u, encode u = some [] → u = [])
    (hbegun : encode begun = some current)
    (h : packChunks encode size budget begun current t = some chunks) :
    ∃ texts : List Text, texts.flatten = begun ++ t ∧
      List.Forall₂ (fun s chunk ↦ encode s = some chunk) texts chunks := by
  induction t generalizing begun current chunks with
  | nil =>
    rw [packChunks, Option.some.injEq] at h
    split at h
    · -- nothing was begun, so its text is empty and no chunk is left to write
      rename_i hempty
      rw [List.isEmpty_iff.1 hempty] at hbegun
      obtain rfl := hnil _ hbegun
      exact ⟨[], rfl, h ▸ .nil⟩
    · exact ⟨[begun], by simp, h ▸ .cons hbegun .nil⟩
  | cons c t ih =>
    obtain ⟨candidate, hcandidate, ⟨-, -, first, rest, hfirst, hrest, rfl⟩ | ⟨-, hrest⟩⟩ :=
      packChunks_cons_eq_some_iff.1 h
    · obtain ⟨texts, hflatten, htexts⟩ := ih hfirst hrest
      exact ⟨begun :: texts, by rw [List.flatten_cons, hflatten, List.singleton_append],
        .cons hbegun htexts⟩
    · obtain ⟨texts, hflatten, htexts⟩ := ih hcandidate hrest
      exact ⟨texts, by rw [hflatten, List.append_assoc, List.singleton_append], htexts⟩

/-- If every text can be encoded, every text can be packed. -/
theorem exists_packChunks (hencode : ∀ u, ∃ bs, encode u = some bs) (size : Octets → Nat)
    (budget : Nat) (begun : Text) (current : Octets) (t : Text) :
    ∃ chunks, packChunks encode size budget begun current t = some chunks := by
  induction t generalizing begun current with
  | nil => exact ⟨_, rfl⟩
  | cons c t ih =>
    obtain ⟨candidate, hcandidate⟩ := hencode (begun ++ [c])
    obtain ⟨first, hfirst⟩ := hencode [c]
    by_cases hclosed : budget < size candidate ∧ current ≠ []
    · obtain ⟨rest, hrest⟩ := ih [c] first
      exact ⟨_, packChunks_cons_eq_some_iff.2 ⟨candidate, hcandidate,
        Or.inl ⟨hclosed.1, hclosed.2, first, rest, hfirst, hrest, rfl⟩⟩⟩
    · obtain ⟨chunks, hchunks⟩ := ih (begun ++ [c]) candidate
      rw [not_and_or, Nat.not_lt, not_not] at hclosed
      exact ⟨chunks, packChunks_cons_eq_some_iff.2 ⟨candidate, hcandidate,
        Or.inr ⟨hclosed, hchunks⟩⟩⟩

end

/-- A whole charset writes nothing just for the empty text. -/
theorem Charset.eq_nil_of_octets? [MultiByte.Codec] {charset : Charset}
    (hwhole : charset.isWhole = true) {t : Text} (h : charset.octets? t = some []) : t = [] := by
  rw [← text_of_octets? hwhole h, text_of_octets? hwhole (octets?_nil hwhole)]

/-! ### Decoding words -/

/-- The word is an encoded word that says `s`. -/
def Decodes [MultiByte.Codec] (word s : Text) : Prop :=
  Reported.outcome (decodeSpacedWord word) = .ok (some s)

/-- The words that carry the forms of some texts say these texts. -/
theorem forall₂_decodes_writeWord [MultiByte.Codec] {charset : Charset}
    (hwhole : charset.isWhole = true)
    (encoding : WordEncoding) {texts : List Text} {chunks : List Octets}
    (h : List.Forall₂ (fun s chunk ↦ charset.octets? s = some chunk) texts chunks) :
    List.Forall₂ Decodes (chunks.map (writeWord charset encoding)) texts := by
  rw [List.forall₂_map_left_iff]
  refine h.flip.imp fun chunk s hs ↦ ?_
  rw [Decodes, outcome_decodeSpacedWord_writeWord hwhole, Charset.text_of_octets? hwhole hs]

/-- What a word is shown as that says `said`, or nothing but itself. -/
def SpacedWord.shown (w : SpacedWord) (afterEncoded : Bool) : Option Text → Text
  | some s => (if afterEncoded then [] else w.space) ++ s
  | none => w.space ++ w.word

theorem outcome_decodeWords_step [MultiByte.Codec] (afterEncoded : Bool) (w : SpacedWord)
    (ws : List SpacedWord) :
    Reported.outcome (decodeWords afterEncoded (w :: ws)) = do
      let said ← Reported.outcome (decodeSpacedWord w.word)
      let rest ← Reported.outcome (decodeWords said.isSome ws)
      return w.shown afterEncoded said ++ rest := by
  rw [decodeWords, Reported.outcome_bind]
  congr 1
  funext said
  cases said <;> rw [Reported.outcome_bind] <;> rfl

/-- An encoded word drops the space before it after another one. -/
theorem outcome_decodeWords_cons [MultiByte.Codec] {w : SpacedWord} {ws : List SpacedWord}
    {s t : Text} (hw : Decodes w.word s) (hws : Reported.outcome (decodeWords true ws) = .ok t)
    (afterEncoded : Bool) :
    Reported.outcome (decodeWords afterEncoded (w :: ws)) =
      .ok ((if afterEncoded then [] else w.space) ++ s ++ t) := by
  rw [outcome_decodeWords_step, hw, ok_bind, Option.isSome_some, hws]
  rfl

/-- The white space between encoded words is dropped. -/
theorem outcome_decodeWords_true [MultiByte.Codec] {ws : List SpacedWord} {texts : List Text}
    (h : List.Forall₂ Decodes (ws.map SpacedWord.word) texts) :
    Reported.outcome (decodeWords true ws) = .ok texts.flatten := by
  induction ws generalizing texts with
  | nil =>
    cases h
    rfl
  | cons w ws ih =>
    cases h with
    | cons hw hws => rw [outcome_decodeWords_cons hw (ih hws)]; rfl

theorem outcome_decodeText [MultiByte.Codec] (t : Text) : Reported.outcome (decodeText t) = do
    let s ← Reported.outcome (decodeWords false (spacedWords t).1)
    return s ++ (spacedWords t).2 := by
  rw [decodeText]
  exact Reported.outcome_bind ..

/-- Encoded words that stand apart say one text. -/
theorem outcome_decodeText_of_spacedBy [MultiByte.Codec] {words texts : List Text} {t : Text}
    (h : SpacedBy IsGap words t) (hwords : ∀ word ∈ words, IsWord word)
    (htexts : List.Forall₂ Decodes words texts) :
    Reported.outcome (decodeText t) = .ok texts.flatten := by
  obtain ⟨w, ws, hspaced, hmap, hfirst⟩ := h.exists_spacedWords hwords [] (by simp)
  rw [List.nil_append] at hspaced
  rw [← hmap] at htexts
  cases htexts with
  | @cons _ s _ texts hw hws =>
    have hall : Reported.outcome (decodeWords false (w :: ws)) = .ok (s ++ texts.flatten) := by
      rw [outcome_decodeWords_cons hw (outcome_decodeWords_true hws) false, hfirst]
      rfl
    rw [outcome_decodeText, hspaced, hall]
    exact congrArg Except.ok (List.append_nil _)

/-- Words that say nothing but themselves are kept, each after its space. -/
theorem outcome_decodeWords_of_none [MultiByte.Codec] {ws : List SpacedWord}
    (h : ∀ w ∈ ws, Reported.outcome (decodeSpacedWord w.word) = .ok none) :
    Reported.outcome (decodeWords false ws) = .ok (ws.flatMap fun w ↦ w.space ++ w.word) := by
  induction ws with
  | nil => rfl
  | cons w ws ih =>
    rw [List.forall_mem_cons] at h
    rw [outcome_decodeWords_step, h.1, ok_bind, Option.isSome_none, ih h.2]
    rfl

theorem outcome_decodeText_of_none [MultiByte.Codec] {t : Text}
    (h : ∀ w ∈ (spacedWords t).1, Reported.outcome (decodeSpacedWord w.word) = .ok none) :
    Reported.outcome (decodeText t) = .ok t := by
  rw [outcome_decodeText, outcome_decodeWords_of_none h]
  exact congrArg Except.ok (flatMap_spacedWords t)

/-- A text in which nothing begins like an encoded word is kept as it is. -/
theorem outcome_decodeText_of_contains [MultiByte.Codec] {t : Text}
    (h : Run.contains ['=', '?'] t = false) :
    Reported.outcome (decodeText t) = .ok t := by
  have hplain : ∀ w ∈ (spacedWords t).1, looksEncoded w.word = false := by
    intro w hw
    rw [← Bool.not_eq_true]
    intro hlooks
    rw [looksEncoded, Bool.and_eq_true, List.isPrefixOf_iff_prefix] at hlooks
    -- the opening of the word would stand in the text
    have hinfix := hlooks.1.isInfix.trans (infix_of_mem_spacedWords hw)
    rw [← Run.contains_iff_isInfix, h] at hinfix
    cases hinfix
  refine outcome_decodeText_of_none fun w hw ↦ ?_
  rw [decodeSpacedWord, hplain w hw]
  rfl

/-! ### Header values -/

theorem isBlank_of_isVisible : ∀ b, isVisible b = true →
    Octet.isBlank b = false ∧ b ≠ 0x0d ∧ b ≠ 0x0a :=
  Octet.forall_of_digits _ (by decide)

/-- Words that stand apart have no blanks around them. -/
theorem trim_encode_of_spacedBy {p : Text → Prop} {words : List Text} {t : Text}
    (h : SpacedBy p words t) (hwords : ∀ word ∈ words, IsVisibleWord word) :
    Octets.trim (Utf8.encode t) = Utf8.encode t := by
  apply Run.strip_eq_self_of_ends
  · obtain ⟨word, hword, rest, rfl⟩ := h.exists_first
    obtain ⟨hne, hvisible⟩ := (hwords word hword).encode
    intro b hb
    rw [Utf8.encode_append, List.head?_append_of_ne_nil _ hne] at hb
    exact (isBlank_of_isVisible b (hvisible b (List.mem_of_head? hb))).1
  · obtain ⟨word, hword, us, rfl⟩ := h.exists_last
    obtain ⟨hne, hvisible⟩ := (hwords word hword).encode
    intro b hb
    rw [Utf8.encode_append, List.getLast?_append_of_ne_nil _ hne] at hb
    exact (isBlank_of_isVisible b (hvisible b (List.mem_of_getLast? hb))).1

/-- Encoded words that stand apart by folding white space say one text in a header. -/
theorem outcome_decodeHeaderValue_of_spacedBy [MultiByte.Codec] {words texts : List Text} {e : Text}
    (h : SpacedBy IsFoldingSpace words e) (hwords : ∀ word ∈ words, IsVisibleWord word)
    (htexts : List.Forall₂ Decodes words texts) :
    Reported.outcome (decodeHeaderValue (Utf8.encode e)) = .ok texts.flatten := by
  obtain ⟨t, ht, hunfold⟩ := h.exists_unfold fun word hword b hb ↦
    (isBlank_of_isVisible b ((hwords word hword).encode.2 b hb)).2
  rw [decodeHeaderValue, hunfold, trim_encode_of_spacedBy ht hwords, Utf8.decodeLossy_encode]
  exact outcome_decodeText_of_spacedBy ht (fun word hword ↦ (hwords word hword).isSpaceChar) htexts

/-! ### Encoding and decoding -/

/-- The text is encoded words with a space between them. -/
def IsEncodedWords (e : Text) : Prop :=
  ∃ words : List Text, words ≠ [] ∧ e = Text.joined [' '] words ∧
    ∀ word ∈ words, ∃ w, EncodedWord.read (Utf8.encode word) = .ok (w, [])

/-- Encoded words begin like one. -/
theorem IsEncodedWords.contains {e : Text} (h : IsEncodedWords e) :
    Run.contains ['=', '?'] e = true := by
  obtain ⟨words, hne, rfl, hwords⟩ := h
  obtain ⟨word, hword, hprefix⟩ := (spacedBy_joined hne).exists_first
  obtain ⟨w, hread⟩ := hwords word hword
  obtain ⟨⟨_, rest⟩, hopen, -⟩ := bind_eq_ok_iff.1 hread
  have hopening : Octets.ofAscii "=?" = [0x3d, 0x3f] := rfl
  rw [hopening, Reader.literal] at hopen
  split at hopen
  · rename_i hoctets
    obtain ⟨bs, hbs⟩ := List.isPrefixOf_iff_prefix.1 hoctets
    have hchars : word = '=' :: '?' :: Utf8.decodeLossy bs := by
      rw [← Utf8.decodeLossy_encode word, ← hbs]
      rfl
    rw [Run.contains_iff_isInfix]
    refine List.IsInfix.trans ?_ hprefix.isInfix
    exact ⟨[], Utf8.decodeLossy bs, hchars.symm⟩
  · cases hopen

/-- A text that needs encoding is packed into chunks, which are the forms of its stretches, and
these are carried by words. -/
theorem exists_packed_of_encodeText [MultiByte.Codec] {t label e : Text} {charset : Charset}
    {choice : Option WordEncoding} (hlabel : Charset.resolve label = .ok charset)
    (hwhole : charset.isWhole = true) (hneeds : needsEncoding t = true)
    (he : encodeText t label choice = .ok e) :
    ∃ (encoding : WordEncoding) (chunks : List Octets) (texts : List Text),
      packChunks charset.octets? encoding.size
        (encodedWordLimit - ((wordOpening charset encoding).length + 2)) [] [] t = some chunks ∧
      chunks ≠ [] ∧ e = Text.joined [' '] (chunks.map (writeWord charset encoding)) ∧
      texts.flatten = t ∧
      List.Forall₂ (fun s chunk ↦ charset.octets? s = some chunk) texts chunks := by
  rw [encodeText, hneeds] at he
  obtain ⟨charset', hlabel', he⟩ := bind_eq_ok_iff.1 he
  obtain rfl : charset = charset' := Except.ok.inj (hlabel.symm.trans hlabel')
  generalize choice.getD (.forText t) = encoding at he
  dsimp only at he
  split at he
  · cases he
  · rename_i chunks hchunks
    cases he
    obtain ⟨texts, hflatten, htexts⟩ := exists_texts_packChunks
      (fun _ ↦ Charset.eq_nil_of_octets? hwhole) (Charset.octets?_nil hwhole) hchunks
    refine ⟨encoding, chunks, texts, hchunks, fun hnil ↦ ?_, rfl, hflatten, htexts⟩
    -- no chunks would say the empty text, which needs no encoding
    rw [hnil] at htexts
    cases htexts
    rw [List.flatten_nil, List.nil_append] at hflatten
    rw [← hflatten] at hneeds
    cases hneeds

/-- What a text that needs encoding is written as: words that carry the forms of its stretches. -/
theorem exists_chunks_of_encodeText [MultiByte.Codec] {t label e : Text} {charset : Charset}
    {choice : Option WordEncoding} (hlabel : Charset.resolve label = .ok charset)
    (hwhole : charset.isWhole = true) (hneeds : needsEncoding t = true)
    (he : encodeText t label choice = .ok e) :
    ∃ encoding chunks texts, chunks ≠ [] ∧
      e = Text.joined [' '] (chunks.map (writeWord charset encoding)) ∧ texts.flatten = t ∧
      List.Forall₂ (fun s chunk ↦ charset.octets? s = some chunk) texts chunks := by
  obtain ⟨encoding, chunks, texts, -, hcarried⟩ :=
    exists_packed_of_encodeText hlabel hwhole hneeds he
  exact ⟨encoding, chunks, texts, hcarried⟩

/-- Text can always be encoded in UTF-8. -/
theorem exists_encodeText [MultiByte.Codec] {label : Text}
    (hlabel : Charset.resolve label = .ok .utf8) (t : Text)
    (choice : Option WordEncoding) : ∃ e, encodeText t label choice = .ok e := by
  rw [encodeText, hlabel]
  split
  · exact ⟨t, rfl⟩
  · simp only [ok_bind]
    generalize choice.getD (.forText t) = encoding
    obtain ⟨chunks, hchunks⟩ := exists_packChunks (fun u ↦ ⟨_, Charset.octets?_utf8 u⟩)
      encoding.size (encodedWordLimit - ((wordOpening .utf8 encoding).length + 2)) [] [] t
    rw [hchunks]
    exact ⟨_, rfl⟩

/-- The characters of encoded text: the printable ones of ASCII, and the TAB. -/
def IsWritten (c : Char) : Prop :=
  (0x20 ≤ c.toNat ∧ c.toNat ≤ 0x7e) ∨ c = '\t'

instance : DecidablePred IsWritten :=
  fun c ↦ inferInstanceAs (Decidable ((0x20 ≤ c.toNat ∧ c.toNat ≤ 0x7e) ∨ c = '\t'))

/-- A text that needs no encoding is made of such characters. -/
theorem isWritten_of_needsEncoding {t : Text} (h : needsEncoding t = false) :
    ∀ c ∈ t, IsWritten c := by
  rw [needsEncoding, Bool.or_eq_false_iff, List.any_eq_false] at h
  intro c hc
  have hneeds := h.1 c hc
  simp only [Bool.or_eq_true, Bool.and_eq_true, decide_eq_true_eq, bne_iff_ne, beq_iff_eq,
    not_or, not_and_or, not_not] at hneeds
  obtain ⟨⟨hascii, hcontrol⟩, hdelete⟩ := hneeds
  rcases hcontrol with hcontrol | htab
  · exact Or.inl (by omega)
  · exact Or.inr htab

theorem printable_toChar_of_isVisible : ∀ b, isVisible b = true →
    0x20 ≤ (Octet.toChar b).toNat ∧ (Octet.toChar b).toNat ≤ 0x7e :=
  Octet.forall_of_digits _ (by decide)

/-- So is what a text is encoded as, and if it was encoded, there is no TAB in that. -/
theorem isWritten_of_encodeText [MultiByte.Codec] {t label e : Text} {charset : Charset}
    {choice : Option WordEncoding} (hlabel : Charset.resolve label = .ok charset)
    (hwhole : charset.isWhole = true) (he : encodeText t label choice = .ok e) :
    ∀ c ∈ e, IsWritten c ∧ (needsEncoding t = true → c ≠ '\t') := by
  cases hneeds : needsEncoding t with
  | false =>
    obtain rfl : t = e := by simpa [encodeText, hneeds] using he
    exact fun c hc ↦ ⟨isWritten_of_needsEncoding hneeds c hc, by simp⟩
  | true =>
    obtain ⟨encoding, chunks, -, -, rfl, -, -⟩ :=
      exists_chunks_of_encodeText hlabel hwhole hneeds he
    intro c hc
    suffices h : 0x20 ≤ c.toNat ∧ c.toNat ≤ 0x7e by
      refine ⟨Or.inl h, ?_⟩
      rintro - rfl
      exact absurd h.1 (by decide)
    rcases mem_joined hc with hc | ⟨word, hword, hc⟩
    · rw [List.mem_singleton.1 hc]
      decide
    · obtain ⟨chunk, -, rfl⟩ := List.mem_map.1 hword
      obtain ⟨bs, -, hbs, hchars⟩ := isVisibleWord_writeWord hwhole encoding chunk
      rw [hchars] at hc
      obtain ⟨b, hb, rfl⟩ := List.mem_map.1 hc
      exact printable_toChar_of_isVisible b (hbs b hb)

/-- A text that needs encoding is written as encoded words. -/
theorem isEncodedWords_of_needsEncoding [MultiByte.Codec] {t label e : Text} {charset : Charset}
    {choice : Option WordEncoding} (hlabel : Charset.resolve label = .ok charset)
    (hwhole : charset.isWhole = true) (hneeds : needsEncoding t = true)
    (he : encodeText t label choice = .ok e) : IsEncodedWords e := by
  obtain ⟨encoding, chunks, texts, hne, rfl, -, -⟩ :=
    exists_chunks_of_encodeText hlabel hwhole hneeds he
  refine ⟨_, by simpa using hne, rfl, fun word hword ↦ ?_⟩
  obtain ⟨chunk, -, rfl⟩ := List.mem_map.1 hword
  exact EncodedWord.exists_read_writeWord hwhole encoding chunk

/-- What a text is encoded as decodes to that text. -/
theorem outcome_decodeText_of_encodeText [MultiByte.Codec] {t label e : Text} {charset : Charset}
    {choice : Option WordEncoding} (hlabel : Charset.resolve label = .ok charset)
    (hwhole : charset.isWhole = true) (he : encodeText t label choice = .ok e) :
    Reported.outcome (decodeText e) = .ok t := by
  cases hneeds : needsEncoding t with
  | false =>
    obtain rfl : t = e := by simpa [encodeText, hneeds] using he
    rw [needsEncoding, Bool.or_eq_false_iff] at hneeds
    exact outcome_decodeText_of_contains hneeds.2
  | true =>
    obtain ⟨encoding, chunks, texts, hne, rfl, rfl, hchunks⟩ :=
      exists_chunks_of_encodeText hlabel hwhole hneeds he
    refine outcome_decodeText_of_spacedBy (spacedBy_joined (by simpa using hne))
      (fun word hword ↦ ?_) (forall₂_decodes_writeWord hwhole encoding hchunks)
    obtain ⟨chunk, -, rfl⟩ := List.mem_map.1 hword
    exact (isVisibleWord_writeWord hwhole encoding chunk).isSpaceChar

/-- **Encoded words decode back.** What a text is encoded as in a whole charset decodes to that
text, and if it is encoded words, so it does in a header after it was folded anew in any way. -/
theorem decodeText_encodeText [MultiByte.Codec] {t label e : Text} {charset : Charset}
    {choice : Option WordEncoding} (hlabel : Charset.resolve label = .ok charset)
    (hwhole : charset.isWhole = true) (he : encodeText t label choice = .ok e) :
    Reported.outcome (decodeText e) = .ok t ∧
      (IsEncodedWords e → ∀ e', Respaced e e' →
        Reported.outcome (decodeHeaderValue (Utf8.encode e')) = .ok t) := by
  refine ⟨outcome_decodeText_of_encodeText hlabel hwhole he, fun hencoded e' he' ↦ ?_⟩
  cases hneeds : needsEncoding t with
  | false =>
    obtain rfl : t = e := by simpa [encodeText, hneeds] using he
    rw [needsEncoding, Bool.or_eq_false_iff] at hneeds
    -- a text that begins like an encoded word somewhere would have been encoded
    have hcontains := hencoded.contains
    rw [hneeds.2] at hcontains
    cases hcontains
  | true =>
    obtain ⟨encoding, chunks, texts, hne, rfl, rfl, hchunks⟩ :=
      exists_chunks_of_encodeText hlabel hwhole hneeds he
    have hwords : chunks.map (writeWord charset encoding) ≠ [] := by simpa using hne
    have hvisible : ∀ word ∈ chunks.map (writeWord charset encoding), IsVisibleWord word := by
      intro word hword
      obtain ⟨chunk, -, rfl⟩ := List.mem_map.1 hword
      exact isVisibleWord_writeWord hwhole encoding chunk
    have hplain : ∀ word ∈ chunks.map (writeWord charset encoding), ∀ c ∈ word, c ≠ ' ' := by
      rintro word hword _ hc rfl
      exact absurd ((hvisible word hword).isSpaceChar.2 ' ' hc) (by decide)
    exact outcome_decodeHeaderValue_of_spacedBy (he'.spacedBy hwords hplain) hvisible
      (forall₂_decodes_writeWord hwhole encoding hchunks)

/-- Text that looks encoded and ends in blanks takes two words, of which the second says a space;
they are told apart also after a line break and a TAB. -/
theorem decodeText_encodeText_blank_second_word :
    ∃ e, encodeText "=?üüüüüüüüü\t ".toList "utf-8".toList (some .q) = .ok e ∧
      e = ("=?UTF-8?Q?=3D=3F=C3=BC=C3=BC=C3=BC=C3=BC=C3=BC=C3=BC=C3=BC=C3=BC=C3=BC=09?= " ++
        "=?UTF-8?Q?_?=").toList ∧
      Reported.outcome (decodeText e) = .ok "=?üüüüüüüüü\t ".toList ∧
      Reported.outcome (decodeHeaderValue (Utf8.encode (Text.replaceChar ' ' "\r\n\t".toList e))) =
        .ok "=?üüüüüüüüü\t ".toList := by
  have hlabel : Charset.resolve "utf-8".toList = .ok .utf8 := rfl
  have he : encodeText "=?üüüüüüüüü\t ".toList "utf-8".toList (some .q) =
      .ok ("=?UTF-8?Q?=3D=3F=C3=BC=C3=BC=C3=BC=C3=BC=C3=BC=C3=BC=C3=BC=C3=BC=C3=BC=09?= " ++
        "=?UTF-8?Q?_?=").toList := by
    decide +kernel
  have hspace : IsFoldingSpace "\r\n\t".toList :=
    ⟨⟨[['\r', '\n'], ['\t']], rfl, by simp⟩, by decide⟩
  have hwords := isEncodedWords_of_needsEncoding hlabel rfl rfl he
  obtain ⟨hdecode, hheader⟩ := decodeText_encodeText hlabel rfl he
  exact ⟨_, he, rfl, hdecode, hheader hwords _ (respaced_replaceChar hspace _)⟩

end InternetMail
