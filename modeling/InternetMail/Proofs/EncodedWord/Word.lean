import InternetMail.EncodedWord.Text
import InternetMail.Proofs.Base64
import InternetMail.Proofs.Charset.Name
import InternetMail.Proofs.QuotedPrintable

/-!
# Encoded words read what they write

An encoded word is written in visible ASCII characters, of which no question mark stands in the
octets it carries (`isCarried_write`). So its end mark is not found too early, and it is read as the
charset and the octets it was written from (`EncodedWord.read_octetsOf`,
`EncodedWord.parse_writeWord`).

Reading a word goes through four delimiters, and what stands between them is written so that none of
these comes up: a label has no question mark and no asterisk, the letter of the encoding is one
letter, and the carried octets have no question mark. A table of all 256 octets decides what each of
them is (`isVisible_of_isCarried`, `isVisible_of_isLabelOctet`), and everything else is about runs
of such octets.
-/

namespace InternetMail

/-! ### What encoded words are made of -/

/-- Whether the octet is a visible ASCII character. -/
def isVisible (b : UInt8) : Bool :=
  0x21 ≤ b && b ≤ 0x7e

/-- Whether the octet may be written in an encoded word for the octets it carries. -/
def isCarried (b : UInt8) : Bool :=
  isVisible b && b != 0x3f

/-- What holds of the symbols and fillings of base64 and of the octets of the `Q` form holds of what
a word carries. -/
theorem forall_mem_write {p : UInt8 → Prop} (hpad : p Base64.pad)
    (hsymbol : ∀ n < 64, p (Base64.symbol n))
    (hword : ∀ b, ∀ b' ∈ QuotedPrintable.encodeWordOctet b, p b') (encoding : WordEncoding)
    (chunk : Octets) : ∀ b ∈ encoding.write chunk, p b := by
  intro b hb
  cases encoding with
  | b =>
    rcases Base64.eq_of_mem_encode chunk b hb with rfl | ⟨n, hn, rfl⟩
    · exact hpad
    · exact hsymbol n hn
  | q =>
    obtain ⟨b', -, hb'⟩ := List.mem_flatMap.1 hb
    exact hword b' b hb'

/-- An octet is written with octets that can be carried. -/
theorem isCarried_encodeWordOctet :
    ∀ b, (QuotedPrintable.encodeWordOctet b).all isCarried = true :=
  Octet.forall_of_digits _ (by decide)

/-- Neither form of octets has white space, a control or a question mark in it. -/
theorem isCarried_write : ∀ (encoding : WordEncoding) (chunk : Octets),
    ∀ b ∈ encoding.write chunk, isCarried b = true :=
  forall_mem_write (by decide) (by decide) fun b ↦
    List.all_eq_true.1 (isCarried_encodeWordOctet b)

/-- What can be carried is visible, no question mark and no space. -/
theorem isVisible_of_isCarried : ∀ b, isCarried b = true →
    isVisible b = true ∧ b ≠ 0x3f ∧ Octet.isControlOrSpace b = false :=
  Octet.forall_of_digits _ (by decide)

/-- What can be in a label is visible, and neither a question mark nor an asterisk. -/
theorem isVisible_of_isLabelOctet : ∀ b, Charset.isLabelOctet b = true →
    isVisible b = true ∧ (b != 0x3f && !Octet.isControlOrSpace b) = true ∧ (b != 0x2a) = true :=
  Octet.forall_of_digits _ (by decide)

/-- A visible ASCII character is its own octet and no white space. -/
theorem toChar_of_isVisible : ∀ b, isVisible b = true → b.toNat < 0x80 ∧
    isWhite (Octet.toChar b) = false ∧ isSpaceChar (Octet.toChar b) = false :=
  Octet.forall_of_digits _ (by decide)

namespace EncodedWord

/-! ### The octets of a word -/

/-- The octet of the letter of an encoding. -/
def letterOctet (encoding : WordEncoding) : UInt8 :=
  Octet.ofAscii encoding.letter

/-- The octets of an encoded word under a charset label. -/
def octetsOf (label : Octets) (encoding : WordEncoding) (chunk : Octets) : Octets :=
  [0x3d, 0x3f] ++ (label ++ ([0x3f, letterOctet encoding, 0x3f] ++
    (encoding.write chunk ++ [0x3f, 0x3d])))

/-- What holds of the marks and the letters of a word, of its label and of what it carries holds of
the whole word. -/
theorem forall_mem_octetsOf {p : UInt8 → Prop} {label : Octets} {encoding : WordEncoding}
    {chunk : Octets} (hmark : ∀ b ∈ [0x3d, 0x3f, 0x42, 0x51], p b) (hlabel : ∀ b ∈ label, p b)
    (hwrite : ∀ b ∈ encoding.write chunk, p b) : ∀ b ∈ octetsOf label encoding chunk, p b := by
  simp only [List.forall_mem_cons, List.not_mem_nil, false_imp_iff, implies_true, and_true] at hmark
  obtain ⟨hequals, hquestion, hb, hq⟩ := hmark
  have hletter : p (letterOctet encoding) := by
    cases encoding with
    | b => exact hb
    | q => exact hq
  simp only [octetsOf, List.forall_mem_append, List.forall_mem_cons, List.not_mem_nil,
    false_imp_iff, implies_true, and_true]
  exact ⟨⟨hequals, hquestion⟩, hlabel, ⟨hquestion, hletter, hquestion⟩, hwrite, hquestion, hequals⟩

/-- A word is visible from end to end. -/
theorem isVisible_octetsOf {label : Octets} (hlabel : ∀ b ∈ label, Charset.isLabelOctet b = true)
    (encoding : WordEncoding) (chunk : Octets) :
    ∀ b ∈ octetsOf label encoding chunk, isVisible b = true :=
  forall_mem_octetsOf (Run.forall_mem_of_all (by decide))
    (fun b hb ↦ (isVisible_of_isLabelOctet b (hlabel b hb)).1)
    fun b hb ↦ (isVisible_of_isCarried b (isCarried_write encoding chunk b hb)).1

/-- A written word is characters of its octets. -/
theorem writeWord_eq {charset : Charset} {label : Octets}
    (hname : charset.name.toList = label.map Octet.toChar) (encoding : WordEncoding)
    (chunk : Octets) :
    writeWord charset encoding chunk = (octetsOf label encoding chunk).map Octet.toChar := by
  have hopen : ['=', '?'] = [0x3d, 0x3f].map Octet.toChar := by decide
  have hletter : ['?', encoding.letter, '?'] =
      [0x3f, letterOctet encoding, 0x3f].map Octet.toChar := by
    cases encoding <;> decide
  have hend : ['?', '='] = [0x3f, 0x3d].map Octet.toChar := by decide
  rw [writeWord, wordOpening, hopen, hname, hletter, hend]
  simp only [octetsOf, List.map_append, List.append_assoc]

/-! ### Reading it -/

/-- What stands before the first end mark, if nothing in it begins one. -/
theorem splitBefore_append {mark : UInt8} {rest text : Octets} (htext : ∀ b ∈ text, b ≠ mark) :
    Reader.splitBefore (mark :: rest) (text ++ mark :: rest) = some (text, mark :: rest) := by
  induction text with
  | nil => simp [Reader.splitBefore]
  | cons b text ih =>
    rw [List.forall_mem_cons] at htext
    have hb : (mark :: rest).isPrefixOf (b :: (text ++ mark :: rest)) = false := by
      rw [List.isPrefixOf_cons_cons, beq_eq_false_iff_ne.2 htext.1.symm, Bool.false_and]
    rw [List.cons_append, Reader.splitBefore, hb, ih htext.2]
    rfl

/-- Octets in Base64 are read from a word as they were. -/
theorem readBase64_encode (chunk : Octets) : readBase64 (Base64.encode chunk) = .ok chunk := by
  rw [readBase64, Base64.readBlocks_encode]

/-- A label ends at the question mark after it. -/
theorem run_label_append {label : Octets} (hne : label ≠ [])
    (hlabel : ∀ b ∈ label, Charset.isLabelOctet b = true) (rest : Octets) :
    Reader.run (fun b ↦ b != 0x3f && !Octet.isControlOrSpace b) .run (label ++ 0x3f :: rest) =
      .ok (label, 0x3f :: rest) := by
  have hall := fun b hb ↦ (isVisible_of_isLabelOctet b (hlabel b hb)).2.1
  have hempty : label.isEmpty = false := by
    rwa [← Bool.not_eq_true, List.isEmpty_iff]
  simp only [Reader.run]
  rw [Run.takeWhile_append_cons _ hall (by decide), Run.dropWhile_append_cons _ hall (by decide),
    hempty]
  rfl

/-- What a word carries ends at the end mark, for no question mark occurs in it. -/
theorem before_write_append (encoding : WordEncoding) (chunk : Octets) :
    Reader.before (.ofAscii "?=") (encoding.write chunk ++ [0x3f, 0x3d]) =
      .ok (encoding.write chunk, [0x3f, 0x3d]) := by
  have hclosing : Octets.ofAscii "?=" = [0x3f, 0x3d] := rfl
  rw [hclosing, Reader.before, splitBefore_append fun b hb ↦
    (isVisible_of_isCarried b (isCarried_write encoding chunk b hb)).2.1]

/-- A word is read as it was written: its label up to the question mark after it, and what it
carries up to the end mark. -/
theorem read_octetsOf {label : Octets} (hne : label ≠ [])
    (hlabel : ∀ b ∈ label, Charset.isLabelOctet b = true) (encoding : WordEncoding)
    (chunk : Octets) :
    read (octetsOf label encoding chunk) = .ok (⟨label, encoding, chunk⟩, []) := by
  have hopening : Octets.ofAscii "=?" = [0x3d, 0x3f] := rfl
  have hclosing : Octets.ofAscii "?=" = [0x3f, 0x3d] := rfl
  have hopen : Reader.literal (.ofAscii "=?") (octetsOf label encoding chunk) =
      .ok ((), label ++ ([0x3f, letterOctet encoding, 0x3f] ++
        (encoding.write chunk ++ [0x3f, 0x3d]))) := by
    rw [hopening]
    rfl
  have hletter : readEncoding ([0x3f, letterOctet encoding, 0x3f] ++
      (encoding.write chunk ++ [0x3f, 0x3d])) = .ok (encoding, encoding.write chunk ++
        [0x3f, 0x3d]) := by
    cases encoding <;> rfl
  have hend : Reader.literal (.ofAscii "?=") [0x3f, 0x3d] = .ok ((), []) := by
    rw [hclosing]
    rfl
  have hunbroken : (encoding.write chunk).any Octet.isControlOrSpace = false :=
    List.any_eq_false.2 fun b hb ↦ by
      simp [(isVisible_of_isCarried b (isCarried_write encoding chunk b hb)).2.2]
  -- no star ends the label before a language
  have hstar : label.takeWhile (· != 0x2a) = label :=
    List.takeWhile_eq_self_iff.2 fun b hb ↦ (isVisible_of_isLabelOctet b (hlabel b hb)).2.2
  refine bind_eq_ok_iff.2 ⟨_, hopen, bind_eq_ok_iff.2 ⟨_, run_label_append hne hlabel _,
    bind_eq_ok_iff.2 ⟨_, hletter, bind_eq_ok_iff.2 ⟨_, before_write_append encoding chunk,
      bind_eq_ok_iff.2 ⟨_, hend, ?_⟩⟩⟩⟩⟩
  simp only [hunbroken, Bool.false_eq_true, if_false, hstar]
  cases encoding with
  | b => exact bind_eq_ok_iff.2 ⟨chunk, readBase64_encode chunk, rfl⟩
  | q =>
    have hdecode : (pure (QuotedPrintable.decodeWord (QuotedPrintable.encodeWord chunk)) :
        Except Mismatch Octets) = .ok chunk := by
      rw [QuotedPrintable.decodeWord_encodeWord]
      rfl
    exact bind_eq_ok_iff.2 ⟨chunk, hdecode, rfl⟩

/-- A written word is read as a whole. -/
theorem exists_read_writeWord {charset : Charset} (hwhole : charset.isWhole = true)
    (encoding : WordEncoding) (chunk : Octets) :
    ∃ w, read (Utf8.encode (writeWord charset encoding chunk)) = .ok (w, []) := by
  obtain ⟨label, hname, hne, hlabel, -⟩ := Charset.exists_name hwhole
  have hvisible := isVisible_octetsOf hlabel encoding chunk
  rw [writeWord_eq hname,
    Utf8.encode_map_toChar fun b hb ↦ (toChar_of_isVisible b (hvisible b hb)).1]
  exact ⟨_, read_octetsOf hne hlabel encoding chunk⟩

/-- A written word says its charset and the octets it was written from. -/
theorem parse_writeWord {charset : Charset} (hwhole : charset.isWhole = true)
    (encoding : WordEncoding) (chunk : Octets) :
    parse (writeWord charset encoding chunk) = .ok (charset, chunk) := by
  obtain ⟨label, hname, hne, hlabel, hresolve⟩ := Charset.exists_name hwhole
  have hvisible := isVisible_octetsOf hlabel encoding chunk
  have htrim : Text.trim (writeWord charset encoding chunk) =
      (octetsOf label encoding chunk).map Octet.toChar := by
    rw [writeWord_eq hname]
    refine Run.strip_eq_self fun c hc ↦ ?_
    obtain ⟨b, hb, rfl⟩ := List.mem_map.1 hc
    exact (toChar_of_isVisible b (hvisible b hb)).2.1
  have hencode : ∀ {bs : Octets}, (∀ b ∈ bs, isVisible b = true) →
      Utf8.encode (bs.map Octet.toChar) = bs := fun hbs ↦
    Utf8.encode_map_toChar fun b hb ↦ (toChar_of_isVisible b (hbs b hb)).1
  have hread : Utf8.decodeLossy label = label.map Octet.toChar := by
    have hlabel' := hencode fun b hb ↦ (isVisible_of_isLabelOctet b (hlabel b hb)).1
    rw [← hlabel', Utf8.decodeLossy_encode, hlabel']
  rw [parse, htrim, hencode hvisible, read_octetsOf hne hlabel]
  simp only [List.isEmpty_nil, Bool.not_true, Bool.false_eq_true, if_false, hread, hresolve,
    Except.map]

/-- What a word says is the text of its octets in its charset; it cannot fail after it was parsed.
-/
theorem outcome_decode [MultiByte.Codec] (word : Text) :
    Reported.outcome (decode word) = (parse word).map fun w ↦ w.1.text w.2 := by
  rw [decode, Reported.outcome_bind, Reported.outcome_liftExcept]
  cases parse word with
  | error e => rfl
  | ok w => exact congrArg Except.ok (Charset.value_decode w.1 w.2)

/-- A word that was written says the text of its chunk. -/
theorem outcome_decode_writeWord [MultiByte.Codec] {charset : Charset}
    (hwhole : charset.isWhole = true) (encoding : WordEncoding) (chunk : Octets) :
    Reported.outcome (decode (writeWord charset encoding chunk)) = .ok (charset.text chunk) := by
  rw [outcome_decode, parse_writeWord hwhole]
  rfl

end EncodedWord

/-- What is said by a word that is decoded. -/
theorem outcome_decodeSpacedWord [MultiByte.Codec] (word : Text) : Reported.outcome
    (decodeSpacedWord word) =
    if looksEncoded word then
      match Reported.outcome (EncodedWord.decode word) with
      | .ok s => .ok (some s)
      | .error e => if e.kind = .unsupportedEncoding then .error e else .ok none
    else .ok none := by
  rw [decodeSpacedWord]
  split
  · rw [Reported.outcome_tryCatch, Reported.outcome_map]
    cases Reported.outcome (EncodedWord.decode word) with
    | ok s => rfl
    | error e =>
      by_cases hkind : e.kind = .unsupportedEncoding
      · simp only [Except.map, if_pos hkind]
        rfl
      · simp only [Except.map, if_neg hkind]
        rfl
  · rfl

/-- A written word is taken for an encoded word and decoded as one. -/
theorem outcome_decodeSpacedWord_writeWord [MultiByte.Codec] {charset : Charset}
    (hwhole : charset.isWhole = true) (encoding : WordEncoding) (chunk : Octets) :
    Reported.outcome (decodeSpacedWord (writeWord charset encoding chunk)) =
      .ok (some (charset.text chunk)) := by
  have hlooks : looksEncoded (writeWord charset encoding chunk) = true := by
    have hsuffix : ['?', '='].isSuffixOf (writeWord charset encoding chunk) = true :=
      List.isSuffixOf_iff_suffix.2 (List.suffix_append _ _)
    rw [looksEncoded, hsuffix]
    rfl
  rw [outcome_decodeSpacedWord, if_pos hlooks, EncodedWord.outcome_decode_writeWord hwhole]

/-- A word of visible ASCII characters. -/
def IsVisibleWord (word : Text) : Prop :=
  ∃ bs : Octets, bs ≠ [] ∧ (∀ b ∈ bs, isVisible b = true) ∧ word = bs.map Octet.toChar

/-- A word that was written has no blank in it and can stand among others. -/
theorem isVisibleWord_writeWord {charset : Charset} (hwhole : charset.isWhole = true)
    (encoding : WordEncoding) (chunk : Octets) :
    IsVisibleWord (writeWord charset encoding chunk) := by
  obtain ⟨label, hname, -, hlabel, -⟩ := Charset.exists_name hwhole
  exact ⟨EncodedWord.octetsOf label encoding chunk, List.cons_ne_nil _ _,
    EncodedWord.isVisible_octetsOf hlabel encoding chunk, EncodedWord.writeWord_eq hname _ _⟩

/-- A word of visible characters is written as visible octets. -/
theorem IsVisibleWord.encode {word : Text} (h : IsVisibleWord word) :
    Utf8.encode word ≠ [] ∧ ∀ b ∈ Utf8.encode word, isVisible b = true := by
  obtain ⟨bs, hne, hbs, rfl⟩ := h
  rw [Utf8.encode_map_toChar fun b hb ↦ (toChar_of_isVisible b (hbs b hb)).1]
  exact ⟨hne, hbs⟩

/-- White space does not occur in such a word. -/
theorem IsVisibleWord.isSpaceChar {word : Text} (h : IsVisibleWord word) :
    word ≠ [] ∧ ∀ c ∈ word, isSpaceChar c = false := by
  obtain ⟨bs, hne, hbs, rfl⟩ := h
  refine ⟨by simpa using hne, fun c hc ↦ ?_⟩
  obtain ⟨b, hb, rfl⟩ := List.mem_map.1 hc
  exact (toChar_of_isVisible b (hbs b hb)).2.2

end InternetMail
