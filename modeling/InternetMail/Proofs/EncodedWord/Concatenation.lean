import InternetMail.Proofs.EncodedWord.RoundTrip

/-!
# Texts that are joined decode apart

Where white space stands between two texts, the words of the whole are those of the one and then
those of the other (`spacedWords_append_gap`). Decoding goes from word to word and keeps in mind
only whether an encoded word stands before (`outcome_decodeWords_append`), so that the texts can be
decoded one after the other: the white space between them is kept, unless there is an encoded word
on either side of it (`outcome_decodeText_append_gap`).

A text in which no word can be read as an encoded word is kept as it is, if no word would have to be
read in a charset that is not known. Only such a word makes decoding fail.

Whether a word is read as an encoded word depends on the word alone, and whether the white space in
front of it is kept depends on the word before it as well. So the induction is over the words with
one bit of context, and at the place where the two texts meet that bit is what the first of them
ends with (`endsEncoded_eq`).
-/

namespace InternetMail

open Reported (outcome)

/-! ### The words of a text -/

/-- The words of a text: its stretches between white space, less those that are empty. -/
def Text.words (t : Text) : List Text :=
  (Run.stretches isSpaceChar t).filter (!·.isEmpty)

namespace Text

theorem words_append_of_forall {space : Text} (h : ∀ c ∈ space, isSpaceChar c = true) (t : Text) :
    words (space ++ t) = words t := by
  induction space with
  | nil => rfl
  | cons c space ih =>
    rw [List.forall_mem_cons] at h
    rw [← ih h.2, words, List.cons_append, Run.stretches, if_pos h.1]
    rfl

/-- White space ends a word. -/
theorem words_append_of_isWord {word : Text} (hword : IsWord word) {rest : Text}
    (hrest : ∀ c ∈ rest.head?, isSpaceChar c = true) :
    words (word ++ rest) = word :: words rest := by
  obtain ⟨hne, hword⟩ := hword
  have hkeep : ∀ ts : List Text,
      (word :: ts).filter (!·.isEmpty) = word :: ts.filter (!·.isEmpty) :=
    fun ts ↦ List.filter_cons_of_pos (by simpa using hne)
  cases rest with
  | nil =>
    rw [words, List.append_nil, Run.stretches_of_forall hword, hkeep]
    rfl
  | cons c rest =>
    have hc : isSpaceChar c = true := hrest c rfl
    have hwords : words (c :: rest) = words rest :=
      words_append_of_forall (List.forall_mem_singleton.2 hc) rest
    rw [words, Run.stretches_append_cons hword hc, hkeep, hwords]
    rfl

/-- A text is white space, or a word after white space and what goes on with white space. -/
theorem words_induction {motive : Text → Prop}
    (blank : ∀ t : Text, (∀ c ∈ t, isSpaceChar c = true) → motive t)
    (word : ∀ space word rest : Text, (∀ c ∈ space, isSpaceChar c = true) → IsWord word →
      (∀ c ∈ rest.head?, isSpaceChar c = true) → motive rest → motive (space ++ (word ++ rest)))
    (t : Text) : motive t := by
  induction t using spacedWords.induct with
  | case1 t h => exact blank t ((Run.dropWhile_eq_nil_iff _ _).1 h)
  | case2 t c rest h _ _ _ _ ih =>
    obtain ⟨ht, hspace, hc⟩ := Run.dropWhile_eq_cons_iff.1 ⟨h, rfl⟩
    have hinside : ∀ d ∈ (c :: rest).takeWhile (!isSpaceChar ·), isSpaceChar d = false :=
      fun d hd ↦ by simpa using List.mem_takeWhile_imp hd
    have hends : ∀ d ∈ ((c :: rest).dropWhile (!isSpaceChar ·)).head?, isSpaceChar d = true := by
      intro d hd
      have := List.head?_dropWhile_not (!isSpaceChar ·) (c :: rest)
      rw [Option.mem_def.1 hd] at this
      simpa using this
    have hword : IsWord ((c :: rest).takeWhile (!isSpaceChar ·)) :=
      ⟨by rw [List.takeWhile_cons_of_pos (by simp [hc])]; exact List.cons_ne_nil _ _, hinside⟩
    rw [ht, ← List.takeWhile_append_dropWhile (p := (!isSpaceChar ·)) (l := c :: rest)]
    exact word _ _ _ hspace hword hends ih

end Text

/-- The words that are taken one after another are the words of the text. -/
theorem map_word_spacedWords (t : Text) : (spacedWords t).1.map SpacedWord.word = t.words := by
  induction t using Text.words_induction with
  | blank t h =>
    have hnone := Text.words_append_of_forall h []
    rw [List.append_nil] at hnone
    rw [spacedWords_of_eq_nil ((Run.dropWhile_eq_nil_iff _ _).2 h), hnone]
    rfl
  | word space word rest hspace hword hrest ih =>
    rw [spacedWords_append hspace hword rest hrest, Text.words_append_of_forall hspace,
      Text.words_append_of_isWord hword hrest, List.map_cons, ih]

/-- After a text that ends with a word, white space begins another. -/
theorem spacedWords_append_gap {a rest : Text} (ha : ∀ c ∈ a.getLast?, isSpaceChar c = false)
    (hrest : ∀ c ∈ rest.head?, isSpaceChar c = true) :
    spacedWords (a ++ rest) =
      ((spacedWords a).1 ++ (spacedWords rest).1, (spacedWords rest).2) := by
  induction a using Text.words_induction with
  | blank a h =>
    -- a text of white space that does not end with any is empty
    obtain rfl : a = [] := by
      rw [← List.getLast?_eq_none_iff, Option.eq_none_iff_forall_not_mem]
      intro c hc
      simpa [h c (List.mem_of_getLast? hc)] using ha c hc
    rw [spacedWords_of_eq_nil List.dropWhile_nil]
    rfl
  | word space word tail hspace hword htail ih =>
    have hlast : ∀ c ∈ tail.getLast?, isSpaceChar c = false := by
      intro c hc
      refine ha c ?_
      rw [Option.mem_def, List.getLast?_append, List.getLast?_append, Option.mem_def.1 hc]
      rfl
    have hhead : ∀ c ∈ (tail ++ rest).head?, isSpaceChar c = true := by
      cases tail with
      | nil => exact hrest
      | cons d tail => exact htail
    rw [List.append_assoc, List.append_assoc, spacedWords_append hspace hword _ hhead,
      spacedWords_append hspace hword _ htail, ih hlast]
    rfl

/-- White space before a text that begins with a word stands with that word. -/
theorem exists_spacedWords_gap_append {b : Text} (hb : ∀ c ∈ b.head?, isSpaceChar c = false)
    (hne : b ≠ []) : ∃ word ws after, ∀ space : Text, (∀ c ∈ space, isSpaceChar c = true) →
      spacedWords (space ++ b) = (⟨space, word⟩ :: ws, after) := by
  obtain ⟨c, cs, rfl⟩ := List.exists_cons_of_ne_nil hne
  have hc : isSpaceChar c = false := hb c rfl
  refine ⟨(c :: cs).takeWhile (!isSpaceChar ·),
    (spacedWords ((c :: cs).dropWhile (!isSpaceChar ·))).1,
    (spacedWords ((c :: cs).dropWhile (!isSpaceChar ·))).2, fun space hspace ↦ ?_⟩
  rw [spacedWords_of_eq_cons (Run.dropWhile_append_cons cs hspace hc),
    Run.takeWhile_append_cons cs hspace hc]

/-! ### Words one by one -/

/-- Whether the word begins and ends like an encoded word and can be read as one. -/
def isDecodable [MultiByte.Codec] (word : Text) : Bool :=
  looksEncoded word && (outcome (EncodedWord.decode word)).isOk

/-- The word begins and ends like an encoded word, and is one in a charset that is not known. -/
def NamesUnknownCharset (word : Text) : Prop :=
  looksEncoded word = true ∧ ∃ w : EncodedWord,
    EncodedWord.read (Utf8.encode (Text.trim word)) = .ok (w, []) ∧
      ∀ charset, Charset.resolve (Utf8.decodeLossy w.label) ≠ .ok charset

theorem Charset.kind_of_resolve {label : Text} {e : Error} (h : Charset.resolve label = .error e) :
    e.kind = .unsupportedEncoding := by
  rw [Charset.resolve] at h
  split at h
  · cases h
  · cases h
    rfl

namespace EncodedWord

/-- What is no encoded word fails otherwise than one whose charset is not known. -/
theorem unsupported_iff [MultiByte.Codec] {word : Text} :
    (∃ e, outcome (decode word) = .error e ∧ e.kind = .unsupportedEncoding) ↔
      ∃ w : EncodedWord, read (Utf8.encode (Text.trim word)) = .ok (w, []) ∧
        ∀ charset, Charset.resolve (Utf8.decodeLossy w.label) ≠ .ok charset := by
  rw [outcome_decode, parse]
  cases hread : read (Utf8.encode (Text.trim word)) with
  | error m =>
    have hkind : (Error.malformedWord word m).kind = .parse := rfl
    simp [Except.map, hkind]
  | ok found =>
    obtain ⟨w, rest⟩ := found
    cases rest with
    | cons b rest =>
      have hkind : (Error.trailingAfterWord word).kind = .parse := rfl
      simp [Except.map, hkind]
    | nil =>
      cases hresolve : Charset.resolve (Utf8.decodeLossy w.label) with
      | ok charset => simp [Except.map, hresolve]
      | error e => simp [Except.map, hresolve, Charset.kind_of_resolve hresolve]

end EncodedWord

/-- A word that is kept is not decodable, and one that says something else is. -/
theorem isDecodable_of_outcome [MultiByte.Codec] {word : Text} {said : Option Text}
    (h : outcome (decodeSpacedWord word) = .ok said) : isDecodable word = said.isSome := by
  rw [outcome_decodeSpacedWord] at h
  rw [isDecodable]
  split at h
  · rename_i hlooks
    split at h
    · rename_i hdecode
      cases h
      rw [hlooks, hdecode]
      rfl
    · rename_i e hdecode
      split at h
      · cases h
      · cases h
        rw [hdecode, Bool.and_comm]
        rfl
  · rename_i hlooks
    cases h
    rw [Bool.not_eq_true] at hlooks
    rw [hlooks]
    rfl

theorem exists_outcome_decodeSpacedWord_eq_error_iff [MultiByte.Codec] {word : Text} :
    (∃ e, outcome (decodeSpacedWord word) = .error e) ↔ NamesUnknownCharset word := by
  rw [outcome_decodeSpacedWord, NamesUnknownCharset, ← EncodedWord.unsupported_iff]
  split
  · rename_i hlooks
    cases outcome (EncodedWord.decode word) with
    | ok s => simp
    | error e => by_cases hkind : e.kind = .unsupportedEncoding <;> simp [hkind, hlooks]
  · rename_i hlooks
    simp [hlooks]

/-- The words that are kept are those that are neither decodable nor in an unknown charset. -/
theorem outcome_decodeSpacedWord_eq_none_iff [MultiByte.Codec] {word : Text} :
    outcome (decodeSpacedWord word) = .ok none ↔
      isDecodable word = false ∧ ¬NamesUnknownCharset word := by
  rw [← exists_outcome_decodeSpacedWord_eq_error_iff]
  cases hword : outcome (decodeSpacedWord word) with
  | error e => simp
  | ok said =>
    rw [isDecodable_of_outcome hword]
    simp

/-! ### Texts one after another -/

/-- Whether an encoded word stands at the end of some words, `afterEncoded` telling whether one
stands before them. -/
def endsEncoded [MultiByte.Codec] (afterEncoded : Bool) : List SpacedWord → Bool
  | [] => afterEncoded
  | w :: ws => endsEncoded (isDecodable w.word) ws

/-- Words are decoded after those before them. -/
theorem outcome_decodeWords_append [MultiByte.Codec] (afterEncoded : Bool)
    (ws vs : List SpacedWord) :
    outcome (decodeWords afterEncoded (ws ++ vs)) = do
      let s ← outcome (decodeWords afterEncoded ws)
      let t ← outcome (decodeWords (endsEncoded afterEncoded ws) vs)
      return s ++ t := by
  induction ws generalizing afterEncoded with
  | nil =>
    rw [List.nil_append]
    show _ = outcome (decodeWords afterEncoded vs) >>= fun t ↦ .ok ([] ++ t)
    cases outcome (decodeWords afterEncoded vs) <;> rfl
  | cons w ws ih =>
    rw [List.cons_append, outcome_decodeWords_step, outcome_decodeWords_step]
    cases hw : outcome (decodeSpacedWord w.word) with
    | error e => rfl
    | ok said =>
      rw [ok_bind, ok_bind, ih, endsEncoded, isDecodable_of_outcome hw]
      cases outcome (decodeWords said.isSome ws) with
      | error e => rfl
      | ok s =>
        cases outcome (decodeWords (endsEncoded said.isSome ws) vs) with
        | error e => rfl
        | ok t => exact congrArg Except.ok (List.append_assoc ..).symm

/-- The white space before the first word is dropped only between two encoded words. -/
theorem outcome_decodeWords_gap [MultiByte.Codec] (afterEncoded : Bool) (space word : Text)
    (ws : List SpacedWord) :
    outcome (decodeWords afterEncoded (⟨space, word⟩ :: ws)) = do
      let t ← outcome (decodeWords false (⟨[], word⟩ :: ws))
      return (if afterEncoded && isDecodable word then [] else space) ++ t := by
  rw [outcome_decodeWords_step, outcome_decodeWords_step]
  cases hword : outcome (decodeSpacedWord word) with
  | error e => rfl
  | ok said =>
    rw [ok_bind, ok_bind, isDecodable_of_outcome hword]
    cases outcome (decodeWords said.isSome ws) with
    | error e => rfl
    | ok rest =>
      refine congrArg Except.ok ?_
      cases said <;> simp [SpacedWord.shown]

/-- Only the last of some words matters to what stands after them. -/
theorem endsEncoded_eq [MultiByte.Codec] (afterEncoded : Bool) (ws : List SpacedWord) :
    endsEncoded afterEncoded ws =
    (((ws.map SpacedWord.word).getLast?).map isDecodable).getD afterEncoded := by
  induction ws generalizing afterEncoded with
  | nil => rfl
  | cons w ws ih =>
    rw [endsEncoded, ih, List.map_cons, List.getLast?_cons]
    cases (ws.map SpacedWord.word).getLast? <;> rfl

/-- White space between a text that ends with a word and one that begins with one is kept, unless
these are two encoded words. -/
theorem outcome_decodeText_append_gap [MultiByte.Codec] {a space b : Text}
    (ha : ∀ c ∈ a.getLast?, isSpaceChar c = false) (hspace : IsGap space) (hne : b ≠ [])
    (hb : ∀ c ∈ b.head?, isSpaceChar c = false) :
    outcome (decodeText (a ++ space ++ b)) = do
      let s ← outcome (decodeText a)
      let t ← outcome (decodeText b)
      return s ++ (if a.words.getLast?.any isDecodable && b.words.head?.any isDecodable then []
        else space) ++ t := by
  -- the words of the whole are those of both, and the white space belongs to the second
  have hstart : ∀ c ∈ (space ++ b).head?, isSpaceChar c = true := by
    obtain ⟨d, ds, rfl⟩ := List.exists_cons_of_ne_nil hspace.1
    rintro _ ⟨⟩
    exact hspace.2 d List.mem_cons_self
  have hwhole := spacedWords_append_gap ha hstart
  have hafter : (spacedWords a).2 = [] := by
    have hend := @spacedWords_append_gap a [] ha (by simp)
    rw [List.append_nil, spacedWords_of_eq_nil List.dropWhile_nil] at hend
    rw [hend]
  obtain ⟨word, ws, after, hwords⟩ := exists_spacedWords_gap_append hb hne
  have hbwords : spacedWords b = (⟨[], word⟩ :: ws, after) := hwords [] (by simp)
  have hfirst : b.words.head? = some word := by
    rw [← map_word_spacedWords, hbwords]
    rfl
  -- what decoding keeps in mind at the seam
  have hlast : endsEncoded false (spacedWords a).1 = a.words.getLast?.any isDecodable := by
    rw [endsEncoded_eq, map_word_spacedWords]
    cases a.words.getLast? <;> rfl
  rw [List.append_assoc, outcome_decodeText, outcome_decodeText, outcome_decodeText, hwhole,
    hwords space hspace.2, hbwords, hafter, outcome_decodeWords_append, outcome_decodeWords_gap,
    hlast, hfirst]
  cases outcome (decodeWords false (spacedWords a).1) with
  | error e => rfl
  | ok s =>
    cases outcome (decodeWords false (⟨[], word⟩ :: ws)) with
    | error e => rfl
    | ok t =>
      refine congrArg Except.ok ?_
      simp only [List.append_nil, List.append_assoc]
      rfl

/-! ### Words that are kept -/

theorem exists_outcome_decodeWords_eq_error_iff [MultiByte.Codec] (afterEncoded : Bool)
    (ws : List SpacedWord) : (∃ e, outcome (decodeWords afterEncoded ws) = .error e) ↔
      ∃ word ∈ ws.map SpacedWord.word, NamesUnknownCharset word := by
  induction ws generalizing afterEncoded with
  | nil => simp [decodeWords]
  | cons w ws ih =>
    rw [outcome_decodeWords_step, List.map_cons, List.exists_mem_cons_iff,
      ← exists_outcome_decodeSpacedWord_eq_error_iff]
    cases outcome (decodeSpacedWord w.word) with
    | error e => exact iff_of_true ⟨e, rfl⟩ (Or.inl ⟨e, rfl⟩)
    | ok said =>
      rw [← ih said.isSome, ok_bind]
      cases outcome (decodeWords said.isSome ws) <;> simp [bind, Except.bind, pure, Except.pure]

/-- A text is decoded unless one of its words is in a charset that is not known. -/
theorem exists_outcome_decodeText_eq_error_iff [MultiByte.Codec] {t : Text} :
    (∃ e, outcome (decodeText t) = .error e) ↔ ∃ word ∈ t.words, NamesUnknownCharset word := by
  rw [← map_word_spacedWords, ← exists_outcome_decodeWords_eq_error_iff false, outcome_decodeText]
  cases outcome (decodeWords false (spacedWords t).1) <;>
    simp [bind, Except.bind, pure, Except.pure]

theorem outcome_decodeText_of_words [MultiByte.Codec] {t : Text}
    (h : ∀ word ∈ t.words, isDecodable word = false ∧ ¬NamesUnknownCharset word) :
    outcome (decodeText t) = .ok t := by
  refine outcome_decodeText_of_none fun w hw ↦ ?_
  have hmem : w.word ∈ t.words := by
    rw [← map_word_spacedWords]
    exact List.mem_map_of_mem hw
  exact outcome_decodeSpacedWord_eq_none_iff.2 (h w.word hmem)

/-- **Decoding goes on at white space.** Where a text that ends with a word and one that begins with
one stand with white space between them, the one is decoded and then the other, and what they say is
joined. The white space stands between, unless it is between two encoded words. Decoding fails on a
word whose charset is not known and on nothing else, and a text is kept if no word is decodable. -/
theorem decodeText_append_gap [MultiByte.Codec] {a space b : Text}
    (ha : ∀ c ∈ a.getLast?, isSpaceChar c = false)
    (hspace : IsGap space) (hne : b ≠ []) (hb : ∀ c ∈ b.head?, isSpaceChar c = false) :
    (outcome (decodeText (a ++ space ++ b)) = do
      let s ← outcome (decodeText a)
      let t ← outcome (decodeText b)
      return s ++ (if a.words.getLast?.any isDecodable && b.words.head?.any isDecodable then []
        else space) ++ t) ∧
      ∀ t : Text,
        ((∃ e, outcome (decodeText t) = .error e) ↔ ∃ word ∈ t.words, NamesUnknownCharset word) ∧
        ((∀ word ∈ t.words, isDecodable word = false ∧ ¬NamesUnknownCharset word) →
          outcome (decodeText t) = .ok t) :=
  ⟨outcome_decodeText_append_gap ha hspace hne hb, fun _ ↦
    ⟨exists_outcome_decodeText_eq_error_iff, outcome_decodeText_of_words⟩⟩

/-- The folding between two encoded words is dropped, and a word in an encoding that does not exist
is kept. -/
theorem decodeText_append_gap_folded :
    outcome (decodeText (" =?utf-8?q?a?=".toList ++ "\r\n\t".toList ++
        "=?UTF-8?B?Yg==?= c".toList)) = .ok " ab c".toList ∧
      outcome (decodeText "=?utf-8?x?a?= b".toList) = .ok "=?utf-8?x?a?= b".toList := by
  have hlast : ∀ c ∈ " =?utf-8?q?a?=".toList.getLast?, isSpaceChar c = false := by
    rintro _ ⟨⟩
    decide
  have hspace : IsGap "\r\n\t".toList := ⟨by decide, Run.forall_mem_of_all (by decide)⟩
  have hhead : ∀ c ∈ "=?UTF-8?B?Yg==?= c".toList.head?, isSpaceChar c = false := by
    rintro _ ⟨⟩
    decide
  obtain ⟨hjoined, hall⟩ := decodeText_append_gap hlast hspace (by decide) hhead
  have hfirst : outcome (decodeText " =?utf-8?q?a?=".toList) = .ok " a".toList := by
    decide +kernel
  have hsecond : outcome (decodeText "=?UTF-8?B?Yg==?= c".toList) = .ok "b c".toList := by
    decide +kernel
  have hgap : (Text.words " =?utf-8?q?a?=".toList).getLast?.any isDecodable &&
      (Text.words "=?UTF-8?B?Yg==?= c".toList).head?.any isDecodable := by
    decide +kernel
  have hwords : ∀ word ∈ Text.words "=?utf-8?x?a?= b".toList,
      isDecodable word = false ∧ ¬NamesUnknownCharset word := by
    simp only [← outcome_decodeSpacedWord_eq_none_iff]
    decide +kernel
  rw [hjoined, hfirst, hsecond, if_pos hgap]
  exact ⟨rfl, (hall _).2 hwords⟩

end InternetMail
