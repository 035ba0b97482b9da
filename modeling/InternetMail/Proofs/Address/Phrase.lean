import InternetMail.Address.Format
import InternetMail.Proofs.Address.Printable
import InternetMail.Proofs.EncodedWord.RoundTrip

/-!
# Display names as phrases

A display name of printable characters and TABs is written as a phrase
(`exists_phrase_quotePhrase`). In quotes it says the same name again. Without quotes it is atoms
with single blanks between them, which is what `hasLooseWhite` is about, and each of these blanks is
read as a space: so a name with a TAB between two words is not said again
(`rereadName_eq_self_iff`).

The choice between the two is made on the text of the name, and the tokens are what the strict
reading finds of it then. So each branch has its tokens (`Token.ofQuoted`, `Token.ofAtom`), which
are spelled as they have to be, and a name without loose blanks is cut at its single ones
(`joined_stretches`). A single TAB is where the two directions part: it is a blank to the reader,
and is not loose.
-/

namespace InternetMail

/-! ### The characters of names -/

theorem Printable.isWritten {c : Char} (h : Printable c) : IsWritten c :=
  Or.inl h

/-- No strictness refuses a character of such a name. -/
theorem IsWritten.refuses_eq_false {c : Char} (h : IsWritten c) (s : Strictness) :
    s.refuses c = false := by
  rcases h with h | rfl
  · exact Printable.refuses_eq_false h s
  · simp [Strictness.refuses]

/-- None is a line break. -/
theorem IsWritten.isLineBreak_eq_false {c : Char} (h : IsWritten c) : isLineBreak c = false := by
  rcases h with h | rfl
  · exact Printable.isLineBreak_eq_false h
  · rfl

/-- The blanks of a name are spaces and TABs. -/
theorem IsWritten.isBlankChar_iff {c : Char} (h : IsWritten c) :
    isBlankChar c = true ↔ c = ' ' ∨ c = '\t' := by
  have hbreak := h.isLineBreak_eq_false
  simp only [isLineBreak, Bool.or_eq_false_iff] at hbreak
  simp [isBlankChar, hbreak]

/-! ### Tokens that are written -/

/-- A special character as it is written, with blanks after it. -/
def Token.ofSpecial (c : Char) (gap : Text) : Token :=
  ⟨.special c, [c], [c], 0, gap, true⟩

/-- An atom as it is written, with blanks after it. -/
def Token.ofAtom (word gap : Text) : Token :=
  ⟨.atom, word, word, 0, gap, true⟩

/-- A quoted string as it is written, with blanks after it. -/
def Token.ofQuoted (value gap : Text) : Token :=
  ⟨.quotedString, value, inQuotes value, 0, gap, true⟩

/-- A special character is read from itself. -/
theorem spelled_ofSpecial {c : Char} (hfirst : TokenKind.ofFirst c = .special c)
    (hblank : isBlankChar c = false) (gap : Text) : (Token.ofSpecial c gap).Spelled :=
  ⟨c, [], rfl, hblank, hfirst, fun position rest _ ↦ by simp [tokenBody, hfirst, Token.ofSpecial]⟩

/-- Characters that are neither blank nor special are an atom, up to something that is. -/
theorem atomBody_of_forall (position : Nat) {word rest : Text}
    (hblank : ∀ c ∈ word, isBlankChar c = false) (hspecial : ∀ c ∈ word, isSpecial c = false)
    (hwritten : ∀ c ∈ word, IsWritten c) (hrest : EndsAtom rest) :
    atomBody .strict position (word ++ rest) = .ok ⟨word, word, rest, true⟩ := by
  induction word generalizing position with
  | nil =>
    cases rest with
    | nil => rfl
    | cons c rest =>
      have hc := hrest c rfl
      rw [List.nil_append, atomBody, if_pos hc]
  | cons c word ih =>
    rw [List.forall_mem_cons] at hblank hspecial hwritten
    have := ih (position + c.utf8Size) hblank.2 hspecial.2 hwritten.2
    simp [atomBody, hblank.1, hspecial.1, hwritten.1.refuses_eq_false, this, TokenBody.after,
      Except.map]

/-- Such a word is read as an atom. -/
theorem spelled_ofAtom {word : Text} (hword : word ≠ [])
    (hblank : ∀ c ∈ word, isBlankChar c = false) (hspecial : ∀ c ∈ word, isSpecial c = false)
    (hwritten : ∀ c ∈ word, IsWritten c) (gap : Text) : (Token.ofAtom word gap).Spelled := by
  obtain ⟨c, word, rfl⟩ := List.exists_cons_of_ne_nil hword
  rw [List.forall_mem_cons] at hblank hspecial hwritten
  have hfirst := ofFirst_eq_atom_iff.2 hspecial.1
  refine ⟨c, word, rfl, hblank.1, hfirst, fun position rest hrest ↦ ?_⟩
  simp [tokenBody, hfirst, hwritten.1.refuses_eq_false, Token.ofAtom, TokenBody.after, Except.map,
    atomBody_of_forall _ hblank.2 hspecial.2 hwritten.2 (hrest rfl)]

/-- The text with its quotes and backslashes escaped. -/
def escaped (t : Text) : Text :=
  t.flatMap fun c ↦ if c == '"' || c == '\\' then ['\\', c] else [c]

/-- What stands between quotes says the value again, but for its line breaks. -/
theorem quotedBody_escaped {s : Strictness} (position : Nat) {value : Text}
    (h : ∀ c ∈ value, s.refuses c = false) (rest : Text) :
    quotedBody s position (escaped value ++ '"' :: rest) =
      .ok ⟨value.filter (!isLineBreak ·), escaped value ++ ['"'], rest, true⟩ := by
  induction value generalizing position with
  | nil => rw [escaped, List.flatMap_nil, List.nil_append, quotedBody.eq_def]; rfl
  | cons c value ih =>
    rw [List.forall_mem_cons] at h
    by_cases hc : (c == '"' || c == '\\') = true
    · have hcons : escaped (c :: value) = '\\' :: c :: escaped value := by
        rw [escaped, List.flatMap_cons, if_pos hc]
        rfl
      have hkept : isLineBreak c = false := by
        simp only [Bool.or_eq_true, beq_iff_eq] at hc
        rcases hc with rfl | rfl <;> rfl
      rw [hcons, List.cons_append, List.cons_append, quotedBody.eq_def]
      simp [ih _ h.2, hkept, TokenBody.after, Except.map]
    · have hcons : escaped (c :: value) = c :: escaped value := by
        rw [escaped, List.flatMap_cons, if_neg hc]
        rfl
      rw [Bool.not_eq_true, Bool.or_eq_false_iff] at hc
      rw [hcons, List.cons_append, quotedBody.eq_def]
      cases hbreak : isLineBreak c <;>
        simp [hc, hbreak, h.1, ih _ h.2, TokenBody.after, Except.map]

/-- What is put in quotes is read as a quoted string that says the same. -/
theorem spelled_ofQuoted {value : Text} (h : ∀ c ∈ value, IsWritten c) (gap : Text) :
    (Token.ofQuoted value gap).Spelled := by
  have hkind : TokenKind.ofFirst '"' = .quotedString := by decide
  refine ⟨'"', escaped value ++ ['"'], rfl, by decide, hkind, fun position rest _ ↦ ?_⟩
  have hvalue : value.filter (!isLineBreak ·) = value :=
    List.filter_eq_self.2 fun c hc ↦ by simp [(h c hc).isLineBreak_eq_false]
  rw [List.append_assoc, List.singleton_append, tokenBody, hkind]
  simp only [quotedBody_escaped _ fun c hc ↦ (h c hc).refuses_eq_false .strict, hvalue]
  rfl

/-! ### What a phrase says -/

/-- Where blanks stand after a token, the phrase has a space. -/
theorem phraseText_placed_cons {t : Token} {us : List Token} (hgap : t.gap ≠ []) (hus : us ≠ [])
    (position : Nat) : phraseText (placed position (t :: us)) =
      t.value ++ [' '] ++ phraseText (placed ({ t with start := position } : Token).next us) := by
  obtain ⟨u, us, rfl⟩ := List.exists_cons_of_ne_nil hus
  have hlt : 0 < Text.utf8Size t.gap := by
    obtain ⟨c, gap, hg⟩ := List.exists_cons_of_ne_nil hgap
    have := Char.utf8Size_pos c
    simp only [hg, Text.utf8Size_cons]
    omega
  rw [placed, placed, phraseText, if_pos (by
    simp only [Token.stop, Token.next]
    omega)]

/-- A token with blanks after it is a list that can be read again. -/
theorem WellSpelled.singleton {t : Token} (h : t.Spelled)
    (hgap : ∀ c ∈ t.gap, isBlankChar c = true) : WellSpelled [t] :=
  ⟨by simpa using h, by simpa using hgap, .singleton t⟩

/-- The text is an atom. -/
structure IsAtom (word : Text) : Prop where
  ne_nil : word ≠ []
  chars : ∀ c ∈ word, IsWritten c ∧ isBlankChar c = false ∧ isSpecial c = false

/-- So is an atom with a blank after it. -/
theorem IsAtom.wellSpelled {word : Text} (h : IsAtom word) {c : Char} (hc : isBlankChar c = true) :
    WellSpelled [.ofAtom word [c]] := by
  refine .singleton (spelled_ofAtom h.ne_nil (fun d hd ↦ (h.chars d hd).2.1)
    (fun d hd ↦ (h.chars d hd).2.2) (fun d hd ↦ (h.chars d hd).1) _) ?_
  simpa [Token.ofAtom] using hc

/-- Atoms that stand apart by single blanks are a phrase that has a space for each of these. -/
theorem exists_phrase_of_spacedBy {words : List Text} {t : Text}
    (h : SpacedBy (fun space ↦ ∃ c, space = [c] ∧ isBlankChar c = true) words t)
    (hwords : ∀ word ∈ words, IsAtom word) :
    ∃ us, WellSpelled us ∧ Grammar.Phrase us ∧ writtenOf us = t ++ [' '] ∧
      ∀ position, phraseText (placed position us) = Text.joined [' '] words := by
  induction h with
  | single word =>
    refine ⟨[.ofAtom word [' ']], (hwords word (by simp)).wellSpelled (by decide),
      ⟨by simp, by simp [Token.isWord, Token.ofAtom]⟩, by simp [writtenOf, Token.ofAtom],
      fun _ ↦ rfl⟩
  | @cons word space t words hspace h ih =>
    obtain ⟨c, rfl, hc⟩ := hspace
    rw [List.forall_mem_cons] at hwords
    obtain ⟨us, hus, hphrase, hwritten, htext⟩ := ih hwords.2
    have hfirst := hwords.1.wellSpelled hc
    refine ⟨.ofAtom word [c] :: us, hfirst.append hus fun u hu _ _ ↦ ?_, ⟨by simp, ?_⟩, ?_,
      fun position ↦ ?_⟩
    · cases hu
      simp [Apart, Token.ofAtom]
    · exact List.forall_mem_cons.2 ⟨by simp [Token.isWord, Token.ofAtom], hphrase.2⟩
    · rw [writtenOf_cons, hwritten]
      simp [Token.ofAtom]
    · rw [phraseText_placed_cons (by simp [Token.ofAtom]) hphrase.1, htext]
      cases h <;> rfl

/-- White space that is not loose has a character that is none on both sides. -/
theorem any_of_eq_append {f : Char × Char → Bool} {us rest : Text} {c d : Char} (h : f (c, d)) :
    (((us ++ c :: d :: rest).zip ((us ++ c :: d :: rest).drop 1)).any f) = true := by
  induction us with
  | nil => simp [h]
  | cons u us ih => cases us <;> simp_all

/-- A name without loose white space is cut at its blanks into stretches that are not empty. -/
theorem ne_nil_of_mem_stretches {name run : Text} (hname : name ≠ [])
    (hloose : hasLooseWhite name = false) (hrun : run ∈ Run.stretches isBlankChar name) :
    run ≠ [] := by
  rintro rfl
  simp only [hasLooseWhite, Bool.or_eq_false_iff] at hloose
  obtain ⟨⟨hfirst, hlast⟩, hpairs⟩ := hloose
  cases hs : Run.stretches isBlankChar name with
  | nil => exact absurd hs (Run.stretches_ne_nil _ _)
  | cons first runs =>
    rw [hs] at hrun
    rcases List.mem_cons.1 hrun with rfl | hrun
    · -- the name would begin with a blank
      obtain ⟨c, name, rfl⟩ := List.exists_cons_of_ne_nil hname
      have hc := Run.head_of_stretches_eq_nil_cons hs c rfl
      simp [isWhite_of_isBlankChar hc] at hfirst
    · obtain ⟨us, c, rest, rfl, hc, hrest⟩ :=
        Run.exists_of_nil_mem_tail_stretches (by rwa [hs])
      -- a blank stands before an empty stretch, and behind it another one or nothing
      cases rest with
      | nil => simp [isWhite_of_isBlankChar hc] at hlast
      | cons d rest =>
        have hd := isWhite_of_isBlankChar (hrest d rfl)
        rw [any_of_eq_append (by simp [isWhite_of_isBlankChar hc, hd])] at hpairs
        cases hpairs

/-- The stretches of a text, with spaces for what it was cut at. -/
theorem joined_stretches (p : Char → Bool) (t : Text) :
    Text.joined [' '] (Run.stretches p t) = t.map fun c ↦ if p c then ' ' else c := by
  induction t with
  | nil => rfl
  | cons c t ih =>
    obtain ⟨run, runs, hs⟩ := List.exists_cons_of_ne_nil (Run.stretches_ne_nil p t)
    rw [List.map_cons, ← ih, Run.stretches, hs]
    split
    · rfl
    · cases runs <;> rfl

/-! ### The phrase of a name -/

/-- Putting one character in the place of another is done character by character. -/
theorem Text.replaceChar_singleton (c d : Char) (t : Text) :
    Text.replaceChar c [d] t = t.map fun e ↦ if e = c then d else e := by
  rw [List.map_eq_flatMap, Text.replaceChar]
  refine List.flatMap_congr fun e _ ↦ ?_
  by_cases he : e = c <;> simp [he]

/-- It changes nothing if the character is not there. -/
theorem Text.replaceChar_eq_self_iff {c d : Char} (hne : d ≠ c) {t : Text} :
    Text.replaceChar c [d] t = t ↔ c ∉ t := by
  rw [Text.replaceChar_singleton]
  induction t with
  | nil => simp
  | cons e t ih => grind

/-- What a name says when it is read from the phrase that it is written as. -/
def rereadName (name : Text) : Text :=
  if quotePhrase name = name then Text.replaceChar '\t' [' '] name else name

/-- A name with neither loose white space nor special characters is a phrase as it stands. -/
theorem exists_phrase_of_hasLooseWhite {name : Text} (h : ∀ c ∈ name, IsWritten c)
    (hne : name ≠ []) (hloose : hasLooseWhite name = false)
    (hspecial : ∀ c ∈ name, isSpecial c = false) :
    ∃ us, WellSpelled us ∧ Grammar.Phrase us ∧ writtenOf us = name ++ [' '] ∧
      ∀ position, phraseText (placed position us) = Text.replaceChar '\t' [' '] name := by
  have hruns : ∀ run ∈ Run.stretches isBlankChar name, IsAtom run := by
    intro run hrun
    refine ⟨ne_nil_of_mem_stretches hne hloose hrun, fun c hc ↦ ?_⟩
    obtain ⟨hmem, hblank⟩ := Run.mem_of_mem_stretches hrun hc
    exact ⟨h c hmem, hblank, hspecial c hmem⟩
  obtain ⟨us, hus, hphrase, hwritten, htext⟩ :=
    exists_phrase_of_spacedBy (spacedBy_stretches isBlankChar name) hruns
  refine ⟨us, hus, hphrase, hwritten, fun position ↦ ?_⟩
  rw [htext, joined_stretches, Text.replaceChar_singleton]
  refine List.map_congr_left fun c hc ↦ ?_
  by_cases hblank : isBlankChar c = true
  · rcases (h c hc).isBlankChar_iff.1 hblank with rfl | rfl <;> rfl
  · have htab : c ≠ '\t' := fun htab ↦ hblank ((h c hc).isBlankChar_iff.2 (Or.inr htab))
    simp [hblank, htab]

/-- In quotes a text is longer. -/
theorem inQuotes_ne_self (t : Text) : inQuotes t ≠ t := by
  have hle : t.length ≤ (escaped t).length := by
    induction t with
    | nil => exact Nat.zero_le _
    | cons c t ih =>
      rw [escaped, List.flatMap_cons, List.length_append, List.length_cons, Nat.add_comm]
      refine Nat.add_le_add ?_ ih
      split <;> simp
  intro h
  have hlength := congrArg List.length h
  have hquotes : (inQuotes t).length = (escaped t).length + 2 := by
    simp [inQuotes, escaped]
  omega

/-- A name is written as a phrase. -/
theorem exists_phrase_quotePhrase {name : Text} (h : ∀ c ∈ name, IsWritten c) :
    ∃ us, WellSpelled us ∧ Grammar.Phrase us ∧ writtenOf us = quotePhrase name ++ [' '] ∧
      ∀ position, phraseText (placed position us) = rereadName name := by
  unfold rereadName quotePhrase
  split
  · rename_i hplain
    simp only [Bool.and_eq_true, Bool.not_eq_true', List.isEmpty_eq_false_iff,
      List.any_eq_false] at hplain
    obtain ⟨⟨hne, hloose⟩, hspecial⟩ := hplain
    rw [if_pos rfl]
    exact exists_phrase_of_hasLooseWhite h hne hloose (by simpa using hspecial)
  · -- any other name is one quoted string
    rw [if_neg (inQuotes_ne_self name)]
    refine ⟨[.ofQuoted name [' ']], .singleton (spelled_ofQuoted h _) ?_, ⟨by simp, ?_⟩, ?_,
      fun _ ↦ rfl⟩
    · simp [Token.ofQuoted, isBlankChar]
    · simp [Token.ofQuoted, Token.isWord]
    · simp [writtenOf, Token.ofQuoted]

/-- A name says the same when it is read again, unless it has a TAB and stands without quotes. -/
theorem rereadName_eq_self_iff {name : Text} :
    rereadName name = name ↔ (quotePhrase name = name → '\t' ∉ name) := by
  rw [rereadName]
  split
  · rename_i hbare
    rw [Text.replaceChar_eq_self_iff (by decide)]
    simp [hbare]
  · rename_i hquoted
    simp [hquoted]

/-- **A name of printable characters is said again as it is.** -/
theorem rereadName_of_printable {name : Text} (h : ∀ c ∈ name, Printable c) :
    rereadName name = name :=
  rereadName_eq_self_iff.2 fun _ htab ↦ absurd (h _ htab).1 (by decide)

end InternetMail
