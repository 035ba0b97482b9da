import InternetMail.Proofs.Address.Written
import InternetMail.Proofs.EncodedWord.RoundTrip
import InternetMail.Proofs.Header.Folding

/-!
# Line breaks in written addresses

An address is written with text that it was found in: as it stood there, or as it was read, without
quotes and escapes. Reading keeps spaces and TABs (`Kept`), so if a space or a TAB stands after each
line feed of a text, then one does in the addresses that are written from it
(`bare_and_continued_format_of_parseList`). A name that is not ASCII is encoded anew, and has no
line feeds then.

Whether a line feed is followed by a fold is a matter of two characters next to each other, and both
may go: line breaks are dropped in quotes and in comments, and so are backslashes. So it is not
enough that characters are dropped in order, and `Kept` says that folds are not among them. A line
feed can only be kept where it was escaped, and what stood after it is then kept as well.
-/

namespace InternetMail

open Grammar

/-! ### Dropping characters -/

/-- The first text with some characters dropped, but no spaces and TABs, unless from a place on
where none stood. -/
inductive Kept : Text → Text → Prop
  | nil {t : Text} : t.head?.any isFoldChar = false → Kept t []
  | keep (c : Char) {t value : Text} : Kept t value → Kept (c :: t) (c :: value)
  | drop {c : Char} {t value : Text} : isFoldChar c = false → Kept t value → Kept (c :: t) value

/-- What begins with a fold begins with one still. -/
theorem Kept.any_head {t value : Text} (h : Kept t value) (ht : t.head?.any isFoldChar = true) :
    value.head?.any isFoldChar = true := by
  cases h with
  | nil hnone => exact absurd ht (by simp [hnone])
  | keep c _ => exact ht
  | drop hc _ => exact absurd ht (by simp [hc])

/-- What stands after a line feed is not dropped. -/
theorem Kept.continued {t value : Text} (h : Kept t value) (ht : t.Continued) :
    value.Continued := by
  induction h with
  | nil _ => trivial
  | keep c h ih => exact ⟨fun hbreak ↦ h.any_head (ht.1 hbreak), ih ht.2⟩
  | drop _ _ ih => exact ih ht.2

/-- Line breaks are no folds. -/
theorem isFoldChar_eq_false_of_isLineBreak {c : Char} (h : isLineBreak c = true) :
    isFoldChar c = false := by
  simp only [isLineBreak, Bool.or_eq_true, beq_iff_eq] at h
  rcases h with rfl | rfl <;> decide

theorem isFoldChar_eq_false_of_beq {c d : Char} (h : (c == d) = true) (hd : isFoldChar d = false) :
    isFoldChar c = false :=
  eq_of_beq h ▸ hd

/-! ### What tokens say -/

/-- A quoted string says its characters but for line breaks and backslashes. -/
theorem kept_of_quotedBody {s : Strictness} {position : Nat} {t : Text} {b : TokenBody}
    (h : quotedBody s position t = .ok b) : Kept t b.value := by
  fun_induction quotedBody s position t generalizing b with
  | case1 =>
    cases h
    exact .nil rfl
  | case2 position c t hquote =>
    cases h
    exact .nil (isFoldChar_eq_false_of_beq hquote (by decide))
  | case3 position c hquote hslash =>
    cases h
    exact .nil (isFoldChar_eq_false_of_beq hslash (by decide))
  | case4 position c hquote hslash d t ih =>
    obtain ⟨b₀, h₀, rfl⟩ := map_after_eq_ok h
    exact .drop (isFoldChar_eq_false_of_beq hslash (by decide)) (.keep d (ih h₀))
  | case5 position c t hquote hslash hbreak ih =>
    obtain ⟨b₀, h₀, rfl⟩ := map_after_eq_ok h
    have hkept := ih h₀
    exact .drop (isFoldChar_eq_false_of_isLineBreak hbreak) hkept
  | case6 => cases h
  | case7 position c t hquote hslash hbreak hrefuses ih =>
    obtain ⟨b₀, h₀, rfl⟩ := map_after_eq_ok h
    exact .keep c (ih h₀)

/-- A comment does too, at any depth. -/
theorem kept_of_commentBody {s : Strictness} {position depth : Nat} {t : Text} {b : TokenBody}
    (h : commentBody s position depth t = .ok b) : Kept t b.value := by
  fun_induction commentBody s position depth t generalizing b with
  | case1 =>
    cases h
    exact .nil rfl
  | case2 position depth c hslash =>
    cases h
    exact .nil (isFoldChar_eq_false_of_beq hslash (by decide))
  | case3 position depth c hslash d t ih =>
    obtain ⟨b₀, h₀, rfl⟩ := map_after_eq_ok h
    exact .drop (isFoldChar_eq_false_of_beq hslash (by decide)) (.keep d (ih h₀))
  | case5 position c t hslash hopen hclose =>
    cases h
    exact .nil (isFoldChar_eq_false_of_beq hclose (by decide))
  | case7 position depth c t hslash hopen hclose hbreak ih =>
    obtain ⟨b₀, h₀, rfl⟩ := map_after_eq_ok h
    have hkept := ih h₀
    exact .drop (isFoldChar_eq_false_of_isLineBreak hbreak) hkept
  | case8 => cases h
  | case4 | case6 | case9 =>
    rename_i ih
    obtain ⟨b₀, h₀, rfl⟩ := map_after_eq_ok h
    exact .keep _ (ih h₀)

/-- An atom says what it is written as. -/
theorem value_eq_raw_of_atomBody {s : Strictness} {position : Nat} {t : Text} {b : TokenBody}
    (h : atomBody s position t = .ok b) : b.value = b.raw := by
  fun_induction atomBody s position t generalizing b with
  | case4 position c t hends hrefuses ih =>
    obtain ⟨b₀, h₀, rfl⟩ := map_after_eq_ok h
    simp [TokenBody.after, ih h₀]
  | _ => cases h <;> rfl

/-- A line feed is a blank. -/
theorem ne_lineFeed_of_isBlankChar {c : Char} (h : isBlankChar c = false) : c ≠ '\n' := by
  rintro rfl
  exact absurd h (by decide)

/-- What is read of a token goes on after its line feeds if the text does, unless it is a domain
literal. -/
theorem continued_value_of_tokenBody {position : Nat} {c : Char} {t : Text} {b : TokenBody}
    (h : tokenBody .strict position c t = .ok b) (ht : t.Continued) (hc : isBlankChar c = false)
    (hkind : TokenKind.ofFirst c ≠ .domainLiteral) : b.value.Continued := by
  unfold tokenBody at h
  split at h
  · obtain ⟨b₀, h₀, rfl⟩ := map_after_eq_ok h
    exact (kept_of_quotedBody (bind_closedOr_eq_ok h₀)).continued ht
  · obtain ⟨b₀, h₀, rfl⟩ := map_after_eq_ok h
    exact (kept_of_commentBody (bind_closedOr_eq_ok h₀)).continued ht
  · exact absurd ‹_› hkind
  · cases h
    exact Text.continued_of_forall (by simpa using ne_lineFeed_of_isBlankChar hc)
  · split at h
    · cases h
    · obtain ⟨b₀, h₀, rfl⟩ := map_after_eq_ok h
      have hatom : ∀ d ∈ c :: b₀.value, isBlankChar d = false := by
        rw [value_eq_raw_of_atomBody h₀]
        exact List.forall_mem_cons.2 ⟨hc, fun d hd ↦ (eq_false_of_atomBody h₀ d hd).1⟩
      exact Text.continued_of_forall fun d hd ↦ ne_lineFeed_of_isBlankChar (hatom d hd)

/-- What a token says has a fold after each line feed if its text does. -/
theorem Token.Spelled.continued_value {t : Token} (h : t.Spelled) (hraw : t.raw.Continued)
    (hkind : t.kind ≠ .domainLiteral) : t.value.Continued := by
  obtain ⟨c, raw, heq, hc, hfirst, hread⟩ := h
  have hbody := hread 0 [] fun _ ↦ by simp [EndsAtom]
  rw [List.append_nil] at hbody
  rw [heq] at hraw
  exact continued_value_of_tokenBody hbody hraw.2 hc (hfirst ▸ hkind)

/-! ### What tokens are written as -/

/-- A stretch of a text that ends with no blank goes on after its line feeds as the text does. -/
theorem Bare.continued {before t after : Text} (h : Bare t)
    (htext : Text.Continued (before ++ (t ++ after))) : t.Continued := by
  refine htext.right_of_append.left_of_append fun c hc ↦ ?_
  simpa using ne_lineFeed_of_isBlankChar (h.last c hc)

/-- The texts of tokens are parts of the text that do not end with a line feed. -/
theorem continued_raw {lead : Text} {ts : List Token} (hts : ∀ t ∈ ts, t.Spelled)
    (htext : Text.Continued (lead ++ writtenOf ts)) : ∀ t ∈ ts, t.raw.Continued := by
  intro t ht
  obtain ⟨before, after, rfl⟩ := List.append_of_mem ht
  rw [writtenOf_append, writtenOf_cons, List.append_assoc, ← List.append_assoc] at htext
  exact (hts t ht).bare_raw.continued htext

/-- Texts of tokens can be put together. -/
theorem continued_rawOf {ts : List Token} (h : ∀ t ∈ ts, t.raw.Continued) :
    (rawOf ts).Continued := by
  induction ts with
  | nil => trivial
  | cons t ts ih =>
    rw [List.forall_mem_cons] at h
    exact h.1.append (ih h.2)

/-! ### Names -/

/-- Trimming takes no fold away from behind a line feed and leaves that there. -/
theorem continued_trim {t : Text} (h : t.Continued) : (Text.trim t).Continued := by
  have hfront : Text.Continued (t.dropWhile isWhite) := by
    rw [← List.takeWhile_append_dropWhile (p := isWhite) (l := t)] at h
    exact h.right_of_append
  obtain ⟨after, -, heq⟩ := Run.exists_eq_stripEnd_append isWhite (t.dropWhile isWhite)
  rw [heq] at hfront
  refine hfront.left_of_append fun c hc ↦ ?_
  -- the text was cut behind a character that is no white space
  rw [Run.stripEnd, List.getLast?_reverse] at hc
  have hwhite := List.head?_dropWhile_not isWhite (t.dropWhile isWhite).reverse
  rw [hc] at hwhite
  rw [beq_eq_false_iff_ne]
  rintro rfl
  exact absurd hwhite (by decide)

/-- Words of a phrase are put together with spaces, and these are folds. -/
theorem continued_phraseText {ws : List Token} (h : ∀ u ∈ ws, u.value.Continued) :
    (phraseText ws).Continued := by
  fun_induction phraseText ws with
  | case1 => trivial
  | case2 t => simpa using h
  | case3 t u ts ih =>
    rw [List.forall_mem_cons] at h
    have hspace : Text.Continued (if t.stop < u.start then [' '] else []) := by
      split <;> decide
    exact (h.1.append hspace).append (ih h.2)

/-- What a text is encoded as is on one line. -/
theorem ne_lineFeed_of_encodeText [MultiByte.Codec] {t label e : Text} {charset : Charset}
    {choice : Option WordEncoding} (hlabel : Charset.resolve label = .ok charset)
    (hwhole : charset.isWhole = true) (he : encodeText t label choice = .ok e) :
    ∀ c ∈ e, c ≠ '\n' := by
  rintro c hc rfl
  exact absurd (isWritten_of_encodeText hlabel hwhole he _ hc).1 (by decide)

/-- A name that was read is written as it was, or encoded on one line. -/
theorem eq_or_ne_lineFeed_of_encoded [MultiByte.Codec] {raw name : Text} {asked : Bool}
    (h : (DisplayName.written raw asked).encoded = some name) :
    name = raw ∨ ∀ c ∈ name, c ≠ '\n' := by
  rw [DisplayName.encoded] at h
  split at h
  · cases h
    exact Or.inl rfl
  · cases he : encodeText (DisplayName.reading raw).value defaultNameCharset none with
    | error e =>
      rw [he] at h
      cases h
    | ok encoded =>
      rw [he] at h
      cases h
      exact Or.inr (ne_lineFeed_of_encodeText resolve_defaultNameCharset rfl he)

/-! ### Addresses -/

/-- No escape comes between a line feed and what stands after it. -/
theorem continued_escaped {t : Text} (h : t.Continued) :
    Text.Continued (t.flatMap fun c ↦ if c == '"' || c == '\\' then ['\\', c] else [c]) := by
  induction t with
  | nil => trivial
  | cons c t ih =>
    rw [List.flatMap_cons]
    split
    · rename_i hescaped
      have hbreak : (c == '\n') = false := by
        rw [beq_eq_false_iff_ne]
        rintro rfl
        exact absurd hescaped (by decide)
      exact followed_append_of_forall (by simpa using hbreak) (ih h.2)
    · refine ⟨fun hbreak ↦ ?_, ih h.2⟩
      have hhead := h.1 hbreak
      cases t with
      | nil => cases hhead
      | cons d t =>
        have hd : (d == '"' || d == '\\') = false := by
          rw [List.head?_cons, Option.any_some, isFoldChar, Bool.or_eq_true, beq_iff_eq,
            beq_iff_eq] at hhead
          rcases hhead with rfl | rfl <;> decide
        rw [List.flatMap_cons, hd]
        exact hhead

/-- A name is written in quotes, or as it is. -/
theorem continued_quotePhrase {name : Text} (h : name.Continued) :
    (quotePhrase name).Continued := by
  rw [quotePhrase]
  split
  · exact h
  · have hquote : Text.Continued ['"'] := by decide
    exact hquote.append ((continued_escaped h).append hquote)

/-- An address goes on after its line feeds if its text and its name do. -/
theorem continued_format [MultiByte.Codec] {a : Address} (hspec : a.spec.Continued)
    (hname : ∀ name ∈ a.encodedPersonal, name.Continued) : a.format.Continued := by
  have hopen : Text.Continued ['<'] := by decide
  have hclose : Text.Continued ['>'] := by decide
  have hgap : Text.Continued [' ', '<'] := by decide
  unfold Address.format Address.render
  split
  · exact hspec
  split
  · rename_i name heq
    exact (((continued_quotePhrase (hname name heq)).append hgap).append hspec).append hclose
  · rw [Address.formatSpec]
    split
    · exact (hopen.append hspec).append hclose
    · exact hspec

/-- An address that was read is written with parts of its text, with its name anew, or as a group as
it stood. -/
theorem ReadsAs.continued_format [MultiByte.Codec] {ts : List Token} {a : Address}
    (h : ReadsAs ts a) (hts : ∀ t ∈ ts, t.Spelled) (hraw : ∀ t ∈ ts, t.raw.Continued)
    (hsource : (sourceOf ts).Continued) : a.format.Continued := by
  cases h with
  | group _ =>
    refine InternetMail.continued_format hsource fun name hname ↦ ?_
    cases hname
  | @mailbox phrase path h =>
    have hmem : ∀ u ∈ wordsOf ts, u ∈ ts := fun u hu ↦ (List.mem_filter.1 hu).1
    have hvalue : ∀ u ∈ ts, u.kind ≠ .domainLiteral → u.value.Continued := fun u hu ↦
      (hts u hu).continued_value (hraw u hu)
    have hnamed : (mailboxAddress ts phrase path).name = .absent ∨
        ∃ raw, (mailboxAddress ts phrase path).name = .written raw false ∧ raw.Continued := by
      rw [mailboxAddress]
      split
      · exact nameOfComments_eq_or fun u hu hkind ↦ continued_trim (hvalue u hu hkind)
      · exact Or.inr ⟨_, rfl, continued_phraseText fun u hu ↦
          hvalue u (hmem u (h.phrase_subset hu)) (h.phraseOrNone.kind_ne u hu).2⟩
    refine InternetMail.continued_format
      (continued_rawOf fun u hu ↦ hraw u (hmem u (h.path_subset hu))) fun name hname ↦ ?_
    rw [Address.encodedPersonal] at hname
    rcases hnamed with heq | ⟨raw, heq, hcontinued⟩
    · rw [heq] at hname
      cases hname
    · rw [heq] at hname
      rcases eq_or_ne_lineFeed_of_encoded hname with rfl | hline
      · exact hcontinued
      · exact Text.continued_of_forall hline

/-! ### Lists -/

/-- The addresses of a list are written without blanks at their ends, and if each line feed in the
text of the list stands before a space or a TAB, then so does each in them. -/
theorem bare_and_continued_format_of_parseList [MultiByte.Codec] {t : Text} {as : List Address}
    (h : Reported.outcome (Address.parseList .strict t) = .ok as) :
    ∀ a ∈ as, Bare a.format ∧ (t.Continued → a.format.Continued) := by
  obtain ⟨ts, hts, hlist⟩ := outcome_parseList_strict.1 h
  have hspelled := (wellSpelled_of_tokenize hts).spelled
  have htiles := (tiles_of_tokenize hts).eq_append
  intro a ha
  obtain ⟨before, us, after, rfl, hreads⟩ := hlist.exists_readsAs a ha
  have hus : ∀ u ∈ us, u.Spelled := fun u hu ↦ hspelled u (by simp [hu])
  refine ⟨bare_format (hreads.bare_spec hus), fun ht ↦ ?_⟩
  rw [htiles] at ht
  have hraw := continued_raw hspelled ht
  obtain ⟨gap, hgap⟩ := exists_writtenOf_eq us
  rw [writtenOf_append, writtenOf_append, hgap, List.append_assoc, ← List.append_assoc] at ht
  exact hreads.continued_format hus (fun u hu ↦ hraw u (by simp [hu]))
    ((bare_sourceOf hus).continued ht)

end InternetMail
