import InternetMail.Proofs.Address.Spelling

/-!
# Names of printable characters

If a text is printable but for its line breaks, and none of these is escaped, then the display names
in it are printable: folding says nothing, and everything else of a name stands in the text
(`printable_of_tokenize`, `forall_mem_phraseText`, `printable_nameOfComments`).

The texts in question are printable but for line breaks (`PlainText`), and as an escaped character
is kept whatever it is, none of these may be escaped. Domain literals are left out, since they are
not part of a name. The property goes down a token with the reader, character by character
(`PlainText.tail`), and it holds where each token begins, since it holds of the end of any such text
(`PlainText.right_of_append`).
-/

namespace InternetMail

/-- The printable ASCII characters, the space among them. -/
def Printable (c : Char) : Prop :=
  0x20 ≤ c.toNat ∧ c.toNat ≤ 0x7e

instance : DecidablePred Printable :=
  fun c ↦ inferInstanceAs (Decidable (0x20 ≤ c.toNat ∧ c.toNat ≤ 0x7e))

theorem Printable.isControlChar_eq_false {c : Char} (h : Printable c) :
    isControlChar c = false := by
  obtain ⟨h₁, h₂⟩ := h
  simp only [isControlChar, Bool.or_eq_false_iff, Bool.and_eq_false_iff, decide_eq_false_iff_not]
  omega

/-- No strictness refuses a printable character. -/
theorem Printable.refuses_eq_false {c : Char} (h : Printable c) (s : Strictness) :
    s.refuses c = false := by
  simp [Strictness.refuses, h.isControlChar_eq_false]

theorem Printable.isLineBreak_eq_false {c : Char} (h : Printable c) : isLineBreak c = false := by
  rw [← Bool.not_eq_true, isLineBreak, Bool.or_eq_true, beq_iff_eq, beq_iff_eq]
  rintro (rfl | rfl) <;> exact absurd h.1 (by decide)

theorem isAscii_of_printable {t : Text} (h : ∀ c ∈ t, Printable c) : Text.isAscii t = true := by
  simp only [Text.isAscii, List.all_eq_true, decide_eq_true_eq]
  intro c hc
  have := (h c hc).2
  omega

/-- The text is printable but for its line breaks, and no backslash stands right before one of them.
-/
structure PlainText (t : Text) : Prop where
  chars : ∀ c ∈ t, Printable c ∨ isLineBreak c = true
  escapes : t.IsChain fun c d ↦ c = '\\' → isLineBreak d = false

/-- An end of such a text is one. -/
theorem PlainText.right_of_append {t u : Text} (h : PlainText (t ++ u)) : PlainText u :=
  ⟨(List.forall_mem_append.1 h.chars).2, h.escapes.right_of_append⟩

theorem PlainText.tail {c : Char} {t : Text} (h : PlainText (c :: t)) : PlainText t :=
  right_of_append (t := [c]) h

/-- What stands behind a backslash is printable, as it is no line break. -/
theorem PlainText.printable_of_escaped {c d : Char} {t : Text} (h : PlainText (c :: d :: t))
    (hc : (c == '\\') = true) : Printable d := by
  have hbreak := (List.isChain_cons_cons.1 h.escapes).1 (eq_of_beq hc)
  simpa [hbreak] using h.chars d (by simp)

/-- The first character is printable if it is no line break. -/
theorem PlainText.printable_head {c : Char} {t : Text} (h : PlainText (c :: t))
    (hc : isLineBreak c = false) : Printable c := by
  simpa [hc] using h.chars c (by simp)

/-! ### What tokens say -/

/-- In a quoted string line breaks are dropped, and all other characters are kept. -/
theorem printable_of_quotedBody {s : Strictness} {position : Nat} {t : Text} {b : TokenBody}
    (h : quotedBody s position t = .ok b) (ht : PlainText t) : ∀ c ∈ b.value, Printable c := by
  fun_induction quotedBody s position t generalizing b with
  | case4 position c hquote hslash d t ih =>
    obtain ⟨b₀, h₀, rfl⟩ := map_after_eq_ok h
    simpa [TokenBody.after] using ⟨ht.printable_of_escaped hslash, ih h₀ ht.tail.tail⟩
  | case5 position c t hquote hslash hbreak ih =>
    obtain ⟨b₀, h₀, rfl⟩ := map_after_eq_ok h
    simpa [TokenBody.after] using ih h₀ ht.tail
  | case7 position c t hquote hslash hbreak hrefuses ih =>
    obtain ⟨b₀, h₀, rfl⟩ := map_after_eq_ok h
    simpa [TokenBody.after] using ⟨ht.printable_head (by simpa using hbreak), ih h₀ ht.tail⟩
  | _ => cases h <;> simp

/-- So it is in a comment, at any depth. -/
theorem printable_of_commentBody {s : Strictness} {position depth : Nat} {t : Text}
    {b : TokenBody} (h : commentBody s position depth t = .ok b) (ht : PlainText t) :
    ∀ c ∈ b.value, Printable c := by
  have hparen : Printable '(' ∧ Printable ')' := by decide
  fun_induction commentBody s position depth t generalizing b with
  | case3 position depth c hslash d t ih =>
    obtain ⟨b₀, h₀, rfl⟩ := map_after_eq_ok h
    simpa [TokenBody.after] using ⟨ht.printable_of_escaped hslash, ih h₀ ht.tail.tail⟩
  | case4 position depth c t hslash hopen ih =>
    obtain ⟨b₀, h₀, rfl⟩ := map_after_eq_ok h
    simpa [TokenBody.after, eq_of_beq hopen] using ⟨hparen.1, ih h₀ ht.tail⟩
  | case6 position depth c t hslash hopen hclose hdepth ih =>
    obtain ⟨b₀, h₀, rfl⟩ := map_after_eq_ok h
    simpa [TokenBody.after, eq_of_beq hclose] using ⟨hparen.2, ih h₀ ht.tail⟩
  | case7 position depth c t hslash hopen hclose hbreak ih =>
    obtain ⟨b₀, h₀, rfl⟩ := map_after_eq_ok h
    simpa [TokenBody.after] using ih h₀ ht.tail
  | case9 position depth c t hslash hopen hclose hbreak hrefuses ih =>
    obtain ⟨b₀, h₀, rfl⟩ := map_after_eq_ok h
    simpa [TokenBody.after] using ⟨ht.printable_head (by simpa using hbreak), ih h₀ ht.tail⟩
  | _ => cases h <;> simp

/-- An atom has no line break in it. -/
theorem printable_of_atomBody {s : Strictness} {position : Nat} {t : Text} {b : TokenBody}
    (h : atomBody s position t = .ok b) (ht : PlainText t) : ∀ c ∈ b.value, Printable c := by
  fun_induction atomBody s position t generalizing b with
  | case4 position c t hends hrefuses ih =>
    obtain ⟨b₀, h₀, rfl⟩ := map_after_eq_ok h
    have hbreak : isLineBreak c = false := by
      simp only [isBlankChar, isLineBreak, Bool.or_eq_true, Bool.or_eq_false_iff] at hends ⊢
      grind
    simpa [TokenBody.after] using ⟨ht.printable_head hbreak, ih h₀ ht.tail⟩
  | _ => cases h <;> simp

/-- What a token says is printable, unless it is a domain literal. -/
theorem printable_of_tokenBody {s : Strictness} {position : Nat} {c : Char} {t : Text}
    {b : TokenBody} (h : tokenBody s position c t = .ok b) (ht : PlainText (c :: t))
    (hblank : isBlankChar c = false) (hkind : TokenKind.ofFirst c ≠ .domainLiteral) :
    ∀ d ∈ b.value, Printable d := by
  have hbreak : isLineBreak c = false := by
    simp only [isBlankChar, isLineBreak, Bool.or_eq_false_iff] at hblank ⊢
    exact ⟨hblank.1.2, hblank.2⟩
  have hc := ht.printable_head hbreak
  unfold tokenBody at h
  split at h
  · obtain ⟨b₀, h₀, rfl⟩ := map_after_eq_ok h
    simpa [TokenBody.after] using printable_of_quotedBody (bind_closedOr_eq_ok h₀) ht.tail
  · obtain ⟨b₀, h₀, rfl⟩ := map_after_eq_ok h
    simpa [TokenBody.after] using printable_of_commentBody (bind_closedOr_eq_ok h₀) ht.tail
  · exact absurd ‹_› hkind
  · cases h
    simpa using hc
  · split at h
    · cases h
    · obtain ⟨b₀, h₀, rfl⟩ := map_after_eq_ok h
      simpa [TokenBody.after] using ⟨hc, printable_of_atomBody h₀ ht.tail⟩

/-- **What the tokens of such a text say is printable.** -/
theorem printable_of_tokenize {s : Strictness} {t : Text} {ts : List Token}
    (h : tokenize s t = .ok ts) (ht : PlainText t) :
    ∀ u ∈ ts, u.kind ≠ .domainLiteral → ∀ c ∈ u.value, Printable c := by
  intro u hu hkind
  obtain ⟨c, x, b, hsuffix, hb, hread⟩ := exists_tokenBody_of_mem h hu
  obtain ⟨before, hbefore⟩ := hsuffix.trans (List.dropWhile_suffix _)
  rw [← hbefore] at ht
  have hblank : isBlankChar c = false := by
    obtain ⟨raw, hraw⟩ := exists_raw_eq_cons_of_tokenBody hb
    refine isBlankChar_head_raw h hu c ?_
    rw [hread, hraw]
    rfl
  rw [hread] at hkind ⊢
  exact printable_of_tokenBody hb ht.right_of_append hblank hkind

/-! ### What names say -/

/-- A phrase says what its words say, and spaces. -/
theorem forall_mem_phraseText {p : Char → Prop} (hspace : p ' ') {ws : List Token}
    (h : ∀ u ∈ ws, ∀ c ∈ u.value, p c) : ∀ c ∈ phraseText ws, p c := by
  fun_induction phraseText ws with
  | case1 => simp
  | case2 t => simpa using h
  | case3 t u ts ih =>
    rw [List.forall_mem_cons] at h
    intro c hc
    rcases List.mem_append.1 hc with hc | hc
    · rcases List.mem_append.1 hc with hc | hc
      · exact h.1 c hc
      · split at hc <;> simp_all
    · exact ih h.2 c hc

/-- Trimming puts nothing in. -/
theorem mem_of_mem_trim {t : Text} {c : Char} (h : c ∈ Text.trim t) : c ∈ t := by
  rw [Text.trim, Run.strip, Run.stripEnd, List.mem_reverse] at h
  have h₁ := (List.dropWhile_sublist isWhite).subset h
  rw [List.mem_reverse] at h₁
  exact (List.dropWhile_sublist isWhite).subset h₁

/-- The name that comments give is what one of them says, less the white space around it. -/
theorem nameOfComments_eq_or {ts : List Token} {p : Text → Prop}
    (h : ∀ u ∈ ts, u.kind ≠ .domainLiteral → p (Text.trim u.value)) :
    nameOfComments ts = .absent ∨ ∃ raw, nameOfComments ts = .written raw false ∧ p raw := by
  unfold nameOfComments
  split
  · rename_i t hfind
    have hcomment := List.find?_some hfind
    simp only [Bool.and_eq_true, Token.isComment, beq_iff_eq] at hcomment
    exact Or.inr ⟨_, rfl, h t (List.mem_of_find?_eq_some hfind) (by simp [hcomment.1])⟩
  · exact Or.inl rfl

/-- The name that a comment gives is printable, if there is one. -/
theorem printable_nameOfComments {ts : List Token}
    (h : ∀ u ∈ ts, u.kind ≠ .domainLiteral → ∀ c ∈ u.value, Printable c) :
    nameOfComments ts = .absent ∨
      ∃ raw, nameOfComments ts = .written raw false ∧ ∀ c ∈ raw, Printable c :=
  nameOfComments_eq_or fun u hu hkind c hc ↦ h u hu hkind c (mem_of_mem_trim hc)

end InternetMail
