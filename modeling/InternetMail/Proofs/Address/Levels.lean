import InternetMail.Proofs.Address.Spelling

/-!
# Looser and stricter readings

The readings are in order by how much of the grammar they enforce. A text that one of them takes
apart is taken apart into the same tokens by every looser one (`tokenize_of_le`): a looser reading
refuses fewer characters and lets more be left open. All tokens are closed unless the reading is
that of incoming mail (`closed_of_tokenize`).

The levels are ordered as their names say, from `parseHeader` up to `strict`, and what is shown is
that reading is monotone in them: a looser level never refuses what a stricter one takes, and never
takes it for something else. A character is refused by the stricter levels only (`refuses_of_le`),
and what may be left open is by the loosest only; each token is then read alike by induction on its
characters.
-/

namespace InternetMail

/-! ### The order of the readings -/

namespace Strictness

/-- How much of the grammar the reading enforces. -/
def rank : Strictness → Nat
  | .parseHeader => 0
  | .nonStrict => 1
  | .strict => 2

/-- The looser of two readings enforces less. -/
instance : LE Strictness where
  le s' s := s'.rank ≤ s.rank

instance (s' s : Strictness) : Decidable (s' ≤ s) :=
  inferInstanceAs (Decidable (s'.rank ≤ s.rank))

variable {s' s : Strictness}

/-- No level is stricter than the strict one. -/
theorem le_strict (s : Strictness) : s ≤ .strict := by
  cases s <;> decide

/-- The full grammar is enforced by a stricter reading if it is by a looser one. -/
theorem beq_strict_of_le (hle : s' ≤ s) (h : (s == .strict) = false) :
    (s' == .strict) = false := by
  revert hle h
  cases s' <;> cases s <;> decide

/-- What is left open is closed by a looser reading if it is by a stricter one. -/
theorem beq_parseHeader_of_le (hle : s' ≤ s) (h : (s == .parseHeader) = true) :
    (s' == .parseHeader) = true := by
  revert hle h
  cases s' <;> cases s <;> decide

/-- A looser reading refuses no character that a stricter one does not. -/
theorem refuses_of_le (hle : s' ≤ s) {c : Char} (h : ¬s.refuses c = true) :
    s'.refuses c = false := by
  cases hs : s == .strict with
  | true =>
    have hc : (isControlChar c && c != '\t') = false := by
      simpa [refuses, hs] using h
    rw [refuses, Bool.and_assoc, hc, Bool.and_false]
  | false => rw [refuses, beq_strict_of_le hle hs, Bool.false_and, Bool.false_and]

end Strictness

/-! ### The insides of tokens -/

variable {s' s : Strictness} {position : Nat} {t : Text} {b : TokenBody}

/-- A quoted string that is read is read alike by a looser level. -/
theorem quotedBody_of_le (hle : s' ≤ s) (h : quotedBody s position t = .ok b) :
    quotedBody s' position t = .ok b := by
  fun_induction quotedBody s position t generalizing b with
  | case4 position c hquote hslash d t ih =>
    obtain ⟨b₀, h₀, rfl⟩ := map_after_eq_ok h
    rw [quotedBody.eq_def]
    simp [hquote, hslash, ih h₀, Except.map]
  | case5 position c t hquote hslash hbreak ih =>
    obtain ⟨b₀, h₀, rfl⟩ := map_after_eq_ok h
    rw [quotedBody.eq_def]
    simp [hquote, hslash, hbreak, ih h₀, Except.map]
  | case7 position c t hquote hslash hbreak hrefuses ih =>
    obtain ⟨b₀, h₀, rfl⟩ := map_after_eq_ok h
    rw [quotedBody.eq_def]
    simp [hquote, hslash, hbreak, Strictness.refuses_of_le hle hrefuses, ih h₀, Except.map]
  | _ => cases h <;> rw [quotedBody.eq_def] <;> simp_all

/-- So is a comment. -/
theorem commentBody_of_le {depth : Nat} (hle : s' ≤ s)
    (h : commentBody s position depth t = .ok b) : commentBody s' position depth t = .ok b := by
  fun_induction commentBody s position depth t generalizing b with
  | case3 position depth c hslash d t ih =>
    obtain ⟨b₀, h₀, rfl⟩ := map_after_eq_ok h
    rw [commentBody.eq_def]
    simp [hslash, ih h₀, Except.map]
  | case4 position depth c t hslash hopen ih =>
    obtain ⟨b₀, h₀, rfl⟩ := map_after_eq_ok h
    rw [commentBody.eq_def]
    simp [hslash, hopen, ih h₀, Except.map]
  | case6 position depth c t hslash hopen hclose hdepth ih =>
    obtain ⟨b₀, h₀, rfl⟩ := map_after_eq_ok h
    rw [commentBody.eq_def]
    simp [hslash, hopen, hclose, hdepth, ih h₀, Except.map]
  | case7 position depth c t hslash hopen hclose hbreak ih =>
    obtain ⟨b₀, h₀, rfl⟩ := map_after_eq_ok h
    rw [commentBody.eq_def]
    simp [hslash, hopen, hclose, hbreak, ih h₀, Except.map]
  | case9 position depth c t hslash hopen hclose hbreak hrefuses ih =>
    obtain ⟨b₀, h₀, rfl⟩ := map_after_eq_ok h
    rw [commentBody.eq_def]
    simp [hslash, hopen, hclose, hbreak, Strictness.refuses_of_le hle hrefuses, ih h₀, Except.map]
  | _ => cases h <;> rw [commentBody.eq_def] <;> simp_all

/-- So is a domain literal. -/
theorem literalBody_of_le (hle : s' ≤ s) (h : literalBody s position t = .ok b) :
    literalBody s' position t = .ok b := by
  have hbracket (c : Char) (hc : ¬(c == '[' && s == .strict) = true) :
      (c == '[' && s' == .strict) = false := by
    cases hs : s == .strict with
    | true =>
      rw [hs, Bool.and_true, Bool.not_eq_true] at hc
      rw [hc, Bool.false_and]
    | false => rw [Strictness.beq_strict_of_le hle hs, Bool.and_false]
  fun_induction literalBody s position t generalizing b with
  | case4 position c hclose hopen hslash =>
    cases h
    rw [literalBody.eq_def]
    simp [hclose, hbracket c hopen, hslash]
  | case5 position c hclose hopen hslash d t ih =>
    obtain ⟨b₀, h₀, rfl⟩ := map_after_eq_ok h
    rw [literalBody.eq_def]
    simp [hclose, hbracket c hopen, hslash, ih h₀, Except.map]
  | case6 position c t hclose hopen hslash hbreak ih =>
    obtain ⟨b₀, h₀, rfl⟩ := map_after_eq_ok h
    rw [literalBody.eq_def]
    simp [hclose, hbracket c hopen, hslash, hbreak, ih h₀, Except.map]
  | case8 position c t hclose hopen hslash hbreak hrefuses ih =>
    obtain ⟨b₀, h₀, rfl⟩ := map_after_eq_ok h
    rw [literalBody.eq_def]
    simp [hclose, hbracket c hopen, hslash, hbreak, Strictness.refuses_of_le hle hrefuses, ih h₀,
      Except.map]
  | _ => cases h <;> rw [literalBody.eq_def] <;> simp_all

/-- So is an atom. -/
theorem atomBody_of_le (hle : s' ≤ s) (h : atomBody s position t = .ok b) :
    atomBody s' position t = .ok b := by
  fun_induction atomBody s position t generalizing b with
  | case4 position c t hends hrefuses ih =>
    obtain ⟨b₀, h₀, rfl⟩ := map_after_eq_ok h
    rw [atomBody]
    simp [hends, Strictness.refuses_of_le hle hrefuses, ih h₀, Except.map]
  | _ => cases h <;> simp_all [atomBody]

/-! ### Tokens -/

/-- What may be left open by one reading, may by the other. -/
theorem map_closedOr_of_imp {x y : Except SyntaxFault TokenBody} (hxy : ∀ b, x = .ok b → y = .ok b)
    {mayBeOpen mayBeOpen' : Bool} (hopen : mayBeOpen = true → mayBeOpen' = true)
    {fault : SyntaxFault} {value raw : Text} {b : TokenBody}
    (h : (x.bind (·.closedOr fault mayBeOpen)).map (·.after value raw) = .ok b) :
    (y.bind (·.closedOr fault mayBeOpen')).map (·.after value raw) = .ok b := by
  obtain ⟨b₀, h₀, rfl⟩ := map_after_eq_ok h
  have hmay : (b₀.closed || mayBeOpen') = true := by
    rcases closed_or_of_bind_closedOr h₀ with hclosed | hmay
    · rw [hclosed, Bool.true_or]
    · rw [hopen hmay, Bool.or_true]
  rw [hxy b₀ (bind_closedOr_eq_ok h₀)]
  simp [Except.bind, TokenBody.closedOr, hmay, Except.map]

/-- So is every token. A looser level may leave it open, but does not. -/
theorem tokenBody_of_le (hle : s' ≤ s) {c : Char} (h : tokenBody s position c t = .ok b) :
    tokenBody s' position c t = .ok b := by
  have hopen := Strictness.beq_parseHeader_of_le hle
  unfold tokenBody at h ⊢
  split at h
  · exact map_closedOr_of_imp (fun _ ↦ quotedBody_of_le hle) hopen h
  · exact map_closedOr_of_imp (fun _ ↦ commentBody_of_le hle) hopen h
  · exact map_closedOr_of_imp (fun _ ↦ literalBody_of_le hle) id h
  · exact h
  · split at h
    · cases h
    · rename_i hrefuses
      obtain ⟨b₀, h₀, rfl⟩ := map_after_eq_ok h
      simp [Strictness.refuses_of_le hle hrefuses, atomBody_of_le hle h₀, Except.map]

/-- So are all tokens, one after another. -/
theorem tokensFrom_of_le (hle : s' ≤ s) {ts : List Token}
    (h : tokensFrom s position t = .ok ts) : tokensFrom s' position t = .ok ts := by
  fun_induction tokensFrom s position t generalizing ts with
  | case1 =>
    cases h
    rw [tokensFrom]
  | case2 => cases h
  | case3 position c t b hbody _ token =>
    rename_i ih
    obtain ⟨ts, hts, rfl⟩ := map_eq_ok_iff.1 h
    rw [tokensFrom_cons (tokenBody_of_le hle hbody) rfl, ih hts]
    rfl

/-- **A text that one reading takes apart is taken apart into the same tokens by every looser one.**
-/
theorem tokenize_of_le (hle : s' ≤ s) {ts : List Token} (h : tokenize s t = .ok ts) :
    tokenize s' t = .ok ts :=
  tokensFrom_of_le hle h

/-- Only incoming mail leaves tokens open. -/
theorem closed_of_tokensFrom (hs : s ≠ .parseHeader) {ts : List Token}
    (h : tokensFrom s position t = .ok ts) : ∀ u ∈ ts, u.closed = true := by
  intro u hu
  obtain ⟨c, x, b, -, hb, hread⟩ := exists_tokenBody_of_mem h hu
  rw [hread]
  exact closed_of_tokenBody hs hb

/-- Only in incoming mail are tokens left open. -/
theorem closed_of_tokenize (hs : s ≠ .parseHeader) {ts : List Token} (h : tokenize s t = .ok ts) :
    ∀ u ∈ ts, u.closed = true :=
  closed_of_tokensFrom hs h

end InternetMail
