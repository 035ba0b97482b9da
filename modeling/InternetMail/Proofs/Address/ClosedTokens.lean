import InternetMail.Proofs.Address.OpenLiteral
import InternetMail.Proofs.Address.Written

/-!
# Texts of closed tokens

Which texts incoming mail takes apart into closed tokens. A text does without quotes, comments and
domain literals (`exists_tokenize_plain`), and so does the phrase that a display name is written as,
whatever the name is (`exists_tokenize_quotePhrase`). A text that does so with a special character
at its end does so without it (`exists_tokenize_of_concat`).

What is needed of the tokens is only that each of them is closed, as nothing that is put behind such
a text can then become part of it. So the lemmas give tokens without saying which they are. A text
in quotes is one closed token whatever is in it; a text without quotes, parentheses and opening
brackets has only atoms and special characters (`ofFirst_eq_atom_or_special`), and those are always
closed.
-/

namespace InternetMail

variable {s : Strictness} {position : Nat} {x : Text} {ts : List Token}

/-! ### The last token -/

section

variable {e : Char} (he : TokenKind.ofFirst e = .special e) (hopen : e ∉ ['"', ')', ']'])
  (hblank : isBlankChar e = false)

include he hopen hblank

/-- If closed tokens end with a special character that closes nothing, the last of them is that. -/
theorem exists_concat_of_getLast (h : tokensFrom s position x = .ok ts)
    (hclosed : ∀ t ∈ ts, t.closed = true) (hlast : x.getLast? = some e) :
    ∃ us u, ts = us ++ [u] ∧ u.isSpecial e = true ∧ x = writtenOf us ++ [e] := by
  have hwritten := (tiles_of_tokensFrom h).1
  obtain ⟨us, u, rfl⟩ : ∃ us u, ts = us ++ [u] := by
    refine (List.eq_nil_or_concat' ts).resolve_left ?_
    rintro rfl
    rw [hwritten] at hlast
    cases hlast
  have hu : u ∈ us ++ [u] := by simp
  have hgap : u.gap = [] := by
    rcases List.eq_nil_or_concat' u.gap with hnil | ⟨gap, d, hd⟩
    · exact hnil
    · have hdblank := blank_of_tokensFrom h hu d (by simp [hd])
      simp only [hwritten, writtenOf_append, writtenOf_cons, writtenOf_nil, hd, List.append_nil,
        ← List.append_assoc, List.getLast?_concat, Option.some.injEq] at hlast
      rw [hlast, hblank] at hdblank
      cases hdblank
  obtain ⟨c, t, b, -, hb, hread⟩ := exists_tokenBody_of_mem h hu
  have hraw : u.raw = b.raw := by rw [hread]
  have hbclosed : b.closed = true := by
    rw [← hclosed u hu, hread]
  obtain ⟨d, hd, hends⟩ := exists_getLast_of_closed hb hbclosed
  have hde : d = e := by
    rw [hwritten, writtenOf_append, writtenOf_cons, writtenOf_nil, hgap, List.append_nil,
      List.append_nil, List.getLast?_append, hraw, hd] at hlast
    exact Option.some.inj hlast
  subst hde
  rcases hends with hclose | hsingle | ⟨-, hnone⟩
  · exact absurd hclose hopen
  · obtain ⟨raw, hc⟩ := exists_raw_eq_cons_of_tokenBody hb
    obtain ⟨rfl, -⟩ := List.cons.inj (hsingle.symm.trans hc)
    refine ⟨us, u, rfl, ?_, ?_⟩
    · rw [Token.isSpecial_iff, hread]
      exact he
    · rw [hwritten, writtenOf_append, writtenOf_cons, writtenOf_nil, hgap, hraw, hsingle]
      simp
  · rw [isSpecial_of_ofFirst he] at hnone
    cases hnone

/-- Before a special character that closes nothing, closed tokens are those of the text alone. -/
theorem exists_tokenize_of_concat (h : tokenize s (x ++ [e]) = .ok ts)
    (hclosed : ∀ t ∈ ts, t.closed = true) :
    ∃ us u, ts = us ++ [u] ∧ u.isSpecial e = true ∧ tokenize s x = .ok us := by
  rw [tokenize, Run.dropWhile_append_cons_of_neg _ _ hblank,
    Run.takeWhile_append_cons_of_neg _ _ hblank] at h
  obtain ⟨us, u, rfl, hu, hx⟩ := exists_concat_of_getLast he hopen hblank h hclosed (by simp)
  refine ⟨us, u, rfl, hu, ?_⟩
  rw [tokenize, (List.append_singleton_inj.1 hx).1]
  rw [List.forall_mem_append] at hclosed
  rcases List.eq_nil_or_concat' us with rfl | ⟨us, v, rfl⟩
  · rw [writtenOf_nil, tokensFrom]
  · have hvgap := blank_of_tokensFrom h (u := v) (by simp)
    have hnil : EndsAtom [] := by simp [EndsAtom]
    rw [List.append_assoc, List.singleton_append] at h
    have hplaced := ((tiles_of_tokensFrom h).2.concat v.gap).placed_eq
    have hread := tokensFrom_stretch h hclosed.1 hvgap (z := []) (by simp)
      (hnil.append_left hvgap) (Text.utf8Size (x.takeWhile isBlankChar))
    have hself : v.before v.gap = v := rfl
    rw [hself] at hplaced hread
    rw [tokensFrom, hplaced] at hread
    simpa [Except.map] using hread

end

/-! ### Tokens and their text -/

theorem mem_of_mem_raw (h : tokenize s x = .ok ts) {t : Token} (ht : t ∈ ts) {c : Char}
    (hc : c ∈ t.raw) : c ∈ x := by
  rw [(tiles_of_tokenize h).eq_append, List.mem_append]
  exact Or.inr (List.mem_flatMap.2 ⟨t, ht, List.mem_append_left _ hc⟩)

theorem isBlankChar_eq_false_of_atom (h : tokenize s x = .ok ts) {t : Token} (ht : t ∈ ts)
    (hatom : t.kind = .atom) : ∀ c ∈ t.raw, isBlankChar c = false := by
  have hhead := isBlankChar_head_raw h ht
  obtain ⟨c, u, b, -, hb, hread⟩ := exists_tokenBody_of_mem h ht
  have hkind : TokenKind.ofFirst c = .atom := by rw [← hatom, hread]
  have hraw : t.raw = b.raw := by rw [hread]
  rw [hraw] at hhead ⊢
  rw [tokenBody, hkind] at hb
  simp only at hb
  split at hb
  · cases hb
  · obtain ⟨b₀, h₀, rfl⟩ := map_after_eq_ok hb
    rw [TokenBody.raw_after, List.singleton_append] at hhead ⊢
    exact List.forall_mem_cons.2 ⟨hhead c rfl, fun d hd ↦ (eq_false_of_atomBody h₀ d hd).1⟩

/-! ### Texts without quotes, comments and domain literals -/

theorem ofFirst_eq_atom_or_special {c : Char} (hc : c ∉ ['"', '(', '[']) :
    TokenKind.ofFirst c = .atom ∨ TokenKind.ofFirst c = .special c := by
  unfold TokenKind.ofFirst
  simp only [List.mem_cons, List.not_mem_nil, or_false, not_or] at hc
  simp [hc]

/-- Without quotes, comments and domain literals a text is atoms and special characters. -/
theorem exists_tokenize_plain (hx : ∀ c ∈ x, c ∉ ['"', '(', '[']) :
    ∃ ts, tokenize .parseHeader x = .ok ts ∧ ∀ t ∈ ts,
      t.closed = true ∧ (t.kind = .atom ∨ ∃ c ∈ x, isSpecial c = true ∧ t.isSpecial c = true) := by
  cases hts : tokenize .parseHeader x with
  | error f =>
    obtain ⟨-, -, -⟩ := tokenize_parseHeader_eq_error_iff.1 hts
    exact absurd (by decide) (hx '[' (List.mem_append_right _ List.mem_cons_self))
  | ok ts =>
    refine ⟨ts, rfl, fun t ht ↦ ?_⟩
    obtain ⟨c, u, b, -, hb, hread⟩ := exists_tokenBody_of_mem hts ht
    obtain ⟨raw, hraw⟩ := exists_raw_eq_cons_of_tokenBody hb
    have hmem : c ∈ x := mem_of_mem_raw hts ht (by
      rw [hread]
      simp [hraw])
    have hkind := ofFirst_eq_atom_or_special (hx c hmem)
    have hclosed : b.closed = true := by
      refine (closed_or_of_tokenBody hb).resolve_right ?_
      rintro ⟨-, hquote | hcomment⟩
      · simp [hquote] at hkind
      · simp [hcomment] at hkind
    have htkind : t.kind = TokenKind.ofFirst c := by rw [hread]
    refine ⟨by rw [hread]; exact hclosed, ?_⟩
    rw [htkind]
    exact hkind.imp id fun hspecial ↦ ⟨c, hmem,
      isSpecial_of_ofFirst hspecial, by rw [Token.isSpecial_iff, htkind, hspecial]⟩

/-! ### Phrases -/

/-- The phrase of a name is read as words, whatever the name is. -/
theorem exists_tokenize_quotePhrase (name : Text) :
    ∃ ts, tokenize .parseHeader (quotePhrase name ++ [' ']) = .ok ts ∧
      ∀ t ∈ ts, t.closed = true ∧ t.isWord = true := by
  rw [quotePhrase]
  split
  · rename_i hplain
    simp only [Bool.and_eq_true, Bool.not_eq_true', List.any_eq_false] at hplain
    have hnone : ∀ c ∈ name ++ [' '], isSpecial c = false := by
      simpa [or_imp, forall_and, isSpecial] using hplain.2
    have hx : ∀ c ∈ name ++ [' '], c ∉ ['"', '(', '['] := by
      intro c hc hmem
      have hspecial : isSpecial c = true :=
        Run.forall_mem_of_all (P := fun d ↦ isSpecial d = true) (by decide) c hmem
      rw [hnone c hc] at hspecial
      cases hspecial
    obtain ⟨ts, hts, hkinds⟩ := exists_tokenize_plain hx
    refine ⟨ts, hts, fun t ht ↦ ⟨(hkinds t ht).1, ?_⟩⟩
    rcases (hkinds t ht).2 with hatom | ⟨c, hc, hspecial, -⟩
    · simp [Token.isWord, hatom]
    · rw [hnone c hc] at hspecial
      cases hspecial
  · -- any other name is one quoted string
    have hkind : TokenKind.ofFirst '"' = .quotedString := by decide
    have htext : inQuotes name ++ [' '] = '"' :: (escaped name ++ '"' :: [' ']) := by
      simp [inQuotes, escaped]
    have hbody (position : Nat) :
        tokenBody .parseHeader position '"' (escaped name ++ '"' :: [' ']) =
          .ok ⟨name.filter (!isLineBreak ·), '"' :: (escaped name ++ ['"']), [' '], true⟩ := by
      rw [tokenBody, hkind]
      simp only [quotedBody_escaped _ fun c _ ↦ refuses_parseHeader c]
      rfl
    have hblank : [' '].dropWhile isBlankChar = [] := rfl
    have hstart : '"' :: (escaped name ++ '"' :: [' ']) =
        [] ++ '"' :: (escaped name ++ ['"', ' ']) := rfl
    rw [htext, hstart, tokenize_append (List.forall_mem_nil _) (by simp [isBlankChar]),
      tokensFrom_cons (hbody _) rfl, hblank, tokensFrom]
    exact ⟨_, rfl, by simp [Token.isWord, hkind]⟩

end InternetMail
