import InternetMail.Proofs.Address.OpenLiteral

/-!
# Tokens that are left open

A quoted string or a comment that incoming mail leaves open ends with the text, so no token comes
after it (`eq_nil_of_open`). Nor does it end at a semicolon that is put behind the text: the
semicolon becomes part of it (`exists_tokensFrom_concat_of_open`).

Both follow from how such a token is read. It is read up to its end mark, and if the text ends
before that, all of it was used; with one more character behind the text this is used too, and the
token is as open as before. The same text with a semicolon has therefore as many tokens, of the same
kinds, and the last of them says one character more. This is what becomes of a group that is closed
on paper only.
-/

namespace InternetMail

variable {position : Nat} {x : Text} {ts : List Token} {u : Token}

/-! ### The insides of tokens -/

/-- A quoted string that is open takes in a semicolon behind it. -/
theorem exists_quotedBody_concat {t : Text} {b : TokenBody}
    (h : quotedBody .parseHeader position t = .ok b) (hopen : b.closed = false)
    (position' : Nat) :
    ∃ b', quotedBody .parseHeader position' (t ++ [';']) = .ok b' ∧ b'.closed = false := by
  fun_induction quotedBody .parseHeader position t generalizing b position' with
  | case1 => exact ⟨_, rfl, rfl⟩
  | case2 =>
    cases h
    cases hopen
  | case3 position c hquote hslash =>
    -- the backslash at the end escapes the semicolon
    rw [List.singleton_append, quotedBody.eq_def]
    simp only [hquote, hslash, Bool.false_eq_true, if_false, if_true]
    exact ⟨_, rfl, rfl⟩
  | case4 position c hquote hslash d t ih =>
    obtain ⟨b₀, h₀, rfl⟩ := map_after_eq_ok h
    obtain ⟨b', hb', hopen'⟩ := ih h₀ hopen (position' + 1 + d.utf8Size)
    rw [List.cons_append, List.cons_append, quotedBody.eq_def]
    simp only [hquote, hslash, Bool.false_eq_true, if_false, if_true, hb']
    exact ⟨_, rfl, hopen'⟩
  | case5 position c t hquote hslash hbreak ih =>
    obtain ⟨b₀, h₀, rfl⟩ := map_after_eq_ok h
    obtain ⟨b', hb', hopen'⟩ := ih h₀ hopen (position' + 1)
    rw [List.cons_append, quotedBody.eq_def]
    simp only [hquote, hslash, hbreak, Bool.false_eq_true, if_false, if_true, hb']
    exact ⟨_, rfl, hopen'⟩
  | case6 => cases h
  | case7 position c t hquote hslash hbreak hrefuses ih =>
    obtain ⟨b₀, h₀, rfl⟩ := map_after_eq_ok h
    obtain ⟨b', hb', hopen'⟩ := ih h₀ hopen (position' + c.utf8Size)
    rw [List.cons_append, quotedBody.eq_def]
    simp only [hquote, hslash, hbreak, hrefuses, Bool.false_eq_true, if_false, hb']
    exact ⟨_, rfl, hopen'⟩

/-- A comment that is open takes in a semicolon behind it. -/
theorem exists_commentBody_concat {depth : Nat} {t : Text} {b : TokenBody}
    (h : commentBody .parseHeader position depth t = .ok b) (hopen : b.closed = false)
    (position' : Nat) :
    ∃ b', commentBody .parseHeader position' depth (t ++ [';']) = .ok b' ∧ b'.closed = false := by
  -- the comment ends only where it is closed, so each case puts the character in front
  fun_induction commentBody .parseHeader position depth t generalizing b position' with
  | case1 => exact ⟨_, rfl, rfl⟩
  | case2 position depth c hslash =>
    rw [List.singleton_append, commentBody.eq_def]
    simp only [hslash, if_true]
    exact ⟨_, rfl, rfl⟩
  | case3 position depth c hslash d t ih =>
    obtain ⟨b₀, h₀, rfl⟩ := map_after_eq_ok h
    obtain ⟨b', hb', hopen'⟩ := ih h₀ hopen (position' + 1 + d.utf8Size)
    rw [List.cons_append, List.cons_append, commentBody.eq_def]
    simp only [hslash, if_true, hb']
    exact ⟨_, rfl, hopen'⟩
  | case4 position depth c t hslash hleft ih =>
    obtain ⟨b₀, h₀, rfl⟩ := map_after_eq_ok h
    obtain ⟨b', hb', hopen'⟩ := ih h₀ hopen (position' + 1)
    rw [List.cons_append, commentBody.eq_def]
    simp only [hslash, hleft, Bool.false_eq_true, if_false, if_true, hb']
    exact ⟨_, rfl, hopen'⟩
  | case5 =>
    cases h
    cases hopen
  | case6 position depth c t hslash hleft hright hdepth ih =>
    obtain ⟨b₀, h₀, rfl⟩ := map_after_eq_ok h
    obtain ⟨b', hb', hopen'⟩ := ih h₀ hopen (position' + 1)
    rw [List.cons_append, commentBody.eq_def]
    simp only [hslash, hleft, hright, hdepth, Bool.false_eq_true, if_false, if_true, hb']
    exact ⟨_, rfl, hopen'⟩
  | case7 position depth c t hslash hleft hright hbreak ih =>
    obtain ⟨b₀, h₀, rfl⟩ := map_after_eq_ok h
    obtain ⟨b', hb', hopen'⟩ := ih h₀ hopen (position' + 1)
    rw [List.cons_append, commentBody.eq_def]
    simp only [hslash, hleft, hright, hbreak, Bool.false_eq_true, if_false, if_true, hb']
    exact ⟨_, rfl, hopen'⟩
  | case8 => cases h
  | case9 position depth c t hslash hleft hright hbreak hrefuses ih =>
    obtain ⟨b₀, h₀, rfl⟩ := map_after_eq_ok h
    obtain ⟨b', hb', hopen'⟩ := ih h₀ hopen (position' + c.utf8Size)
    rw [List.cons_append, commentBody.eq_def]
    simp only [hslash, hleft, hright, hbreak, hrefuses, Bool.false_eq_true, if_false, hb']
    exact ⟨_, rfl, hopen'⟩

/-! ### Tokens -/

theorem exists_tokenBody_concat {c : Char} {t : Text} {b : TokenBody}
    (h : tokenBody .parseHeader position c t = .ok b) (hopen : b.closed = false)
    (position' : Nat) :
    ∃ b', tokenBody .parseHeader position' c (t ++ [';']) = .ok b' ∧ b'.closed = false := by
  rcases closed_or_of_tokenBody h with hclosed | ⟨-, hkind | hkind⟩
  · rw [hclosed] at hopen
    cases hopen
  · rw [tokenBody, hkind] at h ⊢
    obtain ⟨b₀, h₀, rfl⟩ := map_after_eq_ok h
    obtain ⟨b', hb', hopen'⟩ :=
      exists_quotedBody_concat (bind_closedOr_eq_ok h₀) hopen (position' + 1)
    simp only [hb']
    exact ⟨b'.after [] [c], by simp [Except.bind, TokenBody.closedOr, Except.map], hopen'⟩
  · rw [tokenBody, hkind] at h ⊢
    obtain ⟨b₀, h₀, rfl⟩ := map_after_eq_ok h
    obtain ⟨b', hb', hopen'⟩ :=
      exists_commentBody_concat (bind_closedOr_eq_ok h₀) hopen (position' + 1)
    simp only [hb']
    exact ⟨b'.after [] [c], by simp [Except.bind, TokenBody.closedOr, Except.map], hopen'⟩

/-- No token comes after one that is open. -/
theorem eq_nil_of_open {s : Strictness} (h : tokensFrom s position x = .ok (u :: ts))
    (hopen : u.closed = false) : ts = [] := by
  obtain ⟨c, t, b, -, hb, rfl, hrest⟩ := exists_of_tokensFrom_cons h
  rw [rest_of_tokenBody hb hopen, List.dropWhile_nil, tokensFrom] at hrest
  exact (Except.ok.inj hrest).symm

/-- Tokens that another one comes after are closed. -/
theorem closed_of_tokensFrom_append {s : Strictness} {us : List Token}
    (h : tokensFrom s position x = .ok (us ++ ts)) (hne : ts ≠ []) :
    ∀ v ∈ us, v.closed = true := by
  induction us generalizing position x with
  | nil => simp
  | cons v us ih =>
    obtain ⟨c, t, b, -, -, -, hrest⟩ := exists_of_tokensFrom_cons h
    refine List.forall_mem_cons.2 ⟨?_, ih hrest⟩
    rw [← Bool.not_eq_false]
    intro hopen
    exact hne (List.append_eq_nil_iff.1 (eq_nil_of_open h hopen)).2

/-- A special character is not left open. -/
theorem closed_of_isSpecial {s : Strictness} (h : tokensFrom s position x = .ok ts) (hu : u ∈ ts)
    {c : Char} (hc : u.isSpecial c = true) : u.closed = true := by
  obtain ⟨d, t, b, -, hb, hread⟩ := exists_tokenBody_of_mem h hu
  have hkind : TokenKind.ofFirst d = .special c := by
    rw [← Token.isSpecial_iff.1 hc, hread]
  rw [hread]
  rcases closed_or_of_tokenBody hb with hclosed | ⟨-, hk | hk⟩
  · exact hclosed
  · cases hkind.symm.trans hk
  · cases hkind.symm.trans hk

/-- What is left open begins with a special character. -/
theorem isSpecial_head_of_open {s : Strictness} (h : tokensFrom s position x = .ok (u :: ts))
    (hopen : u.closed = false) : ∃ c raw, u.raw = c :: raw ∧ isSpecial c = true := by
  obtain ⟨c, t, b, -, hb, rfl, -⟩ := exists_of_tokensFrom_cons h
  have hraw := raw_append_rest_of_tokenBody hb
  rw [rest_of_tokenBody hb hopen, List.append_nil] at hraw
  refine ⟨c, t, hraw, ?_⟩
  rw [← Bool.not_eq_false, ← ofFirst_eq_atom_iff]
  rcases closed_or_of_tokenBody hb with hclosed | ⟨-, hkind | hkind⟩
  · exact absurd hclosed (by simpa using hopen)
  · simp [hkind]
  · simp [hkind]

/-- A semicolon behind a token that is open is read as part of it. -/
theorem exists_tokensFrom_concat_of_open (h : tokensFrom .parseHeader position x = .ok (u :: ts))
    (hopen : u.closed = false) (position' : Nat) :
    ∃ v, tokensFrom .parseHeader position' (u.raw ++ [';']) = .ok [v] ∧ v.kind = u.kind := by
  obtain ⟨c, t, b, -, hb, rfl, -⟩ := exists_of_tokensFrom_cons h
  obtain ⟨b', hb', hopen'⟩ := exists_tokenBody_concat hb hopen position'
  have hraw := raw_append_rest_of_tokenBody hb
  rw [rest_of_tokenBody hb hopen, List.append_nil] at hraw
  rw [hraw, List.cons_append, tokensFrom_cons hb' rfl, rest_of_tokenBody hb' hopen',
    List.dropWhile_nil, tokensFrom]
  exact ⟨_, rfl, rfl⟩

end InternetMail
