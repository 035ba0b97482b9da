import InternetMail.Proofs.Address.Joining

/-!
# Tokens of incoming mail

In incoming mail no character is refused, and a quoted string or a comment that is left open ends
with the text. So the tokens of a text can be read whatever it is, but for one thing: a domain
literal that is begun and not closed. `tokenize_parseHeader_eq_error_iff` says so with the octet at
which that literal begins.

A domain literal is the exception since it cannot be put right: what is left open up to the end of
the text would swallow all addresses behind it. The literal that is begun and not closed is the last
token that is begun, and all tokens in front of it are read. So the fault says where the first part
of the text ends, and that part has tokens of its own, the same as in the whole
(`exists_of_tokensFrom_eq_error`).
-/

namespace InternetMail

/-! ### The insides of tokens -/

/-- Whether the text closes a domain literal that was begun before it: it has a closing bracket that
no backslash escapes. -/
def closesLiteral : Text → Bool
  | [] => false
  | c :: t =>
    if c == ']' then true
    else if c == '\\' then
      match t with
      | [] => false
      | _ :: t => closesLiteral t
    else closesLiteral t

theorem refuses_parseHeader (c : Char) : Strictness.parseHeader.refuses c = false := rfl

/-- A quoted string is read, closed or not. -/
theorem exists_quotedBody_parseHeader (position : Nat) (t : Text) :
    ∃ b, quotedBody .parseHeader position t = .ok b := by
  fun_induction quotedBody .parseHeader position t with
  | case4 | case5 | case7 =>
    rename_i ih
    obtain ⟨b, hb⟩ := ih
    exact ⟨_, map_eq_ok_iff.2 ⟨b, hb, rfl⟩⟩
  | case6 _ _ _ _ _ _ hrefuses => cases hrefuses
  | _ => exact ⟨_, rfl⟩

/-- So is a comment. -/
theorem exists_commentBody_parseHeader (position depth : Nat) (t : Text) :
    ∃ b, commentBody .parseHeader position depth t = .ok b := by
  fun_induction commentBody .parseHeader position depth t with
  | case3 | case4 | case6 | case7 | case9 =>
    rename_i ih
    obtain ⟨b, hb⟩ := ih
    exact ⟨_, map_eq_ok_iff.2 ⟨b, hb, rfl⟩⟩
  | case8 _ _ _ _ _ _ _ _ hrefuses => cases hrefuses
  | _ => exact ⟨_, rfl⟩

/-- And so is an atom. -/
theorem exists_atomBody_parseHeader (position : Nat) (t : Text) :
    ∃ b, atomBody .parseHeader position t = .ok b := by
  fun_induction atomBody .parseHeader position t with
  | case4 _ _ _ _ _ ih =>
    obtain ⟨b, hb⟩ := ih
    exact ⟨_, map_eq_ok_iff.2 ⟨b, hb, rfl⟩⟩
  | case3 _ _ _ _ hrefuses => cases hrefuses
  | _ => exact ⟨_, rfl⟩

/-- The inside of a domain literal is read, and it is closed if the text closes it. -/
theorem exists_literalBody_parseHeader (position : Nat) (t : Text) :
    ∃ b, literalBody .parseHeader position t = .ok b ∧ b.closed = closesLiteral t := by
  fun_induction literalBody .parseHeader position t with
  | case1 => exact ⟨_, rfl, rfl⟩
  | case2 position c t hclose =>
    rw [closesLiteral.eq_def]
    exact ⟨_, rfl, by simp [hclose]⟩
  | case3 position c t hclose hopen => simp at hopen
  | case4 position c hclose hopen hslash =>
    rw [closesLiteral.eq_def]
    exact ⟨_, rfl, by simp [hclose, hslash]⟩
  | case5 position c hclose hopen hslash d t ih =>
    obtain ⟨b, hb, hclosed⟩ := ih
    rw [closesLiteral.eq_def]
    refine ⟨_, map_eq_ok_iff.2 ⟨b, hb, rfl⟩, ?_⟩
    simpa [TokenBody.after, hclose, hslash] using hclosed
  | case6 position c t hclose hopen hslash | case8 position c t hclose hopen hslash =>
    rename_i ih
    obtain ⟨b, hb, hclosed⟩ := ih
    rw [closesLiteral.eq_def]
    refine ⟨_, map_eq_ok_iff.2 ⟨b, hb, rfl⟩, ?_⟩
    simpa [TokenBody.after, hclose, hslash] using hclosed
  | case7 _ _ _ _ _ _ _ hrefuses => cases hrefuses

/-- What stays open is open up to the end of the text. -/
theorem rest_of_quotedBody {s : Strictness} {position : Nat} {t : Text} {b : TokenBody}
    (h : quotedBody s position t = .ok b) (hopen : b.closed = false) : b.rest = [] := by
  fun_induction quotedBody s position t generalizing b with
  | case4 | case5 | case7 =>
    rename_i ih
    obtain ⟨b₀, h₀, rfl⟩ := map_after_eq_ok h
    rw [TokenBody.rest_after]
    exact ih h₀ hopen
  | _ => cases h <;> first | rfl | cases hopen

/-- A comment that is left open goes on to the end. -/
theorem rest_of_commentBody {s : Strictness} {position depth : Nat} {t : Text} {b : TokenBody}
    (h : commentBody s position depth t = .ok b) (hopen : b.closed = false) : b.rest = [] := by
  fun_induction commentBody s position depth t generalizing b with
  | case3 | case4 | case6 | case7 | case9 =>
    rename_i ih
    obtain ⟨b₀, h₀, rfl⟩ := map_after_eq_ok h
    rw [TokenBody.rest_after]
    exact ih h₀ hopen
  | _ => cases h <;> first | rfl | cases hopen

/-! ### Tokens -/

/-- So does whatever is left open. -/
theorem rest_of_tokenBody {s : Strictness} {position : Nat} {c : Char} {t : Text} {b : TokenBody}
    (h : tokenBody s position c t = .ok b) (hopen : b.closed = false) : b.rest = [] := by
  rcases closed_or_of_tokenBody h with hclosed | ⟨-, hkind | hkind⟩
  · rw [hclosed] at hopen
    cases hopen
  · rw [tokenBody, hkind] at h
    obtain ⟨b₀, h₀, rfl⟩ := map_after_eq_ok h
    rw [TokenBody.rest_after]
    exact rest_of_quotedBody (bind_closedOr_eq_ok h₀) hopen
  · rw [tokenBody, hkind] at h
    obtain ⟨b₀, h₀, rfl⟩ := map_after_eq_ok h
    rw [TokenBody.rest_after]
    exact rest_of_commentBody (bind_closedOr_eq_ok h₀) hopen

/-- Nothing but an opening bracket begins a domain literal. -/
theorem ofFirst_eq_domainLiteral_iff {c : Char} :
    TokenKind.ofFirst c = .domainLiteral ↔ c = '[' := by
  constructor
  · unfold TokenKind.ofFirst
    split
    · simp
    split
    · simp
    split
    · simp_all
    split <;> simp
  · rintro rfl
    rfl

/-- Only a domain literal is refused in incoming mail, and only if it is not closed. -/
theorem tokenBody_parseHeader_eq_error_iff (position : Nat) {c : Char} {t : Text}
    {f : SyntaxFault} :
    tokenBody .parseHeader position c t = .error f ↔
      c = '[' ∧ closesLiteral t = false ∧ f = ⟨.unterminatedDomainLiteral, position⟩ := by
  rw [← ofFirst_eq_domainLiteral_iff, tokenBody]
  split
  · obtain ⟨b, hb⟩ := exists_quotedBody_parseHeader (position + 1) t
    simp_all [Except.bind, TokenBody.closedOr, Except.map]
  · obtain ⟨b, hb⟩ := exists_commentBody_parseHeader (position + 1) 0 t
    simp_all [Except.bind, TokenBody.closedOr, Except.map]
  · rename_i hkind
    obtain ⟨b, hb, hclosed⟩ := exists_literalBody_parseHeader (position + 1) t
    rw [hb, ← hclosed]
    cases hopen : b.closed with
    | true => simp [Except.bind, TokenBody.closedOr, hopen, Except.map]
    | false =>
      simp only [Except.bind, TokenBody.closedOr, hopen, Bool.or_self, Bool.false_eq_true, if_false,
        Except.map, Except.error.injEq, hkind, true_and]
      exact eq_comm
  · simp_all
  · obtain ⟨b, hb⟩ := exists_atomBody_parseHeader (position + c.utf8Size) t
    simp_all [refuses_parseHeader, Except.map]

/-! ### Texts -/

/-- A domain literal begins where a token can and is not closed; the fault is where it begins. -/
inductive OpenLiteral : Text → SyntaxFault → Prop
  | intro {before body : Text} {ts : List Token} : tokenize .parseHeader before = .ok ts →
      (∀ u ∈ ts, u.closed = true) → closesLiteral body = false →
      OpenLiteral (before ++ '[' :: body) ⟨.unterminatedDomainLiteral, Text.utf8Size before⟩

/-- An atom that ends in front of a text ends in front of a beginning of it. -/
theorem EndsAtom.left_of_append {x y : Text} (h : EndsAtom (x ++ y)) : EndsAtom x := by
  cases x with
  | nil => simp [EndsAtom]
  | cons c x => exact h

/-- The tokens in front of a domain literal that is not closed are read as if nothing came after
them. -/
theorem exists_of_tokensFrom_eq_error {position : Nat} {t : Text} {f : SyntaxFault}
    (h : tokensFrom .parseHeader position t = .error f) :
    ∃ before body ts, t = before ++ '[' :: body ∧
      tokensFrom .parseHeader position before = .ok ts ∧ (∀ u ∈ ts, u.closed = true) ∧
      closesLiteral body = false ∧
      f = ⟨.unterminatedDomainLiteral, position + Text.utf8Size before⟩ := by
  fun_induction tokensFrom .parseHeader position t with
  | case1 => cases h
  | case2 position c t fault hbody =>
    cases h
    obtain ⟨rfl, hopen, rfl⟩ := (tokenBody_parseHeader_eq_error_iff position).1 hbody
    exact ⟨[], t, [], rfl, by rw [tokensFrom], by simp, hopen, rfl⟩
  | case3 position c t b hbody _ token =>
    rename_i ih
    obtain ⟨before, body, ts, hdrop, hts, hclosed, hopen, hf⟩ := ih (map_eq_error_iff.1 h)
    have hbodyClosed : b.closed = true := by
      rw [← Bool.not_eq_false]
      intro hopen
      rw [rest_of_tokenBody hbody hopen, List.dropWhile_nil] at hdrop
      simp at hdrop
    -- what is left of the text behind the token, up to the literal
    have hbrest : b.rest = token.gap ++ before ++ '[' :: body := by
      rw [List.append_assoc, ← hdrop, List.takeWhile_append_dropWhile]
    obtain ⟨raw, hraw, hread⟩ := exists_raw_of_tokenBody hbody hbodyClosed
    have hhead : ∀ d ∈ before.head?, isBlankChar d = false := by
      intro d hd
      refine head_dropWhile_isBlankChar b.rest d ?_
      rw [hdrop, List.head?_append, hd]
      rfl
    have hgap : ∀ d ∈ token.gap, isBlankChar d = true := fun d hd ↦ List.mem_takeWhile_imp hd
    obtain ⟨htake, hdrop'⟩ := takeWhile_gap_append hgap hhead
    have hbody' := hread position (token.gap ++ before) fun hatom ↦ by
      have hends := endsAtom_rest_of_tokenBody hbody hatom
      rw [hbrest] at hends
      exact hends.left_of_append
    refine ⟨b.raw ++ token.gap ++ before, body, token :: ts, ?_, ?_,
      List.forall_mem_cons.2 ⟨hbodyClosed, hclosed⟩, hopen, ?_⟩
    · rw [← raw_append_rest_of_tokenBody hbody, hbrest]
      simp
    · have htoken : token = ⟨.ofFirst c, b.value, b.raw, position,
          (token.gap ++ before).takeWhile isBlankChar, b.closed⟩ := by
        rw [htake]
      rw [hraw, List.cons_append, List.cons_append, List.append_assoc,
        tokensFrom_cons hbody' htoken, hdrop', hts]
      rfl
    · rw [hf]
      simp [Token.next, Token.stop, token, Nat.add_assoc]

/-- If the first token cannot be read, none is. -/
theorem tokensFrom_of_tokenBody_eq_error {s : Strictness} {position : Nat} {c : Char} {t : Text}
    {f : SyntaxFault} (h : tokenBody s position c t = .error f) :
    tokensFrom s position (c :: t) = .error f := by
  rw [tokensFrom]
  split
  · rename_i hbody
    rw [h] at hbody
    cases hbody
    rfl
  · rename_i hbody
    rw [h] at hbody
    cases hbody

/-- **In incoming mail the tokens of a text are read unless it has a domain literal that is begun
and not closed.** -/
theorem tokenize_parseHeader_eq_error_iff {t : Text} {f : SyntaxFault} :
    tokenize .parseHeader t = .error f ↔ OpenLiteral t f := by
  constructor
  · intro h
    obtain ⟨lead, x, rfl, hlead, hx⟩ := exists_blanks_append t
    rw [tokenize_append hlead hx] at h
    -- all tokens in front of the open literal were read
    obtain ⟨before, body, ts, rfl, hts, hclosed, hopen, rfl⟩ := exists_of_tokensFrom_eq_error h
    have hhead : ∀ c ∈ before.head?, isBlankChar c = false := by
      intro c hc
      refine hx c ?_
      rw [List.head?_append, hc]
      rfl
    rw [← tokenize_append hlead hhead] at hts
    rw [← List.append_assoc, ← Text.utf8Size_append]
    exact .intro hts hclosed hopen
  · rintro ⟨hts, hclosed, hopen⟩
    rename_i before body ts
    obtain ⟨lead, x, rfl, hlead, hx⟩ := exists_blanks_append before
    have hhead : ∀ c ∈ (x ++ '[' :: body).head?, isBlankChar c = false := by
      cases x with
      | nil => simp [isBlankChar]
      | cons e x => simpa using hx
    have hliteral (position : Nat) := tokensFrom_of_tokenBody_eq_error
      ((tokenBody_parseHeader_eq_error_iff position).2 ⟨rfl, hopen, rfl⟩)
    rw [tokenize_append hlead hx] at hts
    rw [List.append_assoc, tokenize_append hlead hhead, Text.utf8Size_append]
    by_cases hnil : x = []
    · subst hnil
      exact hliteral _
    -- the bracket ends the last of them
    · have hends : EndsAtom ([] ++ '[' :: body) := by simp [EndsAtom, isSpecial]
      obtain ⟨us, u, rfl, hu⟩ := tokensFrom_append hts hclosed hnil 0 (by simp)
        (by simp [isBlankChar]) hends
      simp only [List.append_nil, List.nil_append, Nat.add_zero] at hu
      rw [hu, hliteral]
      rfl

end InternetMail
