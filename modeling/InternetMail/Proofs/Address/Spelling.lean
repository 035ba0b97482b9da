import InternetMail.Proofs.Address.Kinds
import InternetMail.Proofs.Address.Tiling

/-!
# Reading written tokens again

A token of the strict reading is read from its own text, wherever that stands and whatever the
reading of it was after: only an atom needs something behind it that does not go on with it
(`Token.Spelled`). So tokens that are written one after another, with their blanks, are read as
these tokens again, if no two atoms stand side by side without a blank. They have the same kinds,
values and texts, and stand at other places (`tokensFrom_writtenOf`).

The tokens of a text are of this sort (`wellSpelled_of_tokenize`).

Reading from a text of its own is what each of the lemmas on a kind of token says: the text that was
used up, with any rest behind it and from any octet, is used up again, and the rest is left
(`quotedBody_raw_append` and its kin). For what has an end of its own that holds of every rest, and
the token has to be closed. An atom has none, and ends where its rest begins with a blank, a special
character or not at all (`EndsAtom`).

The blanks in front of the first token are dropped before there is any token, so a written list
begins with none (`WellSpelled.head_writtenOf`). Where two lists of tokens meet, only the last of
the one and the first of the other have to be looked at (`WellSpelled.append`).
-/

namespace InternetMail

/-! ### The insides of tokens -/

/-- Whether an atom that stands before the text would end there. -/
def EndsAtom (t : Text) : Prop :=
  ∀ c ∈ t.head?, (isBlankChar c || isSpecial c) = true

/-- A closed quoted string is read from its own text. -/
theorem quotedBody_raw_append {s : Strictness} {position : Nat} {t : Text} {b : TokenBody}
    (h : quotedBody s position t = .ok b) (hclosed : b.closed = true) (position' : Nat)
    (rest : Text) : quotedBody s position' (b.raw ++ rest) = .ok { b with rest := rest } := by
  fun_induction quotedBody s position t generalizing b position' with
  | case1 | case3 =>
    -- the text ends first, and the string is not closed
    cases h
    cases hclosed
  | case2 position c t hc =>
    cases h
    rw [List.cons_append, quotedBody.eq_def]
    simp [hc]
  | case4 position c hquote hslash d t ih =>
    obtain ⟨b₀, h₀, rfl⟩ := map_after_eq_ok h
    have := ih h₀ hclosed (position' + 1 + d.utf8Size)
    rw [TokenBody.raw_after, List.cons_append, quotedBody.eq_def]
    simp [hquote, hslash, this, TokenBody.after, Except.map]
  | case5 position c t hquote hslash hbreak ih =>
    obtain ⟨b₀, h₀, rfl⟩ := map_after_eq_ok h
    have := ih h₀ hclosed (position' + 1)
    rw [TokenBody.raw_after, List.cons_append, quotedBody.eq_def]
    simp [hquote, hslash, hbreak, this, TokenBody.after, Except.map]
  | case6 => cases h
  | case7 position c t hquote hslash hbreak hrefuses ih =>
    obtain ⟨b₀, h₀, rfl⟩ := map_after_eq_ok h
    have := ih h₀ hclosed (position' + c.utf8Size)
    rw [TokenBody.raw_after, List.cons_append, quotedBody.eq_def]
    simp [hquote, hslash, hbreak, hrefuses, this, TokenBody.after, Except.map]

/-- A closed comment is read from its own text. -/
theorem commentBody_raw_append {s : Strictness} {position depth : Nat} {t : Text} {b : TokenBody}
    (h : commentBody s position depth t = .ok b) (hclosed : b.closed = true) (position' : Nat)
    (rest : Text) :
    commentBody s position' depth (b.raw ++ rest) = .ok { b with rest := rest } := by
  fun_induction commentBody s position depth t generalizing b position' with
  | case1 | case2 =>
    cases h
    cases hclosed
  | case3 position depth c hslash d t ih =>
    obtain ⟨b₀, h₀, rfl⟩ := map_after_eq_ok h
    have := ih h₀ hclosed (position' + 1 + d.utf8Size)
    rw [TokenBody.raw_after, List.cons_append, commentBody.eq_def]
    simp [hslash, this, TokenBody.after, Except.map]
  | case4 position depth c t hslash hopen ih =>
    obtain ⟨b₀, h₀, rfl⟩ := map_after_eq_ok h
    have := ih h₀ hclosed (position' + 1)
    rw [TokenBody.raw_after, List.cons_append, commentBody.eq_def]
    simp [hslash, hopen, this, TokenBody.after, Except.map]
  | case5 position c t hslash hopen hclose =>
    -- the outermost comment ends; an inner one goes on at one level less
    cases h
    rw [List.cons_append, commentBody.eq_def]
    simp [hslash, hopen, hclose]
  | case6 position depth c t hslash hopen hclose hdepth ih =>
    obtain ⟨b₀, h₀, rfl⟩ := map_after_eq_ok h
    have := ih h₀ hclosed (position' + 1)
    rw [TokenBody.raw_after, List.cons_append, commentBody.eq_def]
    simp [hslash, hopen, hclose, hdepth, this, TokenBody.after, Except.map]
  | case7 position depth c t hslash hopen hclose hbreak ih =>
    obtain ⟨b₀, h₀, rfl⟩ := map_after_eq_ok h
    have := ih h₀ hclosed (position' + 1)
    rw [TokenBody.raw_after, List.cons_append, commentBody.eq_def]
    simp [hslash, hopen, hclose, hbreak, this, TokenBody.after, Except.map]
  | case8 => cases h
  | case9 position depth c t hslash hopen hclose hbreak hrefuses ih =>
    obtain ⟨b₀, h₀, rfl⟩ := map_after_eq_ok h
    have := ih h₀ hclosed (position' + c.utf8Size)
    rw [TokenBody.raw_after, List.cons_append, commentBody.eq_def]
    simp [hslash, hopen, hclose, hbreak, hrefuses, this, TokenBody.after, Except.map]

/-- A closed domain literal is read from its own text. -/
theorem literalBody_raw_append {s : Strictness} {position : Nat} {t : Text} {b : TokenBody}
    (h : literalBody s position t = .ok b) (hclosed : b.closed = true) (position' : Nat)
    (rest : Text) : literalBody s position' (b.raw ++ rest) = .ok { b with rest := rest } := by
  fun_induction literalBody s position t generalizing b position' with
  | case1 | case4 =>
    cases h
    cases hclosed
  | case2 position c t hc =>
    cases h
    rw [List.cons_append, literalBody.eq_def]
    simp [hc]
  | case3 | case7 => cases h
  | case5 position c hclose hopen hslash d t ih =>
    obtain ⟨b₀, h₀, rfl⟩ := map_after_eq_ok h
    have := ih h₀ hclosed (position' + 1 + d.utf8Size)
    simp only [Bool.not_eq_true] at hopen
    rw [TokenBody.raw_after, List.cons_append, literalBody.eq_def]
    simp [hclose, hopen, hslash, this, TokenBody.after, Except.map]
  | case6 position c t hclose hopen hslash hbreak ih =>
    obtain ⟨b₀, h₀, rfl⟩ := map_after_eq_ok h
    have := ih h₀ hclosed (position' + 1)
    simp only [Bool.not_eq_true] at hopen
    rw [TokenBody.raw_after, List.cons_append, literalBody.eq_def]
    simp [hclose, hopen, hslash, hbreak, this, TokenBody.after, Except.map]
  | case8 position c t hclose hopen hslash hbreak hrefuses ih =>
    obtain ⟨b₀, h₀, rfl⟩ := map_after_eq_ok h
    have := ih h₀ hclosed (position' + c.utf8Size)
    simp only [Bool.not_eq_true] at hopen
    rw [TokenBody.raw_after, List.cons_append, literalBody.eq_def]
    simp [hclose, hopen, hslash, hbreak, hrefuses, this, TokenBody.after, Except.map]

/-- The rest of an atom is read from its own text, if that ends there. -/
theorem atomBody_raw_append {s : Strictness} {position : Nat} {t : Text} {b : TokenBody}
    (h : atomBody s position t = .ok b) (position' : Nat) {rest : Text} (hrest : EndsAtom rest) :
    atomBody s position' (b.raw ++ rest) = .ok { b with rest := rest } := by
  fun_induction atomBody s position t generalizing b position' with
  | case1 | case2 =>
    cases h
    cases rest with
    | nil => simp [atomBody]
    | cons c rest =>
      have hc := hrest c rfl
      rw [List.nil_append, atomBody, if_pos hc]
  | case3 => cases h
  | case4 position c t hends hrefuses ih =>
    obtain ⟨b₀, h₀, rfl⟩ := map_after_eq_ok h
    have := ih h₀ (position' + c.utf8Size)
    simp only [Bool.not_eq_true] at hends
    simp [atomBody, hends, hrefuses, this, TokenBody.after, Except.map]

/-- Where an atom ends, something begins that cannot be in one, or nothing. -/
theorem endsAtom_rest_of_atomBody {s : Strictness} {position : Nat} {t : Text} {b : TokenBody}
    (h : atomBody s position t = .ok b) : EndsAtom b.rest := by
  fun_induction atomBody s position t generalizing b with
  | case1 =>
    cases h
    simp [EndsAtom]
  | case2 position c t hends =>
    cases h
    simpa [EndsAtom] using hends
  | case3 => cases h
  | case4 position c t hends hrefuses ih =>
    obtain ⟨b₀, h₀, rfl⟩ := map_after_eq_ok h
    rw [TokenBody.rest_after]
    exact ih h₀

/-! ### Tokens -/

/-- The token is what the strict reading makes of its text, wherever that stands. -/
def Token.Spelled (t : Token) : Prop :=
  ∃ c raw, t.raw = c :: raw ∧ isBlankChar c = false ∧ TokenKind.ofFirst c = t.kind ∧
    ∀ position rest, (t.kind = .atom → EndsAtom rest) →
      tokenBody .strict position c (raw ++ rest) = .ok ⟨t.value, t.raw, rest, t.closed⟩

/-- A token is an atom if its first character is not special. It may be one that an atom cannot
have, but then there is no token. -/
theorem ofFirst_eq_atom_iff {c : Char} : TokenKind.ofFirst c = .atom ↔ isSpecial c = false := by
  unfold TokenKind.ofFirst
  split
  · simp_all [isSpecial]
  split
  · simp_all [isSpecial]
  split
  · simp_all [isSpecial]
  split <;> simp_all

/-- Where nothing may be left open, a body that is read is a closed one. -/
theorem bind_closedOr_strict_eq_ok_iff {x : Except SyntaxFault TokenBody} {fault : SyntaxFault}
    {b : TokenBody} :
    x.bind (·.closedOr fault false) = .ok b ↔ x = .ok b ∧ b.closed = true := by
  cases x with
  | error e => simp [Except.bind]
  | ok b₀ =>
    simp only [Except.bind, TokenBody.closedOr, Bool.or_false, Except.ok.injEq]
    split
    · simp only [Except.ok.injEq, iff_self_and]
      rintro rfl
      assumption
    · simp only [reduceCtorEq, false_iff, not_and]
      rintro rfl
      assumption

theorem closedOr_of_closed {b : TokenBody} (h : b.closed = true) (fault : SyntaxFault)
    (mayBeOpen : Bool) : b.closedOr fault mayBeOpen = .ok b := by
  simp [TokenBody.closedOr, h]

/-- A token that is closed is read from its own text, if its inside `read` is. -/
theorem exists_raw_of_closed (read : Nat → Text → Except SyntaxFault TokenBody)
    (hread : ∀ position t b, read position t = .ok b → b.closed = true →
      ∀ position' rest, read position' (b.raw ++ rest) = .ok { b with rest := rest })
    {position : Nat} {c : Char} {t value : Text} {fault : SyntaxFault} {mayBeOpen : Bool}
    {b : TokenBody} (hclosed : b.closed = true)
    (h : ((read position t).bind (·.closedOr fault mayBeOpen)).map (·.after value [c]) = .ok b) :
    ∃ raw, b.raw = c :: raw ∧ ∀ position' fault' rest,
      ((read position' (raw ++ rest)).bind (·.closedOr fault' mayBeOpen)).map (·.after value [c]) =
        .ok { b with rest := rest } := by
  obtain ⟨b₀, h₀, rfl⟩ := map_after_eq_ok h
  have hclosed₀ : b₀.closed = true := hclosed
  refine ⟨b₀.raw, rfl, fun position' fault' rest ↦ ?_⟩
  rw [hread _ _ _ (bind_closedOr_eq_ok h₀) hclosed₀ position' rest, Except.bind,
    closedOr_of_closed (by exact hclosed₀)]
  rfl

/-- What is read of a closed token is read from its own text. -/
theorem exists_raw_of_tokenBody {s : Strictness} {position : Nat} {c : Char} {t : Text}
    {b : TokenBody} (h : tokenBody s position c t = .ok b) (hclosed : b.closed = true) :
    ∃ raw, b.raw = c :: raw ∧ ∀ position' rest,
      (TokenKind.ofFirst c = .atom → EndsAtom rest) →
        tokenBody s position' c (raw ++ rest) = .ok { b with rest := rest } := by
  unfold tokenBody at h ⊢
  split at h
  · obtain ⟨raw, hraw, hread⟩ := exists_raw_of_closed (quotedBody s)
      (fun _ _ _ ↦ quotedBody_raw_append) hclosed h
    exact ⟨raw, hraw, fun position' rest _ ↦ hread (position' + 1) _ rest⟩
  · obtain ⟨raw, hraw, hread⟩ := exists_raw_of_closed (commentBody s · 0)
      (fun _ _ _ ↦ commentBody_raw_append) hclosed h
    exact ⟨raw, hraw, fun position' rest _ ↦ hread (position' + 1) _ rest⟩
  · obtain ⟨raw, hraw, hread⟩ := exists_raw_of_closed (literalBody s)
      (fun _ _ _ ↦ literalBody_raw_append) hclosed h
    exact ⟨raw, hraw, fun position' rest _ ↦ hread (position' + 1) _ rest⟩
  · cases h
    exact ⟨[], rfl, fun _ _ _ ↦ rfl⟩
  · -- an atom is not closed by anything, so what comes after it has to end it
    rename_i hkind
    split at h
    · cases h
    · obtain ⟨b₀, h₀, rfl⟩ := map_after_eq_ok h
      refine ⟨b₀.raw, rfl, fun position' rest hrest ↦ ?_⟩
      rw [if_neg ‹_›, atomBody_raw_append h₀ _ (hrest hkind)]
      rfl

/-- An atom is never left open. -/
theorem closed_of_atomBody {s : Strictness} {position : Nat} {t : Text} {b : TokenBody}
    (h : atomBody s position t = .ok b) : b.closed = true := by
  fun_induction atomBody s position t generalizing b with
  | case4 position c t hends hrefuses ih =>
    obtain ⟨b₀, h₀, rfl⟩ := map_after_eq_ok h
    show b₀.closed = true
    exact ih h₀
  | _ => cases h <;> rfl

/-- What is left open is so because it may be. -/
theorem closed_or_of_bind_closedOr {x : Except SyntaxFault TokenBody} {fault : SyntaxFault}
    {mayBeOpen : Bool} {b : TokenBody} (h : x.bind (·.closedOr fault mayBeOpen) = .ok b) :
    b.closed = true ∨ mayBeOpen = true := by
  cases mayBeOpen with
  | true => exact Or.inr rfl
  | false => exact Or.inl (bind_closedOr_strict_eq_ok_iff.1 h).2

/-- Only quoted strings and comments can be left open, and only in incoming mail. -/
theorem closed_or_of_tokenBody {s : Strictness} {position : Nat} {c : Char} {t : Text}
    {b : TokenBody} (h : tokenBody s position c t = .ok b) :
    b.closed = true ∨ s = .parseHeader ∧
      (TokenKind.ofFirst c = .quotedString ∨ TokenKind.ofFirst c = .comment) := by
  unfold tokenBody at h
  split at h
  · obtain ⟨b₀, h₀, rfl⟩ := map_after_eq_ok h
    exact (closed_or_of_bind_closedOr h₀).imp_right fun hs ↦ ⟨eq_of_beq hs, Or.inl ‹_›⟩
  · obtain ⟨b₀, h₀, rfl⟩ := map_after_eq_ok h
    exact (closed_or_of_bind_closedOr h₀).imp_right fun hs ↦ ⟨eq_of_beq hs, Or.inr ‹_›⟩
  · obtain ⟨b₀, h₀, rfl⟩ := map_after_eq_ok h
    exact Or.inl (bind_closedOr_strict_eq_ok_iff.1 h₀).2
  · cases h
    exact Or.inl rfl
  · split at h
    · cases h
    · obtain ⟨b₀, h₀, rfl⟩ := map_after_eq_ok h
      have hclosed : b₀.closed = true := closed_of_atomBody h₀
      exact Or.inl hclosed

/-- Other readings let no token stay open. -/
theorem closed_of_tokenBody {s : Strictness} (hs : s ≠ .parseHeader) {position : Nat} {c : Char}
    {t : Text} {b : TokenBody} (h : tokenBody s position c t = .ok b) : b.closed = true :=
  (closed_or_of_tokenBody h).resolve_right fun hopen ↦ hs hopen.1

/-! ### Lists of tokens -/

/-- Two atoms that stand side by side have a blank between them. -/
def Apart (t u : Token) : Prop :=
  t.kind = .atom → u.kind = .atom → t.gap ≠ []

/-- The tokens are read again from what they are written as. -/
structure WellSpelled (ts : List Token) : Prop where
  spelled : ∀ t ∈ ts, t.Spelled
  blank : ∀ t ∈ ts, ∀ c ∈ t.gap, isBlankChar c = true
  apart : ts.IsChain Apart

/-- The same tokens, one after another from octet `position` on. -/
def placed (position : Nat) : List Token → List Token
  | [] => []
  | t :: ts => { t with start := position } :: placed { t with start := position }.next ts

/-- What is not an atom begins with a special character. -/
theorem exists_raw_of_spelled {t : Token} (h : t.Spelled) (hkind : t.kind ≠ .atom) :
    ∃ c raw, t.raw = c :: raw ∧ isSpecial c = true := by
  obtain ⟨c, raw, hraw, -, hfirst, -⟩ := h
  rw [← hfirst, ne_eq, ofFirst_eq_atom_iff, Bool.not_eq_false] at hkind
  exact ⟨c, raw, hraw, hkind⟩

/-- Blanks in front of a text without any are split off from it. -/
theorem takeWhile_gap_append {gap t : Text} (hgap : ∀ c ∈ gap, isBlankChar c = true)
    (ht : ∀ c ∈ t.head?, isBlankChar c = false) : (gap ++ t).takeWhile isBlankChar = gap ∧
      (gap ++ t).dropWhile isBlankChar = t := by
  rw [List.takeWhile_append_of_pos hgap, List.dropWhile_append_of_pos hgap]
  cases t with
  | nil => simp
  | cons c t => simp [ht c rfl]

/-- No blank is in front of the first token. -/
theorem WellSpelled.head_writtenOf {ts : List Token} (h : WellSpelled ts) :
    ∀ c ∈ (writtenOf ts).head?, isBlankChar c = false := by
  cases ts with
  | nil => simp
  | cons t ts =>
    obtain ⟨c, raw, hraw, hblank, -⟩ := h.spelled t List.mem_cons_self
    simpa [hraw] using hblank

/-- The first token from its body, with the blanks behind it, and then the tokens of the rest. -/
theorem tokensFrom_cons {s : Strictness} {position : Nat} {c : Char} {t : Text} {b : TokenBody}
    (h : tokenBody s position c t = .ok b) {token : Token}
    (htoken : token = ⟨.ofFirst c, b.value, b.raw, position, b.rest.takeWhile isBlankChar,
      b.closed⟩) :
    tokensFrom s position (c :: t) =
      (tokensFrom s token.next (b.rest.dropWhile isBlankChar)).map (token :: ·) := by
  subst htoken
  rw [tokensFrom]
  split
  · rename_i hbody
    rw [h] at hbody
    cases hbody
  · rename_i hbody
    rw [h] at hbody
    cases hbody
    rfl

/-- What comes after a token of such a list is such a list. -/
theorem WellSpelled.tail {t : Token} {ts : List Token} (h : WellSpelled (t :: ts)) :
    WellSpelled ts :=
  ⟨fun u hu ↦ h.spelled u (List.mem_cons_of_mem t hu),
    fun u hu ↦ h.blank u (List.mem_cons_of_mem t hu), h.apart.tail⟩

/-- An atom ends before what is written after it. -/
theorem WellSpelled.endsAtom {t : Token} {ts : List Token} (h : WellSpelled (t :: ts))
    (hatom : t.kind = .atom) : EndsAtom (t.gap ++ writtenOf ts) := by
  have hgap := h.blank t List.mem_cons_self
  intro c hc
  cases hg : t.gap with
  | cons d gap =>
    rw [hg] at hc hgap
    cases hc
    simp [hgap c List.mem_cons_self]
  | nil =>
    -- without a blank the next token is no atom
    cases ts with
    | nil => simp [hg] at hc
    | cons u ts =>
      have hnot : u.kind ≠ .atom := fun hu ↦ (List.isChain_cons_cons.1 h.apart).1 hatom hu hg
      obtain ⟨d, raw, hraw, hspecial⟩ :=
        exists_raw_of_spelled (h.tail.spelled u List.mem_cons_self) hnot
      simp only [hg, writtenOf_cons, hraw, List.nil_append, List.cons_append, List.head?_cons,
        Option.mem_some_iff] at hc
      subst hc
      simp [hspecial]

/-- Tokens are read again from what they are written as. -/
theorem tokensFrom_writtenOf {ts : List Token} (h : WellSpelled ts) (position : Nat) :
    tokensFrom .strict position (writtenOf ts) = .ok (placed position ts) := by
  induction ts generalizing position with
  | nil => rw [writtenOf_nil, tokensFrom, placed]
  | cons t ts ih =>
    have hgap := h.blank t List.mem_cons_self
    obtain ⟨htake, hdrop⟩ := takeWhile_gap_append hgap h.tail.head_writtenOf
    obtain ⟨c, raw, hraw, hblank, hkind, hread⟩ := h.spelled t List.mem_cons_self
    have hbody := hread position _ h.endsAtom
    have htoken : { t with start := position } =
        (⟨.ofFirst c, t.value, t.raw, position, (t.gap ++ writtenOf ts).takeWhile isBlankChar,
          t.closed⟩ : Token) := by
      rw [htake, hkind]
    rw [writtenOf_cons, List.append_assoc, hraw, List.cons_append, tokensFrom_cons hbody htoken,
      hdrop, ih h.tail, placed]
    rfl

/-- **Tokens that are written one after another are read again**, each at the octet where it now
stands. -/
theorem tokenize_writtenOf {ts : List Token} (h : WellSpelled ts) :
    tokenize .strict (writtenOf ts) = .ok (placed 0 ts) := by
  have hnone : ∀ c ∈ ([] : Text), isBlankChar c = true := by simp
  obtain ⟨htake, hdrop⟩ := takeWhile_gap_append hnone h.head_writtenOf
  rw [List.nil_append] at htake hdrop
  rw [tokenize, htake, hdrop]
  exact tokensFrom_writtenOf h 0

/-- Where the second of two lists stands is behind what the first was written as. -/
theorem placed_append (position : Nat) (us ts : List Token) :
    placed position (us ++ ts) =
      placed position us ++ placed (position + Text.utf8Size (writtenOf us)) ts := by
  induction us generalizing position with
  | nil => rfl
  | cons u us ih =>
    rw [List.cons_append, placed, ih, placed, List.cons_append]
    simp [Token.next, Token.stop, Nat.add_assoc]

/-- Nothing of a token but the octet where it begins is changed by its place. -/
theorem map_placed {α : Type} {f : Token → α}
    (hf : ∀ t start, f { t with start := start } = f t) (position : Nat) (ts : List Token) :
    (placed position ts).map f = ts.map f := by
  induction ts generalizing position with
  | nil => rfl
  | cons t ts ih => rw [placed, List.map_cons, List.map_cons, hf, ih]

theorem sameKinds_placed (position : Nat) (ts : List Token) : SameKinds (placed position ts) ts :=
  map_placed (fun _ _ ↦ rfl) position ts

/-- The texts of tokens are the same at any place. -/
theorem rawOf_placed (position : Nat) (ts : List Token) :
    rawOf (placed position ts) = rawOf ts := by
  rw [rawOf, rawOf, List.flatMap_def, List.flatMap_def, map_placed fun _ _ ↦ rfl]

/-- A stretch is written as before at any place. -/
theorem sourceOf_placed (position : Nat) (ts : List Token) :
    sourceOf (placed position ts) = sourceOf ts := by
  fun_induction sourceOf ts generalizing position with
  | case1 => rfl
  | case2 t => rfl
  | case3 t ts hts ih =>
    rw [placed, sourceOf, ih]
    cases ts with
    | nil => exact absurd rfl hts
    | cons u ts => simp [placed]

/-! ### Putting tokens together -/

/-- A special character is no atom, and nothing goes on with it. -/
theorem apart_of_isSpecial_left {t u : Token} {c : Char} (h : t.isSpecial c = true) :
    Apart t u := by
  intro hatom
  rw [Token.isSpecial_iff.1 h] at hatom
  cases hatom

/-- So it may stand behind an atom. -/
theorem apart_of_isSpecial_right {t u : Token} {c : Char} (h : u.isSpecial c = true) :
    Apart t u := by
  intro _ hatom
  rw [Token.isSpecial_iff.1 h] at hatom
  cases hatom

/-- Lists that can be read again one by one can be read again as one, if this is so where they meet.
-/
theorem WellSpelled.append {us ts : List Token} (hus : WellSpelled us) (hts : WellSpelled ts)
    (h : ∀ t ∈ us.getLast?, ∀ u ∈ ts.head?, Apart t u) : WellSpelled (us ++ ts) :=
  ⟨List.forall_mem_append.2 ⟨hus.spelled, hts.spelled⟩,
    List.forall_mem_append.2 ⟨hus.blank, hts.blank⟩, hus.apart.append hts.apart h⟩

theorem WellSpelled.left_of_append {us ts : List Token} (h : WellSpelled (us ++ ts)) :
    WellSpelled us :=
  ⟨(List.forall_mem_append.1 h.spelled).1, (List.forall_mem_append.1 h.blank).1,
    h.apart.left_of_append⟩

theorem WellSpelled.right_of_append {us ts : List Token} (h : WellSpelled (us ++ ts)) :
    WellSpelled ts :=
  ⟨(List.forall_mem_append.1 h.spelled).2, (List.forall_mem_append.1 h.blank).2,
    h.apart.right_of_append⟩

/-! ### The tokens of a text -/

/-- For tokens of any kind: if it is an atom, it ends where it has to. -/
theorem endsAtom_rest_of_tokenBody {s : Strictness} {position : Nat} {c : Char} {t : Text}
    {b : TokenBody} (h : tokenBody s position c t = .ok b)
    (hkind : TokenKind.ofFirst c = .atom) : EndsAtom b.rest := by
  rw [tokenBody, hkind] at h
  simp only at h
  split at h
  · cases h
  · obtain ⟨b₀, h₀, rfl⟩ := map_after_eq_ok h
    rw [TokenBody.rest_after]
    exact endsAtom_rest_of_atomBody h₀

/-- The first token of a text is of the kind that the first character begins. -/
theorem exists_head_of_tokensFrom {s : Strictness} {position : Nat} {t : Text} {ts : List Token}
    (h : tokensFrom s position t = .ok ts) :
    ∀ u ∈ ts.head?, ∃ c ∈ t.head?, TokenKind.ofFirst c = u.kind := by
  cases t with
  | nil =>
    rw [tokensFrom] at h
    cases h
    simp
  | cons c t =>
    cases hbody : tokenBody s position c t with
    | error fault =>
      rw [tokensFrom] at h
      split at h
      · cases h
      · simp_all
    | ok b =>
      rw [tokensFrom_cons hbody rfl] at h
      obtain ⟨us, -, rfl⟩ := map_eq_ok_iff.1 h
      simp

/-- The tokens of a text are read again from what they are written as. -/
theorem wellSpelled_of_tokensFrom {position : Nat} {t : Text} {ts : List Token}
    (h : tokensFrom .strict position t = .ok ts) (ht : ∀ c ∈ t.head?, isBlankChar c = false) :
    WellSpelled ts := by
  fun_induction tokensFrom .strict position t generalizing ts with
  | case1 =>
    cases h
    exact ⟨by simp, by simp, .nil⟩
  | case2 => cases h
  | case3 position c t b hbody _ token =>
    rename_i ih
    obtain ⟨ts, hts, rfl⟩ := map_eq_ok_iff.1 h
    have hrest := ih hts (head_dropWhile_isBlankChar b.rest)
    have hclosed := closed_of_tokenBody (by decide) hbody
    obtain ⟨raw, hraw, hread⟩ := exists_raw_of_tokenBody hbody hclosed
    have hspelled : token.Spelled := ⟨c, raw, hraw, ht c rfl, rfl, fun p rest hp ↦ hread p rest hp⟩
    refine ⟨List.forall_mem_cons.2 ⟨hspelled, hrest.spelled⟩,
      List.forall_mem_cons.2 ⟨fun d hd ↦ List.mem_takeWhile_imp hd, hrest.blank⟩,
      hrest.apart.cons fun u hu htoken hatom hgap ↦ ?_⟩
    -- the atom ended at a character that begins none
    obtain ⟨d, hd, hfirst⟩ := exists_head_of_tokensFrom hts u hu
    have hdrop : b.rest.dropWhile isBlankChar = b.rest := by
      have := List.takeWhile_append_dropWhile (p := isBlankChar) (l := b.rest)
      rwa [show b.rest.takeWhile isBlankChar = [] from hgap, List.nil_append] at this
    have hblank := head_dropWhile_isBlankChar b.rest d hd
    rw [hdrop] at hd
    have hends := endsAtom_rest_of_tokenBody hbody htoken d hd
    rw [hblank, Bool.false_or] at hends
    rw [hatom, ofFirst_eq_atom_iff, hends] at hfirst
    cases hfirst

/-- **The tokens of a text are spelled as they have to be**, so that what is written from them can
be read. -/
theorem wellSpelled_of_tokenize {t : Text} {ts : List Token} (h : tokenize .strict t = .ok ts) :
    WellSpelled ts :=
  wellSpelled_of_tokensFrom h (head_dropWhile_isBlankChar t)

end InternetMail
