import InternetMail.Proofs.Address.Relocation

/-!
# Stretches of tokens read again

A stretch of closed tokens can be cut out of its text and is read again from what it is written as,
at any place and at any strictness, with other blanks after the last of them, if what comes then
does not go on with that one (`tokensFrom_stretch`).

Unlike the tokens of the strict reading, those of incoming mail need not be closed, and an atom may
have any characters, so that what they are spelled like is not known from what they are. It is known
from how they were read: each token was the body that its text began with, and a body that is read
from a text is read from what it used of it. The lemmas therefore go back to the reading of a token
in the middle of a text (`exists_tokenBody_of_mem`).
-/

namespace InternetMail

variable {s : Strictness} {position : Nat} {x z gap : Text} {us ts : List Token} {u : Token}

/-- A special character is its own text. -/
theorem raw_of_tokensFrom (h : tokensFrom s position x = .ok ts) (hu : u ∈ ts) {c : Char}
    (hc : u.isSpecial c = true) : u.raw = [c] := by
  obtain ⟨d, t, b, -, hb, hread⟩ := exists_tokenBody_of_mem h hu
  have hkind : TokenKind.ofFirst d = .special c := by
    rw [← Token.isSpecial_iff.1 hc, hread]
  rw [hread]
  exact raw_of_tokenBody hb hkind

/-! ### Where tokens are put -/

/-- Tokens that follow one another stand where they would be put. -/
theorem Consecutive.placed_eq (h : Consecutive position ts) : placed position ts = ts := by
  induction ts generalizing position with
  | nil => rfl
  | cons t ts ih =>
    obtain ⟨rfl, h⟩ := h
    rw [placed, ih h]

/-- Where tokens stand has nothing to do with the blanks after the last of them. -/
theorem Consecutive.concat (h : Consecutive position (us ++ u :: ts)) (gap : Text) :
    Consecutive position (us ++ [u.before gap]) := by
  induction us generalizing position with
  | nil => exact ⟨h.1, trivial⟩
  | cons v us ih => exact ⟨h.1, ih h.2⟩

/-- Tokens that begin further on are the same tokens further on. -/
theorem placed_add (position d : Nat) (ts : List Token) :
    placed (position + d) ts = (placed position ts).map (Token.moved d) := by
  induction ts generalizing position with
  | nil => rfl
  | cons t ts ih =>
    have hnext : Token.next { t with start := position + d } =
        Token.next { t with start := position } + d := by
      simp only [Token.next, Token.stop]
      omega
    rw [placed, placed, hnext, ih]
    rfl

/-! ### Reading a stretch -/

/-- An atom ends where blanks stand, and where what ends it stands. -/
theorem EndsAtom.append_left (hgap : ∀ c ∈ gap, isBlankChar c = true) (hz : EndsAtom z) :
    EndsAtom (gap ++ z) := by
  cases gap with
  | nil => exact hz
  | cons d gap => simp [EndsAtom, hgap d List.mem_cons_self]

/-- A closed token is read again before blanks and a text that does not go on with it. -/
theorem tokensFrom_head (h : tokensFrom s position x = .ok (u :: ts)) (hclosed : u.closed = true)
    (hgap : ∀ c ∈ gap, isBlankChar c = true) (hz : ∀ c ∈ z.head?, isBlankChar c = false)
    (hends : u.kind = .atom → EndsAtom (gap ++ z)) (position' : Nat) :
    tokensFrom s position' (u.raw ++ (gap ++ z)) =
      (tokensFrom s (position' + Text.utf8Size (u.raw ++ gap)) z).map
        ({ u.before gap with start := position' } :: ·) := by
  obtain ⟨c, t, b, -, hb, rfl, -⟩ := exists_of_tokensFrom_cons h
  obtain ⟨raw, hraw, hread⟩ := exists_raw_of_tokenBody hb hclosed
  obtain ⟨htake, hdrop⟩ := takeWhile_gap_append hgap hz
  have htoken : (⟨.ofFirst c, b.value, b.raw, position', gap, b.closed⟩ : Token) =
      ⟨.ofFirst c, b.value, b.raw, position', (gap ++ z).takeWhile isBlankChar, b.closed⟩ := by
    rw [htake]
  have hread' := tokensFrom_cons (hread position' (gap ++ z) hends) htoken
  rw [hdrop, ← List.cons_append, ← hraw] at hread'
  simpa [Token.next, Token.stop, Token.before, Nat.add_assoc] using hread'

/-- A stretch begins as the text did that it was cut out of. -/
theorem head_writtenOf_append (hu : u.raw ≠ []) (us ts : List Token) (z : Text) :
    (writtenOf us ++ (u.raw ++ z)).head? = (writtenOf (us ++ u :: ts)).head? := by
  obtain ⟨e, raw, hraw⟩ := List.exists_cons_of_ne_nil hu
  simp [hraw]

/-- A stretch of closed tokens is read again from what it is written as, before blanks and a text
that does not go on with the last of them. -/
theorem tokensFrom_stretch (h : tokensFrom s position x = .ok (us ++ u :: ts))
    (hclosed : ∀ v ∈ us ++ [u], v.closed = true) (hgap : ∀ c ∈ gap, isBlankChar c = true)
    (hz : ∀ c ∈ z.head?, isBlankChar c = false) (hends : EndsAtom (gap ++ z)) (position' : Nat) :
    tokensFrom s position' (writtenOf us ++ (u.raw ++ (gap ++ z))) =
      (tokensFrom s (position' + Text.utf8Size (writtenOf (us ++ [u.before gap]))) z).map
        (placed position' (us ++ [u.before gap]) ++ ·) := by
  induction us generalizing position position' x with
  | nil =>
    have hread := tokensFrom_head h (hclosed u (by simp)) hgap hz (fun _ ↦ hends) position'
    simpa [placed, Token.before] using hread
  | cons v us ih =>
    rw [List.cons_append, List.forall_mem_cons] at hclosed
    have hblank := blank_of_tokensFrom h List.mem_cons_self
    obtain ⟨c, t, b, -, hb, hv, hrest⟩ := exists_of_tokensFrom_cons h
    have hfirst : TokenKind.ofFirst c = v.kind := by rw [hv]
    have hvgap : v.gap = b.rest.takeWhile isBlankChar := by rw [hv]
    -- the stretch goes on with the character that was there before
    have hhead : (writtenOf us ++ (u.raw ++ (gap ++ z))).head? =
        (b.rest.dropWhile isBlankChar).head? := by
      rw [(tiles_of_tokensFrom hrest).1]
      exact head_writtenOf_append (raw_ne_nil_of_tokensFrom hrest (by simp)) us ts _
    have hw : ∀ d ∈ (writtenOf us ++ (u.raw ++ (gap ++ z))).head?, isBlankChar d = false := by
      rw [hhead]
      exact head_dropWhile_isBlankChar b.rest
    have hvends : v.kind = .atom → EndsAtom (v.gap ++ (writtenOf us ++ (u.raw ++ (gap ++ z)))) := by
      intro hatom
      have hends := endsAtom_rest_of_tokenBody hb (hfirst.trans hatom)
      rwa [← List.takeWhile_append_dropWhile (p := isBlankChar) (l := b.rest), EndsAtom,
        List.head?_append, ← hhead, ← List.head?_append, ← hvgap] at hends
    have hread := tokensFrom_head h hclosed.1 hblank hw hvends position'
    rw [ih hrest hclosed.2] at hread
    have hnext : Token.next { v.before v.gap with start := position' } =
        position' + Text.utf8Size (v.raw ++ v.gap) := by
      simp [Token.next, Token.stop, Token.before, Nat.add_assoc]
    have hsize : position' + Text.utf8Size (writtenOf (v :: us ++ [u.before gap])) =
        position' + Text.utf8Size (v.raw ++ v.gap) +
          Text.utf8Size (writtenOf (us ++ [u.before gap])) := by
      simp [Nat.add_assoc]
    rw [writtenOf_cons, List.append_assoc, List.append_assoc, hread, hsize, List.cons_append,
      placed, ← hnext]
    generalize tokensFrom s _ z = tail
    cases tail <;> rfl

end InternetMail
