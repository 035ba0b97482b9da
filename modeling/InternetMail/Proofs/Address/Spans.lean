import InternetMail.Proofs.Address.Checked
import InternetMail.Proofs.Address.OpenLiteral

/-!
# Tokens by their spans

The span of a token is the octets of the text that it was read from. No span of a text is empty, the
spans stand in it one after another and between its characters, and a character that is in none of
them is a blank (`Tiles.spans`).

The text of a span is a text of its own, and taken apart alone it is that token again, from its
first octet to its last (`tokenize_raw`). A closed token is read again before any text that does not
go on with it, hence before none. A token that is left open took in the text to its end, so that its
span ends as the text did, in an escape that was cut off too.

Reading a token from its own text is not a case of reading it again in another text: there something
may follow that it does not go on with, and here nothing follows, so that an escape at the end of an
open token has nothing to escape. Each body is therefore compared with itself at another place, text
for text (`quotedBody_elsewhere`, `commentBody_elsewhere`).
-/

namespace InternetMail

variable {s : Strictness} {position : Nat} {c : Char} {t lead : Text} {ts : List Token} {u : Token}

/-- The octet is one of those that the token was read from. -/
def Token.Covers (u : Token) (n : Nat) : Prop :=
  u.start ≤ n ∧ n < u.stop

/-- The spans of the tokens tile the text but for its blanks. -/
structure Spans (t : Text) (ts : List Token) : Prop where
  start_lt_stop : ∀ u ∈ ts, u.start < u.stop
  stop_le_start : ts.Pairwise fun u v ↦ u.stop ≤ v.start
  /-- At both ends of a span a character of the text begins or the text ends. -/
  isBoundary : ∀ u ∈ ts, t.IsBoundary u.start ∧ t.IsBoundary u.stop
  /-- The character at an octet that no token covers is a blank. -/
  blank : ∀ n c rest, t.fromOctet? n = some (c :: rest) → (∀ u ∈ ts, ¬u.Covers n) →
    c ∈ [' ', '\t', '\r', '\n']

/-- The text where the token stands is, taken apart alone, one token of the same kind and value from
its first octet to its last. -/
def Token.ReadAlone (s : Strictness) (t : Text) (u : Token) : Prop :=
  ∃ slice v, t.slice? u.start u.stop = some slice ∧ tokenize s slice = .ok [v] ∧
    v.kind = u.kind ∧ v.value = u.value ∧ v.start = 0 ∧ v.stop = Text.utf8Size slice

/-! ### Where the spans stand -/

theorem Token.start_lt_stop (h : u.raw ≠ []) : u.start < u.stop := by
  obtain ⟨c, raw, hraw⟩ := List.exists_cons_of_ne_nil h
  have hpos := c.utf8Size_pos
  rw [Token.stop, hraw, Text.utf8Size_cons]
  omega

/-- No token begins before the place where the first of them does. -/
theorem Consecutive.le_start (h : Consecutive position ts) : ∀ u ∈ ts, position ≤ u.start := by
  intro u hu
  obtain ⟨before, after, rfl⟩ := List.append_of_mem hu
  rw [h.start_eq]
  omega

/-- A token has ended where any behind it begins. -/
theorem Consecutive.stop_le_start (h : Consecutive position ts) :
    ts.Pairwise fun u v ↦ u.stop ≤ v.start := by
  induction ts generalizing position with
  | nil => exact .nil
  | cons u ts ih =>
    obtain ⟨-, h⟩ := h
    refine .cons (fun v hv ↦ ?_) (ih h)
    have hnext := h.le_start v hv
    rw [Token.next] at hnext
    omega

/-- A character of two stretches is one of the first, or stands behind that. -/
theorem exists_of_append_eq_append_cons {x y before after : Text}
    (h : x ++ y = before ++ c :: after) :
    (∃ rest, x = before ++ c :: rest) ∨ ∃ rest, before = x ++ rest ∧ y = rest ++ c :: after := by
  rcases List.append_eq_append_iff.1 h with ⟨rest, rfl, hy⟩ | ⟨rest, rfl, hrest⟩
  · exact Or.inr ⟨rest, rfl, hy⟩
  · cases rest with
    | nil => exact Or.inr ⟨[], by simp, hrest.symm⟩
    | cons d rest =>
      cases hrest
      exact Or.inl ⟨rest, rfl⟩

/-- What no token covers stands among the blanks, which are those in front of the first token and
behind each. -/
theorem isBlankChar_of_not_covers {before after : Text}
    (hts : Consecutive (position + Text.utf8Size lead) ts)
    (hlead : ∀ d ∈ lead, isBlankChar d = true)
    (hgap : ∀ u ∈ ts, ∀ d ∈ u.gap, isBlankChar d = true)
    (ht : lead ++ writtenOf ts = before ++ c :: after)
    (hout : ∀ u ∈ ts, ¬u.Covers (position + Text.utf8Size before)) : isBlankChar c = true := by
  induction ts generalizing position lead before with
  | nil =>
    rw [writtenOf_nil, List.append_nil] at ht
    exact hlead c (by simp [ht])
  | cons u ts ih =>
    rw [List.forall_mem_cons] at hgap hout
    obtain ⟨hstart, hts⟩ := hts
    obtain ⟨rest, rfl⟩ | ⟨before, rfl, hwritten⟩ := exists_of_append_eq_append_cons ht
    · exact hlead c (by simp)
    rw [writtenOf_cons, List.append_assoc] at hwritten
    obtain ⟨rest, hraw⟩ | ⟨before, rfl, hbehind⟩ := exists_of_append_eq_append_cons hwritten
    · -- the character is one of those that the token was read from
      have hpos := c.utf8Size_pos
      refine absurd ⟨?_, ?_⟩ hout.1
      · rw [hstart, Text.utf8Size_append]
        omega
      · rw [Token.stop, hstart, hraw]
        simp only [Text.utf8Size_append, Text.utf8Size_cons]
        omega
    · -- it stands behind the token, whose blanks are in front of the tokens that are left
      have hnext : Consecutive (u.stop + Text.utf8Size u.gap) ts := hts
      refine ih hnext hgap.1 hgap.2 hbehind ?_
      have hsize : position + Text.utf8Size (lead ++ (u.raw ++ before)) =
          u.stop + Text.utf8Size before := by
        rw [Token.stop, hstart]
        simp only [Text.utf8Size_append]
        omega
      rw [← hsize]
      exact hout.2

theorem mem_of_isBlankChar (h : isBlankChar c = true) : c ∈ [' ', '\t', '\r', '\n'] := by
  simpa [isBlankChar, or_assoc] using h

/-- Tokens that are not empty, with nothing but blanks around them, tile their text by their spans.
-/
theorem Tiles.spans (h : Tiles lead ts t) (hlead : ∀ d ∈ lead, isBlankChar d = true)
    (hgap : ∀ u ∈ ts, ∀ d ∈ u.gap, isBlankChar d = true) (hraw : ∀ u ∈ ts, u.raw ≠ []) :
    Spans t ts := by
  refine ⟨fun u hu ↦ Token.start_lt_stop (hraw u hu), h.consecutive.stop_le_start,
    fun u hu ↦ ?_, fun n c rest hc hout ↦ ?_⟩
  · have hslice := h.isSlice_raw hu
    exact ⟨hslice.isBoundary_start, hslice.isBoundary_stop⟩
  · obtain ⟨before, ht, rfl⟩ := Text.fromOctet?_eq_some_iff.1 hc
    have hts : Consecutive (0 + Text.utf8Size lead) ts := by simpa using h.consecutive
    exact mem_of_isBlankChar (isBlankChar_of_not_covers hts hlead hgap
      (h.eq_append.symm.trans ht) (by simpa using hout))

/-! ### What is read elsewhere -/

/-- A quoted string says the same wherever it stands, if it is left open too. -/
theorem quotedBody_elsewhere {b : TokenBody} (h : quotedBody s position t = .ok b)
    (position' : Nat) : quotedBody s position' t = .ok b := by
  fun_induction quotedBody s position t generalizing b position' with
  | case1 => exact h
  | case2 position c t hquote =>
    rw [quotedBody.eq_def]
    simpa [hquote] using h
  | case3 position c hquote hslash =>
    rw [quotedBody.eq_def]
    simpa [hquote, hslash] using h
  | case4 position c hquote hslash d t ih =>
    obtain ⟨b₀, h₀, rfl⟩ := map_after_eq_ok h
    rw [quotedBody.eq_def]
    simp only [hquote, hslash, Bool.false_eq_true, if_false, if_true, ih h₀]
    rfl
  | case5 position c t hquote hslash hbreak ih =>
    obtain ⟨b₀, h₀, rfl⟩ := map_after_eq_ok h
    rw [quotedBody.eq_def]
    simp only [hquote, hslash, hbreak, Bool.false_eq_true, if_false, if_true, ih h₀]
    rfl
  | case6 => cases h
  | case7 position c t hquote hslash hbreak hrefuses ih =>
    obtain ⟨b₀, h₀, rfl⟩ := map_after_eq_ok h
    rw [quotedBody.eq_def]
    simp only [hquote, hslash, hbreak, hrefuses, Bool.false_eq_true, if_false, ih h₀]
    rfl

/-- A comment says the same wherever it stands, if it is left open too. -/
theorem commentBody_elsewhere {depth : Nat} {b : TokenBody}
    (h : commentBody s position depth t = .ok b) (position' : Nat) :
    commentBody s position' depth t = .ok b := by
  fun_induction commentBody s position depth t generalizing b position' with
  | case1 => exact h
  | case2 position depth c hslash =>
    rw [commentBody.eq_def]
    simpa [hslash] using h
  | case3 position depth c hslash d t ih =>
    obtain ⟨b₀, h₀, rfl⟩ := map_after_eq_ok h
    rw [commentBody.eq_def]
    simp only [hslash, if_true, ih h₀]
    rfl
  | case4 position depth c t hslash hopen ih =>
    obtain ⟨b₀, h₀, rfl⟩ := map_after_eq_ok h
    rw [commentBody.eq_def]
    simp only [hslash, hopen, Bool.false_eq_true, if_false, if_true, ih h₀]
    rfl
  | case5 position c t hslash hopen hclose =>
    rw [commentBody.eq_def]
    simpa [hslash, hopen, hclose] using h
  | case6 position depth c t hslash hopen hclose hdepth ih =>
    obtain ⟨b₀, h₀, rfl⟩ := map_after_eq_ok h
    rw [commentBody.eq_def]
    simp only [hslash, hopen, hclose, hdepth, Bool.false_eq_true, if_false, if_true, ih h₀]
    rfl
  | case7 position depth c t hslash hopen hclose hbreak ih =>
    obtain ⟨b₀, h₀, rfl⟩ := map_after_eq_ok h
    rw [commentBody.eq_def]
    simp only [hslash, hopen, hclose, hbreak, Bool.false_eq_true, if_false, if_true, ih h₀]
    rfl
  | case8 => cases h
  | case9 position depth c t hslash hopen hclose hbreak hrefuses ih =>
    obtain ⟨b₀, h₀, rfl⟩ := map_after_eq_ok h
    rw [commentBody.eq_def]
    simp only [hslash, hopen, hclose, hbreak, hrefuses, Bool.false_eq_true, if_false, ih h₀]
    rfl

/-- A body that was taken, closed or open, is taken with any other fault in its place. -/
theorem bind_closedOr_congr {x y : Except SyntaxFault TokenBody} {fault fault' : SyntaxFault}
    {mayBeOpen : Bool} {b : TokenBody} (h : x.bind (·.closedOr fault mayBeOpen) = .ok b)
    (hy : y = .ok b) : y.bind (·.closedOr fault' mayBeOpen) = .ok b := by
  subst hy
  rcases closed_or_of_bind_closedOr h with hclosed | rfl
  · exact closedOr_of_closed hclosed _ _
  · simp [Except.bind, TokenBody.closedOr]

/-- A token says the same wherever it stands. -/
theorem tokenBody_elsewhere {b : TokenBody} (h : tokenBody s position c t = .ok b)
    (position' : Nat) : tokenBody s position' c t = .ok b := by
  cases hclosed : b.closed with
  | true =>
    obtain ⟨raw, hraw, hread⟩ := exists_raw_of_tokenBody h hclosed
    have hwhole := raw_append_rest_of_tokenBody h
    rw [hraw, List.cons_append, List.cons.injEq] at hwhole
    have := hread position' b.rest fun hatom ↦ endsAtom_rest_of_tokenBody h hatom
    rwa [hwhole.2] at this
  | false =>
    rcases closed_or_of_tokenBody h with hclosed' | ⟨-, hkind | hkind⟩
    · rw [hclosed] at hclosed'
      cases hclosed'
    · rw [tokenBody, hkind] at h ⊢
      obtain ⟨b₀, h₀, rfl⟩ := map_after_eq_ok h
      rw [bind_closedOr_congr h₀ (quotedBody_elsewhere (bind_closedOr_eq_ok h₀) _)]
      rfl
    · rw [tokenBody, hkind] at h ⊢
      obtain ⟨b₀, h₀, rfl⟩ := map_after_eq_ok h
      rw [bind_closedOr_congr h₀ (commentBody_elsewhere (bind_closedOr_eq_ok h₀) _)]
      rfl

/-! ### One token alone -/

/-- The first token of a text is read again from its own text, at any place. -/
theorem tokensFrom_raw (h : tokensFrom s position t = .ok (u :: ts)) (position' : Nat) :
    tokensFrom s position' u.raw = .ok [{ u.before [] with start := position' }] := by
  cases hclosed : u.closed with
  | true =>
    -- an atom ends where nothing follows
    have hnil : EndsAtom ([] ++ []) := by simp [EndsAtom]
    have hread := tokensFrom_head h hclosed (by simp) (by simp) (fun _ ↦ hnil) position'
    rw [List.append_nil, List.append_nil, tokensFrom] at hread
    exact hread
  | false =>
    obtain ⟨c, x, b, -, hb, rfl, -⟩ := exists_of_tokensFrom_cons h
    -- what is open took in the text to its end
    have hrest : b.rest = [] := rest_of_tokenBody hb hclosed
    have hraw := raw_append_rest_of_tokenBody hb
    rw [hrest, List.append_nil] at hraw
    have htokens := tokensFrom_cons (tokenBody_elsewhere hb position') rfl
    rw [hrest, List.dropWhile_nil, tokensFrom, ← hraw] at htokens
    exact htokens

/-- Each token of a text is read again from its own text. -/
theorem tokenize_raw (h : tokenize s t = .ok ts) (hu : u ∈ ts) :
    tokenize s u.raw = .ok [{ u.before [] with start := 0 }] := by
  obtain ⟨before, after, rfl⟩ := List.append_of_mem hu
  obtain ⟨position, x, hx, hhead⟩ := exists_tokensFrom_right h (head_dropWhile_isBlankChar t)
  have hraw : ∀ d ∈ u.raw.head?, isBlankChar d = false := by
    rw [(tiles_of_tokensFrom hx).1] at hhead
    obtain ⟨d, raw, hraw⟩ :=
      List.exists_cons_of_ne_nil (raw_ne_nil_of_tokensFrom hx List.mem_cons_self)
    simpa [hraw] using hhead
  have hnone : ∀ d ∈ ([] : Text), isBlankChar d = true := by simp
  have hwhole := tokenize_append (s := s) hnone hraw
  rw [List.nil_append] at hwhole
  rw [hwhole, tokensFrom_raw hx]
  rfl

/-! ### Main statement -/

/-- **Tokens tile their text, and each is read alone**, at any strictness. The spans of the tokens
are not empty, they stand one after another between characters of the text, and a character that is
in none of them is a space, a TAB, a CR or an LF. The text of each span is, at the same strictness,
one token of the same kind and value over its whole length. -/
theorem spans_and_readAlone_of_tokenize (h : tokenize s t = .ok ts) :
    Spans t ts ∧ ∀ u ∈ ts, u.ReadAlone s t := by
  have htiles := tiles_of_tokenize h
  refine ⟨htiles.spans (fun d hd ↦ List.mem_takeWhile_imp hd) (fun u hu ↦ blank_of_tokensFrom h hu)
    (fun u hu ↦ raw_ne_nil_of_tokensFrom h hu), fun u hu ↦ ?_⟩
  refine ⟨u.raw, _, Text.slice?_eq_some_iff.2 (htiles.isSlice_raw hu), tokenize_raw h hu, rfl, rfl,
    rfl, ?_⟩
  simp [Token.stop, Token.before]

/-- An atom of two octets between blanks, and a comment within a comment that incoming mail leaves
open, cut off in an escape. -/
theorem spans_and_readAlone_cut_off_escape :
    tokenize .parseHeader " é\r\n(x(y\\".toList =
        .ok [⟨.atom, ['é'], ['é'], 1, ['\r', '\n'], true⟩,
          ⟨.comment, ['x', '(', 'y'], ['(', 'x', '(', 'y', '\\'], 5, [], false⟩] ∧
      Spans " é\r\n(x(y\\".toList [⟨.atom, ['é'], ['é'], 1, ['\r', '\n'], true⟩,
        ⟨.comment, ['x', '(', 'y'], ['(', 'x', '(', 'y', '\\'], 5, [], false⟩] ∧
      ∀ u ∈ ([⟨.atom, ['é'], ['é'], 1, ['\r', '\n'], true⟩,
          ⟨.comment, ['x', '(', 'y'], ['(', 'x', '(', 'y', '\\'], 5, [], false⟩] : List Token),
        u.ReadAlone .parseHeader " é\r\n(x(y\\".toList := by
  have h : tokenize .parseHeader " é\r\n(x(y\\".toList =
      .ok [⟨.atom, ['é'], ['é'], 1, ['\r', '\n'], true⟩,
        ⟨.comment, ['x', '(', 'y'], ['(', 'x', '(', 'y', '\\'], 5, [], false⟩] := by
    decide +kernel
  exact ⟨h, spans_and_readAlone_of_tokenize h⟩

end InternetMail
