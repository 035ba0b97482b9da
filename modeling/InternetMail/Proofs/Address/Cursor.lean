import InternetMail.Proofs.Address.Checked
import InternetMail.Proofs.Address.OpenLiteral

/-!
# Tokens by the octets of their text

The tokens of a text as a cursor finds them that knows nothing but the octet it stands at: it looks
at the character there (`Cursor.peek`), goes on by as many octets as that takes, and counts how deep
it is in comments. What it gives are lexemes, which say where they begin and end.

It never looks at an octet outside the text or inside a character, it never leaves more comments
than it entered, and every token takes it further. The lexemes it gives are the tokens of the text
(`Cursor.tokenize_follows`).

The proofs are by the text that is left at the cursor (`fromOctet?`): the cursor has looked at an
octet where that text begins, and goes on where the rest of it does. So every position that comes up
is one of a character or the end (`isBoundary_of_fromOctet?`), and faults need no argument of their
own. Each kind of token has a lemma that compares what the cursor gathered so far, `value`, and what
the reading by characters gives for the rest, put behind it (`lexemeOf_after`).
-/

namespace InternetMail

/-- A token by the octets it begins and ends at. -/
structure Lexeme where
  kind : TokenKind
  value : Text
  start : Nat
  stop : Nat
  deriving DecidableEq

/-- The token without what was written for it. -/
def Token.lexeme (t : Token) : Lexeme :=
  ⟨t.kind, t.value, t.start, t.stop⟩

namespace Text

variable {t rest : Text} {c : Char} {n : Nat}

/-- Going on by the octets of a text that is next leaves the rest. -/
theorem fromOctet?_add {u : Text} (h : t.fromOctet? n = some (u ++ rest)) :
    t.fromOctet? (n + utf8Size u) = some rest := by
  obtain ⟨before, rfl, rfl⟩ := fromOctet?_eq_some_iff.1 h
  exact fromOctet?_eq_some_iff.2 ⟨before ++ u, by simp, by simp⟩

theorem fromOctet?_next (h : t.fromOctet? n = some (c :: rest)) :
    t.fromOctet? (n + c.utf8Size) = some rest :=
  fromOctet?_add (u := [c]) h

/-- A cursor with a text left stands where a character begins or at the end. -/
theorem isBoundary_of_fromOctet? (h : t.fromOctet? n = some rest) : t.IsBoundary n :=
  isSome_fromOctet?_iff.1 (by rw [h]; rfl)

/-- The next character is inside the text. -/
theorem next_le_of_fromOctet? (h : t.fromOctet? n = some (c :: rest)) :
    n + c.utf8Size ≤ utf8Size t :=
  (isBoundary_of_fromOctet? (fromOctet?_next h)).le

end Text

namespace Cursor

variable {s : Strictness} {t rest : Text} {c : Char} {start position depth : Nat}

/-- The character of the text at an octet. -/
structure Seen (t : Text) (position : Nat) where
  char : Char
  next_le : position + char.utf8Size ≤ Text.utf8Size t

/-- The octet after the character. -/
def Seen.next (c : Seen t position) : Nat :=
  position + c.char.utf8Size

/-- Less of the text is left after a character than before it. -/
theorem Seen.left_lt (c : Seen t position) :
    Text.utf8Size t - c.next < Text.utf8Size t - position := by
  have := c.char.utf8Size_pos
  have := c.next_le
  unfold next
  omega

/-- The character at an octet, nothing at the end of the text. -/
def peek (t : Text) (position : Nat) : Checked (Option (Seen t position)) :=
  match h : t.fromOctet? position with
  | none => .error .trap
  | some [] => .ok none
  | some (c :: _) => .ok (some ⟨c, Text.next_le_of_fromOctet? h⟩)

/-- A rule broken at an octet of the text. -/
def fault (s : Strictness) (t : Text) (rule : SyntaxRule) (position : Nat) : Stop :=
  .fault ⟨rule, s, t, position⟩

/-- Refuses a control character at an octet, if the reading does. -/
def checkControl (s : Strictness) (t : Text) (c : Char) (position : Nat) : Checked Unit :=
  if s.refuses c then throw (fault s t .invalidCharacter position) else pure ()

/-- What is still open at the end of the text, if the reading closes it there. -/
def closeAtEnd (s : Strictness) (t : Text) (rule : SyntaxRule) (u : Lexeme) : Checked Lexeme :=
  if s = .parseHeader then return u else throw (fault s t rule u.start)

/-! ### Finding tokens -/

/-- Goes past blanks. -/
def skipBlanks (t : Text) (position : Nat) : Checked Nat := do
  match ← peek t position with
  | none => return position
  | some c => if isBlankChar c.char then skipBlanks t c.next else return position
termination_by Text.utf8Size t - position
decreasing_by exact c.left_lt

/-- Reads a quoted string on, `value` being what it says so far. -/
def quotedString (s : Strictness) (t : Text) (start position : Nat) (value : Text) :
    Checked Lexeme := do
  match ← peek t position with
  | none => closeAtEnd s t .unterminatedQuote ⟨.quotedString, value, start, position⟩
  | some c =>
    if c.char == '"' then return ⟨.quotedString, value, start, c.next⟩
    else if c.char == '\\' then
      match ← peek t c.next with
      | none => quotedString s t start c.next value
      | some d => quotedString s t start d.next (value ++ [d.char])
    else if isLineBreak c.char then quotedString s t start c.next value
    else
      checkControl s t c.char position
      quotedString s t start c.next (value ++ [c.char])
termination_by Text.utf8Size t - position
decreasing_by
  · exact c.left_lt
  · exact Nat.lt_trans d.left_lt c.left_lt
  · exact c.left_lt
  · exact c.left_lt

/-- Reads a comment on, `depth` counting the comments it is inside of. -/
def comment (s : Strictness) (t : Text) (start position depth : Nat) (value : Text) :
    Checked Lexeme := do
  match ← peek t position with
  | none => closeAtEnd s t .unterminatedComment ⟨.comment, value, start, position⟩
  | some c =>
    if c.char == '\\' then
      match ← peek t c.next with
      | none => comment s t start c.next depth value
      | some d => comment s t start d.next depth (value ++ [d.char])
    else if c.char == '(' then comment s t start c.next (depth + 1) (value ++ ['('])
    else if c.char == ')' then
      let left ← Checked.sub depth 1
      if left = 0 then return ⟨.comment, value, start, c.next⟩
      else comment s t start c.next left (value ++ [')'])
    else if isLineBreak c.char then comment s t start c.next depth value
    else
      checkControl s t c.char position
      comment s t start c.next depth (value ++ [c.char])
termination_by Text.utf8Size t - position
decreasing_by
  · exact c.left_lt
  · exact Nat.lt_trans d.left_lt c.left_lt
  all_goals exact c.left_lt

/-- Reads a domain literal on. -/
def domainLiteral (s : Strictness) (t : Text) (start position : Nat) (value : Text) :
    Checked Lexeme := do
  match ← peek t position with
  | none => throw (fault s t .unterminatedDomainLiteral start)
  | some c =>
    if c.char == ']' then return ⟨.domainLiteral, value ++ [']'], start, c.next⟩
    else if c.char == '[' && s == .strict then throw (fault s t .invalidCharacter position)
    else if c.char == '\\' then
      match ← peek t c.next with
      | none => domainLiteral s t start c.next (value ++ ['\\'])
      | some d => domainLiteral s t start d.next (value ++ ['\\', d.char])
    else if isLineBreak c.char then domainLiteral s t start c.next value
    else
      checkControl s t c.char position
      domainLiteral s t start c.next (value ++ [c.char])
termination_by Text.utf8Size t - position
decreasing_by
  · exact c.left_lt
  · exact Nat.lt_trans d.left_lt c.left_lt
  all_goals exact c.left_lt

/-- Reads an atom on. -/
def atom (s : Strictness) (t : Text) (start position : Nat) (value : Text) : Checked Lexeme := do
  match ← peek t position with
  | none => return ⟨.atom, value, start, position⟩
  | some c =>
    if isBlankChar c.char || isSpecial c.char then return ⟨.atom, value, start, position⟩
    else
      checkControl s t c.char position
      atom s t start c.next (value ++ [c.char])
termination_by Text.utf8Size t - position
decreasing_by exact c.left_lt

/-- The next token, if there is one. -/
def nextToken (s : Strictness) (t : Text) (position : Nat) : Checked (Option Lexeme) := do
  let start ← skipBlanks t position
  match ← peek t start with
  | none => return none
  | some c =>
    if c.char == '"' then return some (← quotedString s t start c.next [])
    else if c.char == '(' then return some (← comment s t start c.next 1 [])
    else if c.char == '[' then return some (← domainLiteral s t start c.next ['['])
    else if isSpecial c.char then return some ⟨.special c.char, [c.char], start, c.next⟩
    else
      checkControl s t c.char start
      return some (← atom s t start c.next [c.char])

/-- The tokens from an octet on. A token that does not take the cursor further would be read for
ever, and is a trap too. -/
def tokensFrom (s : Strictness) (t : Text) (position : Nat) : Checked (List Lexeme) := do
  match ← nextToken s t position with
  | none => return []
  | some u =>
    if _ : position < u.stop ∧ u.stop ≤ Text.utf8Size t then
      return u :: (← tokensFrom s t u.stop)
    else throw .trap
termination_by Text.utf8Size t - position
decreasing_by omega

/-- The tokens of the text. -/
def tokenize (s : Strictness) (t : Text) : Checked (List Lexeme) :=
  tokensFrom s t 0

/-! ### Looking at a character -/

/-- At the end there is no character. -/
theorem peek_of_nil (h : t.fromOctet? position = some []) : peek t position = .ok none := by
  unfold peek
  split <;> simp_all

/-- Elsewhere there is one, with the proof that it is inside the text. -/
theorem peek_of_cons (h : t.fromOctet? position = some (c :: rest)) :
    peek t position = .ok (some ⟨c, Text.next_le_of_fromOctet? h⟩) := by
  unfold peek
  split
  · simp_all
  · simp_all
  · rename_i hd
    rw [h] at hd
    cases hd
    rfl

/-! ### The insides of tokens -/

/-- Characters the reader asks for by name are ASCII and take one octet. The cursor goes past them
by one. -/
theorem utf8Size_of_beq {c d : Char} (h : (c == d) = true) (hd : d.utf8Size = 1) :
    c.utf8Size = 1 :=
  (congrArg Char.utf8Size (eq_of_beq h)).trans hd

theorem utf8Size_of_isLineBreak (h : isLineBreak c = true) : c.utf8Size = 1 := by
  rcases Bool.or_eq_true _ _ ▸ h with h | h
  · exact utf8Size_of_beq h rfl
  · exact utf8Size_of_beq h rfl

theorem checkControl_of_refuses (h : s.refuses c = true) (position : Nat) :
    checkControl s t c position = .error (fault s t .invalidCharacter position) :=
  if_pos h

theorem checkControl_of_not_refuses (h : ¬s.refuses c = true) (position : Nat) :
    checkControl s t c position = .ok () :=
  if_neg h

/-- What a token says does not settle whether it may be open. -/
theorem bind_closedOr_map_after (x : Except SyntaxFault TokenBody) (value raw : Text)
    (f : SyntaxFault) (mayBeOpen : Bool) :
    (x.map (·.after value raw)).bind (·.closedOr f mayBeOpen) =
      (x.bind (·.closedOr f mayBeOpen)).map (·.after value raw) := by
  cases x with
  | error e => rfl
  | ok b =>
    show (b.after value raw).closedOr f mayBeOpen = (b.closedOr f mayBeOpen).map _
    unfold TokenBody.closedOr TokenBody.after
    split <;> rfl

/-- The lexeme that begins at `start`, of which `value` and the octets before `position` were read
before the body. -/
def lexemeOf (kind : TokenKind) (value : Text) (start position : Nat) (b : TokenBody) : Lexeme :=
  ⟨kind, value ++ b.value, start, position + Text.utf8Size b.raw⟩

/-- What was gathered before a rest that was read can be counted as part of it. -/
theorem lexemeOf_after (kind : TokenKind) (value u raw : Text) (start position : Nat)
    (b : TokenBody) : lexemeOf kind value start position (b.after u raw) =
      lexemeOf kind (value ++ u) start (position + Text.utf8Size raw) b := by
  simp [lexemeOf, TokenBody.after, Nat.add_assoc]

section

variable {kind : TokenKind} {rule : SyntaxRule} {value raw : Text}
  {y : Except SyntaxFault TokenBody} {mayBeOpen : Bool}

/-- A fault where a character begins is the same fault in both readings. -/
theorem fault_follows {α β : Type} {R : α → β → Prop} (h : t.IsBoundary position) :
    Follows s t R (.error (fault s t rule position)) (.error ⟨rule, position⟩) :=
  .error (f := ⟨rule, position⟩) h

/-- At the end of the text what is open is closed or refused. -/
theorem closeAtEnd_follows (hstart : t.IsBoundary start) {stop : Nat}
    (hstop : stop = position + Text.utf8Size raw) :
    Follows s t (fun u b ↦ u = lexemeOf kind value start position b)
      (closeAtEnd s t rule ⟨kind, value, start, stop⟩)
      ((Except.ok ⟨[], raw, [], false⟩ : Except SyntaxFault TokenBody).bind
        (·.closedOr ⟨rule, start⟩ (s == .parseHeader))) := by
  by_cases hs : s = .parseHeader
  · have hy : (TokenBody.closedOr ⟨rule, start⟩ (s == .parseHeader) ⟨[], raw, [], false⟩) = .ok _ :=
      if_pos (by simp [hs])
    rw [closeAtEnd, if_pos hs, Except.bind, hy]
    exact .ok (by simp [lexemeOf, hstop])
  · have hy :
        (TokenBody.closedOr ⟨rule, start⟩ (s == .parseHeader) ⟨[], raw, [], false⟩) = .error _ :=
      if_neg (by simp [hs])
    rw [closeAtEnd, if_neg hs, Except.bind, hy]
    exact fault_follows hstart

/-- A stretch that both read is put before what they go on to read. -/
theorem follows_map_after {x : Checked Lexeme} {v : Text}
    (h : Follows s t
      (fun u b ↦ u = lexemeOf kind (value ++ v) start (position + Text.utf8Size raw) b) x y) :
    Follows s t (fun u b ↦ u = lexemeOf kind value start position b) x
      (y.map (·.after v raw)) := by
  refine h.map_right ?_
  rintro _ b rfl
  exact (lexemeOf_after ..).symm

/-- So it is before a token that may be open. -/
theorem follows_closedOr_after {x : Checked Lexeme} {v : Text} {f : SyntaxFault}
    (h : Follows s t
      (fun u b ↦ u = lexemeOf kind (value ++ v) start (position + Text.utf8Size raw) b) x
      (y.bind (·.closedOr f mayBeOpen))) :
    Follows s t (fun u b ↦ u = lexemeOf kind value start position b) x
      ((y.map (·.after v raw)).bind (·.closedOr f mayBeOpen)) := by
  rw [bind_closedOr_map_after]
  exact follows_map_after h

end

/-- A quoted string is read alike from any place inside it. -/
theorem quotedString_follows (hstart : t.IsBoundary start)
    (hrest : t.fromOctet? position = some rest) (value : Text) :
    Follows s t (fun u b ↦ u = lexemeOf .quotedString value start position b)
      (quotedString s t start position value)
      ((quotedBody s position rest).bind
        (·.closedOr ⟨.unterminatedQuote, start⟩ (s == .parseHeader))) := by
  fun_induction quotedBody s position rest generalizing value with
  | case1 position =>
    rw [quotedString, peek_of_nil hrest, ok_bind]
    exact closeAtEnd_follows hstart rfl
  | case2 position c rest hc =>
    rw [quotedString, peek_of_cons hrest, ok_bind]
    dsimp only [Seen.next]
    rw [if_pos hc]
    exact .ok (by simp [lexemeOf])
  -- a backslash is the last character: what is left open ends with it
  | case3 position c hc hc' =>
    have hnext := Text.fromOctet?_next hrest
    rw [quotedString, peek_of_cons hrest, ok_bind]
    dsimp only [Seen.next]
    rw [if_neg hc, if_pos hc', peek_of_nil hnext, ok_bind]
    dsimp only
    rw [quotedString, peek_of_nil hnext, ok_bind]
    exact closeAtEnd_follows hstart (by simp)
  | case4 position c hc hc' d rest ih =>
    have hnext := Text.fromOctet?_next hrest
    have hone := utf8Size_of_beq hc' rfl
    rw [quotedString, peek_of_cons hrest, ok_bind]
    dsimp only [Seen.next]
    rw [if_neg hc, if_pos hc', peek_of_cons hnext, ok_bind]
    dsimp only
    refine follows_closedOr_after ?_
    rw [hone] at hnext ⊢
    have := ih (Text.fromOctet?_next hnext) (value ++ [d])
    simpa [hone, Nat.add_assoc] using this
  -- a line break is gone past and says nothing
  | case5 position c rest hc hc' hbreak ih =>
    have hnext := Text.fromOctet?_next hrest
    rw [quotedString, peek_of_cons hrest, ok_bind]
    dsimp only [Seen.next]
    rw [if_neg hc, if_neg hc', if_pos hbreak]
    refine follows_closedOr_after ?_
    rw [utf8Size_of_isLineBreak hbreak] at hnext ⊢
    have := ih hnext value
    simpa [utf8Size_of_isLineBreak hbreak] using this
  | case6 position c rest hc hc' hbreak hrefuses =>
    rw [quotedString, peek_of_cons hrest, ok_bind]
    dsimp only [Seen.next]
    rw [if_neg hc, if_neg hc', if_neg hbreak, checkControl_of_refuses hrefuses]
    exact fault_follows (Text.isBoundary_of_fromOctet? hrest)
  | case7 position c rest hc hc' hbreak hrefuses ih =>
    rw [quotedString, peek_of_cons hrest, ok_bind]
    dsimp only [Seen.next]
    rw [if_neg hc, if_neg hc', if_neg hbreak, checkControl_of_not_refuses hrefuses, ok_bind]
    exact follows_closedOr_after (ih (Text.fromOctet?_next hrest) (value ++ [c]))

/-- A comment is read alike from any place inside it, with as many comments open as are. The depth
is at least one, so that leaving one is no subtraction below zero. -/
theorem comment_follows (hstart : t.IsBoundary start)
    (hrest : t.fromOctet? position = some rest) (value : Text) :
    Follows s t (fun u b ↦ u = lexemeOf .comment value start position b)
      (comment s t start position (depth + 1) value)
      ((commentBody s position depth rest).bind
        (·.closedOr ⟨.unterminatedComment, start⟩ (s == .parseHeader))) := by
  fun_induction commentBody s position depth rest generalizing value with
  | case1 position depth =>
    rw [comment, peek_of_nil hrest, ok_bind]
    exact closeAtEnd_follows hstart rfl
  | case2 position depth c hescape =>
    have hnext := Text.fromOctet?_next hrest
    rw [comment, peek_of_cons hrest, ok_bind]
    dsimp only [Seen.next]
    rw [if_pos hescape, peek_of_nil hnext, ok_bind]
    dsimp only
    rw [comment, peek_of_nil hnext, ok_bind]
    exact closeAtEnd_follows hstart (by simp)
  | case3 position depth c hescape d rest ih =>
    have hnext := Text.fromOctet?_next hrest
    have hone := utf8Size_of_beq hescape rfl
    rw [comment, peek_of_cons hrest, ok_bind]
    dsimp only [Seen.next]
    rw [if_pos hescape, peek_of_cons hnext, ok_bind]
    dsimp only
    refine follows_closedOr_after ?_
    rw [hone] at hnext ⊢
    have := ih (Text.fromOctet?_next hnext) (value ++ [d])
    simpa [hone, Nat.add_assoc] using this
  | case4 position depth c rest hescape hopen ih =>
    have hnext := Text.fromOctet?_next hrest
    have hone := utf8Size_of_beq hopen rfl
    obtain rfl := eq_of_beq hopen
    rw [comment, peek_of_cons hrest, ok_bind]
    dsimp only [Seen.next]
    rw [if_neg hescape, if_pos hopen]
    refine follows_closedOr_after ?_
    rw [hone] at hnext ⊢
    have := ih hnext (value ++ ['('])
    simpa [hone] using this
  -- the outermost parenthesis closes the comment
  | case5 position c rest hescape hopen hclose =>
    rw [comment, peek_of_cons hrest, ok_bind]
    dsimp only [Seen.next]
    rw [if_neg hescape, if_neg hopen, if_pos hclose]
    exact .ok (by simp [lexemeOf])
  | case6 position depth c rest hescape hopen hclose hdepth ih =>
    have hnext := Text.fromOctet?_next hrest
    have hone := utf8Size_of_beq hclose rfl
    obtain rfl := eq_of_beq hclose
    -- an inner one closes, so that the depth can go down by one
    obtain ⟨depth, rfl⟩ := Nat.exists_eq_succ_of_ne_zero hdepth
    rw [comment, peek_of_cons hrest, ok_bind]
    dsimp only [Seen.next]
    rw [if_neg hescape, if_neg hopen, if_pos hclose, Checked.sub_of_le (by omega), ok_bind,
      if_neg (by omega)]
    refine follows_closedOr_after ?_
    rw [hone] at hnext ⊢
    have := ih hnext (value ++ [')'])
    simpa [hone] using this
  | case7 position depth c rest hescape hopen hclose hbreak ih =>
    have hnext := Text.fromOctet?_next hrest
    have hone := utf8Size_of_isLineBreak hbreak
    rw [comment, peek_of_cons hrest, ok_bind]
    dsimp only [Seen.next]
    rw [if_neg hescape, if_neg hopen, if_neg hclose, if_pos hbreak]
    refine follows_closedOr_after ?_
    rw [hone] at hnext ⊢
    have := ih hnext value
    simpa [hone] using this
  | case8 position depth c rest hescape hopen hclose hbreak hrefuses =>
    rw [comment, peek_of_cons hrest, ok_bind]
    dsimp only [Seen.next]
    rw [if_neg hescape, if_neg hopen, if_neg hclose, if_neg hbreak,
      checkControl_of_refuses hrefuses]
    exact fault_follows (Text.isBoundary_of_fromOctet? hrest)
  | case9 position depth c rest hescape hopen hclose hbreak hrefuses ih =>
    rw [comment, peek_of_cons hrest, ok_bind]
    dsimp only [Seen.next]
    rw [if_neg hescape, if_neg hopen, if_neg hclose, if_neg hbreak,
      checkControl_of_not_refuses hrefuses, ok_bind]
    exact follows_closedOr_after (ih (Text.fromOctet?_next hrest) (value ++ [c]))

/-- A domain literal is read alike from any place inside it. It has to be closed at any strictness.
-/
theorem domainLiteral_follows (hstart : t.IsBoundary start)
    (hrest : t.fromOctet? position = some rest) (value : Text) :
    Follows s t (fun u b ↦ u = lexemeOf .domainLiteral value start position b)
      (domainLiteral s t start position value)
      ((literalBody s position rest).bind
        (·.closedOr ⟨.unterminatedDomainLiteral, start⟩ false)) := by
  fun_induction literalBody s position rest generalizing value with
  | case1 position =>
    rw [domainLiteral, peek_of_nil hrest, ok_bind]
    exact fault_follows hstart
  | case2 position c rest hclose =>
    obtain rfl := eq_of_beq hclose
    rw [domainLiteral, peek_of_cons hrest, ok_bind]
    dsimp only [Seen.next]
    rw [if_pos hclose]
    exact .ok (by simp [lexemeOf])
  | case3 position c rest hclose hopen =>
    rw [domainLiteral, peek_of_cons hrest, ok_bind]
    dsimp only [Seen.next]
    rw [if_neg hclose, if_pos hopen]
    exact fault_follows (Text.isBoundary_of_fromOctet? hrest)
  | case4 position c hclose hopen hescape =>
    have hnext := Text.fromOctet?_next hrest
    rw [domainLiteral, peek_of_cons hrest, ok_bind]
    dsimp only [Seen.next]
    rw [if_neg hclose, if_neg hopen, if_pos hescape, peek_of_nil hnext, ok_bind]
    dsimp only
    rw [domainLiteral, peek_of_nil hnext, ok_bind]
    exact fault_follows hstart
  | case5 position c hclose hopen hescape d rest ih =>
    have hnext := Text.fromOctet?_next hrest
    have hone := utf8Size_of_beq hescape rfl
    obtain rfl := eq_of_beq hescape
    rw [domainLiteral, peek_of_cons hrest, ok_bind]
    dsimp only [Seen.next]
    rw [if_neg hclose, if_neg hopen, if_pos hescape, peek_of_cons hnext, ok_bind]
    -- an escaped character stands in a literal with its backslash
    dsimp only
    refine follows_closedOr_after ?_
    rw [hone] at hnext ⊢
    have := ih (Text.fromOctet?_next hnext) (value ++ ['\\', d])
    simpa [hone, Nat.add_assoc] using this
  | case6 position c rest hclose hopen hescape hbreak ih =>
    have hnext := Text.fromOctet?_next hrest
    have hone := utf8Size_of_isLineBreak hbreak
    rw [domainLiteral, peek_of_cons hrest, ok_bind]
    dsimp only [Seen.next]
    rw [if_neg hclose, if_neg hopen, if_neg hescape, if_pos hbreak]
    refine follows_closedOr_after ?_
    rw [hone] at hnext ⊢
    have := ih hnext value
    simpa [hone] using this
  | case7 position c rest hclose hopen hescape hbreak hrefuses =>
    rw [domainLiteral, peek_of_cons hrest, ok_bind]
    dsimp only [Seen.next]
    rw [if_neg hclose, if_neg hopen, if_neg hescape, if_neg hbreak,
      checkControl_of_refuses hrefuses]
    exact fault_follows (Text.isBoundary_of_fromOctet? hrest)
  | case8 position c rest hclose hopen hescape hbreak hrefuses ih =>
    rw [domainLiteral, peek_of_cons hrest, ok_bind]
    dsimp only [Seen.next]
    rw [if_neg hclose, if_neg hopen, if_neg hescape, if_neg hbreak,
      checkControl_of_not_refuses hrefuses, ok_bind]
    exact follows_closedOr_after (ih (Text.fromOctet?_next hrest) (value ++ [c]))

/-- An atom goes on up to a character that cannot be in one. -/
theorem atom_follows (hrest : t.fromOctet? position = some rest) (value : Text) :
    Follows s t (fun u b ↦ u = lexemeOf .atom value start position b)
      (atom s t start position value) (atomBody s position rest) := by
  fun_induction atomBody s position rest generalizing value with
  | case1 position =>
    rw [atom, peek_of_nil hrest, ok_bind]
    exact .ok (by simp [lexemeOf])
  | case2 position c rest hends =>
    rw [atom, peek_of_cons hrest, ok_bind]
    dsimp only [Seen.next]
    rw [if_pos hends]
    exact .ok (by simp [lexemeOf])
  | case3 position c rest hends hrefuses =>
    rw [atom, peek_of_cons hrest, ok_bind]
    dsimp only [Seen.next]
    rw [if_neg hends, checkControl_of_refuses hrefuses]
    exact fault_follows (Text.isBoundary_of_fromOctet? hrest)
  | case4 position c rest hends hrefuses ih =>
    rw [atom, peek_of_cons hrest, ok_bind]
    dsimp only [Seen.next]
    rw [if_neg hends, checkControl_of_not_refuses hrefuses, ok_bind]
    exact follows_map_after (ih (Text.fromOctet?_next hrest) (value ++ [c]))

/-! ### Tokens -/

/-- Blanks are skipped up to the first character that is none. -/
theorem skipBlanks_eq_ok (hrest : t.fromOctet? position = some rest) :
    skipBlanks t position = .ok (position + Text.utf8Size (rest.takeWhile isBlankChar)) := by
  induction rest generalizing position with
  | nil =>
    rw [skipBlanks, peek_of_nil hrest]
    rfl
  | cons c rest ih =>
    rw [skipBlanks, peek_of_cons hrest, ok_bind]
    dsimp only [Seen.next]
    by_cases hc : isBlankChar c = true
    · rw [if_pos hc, ih (Text.fromOctet?_next hrest), List.takeWhile_cons_of_pos hc]
      simp [Nat.add_assoc]
    · rw [if_neg hc, List.takeWhile_cons_of_neg hc]
      rfl

/-- With nothing but blanks left there is no token. -/
theorem nextToken_of_nil (hrest : t.fromOctet? position = some rest)
    (hnil : rest.dropWhile isBlankChar = []) : nextToken s t position = .ok none := by
  have hstart := Text.fromOctet?_add (u := rest.takeWhile isBlankChar)
    (by rwa [List.takeWhile_append_dropWhile])
  rw [nextToken, skipBlanks_eq_ok hrest, ok_bind, peek_of_nil (hnil ▸ hstart)]
  rfl

/-- A token and the place it takes. -/
theorem nextToken_follows {after : Text} (hrest : t.fromOctet? position = some rest)
    (hcons : rest.dropWhile isBlankChar = c :: after)
    (hstart : start = position + Text.utf8Size (rest.takeWhile isBlankChar)) :
    Follows s t (fun u b ↦ u = some ⟨.ofFirst c, b.value, start, start + Text.utf8Size b.raw⟩)
      (nextToken s t position) (tokenBody s start c after) := by
  -- the cursor stands behind the blanks
  have hfrom : t.fromOctet? start = some (c :: after) := by
    rw [hstart, ← hcons]
    exact Text.fromOctet?_add (by rwa [List.takeWhile_append_dropWhile])
  have hbound := Text.isBoundary_of_fromOctet? hfrom
  have hnext := Text.fromOctet?_next hfrom
  rw [nextToken, skipBlanks_eq_ok hrest, ← hstart, ok_bind, peek_of_cons hfrom, ok_bind]
  dsimp only [Seen.next]
  unfold tokenBody TokenKind.ofFirst
  by_cases hquote : (c == '"') = true
  · have hone := utf8Size_of_beq hquote rfl
    simp only [if_pos hquote]
    rw [hone] at hnext ⊢
    refine (quotedString_follows hbound hnext []).map ?_
    rintro _ b rfl
    simp [lexemeOf, TokenBody.after, hone, Nat.add_assoc]
  by_cases hopen : (c == '(') = true
  · have hone := utf8Size_of_beq hopen rfl
    simp only [if_neg hquote, if_pos hopen]
    rw [hone] at hnext ⊢
    refine (comment_follows hbound hnext []).map ?_
    rintro _ b rfl
    simp [lexemeOf, TokenBody.after, hone, Nat.add_assoc]
  by_cases hliteral : (c == '[') = true
  · have hone := utf8Size_of_beq hliteral rfl
    obtain rfl := eq_of_beq hliteral
    simp only [if_neg hquote, if_neg hopen, if_pos hliteral]
    rw [hone] at hnext ⊢
    refine (domainLiteral_follows hbound hnext _).map ?_
    rintro _ b rfl
    simp [lexemeOf, TokenBody.after, hone, Nat.add_assoc]
  -- what is left are special characters and atoms
  by_cases hspecial : isSpecial c = true
  · simp only [if_neg hquote, if_neg hopen, if_neg hliteral, if_pos hspecial]
    exact .ok (by simp)
  simp only [if_neg hquote, if_neg hopen, if_neg hliteral, if_neg hspecial]
  by_cases hrefuses : s.refuses c = true
  · rw [checkControl_of_refuses hrefuses, if_pos hrefuses]
    exact fault_follows hbound
  · rw [checkControl_of_not_refuses hrefuses, if_neg hrefuses, ok_bind]
    refine (atom_follows hnext _).map ?_
    rintro _ b rfl
    simp [lexemeOf, TokenBody.after, Nat.add_assoc]

/-- The tokens from any place on, by induction on the text that is left: each of them takes the
cursor further. -/
theorem tokensFrom_follows (hrest : t.fromOctet? position = some rest) :
    Follows s t (fun us ts ↦ us = ts.map Token.lexeme) (tokensFrom s t position)
      (InternetMail.tokensFrom s (position + Text.utf8Size (rest.takeWhile isBlankChar))
        (rest.dropWhile isBlankChar)) := by
  induction hn : rest.length using Nat.strong_induction_on generalizing position rest with
  | h n ih =>
    cases hd : rest.dropWhile isBlankChar with
    | nil =>
      rw [tokensFrom, nextToken_of_nil hrest hd, InternetMail.tokensFrom]
      exact .ok rfl
    | cons c after =>
      have hstep := nextToken_follows (s := s) hrest hd rfl
      rw [tokensFrom]
      generalize nextToken s t position = x at hstep ⊢
      cases hbody : tokenBody s (position + Text.utf8Size (rest.takeWhile isBlankChar)) c after with
      | error f =>
        rw [hbody] at hstep
        rw [tokensFrom_of_tokenBody_eq_error hbody]
        cases hstep with
        | error hbound => exact .error hbound
      | ok b =>
        rw [hbody] at hstep
        rw [tokensFrom_cons hbody rfl]
        obtain ⟨rfl⟩ | _ := hstep
        -- the text after the blanks begins with the token, which is not empty
        have htoken : t.fromOctet? (position + Text.utf8Size (rest.takeWhile isBlankChar) +
            Text.utf8Size b.raw) = some b.rest := by
          refine Text.fromOctet?_add ?_
          rw [raw_append_rest_of_tokenBody hbody, ← hd]
          exact Text.fromOctet?_add (by rwa [List.takeWhile_append_dropWhile])
        have hmoves : 0 < Text.utf8Size b.raw := by
          obtain ⟨d, raw, hraw⟩ := List.exists_cons_of_ne_nil (raw_ne_nil_of_tokenBody hbody)
          rw [hraw, Text.utf8Size_cons]
          have := d.utf8Size_pos
          omega
        have hle := (Text.isBoundary_of_fromOctet? htoken).le
        have hshorter : b.rest.length < n := by
          have hread := congrArg List.length (raw_append_rest_of_tokenBody hbody)
          have hblanks := (List.dropWhile_sublist isBlankChar (l := rest)).length_le
          have hpos := List.length_pos_iff.2 (raw_ne_nil_of_tokenBody hbody)
          rw [List.length_append] at hread
          rw [hd] at hblanks
          omega
        rw [ok_bind]
        dsimp only
        rw [dif_pos (by omega)]
        refine (ih _ hshorter htoken rfl).map ?_
        rintro _ ts rfl
        rfl

/-- **A text has the same tokens for the cursor**, or the same fault. -/
theorem tokenize_follows (s : Strictness) (t : Text) :
    Follows s t (fun us ts ↦ us = ts.map Token.lexeme) (tokenize s t)
      (InternetMail.tokenize s t) := by
  have hrest : t.fromOctet? 0 = some t := by simp [Text.fromOctet?]
  have h := tokensFrom_follows (s := s) hrest
  rwa [Nat.zero_add] at h

end Cursor

end InternetMail
