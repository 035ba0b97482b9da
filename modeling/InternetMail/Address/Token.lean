import InternetMail.Address.Fault

/-!
# Tokens of address text

Address text is atoms, quoted strings, domain literals, comments and special characters, with blanks
between them. `tokenize` takes a text apart. Each token keeps the text it was read from and the
blanks that follow it, so that the tokens and the blanks before the first of them are the whole text
again.

A quoted string or a comment that is not closed ends with the text if the reading is `parseHeader`,
and is a fault otherwise; a domain literal is never closed for the writer, since it would swallow
the rest of the list.
-/

namespace InternetMail

/-- The characters that are tokens of their own or begin one. -/
def isSpecial (c : Char) : Bool :=
  ['(', ')', '<', '>', '@', ',', ';', ':', '\\', '"', '.', '[', ']'].contains c

/-- The kinds of tokens. -/
inductive TokenKind
  | atom
  | quotedString
  | domainLiteral
  | comment
  | special (c : Char)
  deriving DecidableEq, Repr

/-- A token of address text. -/
structure Token where
  kind : TokenKind
  /-- What the token says: quoted strings and comments without quotes and escapes, domain
  literals with their brackets. -/
  value : Text
  /-- The text of the token as it was written. -/
  raw : Text
  /-- Where it begins, as an octet of the text. -/
  start : Nat
  /-- The blanks after it. -/
  gap : Text
  /-- Whether it was closed, if it is of a kind that has to be. -/
  closed : Bool
  deriving DecidableEq

namespace Token

/-- The octet at which the token ends. -/
def stop (t : Token) : Nat :=
  t.start + Text.utf8Size t.raw

/-- The octet at which the next token begins or the text ends. -/
def next (t : Token) : Nat :=
  t.stop + Text.utf8Size t.gap

/-- Whether the token is the special character `c`. -/
def isSpecial (t : Token) (c : Char) : Bool :=
  t.kind == .special c

/-- Whether the token is a special character. -/
def isAnySpecial (t : Token) : Bool :=
  match t.kind with
  | .special _ => true
  | _ => false

/-- An atom or a quoted string. -/
def isWord (t : Token) : Bool :=
  t.kind == .atom || t.kind == .quotedString

/-- An atom or a domain literal: a part of a domain. -/
def isSubDomain (t : Token) : Bool :=
  t.kind == .atom || t.kind == .domainLiteral

/-- Whether the token is a comment. -/
def isComment (t : Token) : Bool :=
  t.kind == .comment

/-- The fault that the token breaks a rule at its beginning. -/
def fault (t : Token) (rule : SyntaxRule) : SyntaxFault :=
  ⟨rule, t.start⟩

end Token

/-! ### The insides of tokens -/

/-- What was read of a token. -/
structure TokenBody where
  value : Text
  raw : Text
  rest : Text
  closed : Bool

/-- The body with a stretch put before it that says `value` and is written `raw`. -/
def TokenBody.after (value raw : Text) (b : TokenBody) : TokenBody :=
  { b with value := value ++ b.value, raw := raw ++ b.raw }

/-- Whether the reading refuses the character: strict readings refuse controls except TAB. -/
def Strictness.refuses (s : Strictness) (c : Char) : Bool :=
  s == .strict && isControlChar c && c != '\t'

/-- Whether the character breaks a line. Line breaks inside tokens are folding and say nothing. -/
def isLineBreak (c : Char) : Bool :=
  c == '\r' || c == '\n'

/-- Reads a quoted string from after its opening quote, which ends at octet `position`. -/
def quotedBody (s : Strictness) (position : Nat) : Text → Except SyntaxFault TokenBody
  | [] => .ok ⟨[], [], [], false⟩
  | c :: t =>
    if c == '"' then .ok ⟨[], [c], t, true⟩
    else if c == '\\' then
      match t with
      | [] => .ok ⟨[], [c], [], false⟩
      | d :: t => (quotedBody s (position + 1 + d.utf8Size) t).map (·.after [d] [c, d])
    else if isLineBreak c then (quotedBody s (position + 1) t).map (·.after [] [c])
    else if s.refuses c then .error ⟨.invalidCharacter, position⟩
    else (quotedBody s (position + c.utf8Size) t).map (·.after [c] [c])

/-- Reads a comment from octet `position` on, `depth` comments deep inside it. -/
def commentBody (s : Strictness) (position depth : Nat) : Text → Except SyntaxFault TokenBody
  | [] => .ok ⟨[], [], [], false⟩
  | c :: t =>
    if c == '\\' then
      match t with
      | [] => .ok ⟨[], [c], [], false⟩
      | d :: t => (commentBody s (position + 1 + d.utf8Size) depth t).map (·.after [d] [c, d])
    else if c == '(' then (commentBody s (position + 1) (depth + 1) t).map (·.after [c] [c])
    else if c == ')' then
      if depth = 0 then .ok ⟨[], [c], t, true⟩
      else (commentBody s (position + 1) (depth - 1) t).map (·.after [c] [c])
    else if isLineBreak c then (commentBody s (position + 1) depth t).map (·.after [] [c])
    else if s.refuses c then .error ⟨.invalidCharacter, position⟩
    else (commentBody s (position + c.utf8Size) depth t).map (·.after [c] [c])

/-- Reads a domain literal from after its opening bracket, which ends at octet `position`. -/
def literalBody (s : Strictness) (position : Nat) : Text → Except SyntaxFault TokenBody
  | [] => .ok ⟨[], [], [], false⟩
  | c :: t =>
    if c == ']' then .ok ⟨[c], [c], t, true⟩
    else if c == '[' && s == .strict then .error ⟨.invalidCharacter, position⟩
    else if c == '\\' then
      match t with
      | [] => .ok ⟨[c], [c], [], false⟩
      | d :: t => (literalBody s (position + 1 + d.utf8Size) t).map (·.after [c, d] [c, d])
    else if isLineBreak c then (literalBody s (position + 1) t).map (·.after [] [c])
    else if s.refuses c then .error ⟨.invalidCharacter, position⟩
    else (literalBody s (position + c.utf8Size) t).map (·.after [c] [c])

/-- Reads the rest of an atom from octet `position` on. -/
def atomBody (s : Strictness) (position : Nat) : Text → Except SyntaxFault TokenBody
  | [] => .ok ⟨[], [], [], true⟩
  | c :: t =>
    if isBlankChar c || isSpecial c then .ok ⟨[], [], c :: t, true⟩
    else if s.refuses c then .error ⟨.invalidCharacter, position⟩
    else (atomBody s (position + c.utf8Size) t).map (·.after [c] [c])

/-- The kind of the token that a character other than a blank begins. -/
def TokenKind.ofFirst (c : Char) : TokenKind :=
  if c == '"' then .quotedString
  else if c == '(' then .comment
  else if c == '[' then .domainLiteral
  else if isSpecial c then .special c
  else .atom

/-- The body, unless it is open and may not be. -/
def TokenBody.closedOr (fault : SyntaxFault) (mayBeOpen : Bool) (b : TokenBody) :
    Except SyntaxFault TokenBody :=
  if b.closed || mayBeOpen then .ok b else .error fault

/-- Reads the token that `c` begins at octet `position`, `t` being what follows. -/
def tokenBody (s : Strictness) (position : Nat) (c : Char) (t : Text) :
    Except SyntaxFault TokenBody :=
  match TokenKind.ofFirst c with
  | .quotedString =>
    ((quotedBody s (position + 1) t).bind
      (·.closedOr ⟨.unterminatedQuote, position⟩ (s == .parseHeader))).map (·.after [] [c])
  | .comment =>
    ((commentBody s (position + 1) 0 t).bind
      (·.closedOr ⟨.unterminatedComment, position⟩ (s == .parseHeader))).map (·.after [] [c])
  | .domainLiteral =>
    ((literalBody s (position + 1) t).bind
      (·.closedOr ⟨.unterminatedDomainLiteral, position⟩ false)).map (·.after [c] [c])
  | .special _ => .ok ⟨[c], [c], t, true⟩
  | .atom =>
    if s.refuses c then .error ⟨.invalidCharacter, position⟩
    else (atomBody s (position + c.utf8Size) t).map (·.after [c] [c])

/-! ### What was read and what is left -/

/-- A body with a stretch before it is that of a reading that went well. -/
theorem map_after_eq_ok {x : Except SyntaxFault TokenBody} {value raw : Text} {b : TokenBody}
    (h : x.map (·.after value raw) = .ok b) : ∃ b₀, x = .ok b₀ ∧ b₀.after value raw = b := by
  cases x with
  | error e => cases h
  | ok b₀ => exact ⟨b₀, rfl, Except.ok.inj h⟩

@[simp]
theorem TokenBody.raw_after (value raw : Text) (b : TokenBody) :
    (b.after value raw).raw = raw ++ b.raw := rfl

@[simp]
theorem TokenBody.rest_after (value raw : Text) (b : TokenBody) :
    (b.after value raw).rest = b.rest := rfl

theorem raw_append_rest_of_quotedBody {s : Strictness} {position : Nat} {t : Text}
    {b : TokenBody} (h : quotedBody s position t = .ok b) : b.raw ++ b.rest = t := by
  fun_induction quotedBody s position t generalizing b with
  | case4 | case5 | case7 =>
    rename_i ih
    obtain ⟨b₀, h₀, rfl⟩ := map_after_eq_ok h
    simp [ih h₀]
  | _ => cases h <;> rfl

theorem raw_append_rest_of_commentBody {s : Strictness} {position depth : Nat} {t : Text}
    {b : TokenBody} (h : commentBody s position depth t = .ok b) : b.raw ++ b.rest = t := by
  fun_induction commentBody s position depth t generalizing b with
  | case3 | case4 | case6 | case7 | case9 =>
    rename_i ih
    obtain ⟨b₀, h₀, rfl⟩ := map_after_eq_ok h
    simp [ih h₀]
  | _ => cases h <;> rfl

theorem raw_append_rest_of_literalBody {s : Strictness} {position : Nat} {t : Text}
    {b : TokenBody} (h : literalBody s position t = .ok b) : b.raw ++ b.rest = t := by
  fun_induction literalBody s position t generalizing b with
  | case5 | case6 | case8 =>
    rename_i ih
    obtain ⟨b₀, h₀, rfl⟩ := map_after_eq_ok h
    simp [ih h₀]
  | _ => cases h <;> rfl

theorem raw_append_rest_of_atomBody {s : Strictness} {position : Nat} {t : Text}
    {b : TokenBody} (h : atomBody s position t = .ok b) : b.raw ++ b.rest = t := by
  fun_induction atomBody s position t generalizing b with
  | case4 =>
    rename_i ih
    obtain ⟨b₀, h₀, rfl⟩ := map_after_eq_ok h
    simp [ih h₀]
  | _ => cases h <;> rfl

theorem bind_closedOr_eq_ok {x : Except SyntaxFault TokenBody} {fault : SyntaxFault}
    {mayBeOpen : Bool} {b : TokenBody} (h : x.bind (·.closedOr fault mayBeOpen) = .ok b) :
    x = .ok b := by
  cases x with
  | error e => cases h
  | ok b₀ =>
    have h' : b₀.closedOr fault mayBeOpen = .ok b := h
    unfold TokenBody.closedOr at h'
    split at h'
    · exact h'
    · cases h'

/-- What was read of a token and what is left is the text that was there. -/
theorem raw_append_rest_of_tokenBody {s : Strictness} {position : Nat} {c : Char} {t : Text}
    {b : TokenBody} (h : tokenBody s position c t = .ok b) : b.raw ++ b.rest = c :: t := by
  unfold tokenBody at h
  split at h
  · obtain ⟨b₀, h₀, rfl⟩ := map_after_eq_ok h
    simp [raw_append_rest_of_quotedBody (bind_closedOr_eq_ok h₀)]
  · obtain ⟨b₀, h₀, rfl⟩ := map_after_eq_ok h
    simp [raw_append_rest_of_commentBody (bind_closedOr_eq_ok h₀)]
  · obtain ⟨b₀, h₀, rfl⟩ := map_after_eq_ok h
    simp [raw_append_rest_of_literalBody (bind_closedOr_eq_ok h₀)]
  · cases h
    rfl
  · split at h
    · cases h
    · obtain ⟨b₀, h₀, rfl⟩ := map_after_eq_ok h
      simp [raw_append_rest_of_atomBody h₀]

/-- A token that was read is not empty. -/
theorem raw_ne_nil_of_tokenBody {s : Strictness} {position : Nat} {c : Char} {t : Text}
    {b : TokenBody} (h : tokenBody s position c t = .ok b) : b.raw ≠ [] := by
  unfold tokenBody at h
  split at h
  case h_4 =>
    cases h
    simp
  case h_5 =>
    split at h
    · cases h
    · obtain ⟨b₀, -, rfl⟩ := map_after_eq_ok h
      simp
  all_goals
    obtain ⟨b₀, -, rfl⟩ := map_after_eq_ok h
    simp

/-- What is left after a token and the blanks that follow it is shorter than what was there. -/
theorem length_rest_of_tokenBody {s : Strictness} {position : Nat} {c : Char} {t : Text}
    {b : TokenBody} (h : tokenBody s position c t = .ok b) :
    (b.rest.dropWhile isBlankChar).length < (c :: t).length := by
  have h₁ := congrArg List.length (raw_append_rest_of_tokenBody h)
  have h₂ := (List.dropWhile_sublist isBlankChar (l := b.rest)).length_le
  have h₃ := List.length_pos_iff.2 (raw_ne_nil_of_tokenBody h)
  rw [List.length_append] at h₁
  omega

/-! ### Taking a text apart -/

/-- The tokens of a text that begins at octet `position` with a token. -/
def tokensFrom (s : Strictness) (position : Nat) : Text → Except SyntaxFault (List Token)
  | [] => .ok []
  | c :: t =>
    match h : tokenBody s position c t with
    | .error fault => .error fault
    | .ok b =>
      have := length_rest_of_tokenBody h
      let token : Token :=
        { kind := .ofFirst c, value := b.value, raw := b.raw, start := position,
          gap := b.rest.takeWhile isBlankChar, closed := b.closed }
      (tokensFrom s token.next (b.rest.dropWhile isBlankChar)).map (token :: ·)
termination_by t => t.length
decreasing_by
  simp only [List.length_cons] at this ⊢
  omega

/-- The tokens of a text, comments among them. -/
def tokenize (s : Strictness) (t : Text) : Except SyntaxFault (List Token) :=
  tokensFrom s (Text.utf8Size (t.takeWhile isBlankChar)) (t.dropWhile isBlankChar)

/-- The text from the first of the tokens to the end of the last, with the blanks between them. -/
def sourceOf : List Token → Text
  | [] => []
  | [t] => t.raw
  | t :: ts => t.raw ++ t.gap ++ sourceOf ts

/-- The text of the tokens without the blanks between them. -/
def rawOf (ts : List Token) : Text :=
  ts.flatMap Token.raw

end InternetMail
