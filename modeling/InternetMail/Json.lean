import InternetMail.Text.Quoted

/-!
# JSON

Settings, flags and header maps are kept as JSON. A document is cut into tokens, and the tokens
drive a machine that holds the arrays and objects still open (`Json.State`), so that reading is one
pass over the tokens. Members keep their order and may share a name; what to make of that is left to
whoever reads the value.

A number without fraction and exponent is an integer of any size; every other number is kept as it
was written.
-/

namespace InternetMail

/-- A JSON value. -/
inductive Json
  | null
  | bool (b : Bool)
  | integer (n : Int)
  | decimal (literal : Text)
  | text (t : Text)
  | array (items : List Json)
  | object (members : List (Text × Json))

namespace Json

/-! ### Writing -/

/-- A character inside a JSON string. -/
def escaped (c : Char) : String :=
  if c == '"' then "\\\""
  else if c == '\\' then "\\\\"
  else if c == '\x08' then "\\b"
  else if c == '\t' then "\\t"
  else if c == '\n' then "\\n"
  else if c == '\x0c' then "\\f"
  else if c == '\r' then "\\r"
  else if c.toNat < 16 then "\\u000" ++ hexDigits c.toNat
  else if c.toNat < 32 then "\\u00" ++ hexDigits c.toNat
  else c.toString

/-- A JSON string. -/
def quoted (t : Text) : String :=
  t.foldl (fun s c ↦ s ++ escaped c) "\"" ++ "\""

mutual

/-- The value as JSON text without white space. -/
def render : Json → String
  | .null => "null"
  | .bool b => if b then "true" else "false"
  | .integer n => toString n
  | .decimal literal => String.ofList literal
  | .text t => quoted t
  | .array items => "[" ++ renderItems items ++ "]"
  | .object members => "\x7b" ++ renderMembers members ++ "\x7d"

/-- The items of an array, with commas between them. -/
def renderItems : List Json → String
  | [] => ""
  | [j] => render j
  | j :: js => render j ++ "," ++ renderItems js

/-- The members of an object, with commas between them. -/
def renderMembers : List (Text × Json) → String
  | [] => ""
  | [(name, j)] => quoted name ++ ":" ++ render j
  | (name, j) :: ms => quoted name ++ ":" ++ render j ++ "," ++ renderMembers ms

end

/-! ### Tokens -/

/-- What a JSON document is made of. -/
inductive Token
  | openArray
  | closeArray
  | openObject
  | closeObject
  | colon
  | comma
  | scalar (j : Json)

/-- The value of four hexadecimal digits. -/
def hexUnit? (ds : List Char) : Option Nat :=
  ds.foldl (fun n? d ↦ do
    let v ← Octet.hexValue? (Octet.ofAscii d)
    if d.toNat < 128 then some ((← n?) * 16 + v.toNat) else none) (some 0)

/-- The character that a one letter escape stands for. -/
def escapeLetter? : Char → Option Char
  | '"' => some '"'
  | '\\' => some '\\'
  | '/' => some '/'
  | 'b' => some '\x08'
  | 'f' => some '\x0c'
  | 'n' => some '\n'
  | 'r' => some '\r'
  | 't' => some '\t'
  | _ => none

/-- What a string says, from after its opening quote, and what follows its closing quote. A
character past U+FFFF is escaped as a pair of surrogates, and a surrogate alone is refused. -/
def stringBody : Text → Option (Text × Text)
  | '"' :: rest => some ([], rest)
  | '\\' :: 'u' :: a :: b :: c :: d :: rest =>
    match hexUnit? [a, b, c, d] with
    | none => none
    | some unit =>
      if unit < 0xD800 ∨ 0xDFFF < unit then
        (stringBody rest).map fun (t, r) ↦ (Char.ofNat unit :: t, r)
      else
        match rest with
        | '\\' :: 'u' :: e :: f :: g :: h :: rest =>
          match hexUnit? [e, f, g, h] with
          | none => none
          | some low =>
            if unit < 0xDC00 ∧ 0xDC00 ≤ low ∧ low ≤ 0xDFFF then
              (stringBody rest).map fun (t, r) ↦
                (Char.ofNat (0x10000 + (unit - 0xD800) * 0x400 + (low - 0xDC00)) :: t, r)
            else none
        | _ => none
  | '\\' :: c :: rest =>
    match escapeLetter? c with
    | none => none
    | some e => (stringBody rest).map fun (t, r) ↦ (e :: t, r)
  | c :: rest =>
    if c.toNat < 32 then none else (stringBody rest).map fun (t, r) ↦ (c :: t, r)
  | [] => none

/-- What follows a string is shorter than what its body began. -/
theorem length_lt_of_stringBody {t v r : Text} (h : stringBody t = some (v, r)) :
    r.length < t.length := by
  fun_induction stringBody t generalizing v r with
  | case1 rest =>
    cases h
    simp
  | case3 | case5 | case9 | case11 =>
    rename_i ih
    obtain ⟨⟨_, r'⟩, hr, he⟩ := Option.map_eq_some_iff.1 h
    cases he
    have := ih hr
    simp only [List.length_cons]
    omega
  | _ => cases h

/-- The characters that numbers are written with. -/
def isNumeral (c : Char) : Bool :=
  c.isDigit || c == '-' || c == '+' || c == '.' || c == 'e' || c == 'E'

/-- The number that a literal writes, if it is one. -/
def number? (literal : Text) : Option Json :=
  let negative := literal.head? == some '-'
  let unsigned := if negative then literal.drop 1 else literal
  let whole := unsigned.takeWhile Char.isDigit
  let rest := unsigned.dropWhile Char.isDigit
  if whole.isEmpty || (whole.head? == some '0' && 1 < whole.length) then none
  else
    let (fraction?, rest) :=
      match rest with
      | '.' :: rest => (some (rest.takeWhile Char.isDigit), rest.dropWhile Char.isDigit)
      | rest => (none, rest)
    let (exponent?, rest) :=
      match rest with
      | 'e' :: '+' :: rest | 'e' :: '-' :: rest | 'E' :: '+' :: rest | 'E' :: '-' :: rest
      | 'e' :: rest | 'E' :: rest =>
        (some (rest.takeWhile Char.isDigit), rest.dropWhile Char.isDigit)
      | rest => (none, rest)
    if !rest.isEmpty || fraction? == some [] || exponent? == some [] then none
    else if fraction?.isSome || exponent?.isSome || literal == ['-', '0'] then
      some (.decimal literal)
    else
      let magnitude : Nat := whole.foldl (fun n d ↦ n * 10 + (d.toNat - 0x30)) 0
      some (.integer (if negative then -magnitude else magnitude))

/-- The tokens of a document. -/
def tokens : Text → Option (List Token)
  | [] => some []
  | '[' :: rest => (tokens rest).map (.openArray :: ·)
  | ']' :: rest => (tokens rest).map (.closeArray :: ·)
  | '\x7b' :: rest => (tokens rest).map (.openObject :: ·)
  | '\x7d' :: rest => (tokens rest).map (.closeObject :: ·)
  | ':' :: rest => (tokens rest).map (.colon :: ·)
  | ',' :: rest => (tokens rest).map (.comma :: ·)
  | 't' :: 'r' :: 'u' :: 'e' :: rest => (tokens rest).map (.scalar (.bool true) :: ·)
  | 'f' :: 'a' :: 'l' :: 's' :: 'e' :: rest => (tokens rest).map (.scalar (.bool false) :: ·)
  | 'n' :: 'u' :: 'l' :: 'l' :: rest => (tokens rest).map (.scalar .null :: ·)
  | '"' :: rest =>
    match h : stringBody rest with
    | none => none
    | some (t, rest') =>
      have := length_lt_of_stringBody h
      (tokens rest').map (.scalar (.text t) :: ·)
  | c :: rest =>
    if isBlankChar c then tokens rest
    else
      match number? (c :: rest.takeWhile isNumeral) with
      | none => none
      | some j =>
        have := (List.dropWhile_sublist isNumeral (l := rest)).length_le
        (tokens (rest.dropWhile isNumeral)).map (.scalar j :: ·)
termination_by t => t.length

/-! ### Reading -/

/-- An array or object that is still open, with what it holds so far, last first. -/
inductive Frame
  | array (items : List Json)
  | object (members : List (Text × Json)) (name : Text)

/-- What reading has come to, inside the frames of `stack`, innermost first. -/
inductive State
  /-- A value has to follow. -/
  | value (stack : List Frame)
  /-- An array was opened. -/
  | item (stack : List Frame)
  /-- An object was opened. -/
  | member (stack : List Frame)
  /-- The name of one more member has to follow. -/
  | key (members : List (Text × Json)) (stack : List Frame)
  /-- A colon has to follow. -/
  | colon (members : List (Text × Json)) (name : Text) (stack : List Frame)
  /-- A value was read. -/
  | after (j : Json) (stack : List Frame)

/-- Reading on from where a value may begin. -/
def beginValue (stack : List Frame) : Token → Option State
  | .openArray => some (.item stack)
  | .openObject => some (.member stack)
  | .scalar j => some (.after j stack)
  | _ => none

/-- Reading on by one token. -/
def State.next : State → Token → Option State
  | .value stack, t => beginValue stack t
  | .item stack, .closeArray => some (.after (.array []) stack)
  | .item stack, t => beginValue (.array [] :: stack) t
  | .member stack, .closeObject => some (.after (.object []) stack)
  | .member stack, .scalar (.text k) => some (.colon [] k stack)
  | .key members stack, .scalar (.text k) => some (.colon members k stack)
  | .colon members k stack, .colon => some (.value (.object members k :: stack))
  | .after j (.array items :: stack), .comma => some (.value (.array (j :: items) :: stack))
  | .after j (.array items :: stack), .closeArray =>
    some (.after (.array (j :: items).reverse) stack)
  | .after j (.object members k :: stack), .comma => some (.key ((k, j) :: members) stack)
  | .after j (.object members k :: stack), .closeObject =>
    some (.after (.object ((k, j) :: members).reverse) stack)
  | _, _ => none

/-- The value that a document holds. -/
def parse? (document : Text) : Option Json := do
  match ← (← tokens document).foldlM State.next (.value []) with
  | .after j [] => some j
  | _ => none

/-! ### Looking into values -/

/-- The last member of the name, in an object. -/
def member? (name : String) : Json → Option Json
  | .object members => (members.findRev? fun m ↦ m.1 == name.toList).map Prod.snd
  | _ => none

/-- The text, of a string. -/
def text? : Json → Option Text
  | .text t => some t
  | _ => none

end Json

end InternetMail
