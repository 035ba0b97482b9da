import InternetMail.Text.Basic

/-!
# Quoted-printable

An octet that would not survive transport is written as `=` and two hexadecimal digits. Bodies are
cut into lines of at most 76 characters by soft breaks, an `=` at the end of a line. The `Q` form of
encoded words has no breaks, writes a space as `_`, and leaves fewer octets as they are.
-/

namespace InternetMail.QuotedPrintable

/-- The octet written as `=` and two hexadecimal digits. -/
def escape (b : UInt8) : Octets :=
  [0x3d, Octet.hexDigit (b / 16), Octet.hexDigit (b % 16)]

/-- The octet that the two digits after an `=` write. -/
def escaped? (high low : UInt8) : Option UInt8 := do
  some ((← Octet.hexValue? high) * 16 + (← Octet.hexValue? low))

/-! ### Bodies -/

/-- The longest line of an encoded body, without its line break. -/
def lineLimit : Nat := 76

/-- Whether a body may hold the octet as it is, `last` telling whether it ends a line. White space
at the end of a line is written by number, since transports strip it. -/
def isPlain (last : Bool) (b : UInt8) : Bool :=
  (0x21 ≤ b && b ≤ 0x7e && b != 0x3d) || ((b == 0x20 || b == 0x09) && !last)

/-- The rest of a line of which `column` characters have been written. Room for a soft break is kept
in each line. -/
def encodeLineFrom (column : Nat) : Octets → Octets
  | [] => []
  | b :: bs =>
    let form := if isPlain bs.isEmpty b then [b] else escape b
    if column + form.length > lineLimit - 1 then
      [0x3d, 0x0d, 0x0a] ++ form ++ encodeLineFrom form.length bs
    else form ++ encodeLineFrom (column + form.length) bs

/-- A line without its line break. -/
def encodeLine (line : Octets) : Octets :=
  encodeLineFrom 0 (Run.dropEnding [0x0d] line)

/-- Lines one after another, with CR LF between them. -/
def joinLines : List Octets → Octets
  | [] => []
  | [line] => line
  | line :: lines => line ++ [0x0d, 0x0a] ++ joinLines lines

/-- The encoded form of a body. Every line break is written as CR LF. -/
def encode (body : Octets) : Octets :=
  joinLines ((Run.stretches (· == 0x0a) body).map encodeLine)

/-- The body of an encoded form. Soft breaks are dropped, and an `=` that begins neither a soft
break nor an octet stands for itself. -/
def decode : Octets → Octets
  | [] => []
  | b :: bs =>
    if b == 0x3d then
      match bs with
      | 0x0d :: 0x0a :: rest => decode rest
      | 0x0a :: rest => decode rest
      | high :: low :: rest =>
        match escaped? high low with
        | some octet => octet :: decode rest
        | none => b :: decode (high :: low :: rest)
      | [c] => b :: decode [c]
      | [] => [b]
    else b :: decode bs

/-! ### Encoded words -/

/-- Whether an encoded word may hold the octet as it is. These are the characters that are safe also
within the phrase of an address. -/
def isWordPlain (b : UInt8) : Bool :=
  Octet.isAlphanumeric b || [0x21, 0x2a, 0x2b, 0x2d, 0x2f].contains b

/-- An octet in an encoded word. -/
def encodeWordOctet (b : UInt8) : Octets :=
  if b == 0x20 then [0x5f] else if isWordPlain b then [b] else escape b

/-- The `Q` form of some octets. -/
def encodeWord (bs : Octets) : Octets :=
  bs.flatMap encodeWordOctet

/-- The octets of a `Q` form. -/
def decodeWord : Octets → Octets
  | [] => []
  | b :: bs =>
    if b == 0x3d then
      match bs with
      | high :: low :: rest =>
        match escaped? high low with
        | some octet => octet :: decodeWord rest
        | none => b :: decodeWord (high :: low :: rest)
      | [c] => b :: decodeWord [c]
      | [] => [b]
    else if b == 0x5f then 0x20 :: decodeWord bs
    else b :: decodeWord bs

end InternetMail.QuotedPrintable
