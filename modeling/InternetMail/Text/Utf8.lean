import InternetMail.Text.Basic

/-!
# UTF-8

`Utf8.encode` writes a text. Reading goes octet by octet: `Utf8.parts` takes the octets apart
into characters and ill-formed stretches, each stretch the longest start of a well-formed
character that stands there, or one octet if there is none. From it come a reading that
replaces each stretch by U+FFFD (`Utf8.decodeLossy`), and a strict one that names the first
(`Utf8.decode`).
-/

namespace InternetMail.Utf8

/-- The UTF-8 form of a text. -/
def encode (t : Text) : Octets :=
  t.flatMap String.utf8EncodeChar

/-- The character that stands for what could not be read. -/
def replacement : Char := '\uFFFD'

/-! ### Taking octets apart -/

/-- A character of which some octets have been read. -/
structure Begun where
  /-- What the octets read so far say, six bits for each after the first. -/
  value : Nat
  /-- How many octets have been read. -/
  taken : Nat
  /-- The range that each octet still to come must lie in. -/
  owed : List (UInt8 × UInt8)

/-- What the octets are made of. -/
inductive Part
  /-- A character in its UTF-8 form. -/
  | char (c : Char)
  /-- An ill-formed stretch of `length` octets; `cut` if more octets could have completed it. -/
  | illFormed (length : Nat) (cut : Bool)

/-- The range of the octets after the first, where nothing narrower is asked for. -/
def tail : UInt8 × UInt8 := (0x80, 0xBF)

/-- The character that `b` begins. The first octet narrows the range of the second where longer
forms of a shorter character, surrogates and numbers past the last code point would begin. -/
def Begun.ofLead (b : UInt8) : Option Begun :=
  if 0xC2 ≤ b && b ≤ 0xDF then some ⟨b.toNat - 0xC0, 1, [tail]⟩
  else if b == 0xE0 then some ⟨0, 1, [(0xA0, 0xBF), tail]⟩
  else if b == 0xED then some ⟨0xD, 1, [(0x80, 0x9F), tail]⟩
  else if 0xE1 ≤ b && b ≤ 0xEF then some ⟨b.toNat - 0xE0, 1, [tail, tail]⟩
  else if b == 0xF0 then some ⟨0, 1, [(0x90, 0xBF), tail, tail]⟩
  else if 0xF1 ≤ b && b ≤ 0xF3 then some ⟨b.toNat - 0xF0, 1, [tail, tail, tail]⟩
  else if b == 0xF4 then some ⟨4, 1, [(0x80, 0x8F), tail, tail]⟩
  else none

/-- What the octet `b` gives where a character may begin, and the character it leaves begun. -/
def start (b : UInt8) : List Part × Option Begun :=
  if b < 0x80 then ([.char (Char.ofNat b.toNat)], none)
  else
    match Begun.ofLead b with
    | some p => ([], some p)
    | none => ([.illFormed 1 false], none)

/-- What the octet `b` gives after the character `p` was begun. An octet that cannot continue it
ends an ill-formed stretch and is read afresh. -/
def Begun.next (p : Begun) (b : UInt8) : List Part × Option Begun :=
  match p.owed with
  | [] => ([.illFormed p.taken false], none)
  | (low, high) :: owed =>
    if low ≤ b && b ≤ high then
      let value := p.value * 64 + (b.toNat - 0x80)
      if owed.isEmpty then ([.char (Char.ofNat value)], none)
      else ([], some ⟨value, p.taken + 1, owed⟩)
    else
      let (parts, begun) := start b
      (.illFormed p.taken false :: parts, begun)

/-- What the octets are made of, after the character `begun` was begun. -/
def partsFrom (begun : Option Begun) : Octets → List Part
  | [] =>
    match begun with
    | none => []
    | some p => [.illFormed p.taken true]
  | b :: bs =>
    let (parts, begun) :=
      match begun with
      | none => start b
      | some p => p.next b
    parts ++ partsFrom begun bs

/-- What the octets are made of. -/
def parts (bs : Octets) : List Part :=
  partsFrom none bs

/-! ### Reading -/

/-- The character that a part is read as. -/
def Part.toChar : Part → Char
  | .char c => c
  | .illFormed _ _ => replacement

/-- The number of octets of a part. -/
def Part.size : Part → Nat
  | .char c => c.utf8Size
  | .illFormed length _ => length

/-- Whether the part is a character. -/
def Part.isChar : Part → Bool
  | .char _ => true
  | .illFormed _ _ => false

/-- The text, with every ill-formed stretch read as U+FFFD. -/
def decodeLossy (bs : Octets) : Text :=
  (parts bs).map Part.toChar

/-- Whether the octets are the UTF-8 form of a text. -/
def isWellFormed (bs : Octets) : Bool :=
  (parts bs).all Part.isChar

/-- The first ill-formed stretch of some octets. -/
structure Fault where
  /-- How many octets before it are the form of a text. -/
  validUpTo : Nat
  /-- Its length, unless the octets ended within a character. -/
  length : Option Nat
  deriving DecidableEq

/-- The fault in words. -/
def Fault.message (f : Fault) : String :=
  match f.length with
  | some n => s!"invalid utf-8 sequence of {n} bytes from index {f.validUpTo}"
  | none => s!"incomplete utf-8 byte sequence from index {f.validUpTo}"

/-- The first fault in `ps`, which begin at octet `position`. -/
def faultIn (position : Nat) : List Part → Option Fault
  | [] => none
  | .char c :: ps => faultIn (position + c.utf8Size) ps
  | .illFormed length cut :: _ => some ⟨position, if cut then none else some length⟩

/-- The text whose UTF-8 form the octets are, or what is wrong with them. -/
def decode (bs : Octets) : Except Fault Text :=
  match faultIn 0 (parts bs) with
  | none => .ok (decodeLossy bs)
  | some fault => .error fault

end InternetMail.Utf8
