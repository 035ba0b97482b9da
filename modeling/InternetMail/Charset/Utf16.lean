import InternetMail.Text.Basic

/-!
# UTF-16

A text as units of two octets, in either order. Characters past U+FFFF are pairs of surrogates; a
surrogate without its partner and half a unit at the end are malformed.
-/

namespace InternetMail

/-- Which octet of a unit comes first. -/
inductive ByteOrder
  | littleEndian
  | bigEndian
  deriving DecidableEq, Repr

namespace Utf16

/-- The units of a character. -/
def unitsOf (c : Char) : List Nat :=
  if c.toNat < 0x10000 then [c.toNat]
  else [0xD800 + (c.toNat - 0x10000) / 0x400, 0xDC00 + (c.toNat - 0x10000) % 0x400]

/-- The octets of a unit. -/
def octetsOf (order : ByteOrder) (unit : Nat) : Octets :=
  let high := UInt8.ofNat (unit / 256)
  let low := UInt8.ofNat (unit % 256)
  match order with
  | .littleEndian => [low, high]
  | .bigEndian => [high, low]

/-- The UTF-16 form of a character. -/
def encodeChar (order : ByteOrder) (c : Char) : Octets :=
  (unitsOf c).flatMap (octetsOf order)

/-- The units of some octets; an octet left over is half a unit, `none`. -/
def units (order : ByteOrder) : Octets → List (Option Nat)
  | a :: b :: rest =>
    let unit :=
      match order with
      | .littleEndian => b.toNat * 256 + a.toNat
      | .bigEndian => a.toNat * 256 + b.toNat
    some unit :: units order rest
  | [_] => [none]
  | [] => []

/-- The characters of some units, `none` for each malformed stretch. A high surrogate at the end and
half a unit after it are one stretch. -/
def chars : List (Option Nat) → List (Option Char)
  | [] => []
  | none :: _ => [none]
  | some unit :: rest =>
    if 0xD800 ≤ unit ∧ unit < 0xDC00 then
      match rest with
      | some low :: rest' =>
        if 0xDC00 ≤ low ∧ low < 0xE000 then
          some (Char.ofNat (0x10000 + (unit - 0xD800) * 0x400 + (low - 0xDC00))) :: chars rest'
        else none :: chars (some low :: rest')
      | _ => [none]
    else if 0xDC00 ≤ unit ∧ unit < 0xE000 then none :: chars rest
    else some (Char.ofNat unit) :: chars rest

end Utf16

end InternetMail
