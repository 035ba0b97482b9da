import InternetMail.Text.Blank
import InternetMail.Text.Quoted

/-!
# System flags

The flags that every mail store knows are the bits of a word of 32. `SystemFlags.text` writes them
by their names, and bits without a name by their number; `SystemFlags.ofText?` reads that back.
-/

namespace InternetMail

/-- A set of system flags. -/
structure SystemFlags where
  bits : UInt32
  deriving DecidableEq

namespace SystemFlags

/-- No flags. -/
def empty : SystemFlags := ⟨0⟩

/-- The message was replied to. -/
def answered : SystemFlags := ⟨0x01⟩

/-- The message is to be removed. -/
def deleted : SystemFlags := ⟨0x02⟩

/-- The message is not finished. -/
def draft : SystemFlags := ⟨0x04⟩

/-- The message is marked. -/
def flagged : SystemFlags := ⟨0x08⟩

/-- The message is new. -/
def recent : SystemFlags := ⟨0x10⟩

/-- The message was read. -/
def seen : SystemFlags := ⟨0x20⟩

/-- The folder takes flags of the user. -/
def user : SystemFlags := ⟨0x80000000⟩

/-- The flags with their names, in order. -/
def named : List (String × SystemFlags) := [
  ("ANSWERED", answered), ("DELETED", deleted), ("DRAFT", draft), ("FLAGGED", flagged),
  ("RECENT", recent), ("SEEN", seen), ("USER", user)]

/-! ### Sets of flags -/

/-- The flags of either set. -/
def union (a b : SystemFlags) : SystemFlags := ⟨a.bits ||| b.bits⟩

/-- All flags that have a name. -/
def all : SystemFlags :=
  named.foldl (fun flags entry ↦ flags.union entry.2) empty

/-- The named flags of `a` that are not in `b`. -/
def diff (a b : SystemFlags) : SystemFlags := ⟨a.bits &&& (~~~b.bits &&& all.bits)⟩

/-- Whether `a` has all flags of `b`. -/
def contains (a b : SystemFlags) : Bool := a.bits &&& b.bits == b.bits

/-- Whether the sets have a flag in common. -/
def meets (a b : SystemFlags) : Bool := a.bits &&& b.bits != 0

/-- The flags of the set that have a name, in order. -/
def members (a : SystemFlags) : List (String × SystemFlags) :=
  named.filter fun entry ↦ a.contains entry.2

/-- Whether the set has the flag of a name, given in any case. -/
def isNamed (a : SystemFlags) (name : Text) : Bool :=
  a.members.any fun entry ↦ Text.foldAscii entry.1.toList == name.foldAscii

/-! ### Flags as text -/

/-- The flags as text: names, then the number of the bits that have none. -/
def text (a : SystemFlags) : Text :=
  let rest := a.bits &&& ~~~all.bits
  Text.joined [' ', '|', ' ']
    (a.members.map (fun entry ↦ entry.1.toList) ++
      if rest = 0 then [] else [("0x" ++ hexDigits rest.toNat).toList])

/-- The number that hexadecimal digits write, which may have a plus sign before them. -/
def hexNumber? (t : Text) : Option Nat :=
  let digits := if t.head? == some '+' then t.drop 1 else t
  if digits.isEmpty then none
  else
    digits.foldlM (fun n c ↦
      if c.toNat < 128 then (Octet.hexValue? (Octet.ofAscii c)).map fun v ↦ n * 16 + v.toNat
      else none) 0

/-- The flag of one name or number. -/
def ofPart? (part : Text) : Option SystemFlags :=
  match part with
  | '0' :: 'x' :: digits => do
    let n ← hexNumber? digits
    if n < 0x100000000 then some ⟨UInt32.ofNat n⟩ else none
  | name => (named.find? fun entry ↦ entry.1.toList == name).map Prod.snd

/-- The flags of a text: names and numbers with bars between them, or nothing. -/
def ofText? (t : Text) : Option SystemFlags :=
  if (Text.trim t).isEmpty then some empty
  else
    (Run.stretches (· == '|') t).foldlM (fun flags part ↦
      (ofPart? (Text.trim part)).map flags.union) empty

end SystemFlags

end InternetMail
