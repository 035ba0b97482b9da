import InternetMail.Text.Basic

/-!
# Base64

Three octets are written as four symbols of six bits each; one or two octets left over take two or
three symbols, which `=` fills up to four.

It is read in two ways. Bodies are one run of symbols in which only the end may be filled up
(`readRun`), and there the filling may be missing if the caller says so. Encoded words are read
block by block (`readBlocks`), so that filled blocks may also stand inside. Both refuse bits that
are left over and not zero, and both say what they refuse and where.
-/

namespace InternetMail.Base64

/-- The octet that fills up a block. -/
def pad : UInt8 := 0x3d

/-- The symbol of six bits. -/
def symbol (n : Nat) : UInt8 :=
  if n < 26 then UInt8.ofNat (0x41 + n)
  else if n < 52 then UInt8.ofNat (0x61 + (n - 26))
  else if n < 62 then UInt8.ofNat (0x30 + (n - 52))
  else if n = 62 then 0x2b
  else 0x2f

/-- The six bits of a symbol. -/
def value? (b : UInt8) : Option Nat :=
  if 0x41 ≤ b && b ≤ 0x5a then some (b.toNat - 0x41)
  else if 0x61 ≤ b && b ≤ 0x7a then some (b.toNat - 0x61 + 26)
  else if 0x30 ≤ b && b ≤ 0x39 then some (b.toNat - 0x30 + 52)
  else if b == 0x2b then some 62
  else if b == 0x2f then some 63
  else none

/-- The symbols of some octets, filled up to whole blocks. -/
def encode : Octets → Octets
  | [] => []
  | [a] =>
    let n := a.toNat * 16
    [symbol (n / 64), symbol (n % 64), pad, pad]
  | [a, b] =>
    let n := (a.toNat * 256 + b.toNat) * 4
    [symbol (n / 4096), symbol (n / 64 % 64), symbol (n % 64), pad]
  | a :: b :: c :: rest =>
    let n := (a.toNat * 256 + b.toNat) * 256 + c.toNat
    symbol (n / 262144) :: symbol (n / 4096 % 64) :: symbol (n / 64 % 64) :: symbol (n % 64) ::
      encode rest

/-- The octets that up to four values of six bits make up, and the bits left over. -/
def octetsOf (values : List Nat) : Octets × Nat :=
  match values with
  | [a, b] => ([UInt8.ofNat ((a * 64 + b) / 16)], b % 16)
  | [a, b, c] =>
    let n := (a * 64 + b) * 64 + c
    ([UInt8.ofNat (n / 1024), UInt8.ofNat (n / 4 % 256)], c % 4)
  | [a, b, c, d] =>
    let n := ((a * 64 + b) * 64 + c) * 64 + d
    ([UInt8.ofNat (n / 65536), UInt8.ofNat (n / 256 % 256), UInt8.ofNat (n % 256)], 0)
  | _ => ([], 0)

/-! ### One run, filled up at its end -/

/-- Why a run is not base64. -/
inductive RunFault
  /-- An octet that is no symbol, or a filling that is not at the end. -/
  | symbol (octet : UInt8) (position : Nat)
  /-- A last block of one symbol. -/
  | length (symbols : Nat)
  /-- A last symbol that says more than the octets it ends. -/
  | lastSymbol (octet : UInt8) (position : Nat)
  /-- A last block that is not filled up. -/
  | padding
  deriving DecidableEq

/-- The fault in words. -/
def RunFault.message : RunFault → String
  | .symbol octet position => s!"Invalid symbol {octet.toNat}, offset {position}."
  | .length n => s!"Invalid input length: {n}"
  | .lastSymbol octet position => s!"Invalid last symbol {octet.toNat}, offset {position}."
  | .padding => "Invalid padding"

/-- Whether the last block has to be filled up. -/
inductive Padding
  | required
  | optional
  deriving DecidableEq

/-- The values of a last block, the number of its fillings and the place of the first, from the
octets at `position`, of which `taken` belong to the block already. -/
def lastValues (position : Nat) : (taken : Nat) → (fillings : Option (Nat × Nat)) → Octets →
    Except RunFault (List Nat × Nat)
  | _, fillings, [] => .ok ([], (fillings.map Prod.snd).getD 0)
  | taken, fillings, b :: bs =>
    if b == pad then
      if taken < 2 then .error (.symbol b (position + taken))
      else
        let (first, count) := fillings.getD (taken, 0)
        lastValues position (taken + 1) (some (first, count + 1)) bs
    else
      match fillings with
      | some (first, _) => .error (.symbol pad (position + first))
      | none =>
        match value? b with
        | none => .error (.symbol b (position + taken))
        | some v => do
          let (vs, count) ← lastValues position (taken + 1) none bs
          .ok (v :: vs, count)

/-- Reads the last block of a run, which begins at `position`. -/
def readLast (padding : Padding) (position : Nat) (bs : Octets) : Except RunFault Octets := do
  let (values, fillings) ← lastValues position 0 none bs
  if values.length < 2 then
    if position = 0 && bs.isEmpty then .ok []
    else .error (.length (position + values.length))
  else if padding = .required && (values.length + fillings) % 4 ≠ 0 then .error .padding
  else
    let (octets, left) := octetsOf values
    if left ≠ 0 then
      .error (.lastSymbol (bs.getD (values.length - 1) 0) (position + values.length - 1))
    else .ok octets

/-- The values of whole blocks without filling, which begin at `position`. -/
def valuesAt (position : Nat) : Octets → Except RunFault (List Nat)
  | [] => .ok []
  | b :: bs =>
    match value? b with
    | none => .error (.symbol b position)
    | some v => do .ok (v :: (← valuesAt (position + 1) bs))

/-- The octets of whole blocks of values. -/
def octetsOfBlocks : List Nat → Octets
  | a :: b :: c :: d :: rest => (octetsOf [a, b, c, d]).1 ++ octetsOfBlocks rest
  | _ => []

/-- Reads one run of symbols. The last block is looked at apart, since only it may be filled up; an
octet that is no symbol and stands alone after whole blocks is what is complained of first. -/
def readRun (padding : Padding) (bs : Octets) : Except RunFault Octets := do
  let excess := bs.length % 4
  if excess = 1 then
    match bs.getLast? with
    | some b => if b ≠ pad && (value? b).isNone then throw (.symbol b (bs.length - 1))
    | none => pure ()
  let whole := bs.length - (if excess = 0 then 4 else excess)
  let values ← valuesAt 0 (bs.take whole)
  let last ← readLast padding whole (bs.drop whole)
  .ok (octetsOfBlocks values ++ last)

/-! ### Block by block -/

/-- What is wrong with a block. -/
inductive BlockError
  | length
  | symbol
  | trailing
  | padding
  deriving DecidableEq

/-- What is wrong, in words. -/
def BlockError.message : BlockError → String
  | .length => "invalid length"
  | .symbol => "invalid symbol"
  | .trailing => "non-zero trailing bits"
  | .padding => "invalid padding length"

/-- What is wrong and where. -/
structure BlockFault where
  error : BlockError
  position : Nat
  deriving DecidableEq

/-- The fault in words. -/
def BlockFault.message (f : BlockFault) : String :=
  s!"{f.error.message} at {f.position}"

/-- The values of some symbols, which begin at `position`. -/
def blockValues (position : Nat) : Octets → Except BlockFault (List Nat)
  | [] => .ok []
  | b :: bs =>
    match value? b with
    | none => .error ⟨.symbol, position⟩
    | some v => do .ok (v :: (← blockValues (position + 1) bs))

/-- Reads up to four symbols without filling, which begin at `position`. -/
def readUnfilled (position : Nat) (bs : Octets) : Except BlockFault Octets := do
  let (octets, left) := octetsOf (← blockValues position bs)
  if left ≠ 0 then .error ⟨.trailing, position + bs.length - 1⟩ else .ok octets

/-- Reads a block of four, which begins at `position`. -/
def readBlock (position : Nat) (bs : Octets) : Except BlockFault Octets :=
  let symbols := Run.stripEnd (· == pad) bs
  if symbols.length < 2 then .error ⟨.padding, position + symbols.length⟩
  else readUnfilled position symbols

/-- Reads blocks of four, of which the first begins at `position`. -/
def readBlocksAt (position : Nat) : Octets → Except BlockFault Octets
  | a :: b :: c :: d :: rest => do
    let block ← readBlock position [a, b, c, d]
    .ok (block ++ (← readBlocksAt (position + 4) rest))
  | _ => .ok []

/-- Reads blocks of four symbols, each filled up by itself. -/
def readBlocks (bs : Octets) : Except BlockFault Octets :=
  if bs.length % 4 ≠ 0 then .error ⟨.length, bs.length - bs.length % 4⟩
  else readBlocksAt 0 bs

/-- Reads blocks of four symbols and a shorter last one, none of them filled up. -/
def readUnfilledBlocksAt (position : Nat) : Octets → Except BlockFault Octets
  | a :: b :: c :: d :: rest => do
    let block ← readUnfilled position [a, b, c, d]
    .ok (block ++ (← readUnfilledBlocksAt (position + 4) rest))
  | bs => readUnfilled position bs

/-- Reads symbols that are never filled up. -/
def readUnfilledBlocks (bs : Octets) : Except BlockFault Octets :=
  if bs.length % 4 = 1 then .error ⟨.length, bs.length - 1⟩
  else readUnfilledBlocksAt 0 bs

end InternetMail.Base64
