import PortablePdb.Reader.Basic

/-!
Integers in one, two or four bytes, highest byte first. The leading bits of the first byte
tell the width: `0` one byte with 7 value bits, `10` two bytes with 14, `110` four bytes
with 29; `111` is reserved. A signed integer is rotated so that its sign is the lowest
value bit. `encode` and `encodeSigned` write the shortest form, `read` and `readSigned`
accept any.
-/

namespace PortablePdb.CompressedInt

/-- The value that has no compressed form. -/
structure TooLarge where
  value : Int
  deriving DecidableEq

def TooLarge.message (e : TooLarge) : String :=
  s!"{e.value} is too large to compress"

inductive Packing
  | one
  | two
  | four
  deriving DecidableEq

namespace Packing

def width : Packing → Nat
  | one => 1
  | two => 2
  | four => 4

/-- The number of unsigned values that there is room for. -/
def capacity : Packing → Nat
  | one => 0x80
  | two => 0x4000
  | four => 0x20000000

/-- The number of signed values that there is room for on either side of zero. -/
def half : Packing → Int
  | one => 0x40
  | two => 0x2000
  | four => 0x10000000

def tag : Packing → Nat
  | one => 0
  | two => 0x8000
  | four => 0xC0000000

def ofNat? (n : Nat) : Option Packing :=
  if n < one.capacity then some one
  else if n < two.capacity then some two
  else if n < four.capacity then some four
  else none

def ofInt? (n : Int) : Option Packing :=
  if -one.half ≤ n ∧ n < one.half then some one
  else if -two.half ≤ n ∧ n < two.half then some two
  else if -four.half ≤ n ∧ n < four.half then some four
  else none

def pack (p : Packing) (raw : Nat) : List UInt8 :=
  beBytes p.width (p.tag + raw)

/-- The value bits of a signed value: all but its sign, shifted up, and the sign below
them. -/
def rotate (p : Packing) (n : Int) : Nat :=
  2 * (n % p.half).toNat + if n < 0 then 1 else 0

def unrotate (p : Packing) (raw : Nat) : Int :=
  if raw % 2 = 0 then (raw / 2 : Nat) else (raw / 2 : Nat) - p.half

@[simp] theorem length_pack (p : Packing) (raw : Nat) : (p.pack raw).length = p.width := by
  simp [pack]

end Packing

def encode (n : Nat) : Except TooLarge (List UInt8) :=
  match Packing.ofNat? n with
  | some p => .ok (p.pack n)
  | none => .error ⟨n⟩

def encodeSigned (n : Int) : Except TooLarge (List UInt8) :=
  match Packing.ofInt? n with
  | some p => .ok (p.pack (p.rotate n))
  | none => .error ⟨n⟩

open Reader in
/-- Reads the value bits together with the packing they were found in. A failure behind
the first byte leaves the cursor behind that byte. -/
def readPacked : Reader (Packing × Nat) := do
  let start ← position
  let first ← u8
  if first < 0x80 then
    return (.one, first.toNat)
  else if first < 0xC0 then
    let second ← u8
    return (.two, beNat [first, second] - Packing.two.tag)
  else if first < 0xE0 then
    let rest ← bytes 3
    return (.four, beNat (first :: rest.data.toList) - Packing.four.tag)
  else
    throw (.invalidCompressedInteger start)

def read : Reader Nat :=
  return (← readPacked).2

def readSigned : Reader Int := do
  let (p, raw) ← readPacked
  return p.unrotate raw

end PortablePdb.CompressedInt
