import PortablePdb.ByteOrder
import PortablePdb.Text.Hex

/-!
Globally unique identifiers. A file stores one in 16 bytes with its first three fields
lowest byte first and the last one highest byte first; its text has the digits of the
fields in groups of 8, 4, 4, 4 and 12.
-/

namespace PortablePdb

structure Guid where
  data1 : UInt32
  data2 : UInt16
  data3 : UInt16
  data4 : UInt64
  deriving DecidableEq

namespace Guid

def nil : Guid := ⟨0, 0, 0, 0⟩

def size : Nat := 16

def ofBytes (bytes : List UInt8) : Guid where
  data1 := (leNat (bytes.take 4)).toUInt32
  data2 := (leNat ((bytes.drop 4).take 2)).toUInt16
  data3 := (leNat ((bytes.drop 6).take 2)).toUInt16
  data4 := (beNat ((bytes.drop 8).take 8)).toUInt64

def bytes (g : Guid) : List UInt8 :=
  leBytes 4 g.data1.toNat ++
    (leBytes 2 g.data2.toNat ++ (leBytes 2 g.data3.toNat ++ beBytes 8 g.data4.toNat))

@[simp] theorem length_bytes (g : Guid) : g.bytes.length = size := by
  simp [bytes, size]

def text (g : Guid) : String :=
  "-".intercalate
    [Hex.padded 8 g.data1.toNat, Hex.padded 4 g.data2.toNat, Hex.padded 4 g.data3.toNat,
      Hex.padded 4 (g.data4.toNat / 0x1000000000000),
      Hex.padded 12 (g.data4.toNat % 0x1000000000000)]

def groupLengths : List Nat := [8, 4, 4, 4, 12]

/-- Splits off groups of the given lengths with a hyphen between any two, or nothing if
they are not there. -/
def groups? : List Nat → List Char → Option (List Char)
  | [], rest => if rest.isEmpty then some [] else none
  | [n], rest => if rest.length = n then some rest else none
  | n :: more, rest =>
    if (rest.drop n).head? = some '-' then
      (groups? more (rest.drop (n + 1))).map (rest.take n ++ ·)
    else none

def ofDigits? (digits : List Char) : Option Guid := do
  if digits.length = 32 then
    let value ← Hex.value? digits
    some ⟨(value >>> 96).toUInt32, (value >>> 80).toUInt16, (value >>> 64).toUInt16,
      value.toUInt64⟩
  else none

/-- Reads the text with or without its hyphens, in either case of the letters. -/
def ofText? (text : String) : Option Guid :=
  ofDigits? ((groups? groupLengths text.toList).getD text.toList)

end Guid

end PortablePdb
