/-!
Hexadecimal text with lowercase digits. `padded` writes a number with at least the given
number of digits, `ofBytes` two digits for each byte, and `toBytes?` reads such text back
in either case of the letters.
-/

namespace PortablePdb.Hex

/-- The digits of a number, most significant first, with zeros in front up to `width`
digits. -/
def padded (width n : Nat) : String :=
  String.ofList ((Nat.toDigits 16 n).leftpad width '0')

/-- A number in the form `0x…`, with at least `width` digits. -/
def literal (width n : Nat) : String :=
  "0x" ++ padded width n

def ofBytes (bytes : List UInt8) : String :=
  String.ofList (bytes.flatMap fun b => (Nat.toDigits 16 b.toNat).leftpad 2 '0')

def digit? (c : Char) : Option Nat :=
  if '0' ≤ c ∧ c ≤ '9' then some (c.toNat - '0'.toNat)
  else if 'a' ≤ c ∧ c ≤ 'f' then some (c.toNat - 'a'.toNat + 10)
  else if 'A' ≤ c ∧ c ≤ 'F' then some (c.toNat - 'A'.toNat + 10)
  else none

def value? (digits : List Char) : Option Nat :=
  digits.foldlM (fun n c => (digit? c).map (16 * n + ·)) 0

def pairsFrom? (read : ByteArray) : List Char → Option ByteArray
  | [] => some read
  | [_] => none
  | high :: low :: rest => do
    pairsFrom? (read.push (16 * (← digit? high) + (← digit? low)).toUInt8) rest

def toBytes? (text : String) : Option ByteArray :=
  pairsFrom? .empty text.toList

end PortablePdb.Hex
