import PortablePdb.Text.Hex

/-!
Numerals for 32-bit words, in decimal, or in hexadecimal behind `0x`. A plus sign may
stand before the digits. A numeral is read from left to right up to its first fault.
-/

namespace PortablePdb.Text.Numeral

inductive Fault
  | noDigits
  | invalidDigit
  | tooLarge
  deriving DecidableEq

def Fault.message : Fault → String
  | noDigits => "cannot parse integer from empty string"
  | invalidDigit => "invalid digit found in string"
  | tooLarge => "number too large to fit in target type"

def digit? (radix : Nat) (c : Char) : Option Nat :=
  (Hex.digit? c).filter (· < radix)

def parseDigits (radix : Nat) : (n : Nat) → List Char → Except Fault Nat
  | n, [] => .ok n
  | n, c :: rest =>
    match digit? radix c with
    | none => .error .invalidDigit
    | some d => if radix * n + d < UInt32.size then parseDigits radix (radix * n + d) rest
      else .error .tooLarge

def parseSigned (radix : Nat) : List Char → Except Fault Nat
  | [] => .error .noDigits
  | ['+'] => .error .invalidDigit
  | '+' :: digits => parseDigits radix 0 digits
  | digits => parseDigits radix 0 digits

def parse : List Char → Except Fault UInt32
  | '0' :: 'x' :: digits => (parseSigned 16 digits).map Nat.toUInt32
  | digits => (parseSigned 10 digits).map Nat.toUInt32

end PortablePdb.Text.Numeral
