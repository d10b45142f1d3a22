/-!
Words as bytes. `leNat` reads a byte list with its first byte lowest and `beNat` with its
first byte highest; `leBytes` and `beBytes` write the lowest `width` bytes of a number.
-/

namespace PortablePdb

def leNat : List UInt8 → Nat
  | [] => 0
  | b :: rest => b.toNat + 256 * leNat rest

def beNat (bytes : List UInt8) : Nat :=
  leNat bytes.reverse

def leBytes : Nat → Nat → List UInt8
  | 0, _ => []
  | width + 1, n => n.toUInt8 :: leBytes width (n / 256)

def beBytes (width n : Nat) : List UInt8 :=
  (leBytes width n).reverse

@[simp] theorem length_leBytes (width n : Nat) : (leBytes width n).length = width := by
  induction width generalizing n with
  | zero => rfl
  | succ width ih => simp [leBytes, ih]

@[simp] theorem length_beBytes (width n : Nat) : (beBytes width n).length = width := by
  simp [beBytes]

end PortablePdb
