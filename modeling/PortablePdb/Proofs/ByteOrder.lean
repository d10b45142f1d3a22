import PortablePdb.PdbStream
import Mathlib

/-!
Words read back. Reading what was written gives the number modulo `256 ^ width`, and
writing what was read gives the bytes. Identifiers are a few words one after another.
-/

namespace PortablePdb

theorem toNat_toUInt32 {n : Nat} (h : n < 2 ^ 32) : n.toUInt32.toNat = n :=
  UInt32.toNat_ofNat_of_lt' h

theorem toInt_toInt32 {w : UInt32} (h : w.toNat < 2 ^ 31) : w.toInt32.toInt = w.toNat :=
  BitVec.toInt_eq_toNat_of_lt (show 2 * w.toNat < 2 ^ 32 by omega)

theorem leNat_lt (bytes : List UInt8) : leNat bytes < 256 ^ bytes.length := by
  induction bytes with
  | nil => simp [leNat]
  | cons b rest ih =>
      have hb := b.toNat_lt
      rw [leNat, List.length_cons, Nat.pow_succ]
      omega

theorem leNat_leBytes (width n : Nat) : leNat (leBytes width n) = n % 256 ^ width := by
  induction width generalizing n with
  | zero => simp [leBytes, leNat, Nat.mod_one]
  | succ width ih =>
      rw [leBytes, leNat, ih, Nat.pow_succ, Nat.mul_comm (256 ^ width), Nat.mod_mul]
      simp

theorem beNat_beBytes (width n : Nat) : beNat (beBytes width n) = n % 256 ^ width := by
  simp [beNat, beBytes, leNat_leBytes]

theorem leBytes_leNat (bytes : List UInt8) :
    leBytes bytes.length (leNat bytes) = bytes := by
  induction bytes with
  | nil => rfl
  | cons b rest ih =>
      have hb := b.toNat_lt
      have hlow : (b.toNat + 256 * leNat rest).toUInt8 = b := by
        apply UInt8.toNat_inj.1
        simp only [Nat.toUInt8_eq, UInt8.toNat_ofNat']
        omega
      have hhigh : (b.toNat + 256 * leNat rest) / 256 = leNat rest := by omega
      simp only [List.length_cons, leBytes, leNat, hlow, hhigh, ih]

theorem leNat_append (first second : List UInt8) :
    leNat (first ++ second) = leNat first + 256 ^ first.length * leNat second := by
  induction first with
  | nil => simp [leNat]
  | cons b rest ih =>
      rw [List.cons_append, leNat, ih, leNat, List.length_cons, Nat.pow_succ]
      ring

theorem beNat_cons (b : UInt8) (rest : List UInt8) :
    beNat (b :: rest) = 256 ^ rest.length * b.toNat + beNat rest := by
  simp [beNat, leNat_append, leNat, Nat.add_comm]

theorem beNat_lt (bytes : List UInt8) : beNat bytes < 256 ^ bytes.length := by
  simpa [beNat] using leNat_lt bytes.reverse

theorem beBytes_beNat (bytes : List UInt8) :
    beBytes bytes.length (beNat bytes) = bytes := by
  have h := leBytes_leNat bytes.reverse
  rw [List.length_reverse] at h
  rw [beBytes, beNat, h, List.reverse_reverse]

theorem Guid.ofBytes_bytes (g : Guid) : ofBytes g.bytes = g := by
  have h₁ := g.data1.toNat_lt
  have h₂ := g.data2.toNat_lt
  have h₃ := g.data3.toNat_lt
  have h₄ := g.data4.toNat_lt
  cases g
  simp [ofBytes, bytes, List.drop_append, List.drop_eq_nil_of_le, List.take_of_length_le,
    leNat_leBytes, beNat_beBytes]

theorem Guid.bytes_ofBytes {bytes : List UInt8} (h : bytes.length = size) :
    (ofBytes bytes).bytes = bytes := by
  rw [size] at h
  have hfield (first width : Nat)
      (hfits : first + width ≤ 16) : ((bytes.drop first).take width).length = width := by
    simp [h]
    omega
  have hword (first width : Nat) (hfits : first + width ≤ 16) :
      leBytes width (leNat ((bytes.drop first).take width)) =
        (bytes.drop first).take width ∧
        leNat ((bytes.drop first).take width) < 256 ^ width := by
    have hbytes := leBytes_leNat ((bytes.drop first).take width)
    have hlt := leNat_lt ((bytes.drop first).take width)
    rw [hfield first width hfits] at hbytes hlt
    exact ⟨hbytes, hlt⟩
  obtain ⟨h₁, hlt₁⟩ := hword 0 4 (by decide)
  obtain ⟨h₂, hlt₂⟩ := hword 4 2 (by decide)
  obtain ⟨h₃, hlt₃⟩ := hword 6 2 (by decide)
  have h₄ := beBytes_beNat ((bytes.drop 8).take 8)
  have hlt₄ := beNat_lt ((bytes.drop 8).take 8)
  rw [hfield 8 8 (by decide)] at h₄ hlt₄
  rw [List.drop_zero] at h₁ hlt₁
  rw [ofBytes, Guid.bytes]
  simp only [Nat.toUInt32_eq, Nat.toUInt16_eq, Nat.toUInt64_eq]
  rw [UInt32.toNat_ofNat_of_lt' hlt₁, UInt16.toNat_ofNat_of_lt' hlt₂,
    UInt16.toNat_ofNat_of_lt' hlt₃, UInt64.toNat_ofNat_of_lt' hlt₄, h₁, h₂, h₃, h₄]
  have hlast : (bytes.drop 8).take 8 = bytes.drop 8 := List.take_of_length_le (by simp [h])
  rw [hlast]
  calc bytes.take 4 ++ ((bytes.drop 4).take 2 ++ ((bytes.drop 6).take 2 ++ bytes.drop 8))
      = bytes.take 4 ++ ((bytes.drop 4).take 2 ++ bytes.drop 6) := by
        rw [← List.drop_drop (i := 2) (j := 6), List.take_append_drop]
    _ = bytes.take 4 ++ bytes.drop 4 := by
        rw [← List.drop_drop (i := 2) (j := 4), List.take_append_drop]
    _ = bytes := List.take_append_drop 4 bytes

theorem PdbId.ofBytes_bytes (id : PdbId) : ofBytes id.bytes = id := by
  have h := id.stamp.toNat_lt
  have hlength := id.guid.length_bytes
  cases id
  simp_all [ofBytes, bytes, Guid.ofBytes_bytes, leNat_leBytes]

end PortablePdb
