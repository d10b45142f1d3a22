import PortablePdb.CompressedInt
import PortablePdb.Proofs.Consumption
import PortablePdb.Proofs.Outcome

/-!
Compressed integers read back. The writer has a form for exactly the values of 29 bits,
`encode_eq_ok_iff` and `encodeSigned_eq_ok_iff`, and the reader turns the form of a value
into that value, wherever it stands.
-/

namespace PortablePdb

theorem Reader.length_le_of_bytes {n : Nat} {c d : Cursor} {read : ByteArray}
    (h : bytes n c = .ok read d) : read.data.toList.length ≤ n := by
  by_cases hn : c.pos + n ≤ c.stop
  · rw [bytes_of_le hn] at h
    cases h
    change (c.data.extract c.pos (c.pos + n)).size ≤ n
    rw [ByteArray.size_extract]
    omega
  · rw [bytes_of_lt (Nat.not_le.1 hn)] at h
    cases h

namespace CompressedInt

open Reader

namespace Packing

theorem pack_one (raw : Nat) : one.pack raw = [raw.toUInt8] := by
  simp [pack, beBytes, leBytes, width, tag]

theorem pack_two (raw : Nat) :
    two.pack raw = [((0x8000 + raw) / 256).toUInt8, (0x8000 + raw).toUInt8] := by
  simp [pack, beBytes, leBytes, width, tag]

theorem pack_four (raw : Nat) :
    four.pack raw = ((0xC0000000 + raw) / 256 / 256 / 256).toUInt8 ::
      [((0xC0000000 + raw) / 256 / 256).toUInt8, ((0xC0000000 + raw) / 256).toUInt8,
        (0xC0000000 + raw).toUInt8] := by
  simp [pack, beBytes, leBytes, width, tag]

theorem pack_ne_nil (p : Packing) (raw : Nat) : p.pack raw ≠ [] := by
  cases p <;> simp [pack_one, pack_two, pack_four]

/-- Reading all bytes of a packed value gives the value behind its leading bits. -/
theorem beNat_pack {p : Packing} {raw : Nat} (hraw : raw < p.capacity) :
    beNat (p.pack raw) = p.tag + raw := by
  rw [pack, beNat_beBytes]
  apply Nat.mod_eq_of_lt
  cases p <;> simp only [capacity, tag, width] at * <;> omega

theorem toUInt8_lt_iff {n : Nat} (hn : n < 256) (b : UInt8) :
    n.toUInt8 < b ↔ n < b.toNat := by
  rw [UInt8.lt_iff_toNat_lt, show n.toUInt8.toNat = n by simp; omega]

/-- The leading bits of a packed value lead the reader to its packing. -/
theorem consumes_readPacked {p : Packing} {raw : Nat} (hraw : raw < p.capacity) :
    Consumes readPacked (p.pack raw) (p, raw) := by
  have hvalue := beNat_pack hraw
  refine Consumes.position fun start => ?_
  cases p with
  | one =>
      simp only [capacity] at hraw
      rw [pack_one]
      apply Consumes.last (Consumes.u8 _)
      have hone : raw.toUInt8 < 0x80 := (toUInt8_lt_iff (by omega) _).2 hraw
      have hnat : raw.toUInt8.toNat = raw := by
        simp
        omega
      simp only [hone, if_true, hnat]
      exact Consumes.pure _
  | two =>
      simp only [capacity] at hraw
      rw [pack_two] at hvalue ⊢
      apply Consumes.bind (Consumes.u8 _)
      have hfirst := toUInt8_lt_iff (n := (0x8000 + raw) / 256) (by omega)
      have hnotOne : ¬((0x8000 + raw) / 256).toUInt8 < 0x80 := by
        rw [hfirst, show (0x80 : UInt8).toNat = 0x80 from rfl]
        omega
      have htwo : ((0x8000 + raw) / 256).toUInt8 < 0xC0 := by
        rw [hfirst, show (0xC0 : UInt8).toNat = 0xC0 from rfl]
        omega
      simp only [hnotOne, htwo, if_false, if_true]
      apply Consumes.last (Consumes.u8 _)
      rw [hvalue, Nat.add_sub_cancel_left]
      exact Consumes.pure _
  | four =>
      simp only [capacity] at hraw
      rw [pack_four] at hvalue ⊢
      apply Consumes.bind (Consumes.u8 _)
      have hfirst := toUInt8_lt_iff (n := (0xC0000000 + raw) / 256 / 256 / 256) (by omega)
      have hnotOne : ¬((0xC0000000 + raw) / 256 / 256 / 256).toUInt8 < 0x80 := by
        rw [hfirst, show (0x80 : UInt8).toNat = 0x80 from rfl]
        omega
      have hnotTwo : ¬((0xC0000000 + raw) / 256 / 256 / 256).toUInt8 < 0xC0 := by
        rw [hfirst, show (0xC0 : UInt8).toNat = 0xC0 from rfl]
        omega
      have hfour : ((0xC0000000 + raw) / 256 / 256 / 256).toUInt8 < 0xE0 := by
        rw [hfirst, show (0xE0 : UInt8).toNat = 0xE0 from rfl]
        omega
      simp only [hnotOne, hnotTwo, hfour, if_false, if_true]
      apply Consumes.last (Consumes.bytes [_, _, _])
      rw [List.data_toByteArray, hvalue, Nat.add_sub_cancel_left]
      exact Consumes.pure _

/-! ### The sign -/

theorem rotate_lt (p : Packing) (n : Int) : p.rotate n < p.capacity := by
  have hsign : (if n < 0 then 1 else 0) ≤ 1 := by split <;> omega
  cases p <;> simp only [rotate, half, capacity] <;> omega

/-- A signed value that its packing has room for is turned back. -/
theorem unrotate_rotate {p : Packing} {n : Int} (hlow : -p.half ≤ n)
    (hhigh : n < p.half) : p.unrotate (p.rotate n) = n := by
  cases p <;> simp only [unrotate, rotate, half] at * <;>
    (split <;> split at * <;> omega)

end Packing

namespace Packing

/-! ### The smallest packing -/

def smallest? (room : Packing → Prop) [DecidablePred room] : Option Packing :=
  if room one then some one
  else if room two then some two
  else if room four then some four
  else none

section Smallest

variable {room : Packing → Prop} [DecidablePred room] {p q : Packing}

theorem room_of_smallest? (h : smallest? room = some p) : room p := by
  unfold smallest? at h
  split at h
  · cases h
    assumption
  split at h
  · cases h
    assumption
  split at h
  · cases h
    assumption
  · cases h

theorem width_le_of_smallest? (h : smallest? room = some p) (hq : room q) :
    p.width ≤ q.width := by
  cases q <;> grind [smallest?, width]

theorem smallest?_isSome_iff : (smallest? room).isSome ↔ ∃ p, room p := by
  constructor
  · intro h
    obtain ⟨p, hp⟩ := Option.isSome_iff_exists.1 h
    exact ⟨p, room_of_smallest? hp⟩
  · rintro ⟨p, hp⟩
    cases p <;> grind [smallest?]

end Smallest

theorem ofNat?_eq_smallest? (n : Nat) : ofNat? n = smallest? fun p => n < p.capacity :=
  rfl

theorem ofInt?_eq_smallest? (n : Int) :
    ofInt? n = smallest? fun p => -p.half ≤ n ∧ n < p.half :=
  rfl

end Packing

theorem packed_eq_ok_iff {p? : Option Packing} {pack : Packing → List UInt8} {e : TooLarge}
    {bytes : List UInt8} :
    (match p? with | some p => Except.ok (pack p) | none => .error e) = .ok bytes ↔
      ∃ p, p? = some p ∧ bytes = pack p := by
  cases p? <;> simp [eq_comm]

/-! ### Unsigned values -/

theorem encode_eq_ok_iff {n : Nat} {bytes : List UInt8} :
    encode n = .ok bytes ↔ ∃ p : Packing, Packing.ofNat? n = some p ∧ bytes = p.pack n :=
  packed_eq_ok_iff

theorem ofNat?_isSome_iff {n : Nat} : (Packing.ofNat? n).isSome ↔ n < 2 ^ 29 := by
  rw [Packing.ofNat?_eq_smallest?, Packing.smallest?_isSome_iff]
  constructor
  · rintro ⟨p, hp⟩
    cases p <;> simp only [Packing.capacity] at hp <;> omega
  · exact fun hn => ⟨.four, hn⟩

theorem encode_isOk {n : Nat} (hn : n < 2 ^ 29) : ∃ bytes, encode n = .ok bytes := by
  obtain ⟨p, hp⟩ := Option.isSome_iff_exists.1 (ofNat?_isSome_iff.2 hn)
  exact ⟨_, encode_eq_ok_iff.2 ⟨p, hp, rfl⟩⟩

theorem encode_ne_nil {n : Nat} {bytes : List UInt8} (h : encode n = .ok bytes) :
    bytes ≠ [] := by
  obtain ⟨p, -, rfl⟩ := encode_eq_ok_iff.1 h
  exact p.pack_ne_nil n

theorem consumes_read {n : Nat} {bytes : List UInt8} (h : encode n = .ok bytes) :
    Consumes read bytes n := by
  obtain ⟨p, hp, rfl⟩ := encode_eq_ok_iff.1 h
  rw [Packing.ofNat?_eq_smallest?] at hp
  exact (Packing.consumes_readPacked (Packing.room_of_smallest? hp)).map Prod.snd

/-- What is read in a packing is a value that the packing has room for. -/
theorem lt_of_readPacked {p : Packing} {c d : Cursor} {raw : Nat}
    (h : readPacked c = .ok (p, raw) d) : raw < p.capacity := by
  obtain ⟨start, c₁, -, h⟩ := Outcome.run_bind_eq_ok_iff.1 h
  obtain ⟨first, c₂, -, h⟩ := Outcome.run_bind_eq_ok_iff.1 h
  split at h
  case isTrue hone =>
    obtain ⟨heq, -⟩ := Outcome.run_pure_eq_ok_iff.1 h
    cases heq
    exact UInt8.lt_iff_toNat_lt.1 hone
  · split at h
    case isTrue htwo =>
      obtain ⟨second, c₃, -, h⟩ := Outcome.run_bind_eq_ok_iff.1 h
      obtain ⟨heq, -⟩ := Outcome.run_pure_eq_ok_iff.1 h
      cases heq
      rw [UInt8.lt_iff_toNat_lt, show (0xC0 : UInt8).toNat = 0xC0 from rfl] at htwo
      have hvalue := beNat_cons first [second]
      have hsecond := beNat_lt [second]
      simp only [List.length_cons, List.length_nil] at hvalue hsecond
      change beNat [first, second] - 0x8000 < 0x4000
      omega
    · split at h
      case isFalse => cases h
      case isTrue hfour =>
        rw [UInt8.lt_iff_toNat_lt, show (0xE0 : UInt8).toNat = 0xE0 from rfl] at hfour
        obtain ⟨rest, c₃, hrest, h⟩ := Outcome.run_bind_eq_ok_iff.1 h
        obtain ⟨heq, -⟩ := Outcome.run_pure_eq_ok_iff.1 h
        cases heq
        have hsize := length_le_of_bytes hrest
        have hvalue := beNat_cons first rest.data.toList
        have hrest : beNat rest.data.toList < 256 ^ 3 :=
          Nat.lt_of_lt_of_le (beNat_lt _) (Nat.pow_le_pow_right (by decide) hsize)
        have hhigh : 256 ^ rest.data.toList.length * first.toNat ≤ 256 ^ 3 * first.toNat :=
          Nat.mul_le_mul_right _ (Nat.pow_le_pow_right (by decide) hsize)
        change beNat (first :: rest.data.toList) - 0xC0000000 < 0x20000000
        omega

/-- Even the widest integers have no more than 29 bits. -/
theorem read_lt {c d : Cursor} {n : Nat} (h : read c = .ok n d) : n < 2 ^ 29 := by
  obtain ⟨⟨p, raw⟩, c₁, hpacked, h⟩ := Outcome.run_bind_eq_ok_iff.1 h
  obtain ⟨rfl, -⟩ := Outcome.run_pure_eq_ok_iff.1 h
  have hlt := lt_of_readPacked hpacked
  change raw < _
  cases p <;> simp only [Packing.capacity] at hlt <;> omega

/-! ### Signed values -/

theorem encodeSigned_eq_ok_iff {n : Int} {bytes : List UInt8} :
    encodeSigned n = .ok bytes ↔
      ∃ p : Packing, Packing.ofInt? n = some p ∧ bytes = p.pack (p.rotate n) :=
  packed_eq_ok_iff

theorem ofInt?_isSome_iff {n : Int} :
    (Packing.ofInt? n).isSome ↔ -2 ^ 28 ≤ n ∧ n < 2 ^ 28 := by
  rw [Packing.ofInt?_eq_smallest?, Packing.smallest?_isSome_iff]
  constructor
  · rintro ⟨p, hp⟩
    cases p <;> simp only [Packing.half] at hp <;> omega
  · exact fun hn => ⟨.four, hn⟩

theorem encodeSigned_isOk {n : Int} (hlow : -2 ^ 28 ≤ n) (hhigh : n < 2 ^ 28) :
    ∃ bytes, encodeSigned n = .ok bytes := by
  obtain ⟨p, hp⟩ := Option.isSome_iff_exists.1 (ofInt?_isSome_iff.2 ⟨hlow, hhigh⟩)
  exact ⟨_, encodeSigned_eq_ok_iff.2 ⟨p, hp, rfl⟩⟩

theorem encodeSigned_eq_error {n : Int} (h : ¬(-2 ^ 28 ≤ n ∧ n < 2 ^ 28)) :
    encodeSigned n = .error ⟨n⟩ := by
  have hnone : Packing.ofInt? n = none := by
    rw [← Option.not_isSome_iff_eq_none, ofInt?_isSome_iff]
    exact h
  rw [encodeSigned, hnone]

theorem consumes_readSigned {n : Int} {bytes : List UInt8}
    (h : encodeSigned n = .ok bytes) : Consumes readSigned bytes n := by
  obtain ⟨p, hp, rfl⟩ := encodeSigned_eq_ok_iff.1 h
  rw [Packing.ofInt?_eq_smallest?] at hp
  have hbounds := Packing.room_of_smallest? hp
  apply (Packing.consumes_readPacked (p.rotate_lt n)).last
  simp only [Packing.unrotate_rotate hbounds.1 hbounds.2]
  exact Consumes.pure n

end CompressedInt

end PortablePdb
