import PortablePdb.Proofs.ByteOrder
import PortablePdb.Proofs.Consumption

/-!
Readers that always read the same number of bytes at a place. `Reader.ReadsAt` says of
such a reader what it answers, as a function of where the bytes stand in the buffer, and
that it can fail for no other reason than that there are fewer. A sequence of them puts
its parts one behind the other.
-/

namespace PortablePdb.Reader

variable {α β : Type} {data : ByteArray} {pos m n : Nat}

def wordAt (data : ByteArray) (offset width : Nat) : Nat :=
  leNat (data.extract offset (offset + width)).data.toList

theorem wordAt_lt (data : ByteArray) (offset width : Nat) :
    wordAt data offset width < 256 ^ width := by
  refine Nat.lt_of_lt_of_le (leNat_lt _) (Nat.pow_le_pow_right (by decide) ?_)
  change (data.extract offset (offset + width)).size ≤ width
  rw [ByteArray.size_extract]
  omega

/-- At this offset the reader reads `size` bytes and answers `a`. If the buffer ends
before, so does the reader. -/
structure ReadsAt (data : ByteArray) (pos : Nat) (r : Reader α) (size : Nat)
    (a : α) : Prop where
  ok : pos + size ≤ data.size → r ⟨data, pos, []⟩ = .ok a ⟨data, pos + size, []⟩
  outOfBounds : data.size < pos + size →
    ∃ offset length d, r ⟨data, pos, []⟩ = .error (.outOfBounds offset length) d

namespace ReadsAt

theorem pure (hpos : pos ≤ data.size) (a : α) : ReadsAt data pos (pure a) 0 a where
  ok _ := rfl
  outOfBounds h := absurd h (by omega)

theorem bind {r : Reader α} {f : α → Reader β} {a : α} {b : β} (hr : ReadsAt data pos r m a)
    (hf : pos + m ≤ data.size → ReadsAt data (pos + m) (f a) n b) :
    ReadsAt data pos (r >>= f) (m + n) b where
  ok h := by
    rw [bind_of_ok (hr.ok (by omega)), (hf (by omega)).ok (by omega), Nat.add_assoc]
  outOfBounds h := by
    by_cases hm : pos + m ≤ data.size
    · rw [bind_of_ok (hr.ok hm)]
      exact (hf hm).outOfBounds (by omega)
    · obtain ⟨offset, length, d, herror⟩ := hr.outOfBounds (by omega)
      exact ⟨offset, length, d, bind_of_error herror⟩

theorem map {r : Reader α} {a : α} (hr : ReadsAt data pos r m a) (f : α → β) :
    ReadsAt data pos (do return f (← r)) m (f a) :=
  bind (n := 0) hr fun h => pure h (f a)

/-- The parts of a reader add up to its size. -/
theorem resize {r : Reader α} {a : α} (hr : ReadsAt data pos r m a) (hsize : m = n) :
    ReadsAt data pos r n a :=
  hsize ▸ hr

theorem bytes (n : Nat) : ReadsAt data pos (bytes n) n (data.extract pos (pos + n)) where
  ok h := bytes_of_le (c := ⟨data, pos, []⟩) h
  outOfBounds h := ⟨_, _, _, bytes_of_lt (c := ⟨data, pos, []⟩) h⟩

theorem word (width : Nat) : ReadsAt data pos (word width) width (wordAt data pos width) :=
  (bytes width).map _

theorem u8 : ReadsAt data pos u8 1 (wordAt data pos 1).toUInt8 :=
  (word 1).map _

theorem u16 : ReadsAt data pos u16 2 (wordAt data pos 2).toUInt16 :=
  (word 2).map _

theorem u32 : ReadsAt data pos u32 4 (wordAt data pos 4).toUInt32 :=
  (word 4).map _

theorem u64 : ReadsAt data pos u64 8 (wordAt data pos 8).toUInt64 :=
  (word 8).map _

/-- The columns of tables have one of two widths. -/
theorem index {width : Nat} (hwidth : width = 2 ∨ width = 4) :
    ReadsAt data pos (index width) width (wordAt data pos width).toUInt32 := by
  rcases hwidth with rfl | rfl
  · have hword : (wordAt data pos 2).toUInt16.toUInt32 = (wordAt data pos 2).toUInt32 := by
      have hlt := wordAt_lt data pos 2
      apply UInt32.toNat_inj.1
      rw [UInt16.toNat_toUInt32, toNat_toUInt32 (by omega)]
      exact Nat.mod_eq_of_lt hlt
    have hread : ReadsAt data pos (do return (← Reader.u16).toUInt32) 2 _ :=
      u16.map UInt16.toUInt32
    rw [hword] at hread
    exact hread
  · exact u32

/-- The entries of a vector stand one behind the other, each behind the sizes of those
before it. -/
theorem ofFnM {n : Nat} {f : Fin n → Reader α} {g : Fin n → α} (size : Fin n → Nat)
    (offset : Nat → Nat) (hzero : offset 0 = 0)
    (hnext : ∀ i : Fin n, offset (i + 1) = offset i + size i) (hpos : pos ≤ data.size)
    (h : ∀ i : Fin n, pos + offset i ≤ data.size →
      ReadsAt data (pos + offset i) (f i) (size i) (g i)) :
    ReadsAt data pos (Vector.ofFnM f) (offset n) (Vector.ofFn g) := by
  induction n with
  | zero =>
      rw [Vector.ofFnM_zero, hzero]
      exact .pure hpos _
  | succ n ih =>
      rw [Vector.ofFnM_succ, Vector.ofFn_succ,
        show offset (n + 1) = offset n + size (Fin.last n) from hnext (Fin.last n)]
      have hfirst :=
        ih (fun i => size i.castSucc) (fun i => hnext i.castSucc) fun i => h i.castSucc
      exact hfirst.bind fun hn => (h (Fin.last n) hn).map _

end ReadsAt

end PortablePdb.Reader
