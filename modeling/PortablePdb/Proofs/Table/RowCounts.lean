import PortablePdb.Proofs.Consumption
import PortablePdb.Table.RowCounts

/-!
Row counts behind a mask. A table whose bit is not set has no count of its own, so the
reader gives it none, and what is read equals what was written if all tables outside the
mask are empty.
-/

namespace PortablePdb

theorem Reader.Consumes.ofFnM {α : Type} {n : Nat} {f : Fin n → Reader α}
    {bytes : Fin n → List UInt8} {g : Fin n → α} (h : ∀ i, Consumes (f i) (bytes i) (g i)) :
    Consumes (Vector.ofFnM f) ((List.finRange n).flatMap bytes) (Vector.ofFn g) := by
  induction n with
  | zero =>
      rw [Vector.ofFnM_zero]
      exact .pure _
  | succ n ih =>
      rw [Vector.ofFnM_succ, List.finRange_succ_last, List.flatMap_append, Vector.ofFn_succ]
      have hfirst := ih fun i => h i.castSucc
      rw [List.flatMap_map, List.flatMap_singleton]
      exact hfirst.bind ((h (Fin.last n)).map _)

namespace RowCounts

open Reader

theorem toNat_bit (id : Fin 64) : ((1 <<< id.val).toUInt64).toNat = 2 ^ id.val := by
  have hlt : 2 ^ id.val < 2 ^ 64 := Nat.pow_lt_pow_right (by decide) id.isLt
  rw [Nat.one_shiftLeft, Nat.toUInt64_eq, UInt64.toNat_ofNat']
  exact Nat.mod_eq_of_lt hlt

theorem testBit_foldl (ids : List (Fin 64)) (i : Nat) :
    ∀ mask : UInt64,
      (ids.foldl (fun mask id => mask ||| (1 <<< id.val).toUInt64) mask).toNat.testBit i =
        (mask.toNat.testBit i || ids.any fun id => id.val = i) := by
  induction ids with
  | nil => simp
  | cons id rest ih =>
      intro mask
      rw [List.foldl_cons, ih, UInt64.toNat_or, Nat.testBit_or, toNat_bit,
        Nat.testBit_two_pow, List.any_cons, Bool.or_assoc]

theorem inMask_maskOf (p : Fin 64 → Bool) (id : Fin 64) : inMask (maskOf p) id = p id := by
  rw [inMask, maskOf, testBit_foldl]
  cases h : p id with
  | false =>
      simp only [UInt64.toNat_zero, Nat.zero_testBit, Bool.false_or, List.any_eq_false,
        List.mem_filter]
      rintro other ⟨-, hother⟩ heq
      rw [Fin.ext (of_decide_eq_true heq), h] at hother
      cases hother
  | true => simp [← Fin.ext_iff, h]

theorem flatMap_select (counts : RowCounts) (p : Fin 64 → Bool)
    (bytes : UInt32 → List UInt8) :
    ((counts.select p).flatMap fun entry => bytes entry.2) =
      (List.finRange 64).flatMap fun id => if p id then bytes (counts.get id)
        else [] := by
  rw [select, List.flatMap_map]
  induction List.finRange 64 with
  | nil => rfl
  | cons id rest ih => cases h : p id <;> simp [h, ih]

theorem get_set (counts : RowCounts) (i j : Fin 64) (rows : UInt32) :
    (counts.set i rows).get j = if i = j then rows else counts.get j := by
  change (counts.set i rows)[j.val] = _
  simp only [Vector.getElem_set, Fin.ext_iff]
  rfl

theorem get_ofFn (f : Fin 64 → UInt32) (id : Fin 64) : (Vector.ofFn f).get id = f id :=
  Vector.getElem_ofFn ..

theorem ofFn_get (counts : RowCounts) : Vector.ofFn counts.get = counts := by
  apply Vector.ext
  intro i hi
  rw [Vector.getElem_ofFn]
  rfl

/-- Counts are read back if the tables that have no count are empty. -/
theorem consumes_read {counts : RowCounts} {p : Fin 64 → Bool}
    (hempty : ∀ id, p id = false → counts.get id = 0) :
    Consumes (read (maskOf p))
      ((counts.select p).flatMap fun entry => leBytes 4 entry.2.toNat) counts := by
  have hentry : ∀ id, Consumes (if inMask (maskOf p) id then u32 else pure 0)
      (if p id then leBytes 4 (counts.get id).toNat else []) (counts.get id) := by
    intro id
    rw [inMask_maskOf]
    cases h : p id with
    | false =>
        rw [hempty id h]
        exact .pure 0
    | true => exact .u32 _
  have hread := Consumes.ofFnM hentry
  rw [ofFn_get] at hread
  rw [flatMap_select counts p fun rows => leBytes 4 rows.toNat]
  exact hread

end RowCounts

end PortablePdb
