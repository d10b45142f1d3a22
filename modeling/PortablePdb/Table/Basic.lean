import PortablePdb.FormatError

/-!
Tables, whose rows are numbered from one.
-/

namespace PortablePdb

class TableRow (ρ : Type) where
  kind : TableKind

structure Table (ρ : Type) where
  rows : Array ρ
  deriving DecidableEq

namespace Table

variable {ρ : Type}

def size (table : Table ρ) : Nat :=
  table.rows.size

def isEmpty (table : Table ρ) : Bool :=
  table.rows.isEmpty

def get? (table : Table ρ) (row : Nat) : Option ρ :=
  if row = 0 then none else table.rows[row - 1]?

def get [TableRow ρ] (table : Table ρ) (row : Nat) : Except FormatError ρ :=
  match table.get? row with
  | some r => .ok r
  | none => .error (.invalidRowIndex (TableRow.kind ρ) row)

def entries (table : Table ρ) : List (Nat × ρ) :=
  (table.rows.toList.zipIdx 1).map Prod.swap

theorem get_eq_ok_iff [TableRow ρ] {table : Table ρ} {row : Nat} {r : ρ} :
    table.get row = .ok r ↔ table.get? row = some r := by
  rw [get]
  cases table.get? row <;> simp

@[simp] theorem get?_zero (table : Table ρ) : table.get? 0 = none := rfl

@[simp] theorem get?_succ (table : Table ρ) (i : Nat) :
    table.get? (i + 1) = table.rows[i]? := by
  simp [get?]

theorem le_size_of_get? {table : Table ρ} {row : Nat} {r : ρ}
    (h : table.get? row = some r) : row ≤ table.size := by
  cases row with
  | zero => exact Nat.zero_le _
  | succ i =>
    rw [get?_succ] at h
    exact (Array.getElem?_eq_some_iff.1 h).1

theorem length_entries (table : Table ρ) : table.entries.length = table.size := by
  simp [entries, size]

theorem getElem?_entries (table : Table ρ) (i : Nat) :
    table.entries[i]? = (table.get? (i + 1)).map (i + 1, ·) := by
  simp [entries, List.getElem?_zipIdx, Nat.add_comm, Function.comp_def]

theorem mem_entries_iff {table : Table ρ} {row : Nat} {r : ρ} :
    (row, r) ∈ table.entries ↔ table.get? row = some r := by
  simp only [List.mem_iff_getElem?, getElem?_entries, Option.map_eq_some_iff, Prod.mk.injEq]
  constructor
  · rintro ⟨i, r, hr, rfl, rfl⟩
    exact hr
  · intro hr
    cases row with
    | zero => simp at hr
    | succ i => exact ⟨i, r, hr, rfl, rfl⟩

theorem map_fst_entries (table : Table ρ) :
    table.entries.map (·.1) = List.range' 1 table.size := by
  simp [entries, size, Function.comp_def]

theorem pairwise_entries (table : Table ρ) :
    table.entries.Pairwise fun x y => x.1 < y.1 := by
  rw [← List.pairwise_map, map_fst_entries]
  exact List.pairwise_lt_range'

end Table

end PortablePdb
