import PortablePdb.Proofs.Placement
import PortablePdb.Proofs.Table.RowCounts
import PortablePdb.Table.Stream

/-!
Where everything stands in a table stream. `Layout.decode` takes every count, column and
row from its offset, without going through the stream. The offsets are sums of sizes: a
count stands behind those of the tables with a lower id, a row behind those with a lower
number, and a table behind the tables before it. `Tables.run_read_eq_decode` proves the
reader equal to it.
-/

namespace PortablePdb

open Reader

/-! ### Offsets -/

namespace Layout

section Header

variable (s : ByteArray)

def mask : Nat :=
  wordAt s 8 8

def rank (mask id : Nat) : Nat :=
  (List.range id).countP mask.testBit

/-- The size of the fields, and of one count for every table in the mask. No stream that
is too short to have a mask has this size either. -/
def headerSize : Nat :=
  24 + 4 * rank (mask s) 64

def count (id : Nat) : Nat :=
  if (mask s).testBit id then wordAt s (24 + 4 * rank (mask s) id) 4 else 0

def header : TableHeader where
  majorVersion := (wordAt s 4 1).toUInt8
  minorVersion := (wordAt s 5 1).toUInt8
  heapSizes := (wordAt s 6 1).toUInt8
  valid := (mask s).toUInt64
  sorted := (wordAt s 16 8).toUInt64
  rows := Vector.ofFn fun id => (count s id).toUInt32

/-- The lowest id of a table that has rows and is no table of a debug file. -/
def foreign? : Option (Fin 64) :=
  (List.finRange 64).find? fun id => count s id ≠ 0 ∧ (id.val < 0x30 ∨ 0x37 < id.val)

def heapWidth (bit : Nat) : Nat :=
  if (wordAt s 6 1).testBit bit then 4 else 2

/-- A number of a row may be larger than two bytes hold, be it in this file or in its
assembly. -/
def tableWidth (referenced : RowCounts) (kind : TableKind) : Nat :=
  if 0xFFFF < max (count s kind.id) (referenced.get kind.id).toNat then 4 else 2

def widths (referenced : RowCounts) : IndexWidths where
  strings := heapWidth s 0
  guids := heapWidth s 1
  blobs := heapWidth s 2
  documents := tableWidth s referenced .document
  methods := tableWidth s referenced .methodDef
  imports := tableWidth s referenced .importScope
  localVariables := tableWidth s referenced .localVariable
  localConstants := tableWidth s referenced .localConstant

end Header

class Row (ρ : Type) where
  size : IndexWidths → Nat
  rowAt : ByteArray → IndexWidths → Nat → ρ

instance : Row DocumentRow where
  size w := w.blobs + w.guids + w.blobs + w.guids
  rowAt s w offset :=
    { name := (wordAt s offset w.blobs).toUInt32
      hashAlgorithm := (wordAt s (offset + w.blobs) w.guids).toUInt32
      hash := (wordAt s (offset + w.blobs + w.guids) w.blobs).toUInt32
      language := (wordAt s (offset + w.blobs + w.guids + w.blobs) w.guids).toUInt32 }

instance : Row MethodRow where
  size w := w.documents + w.blobs
  rowAt s w offset :=
    { document := (wordAt s offset w.documents).toUInt32
      sequencePoints := (wordAt s (offset + w.documents) w.blobs).toUInt32 }

instance : Row ScopeRow where
  size w := w.methods + w.imports + w.localVariables + w.localConstants + 8
  rowAt s w offset :=
    let lists := offset + w.methods + w.imports
    let range := lists + w.localVariables + w.localConstants
    { method := (wordAt s offset w.methods).toUInt32
      importScope := (wordAt s (offset + w.methods) w.imports).toUInt32
      variableList := (wordAt s lists w.localVariables).toUInt32
      constantList := (wordAt s (lists + w.localVariables) w.localConstants).toUInt32
      startOffset := (wordAt s range 4).toUInt32
      length := (wordAt s (range + 4) 4).toUInt32 }

instance : Row VariableRow where
  size w := 4 + w.strings
  rowAt s w offset :=
    { attributes := (wordAt s offset 2).toUInt16
      slot := (wordAt s (offset + 2) 2).toUInt16
      name := (wordAt s (offset + 4) w.strings).toUInt32 }

instance : Row ConstantRow where
  size w := w.strings + w.blobs
  rowAt s w offset :=
    { name := (wordAt s offset w.strings).toUInt32
      signature := (wordAt s (offset + w.strings) w.blobs).toUInt32 }

section Tables

variable (s : ByteArray) (w : IndexWidths)

def tableAt (ρ : Type) [Row ρ] (base count : Nat) : Table ρ :=
  ⟨Array.ofFn fun i : Fin count => Row.rowAt s w (base + i * Row.size ρ w)⟩

def methodBase : Nat :=
  headerSize s + count s 0x30 * Row.size DocumentRow w

def scopeBase : Nat :=
  methodBase s w + count s 0x31 * Row.size MethodRow w

def variableBase : Nat :=
  scopeBase s w + count s 0x32 * Row.size ScopeRow w

def constantBase : Nat :=
  variableBase s w + count s 0x33 * Row.size VariableRow w

/-- Where the last table ends. Bytes behind it have no meaning. -/
def stop : Nat :=
  constantBase s w + count s 0x34 * Row.size ConstantRow w

def tables : Tables where
  header := header s
  documents := tableAt s w DocumentRow (headerSize s) (count s 0x30)
  methods := tableAt s w MethodRow (methodBase s w) (count s 0x31)
  scopes := tableAt s w ScopeRow (scopeBase s w) (count s 0x32)
  localVariables := tableAt s w VariableRow (variableBase s w) (count s 0x33)
  localConstants := tableAt s w ConstantRow (constantBase s w) (count s 0x34)

end Tables

inductive Fault
  | outOfBounds
  | unsupportedTable (id : Fin 64)
  deriving DecidableEq

/-- The failure of a reader, without the place where it ran out of bounds. -/
def Fault.of? : FormatError → Option Fault
  | .outOfBounds _ _ => some outOfBounds
  | .unsupportedTable id => some (unsupportedTable id)
  | _ => none

def decode (s : ByteArray) (referenced : RowCounts) : Except Fault Tables :=
  if s.size < headerSize s then .error .outOfBounds
  else
    match foreign? s with
    | some id => .error (.unsupportedTable id)
    | none =>
      if s.size < stop s (widths s referenced) then .error .outOfBounds
      else .ok (tables s (widths s referenced))

/-! ### The header -/

variable {s : ByteArray} {referenced : RowCounts}

theorem rank_succ (mask id : Nat) :
    rank mask (id + 1) = rank mask id + if mask.testBit id then 1 else 0 := by
  rw [rank, List.range_succ, List.countP_append, List.countP_singleton]
  rfl

theorem count_lt (s : ByteArray) (id : Nat) : count s id < 2 ^ 32 := by
  have hlt := wordAt_lt s (24 + 4 * rank (mask s) id) 4
  rw [count]
  split <;> omega

theorem toNat_valid (s : ByteArray) : ((mask s).toUInt64).toNat = mask s :=
  UInt64.toNat_ofNat_of_lt' (wordAt_lt s 8 8)

/-- The row counts are read from their places behind the fields. -/
theorem readsAt_rowCounts (hfields : 24 ≤ s.size) :
    ReadsAt s 24 (RowCounts.read (mask s).toUInt64) (4 * rank (mask s) 64)
      (header s).rows := by
  refine ReadsAt.ofFnM (fun id => if (mask s).testBit id then 4 else 0)
    (fun id => 4 * rank (mask s) id) rfl ?_ hfields ?_
  · intro id
    rw [rank_succ]
    split <;> omega
  · intro id hid
    rw [RowCounts.inMask, toNat_valid, count]
    cases (mask s).testBit id with
    | true => exact .u32
    | false => exact .pure hid 0

theorem readsAt_header (s : ByteArray) :
    ReadsAt s 0 TableHeader.read (headerSize s) (header s) := by
  have hread : ReadsAt s 0 TableHeader.read _ (header s) :=
    ReadsAt.u32.bind fun _ => ReadsAt.u8.bind fun _ => ReadsAt.u8.bind fun _ =>
        ReadsAt.u8.bind fun _ =>
      ReadsAt.u8.bind fun _ => ReadsAt.u64.bind fun _ => ReadsAt.u64.bind fun hfields =>
      (readsAt_rowCounts hfields).map _
  exact hread.resize (by rw [headerSize]; omega)

theorem toNat_rows (s : ByteArray) (id : Fin 64) :
    ((header s).rows.get id).toNat = count s id := by
  rw [header, RowCounts.get_ofFn, toNat_toUInt32 (count_lt s id)]

theorem unsupported?_header (s : ByteArray) : (header s).unsupported? = foreign? s := by
  have hforeign : ∀ id, ((header s).rows.get id != 0 && !TableKind.isDebugTable id) =
      decide (count s id ≠ 0 ∧ (id.val < 0x30 ∨ 0x37 < id.val)) := by
    intro id
    have hrows := toNat_rows s id
    generalize (header s).rows.get id = rows at hrows
    rw [← hrows, Bool.eq_iff_iff, decide_eq_true_eq, Bool.and_eq_true, bne_iff_ne,
      Bool.not_eq_true', TableKind.isDebugTable, Bool.and_eq_false_iff,
      decide_eq_false_iff_not, decide_eq_false_iff_not, ne_eq, ne_eq,
      ← UInt32.toNat_inj, UInt32.toNat_zero]
    omega
  simp only [TableHeader.unsupported?, hforeign]
  rfl

/-- The reader works out the widths of the columns at which they stand. -/
theorem ofCounts_header (s : ByteArray) (referenced : RowCounts) :
    IndexWidths.ofCounts (header s).heapSizes (header s).rows referenced =
      widths s referenced := by
  have hheap : ∀ bit, IndexWidths.ofWide ((header s).heapSizes.toNat.testBit bit) =
      heapWidth s bit := by
    intro bit
    have hlt := wordAt_lt s 6 1
    have hsizes : (header s).heapSizes.toNat = wordAt s 6 1 := UInt8.toNat_ofNat_of_lt' hlt
    rw [hsizes]
    rfl
  have htable : ∀ kind : TableKind, IndexWidths.ofWide (IndexWidths.isWide
      (max ((header s).rows.get kind.id) (referenced.get kind.id))) =
      tableWidth s referenced kind := by
    intro kind
    rw [IndexWidths.ofWide, IndexWidths.isWide, tableWidth, ← toNat_rows]
    generalize (header s).rows.get kind.id = own
    generalize referenced.get kind.id = other
    have hmax : 0xFFFF < max own other ↔ 0xFFFF < max own.toNat other.toNat := by
      simp only [Max.max, UInt32.le_iff_toNat_le, UInt32.lt_iff_toNat_lt]
      split <;> rfl
    simp only [decide_eq_true_eq, hmax]
  simp only [IndexWidths.ofCounts, hheap, htable]
  rfl

/-! ### Rows -/

theorem heapWidth_cases (s : ByteArray) (bit : Nat) :
    heapWidth s bit = 2 ∨ heapWidth s bit = 4 := by
  rw [heapWidth]
  split
  · exact .inr rfl
  · exact .inl rfl

theorem tableWidth_cases (s : ByteArray) (referenced : RowCounts) (kind : TableKind) :
    tableWidth s referenced kind = 2 ∨ tableWidth s referenced kind = 4 := by
  rw [tableWidth]
  split
  · exact .inr rfl
  · exact .inl rfl

def Readable (ρ : Type) [StoredRow ρ] [Row ρ] (s : ByteArray) (w : IndexWidths) : Prop :=
  ∀ pos, ReadsAt s pos (StoredRow.read w : Reader ρ) (Row.size ρ w) (Row.rowAt s w pos)

variable {w : IndexWidths}

theorem readable_document (hblobs : w.blobs = 2 ∨ w.blobs = 4)
    (hguids : w.guids = 2 ∨ w.guids = 4) : Readable DocumentRow s w := fun pos => by
  have hread :
      ReadsAt s pos (StoredRow.read w : Reader DocumentRow) _ (Row.rowAt s w pos) :=
    (ReadsAt.index hblobs).bind fun _ => (ReadsAt.index hguids).bind fun _ =>
        (ReadsAt.index hblobs).bind fun _ =>
      (ReadsAt.index hguids).map _
  exact hread.resize (by simp only [Row.size]; omega)

theorem readable_method (hdocuments : w.documents = 2 ∨ w.documents = 4)
    (hblobs : w.blobs = 2 ∨ w.blobs = 4) : Readable MethodRow s w := fun _ =>
  (ReadsAt.index hdocuments).bind fun _ => (ReadsAt.index hblobs).map _

theorem readable_scope
    (hmethods : w.methods = 2 ∨ w.methods = 4) (himports : w.imports = 2 ∨ w.imports = 4)
    (hvariables : w.localVariables = 2 ∨ w.localVariables = 4)
    (hconstants : w.localConstants = 2 ∨ w.localConstants = 4) :
    Readable ScopeRow s w := fun pos => by
  have hread : ReadsAt s pos (StoredRow.read w : Reader ScopeRow) _ (Row.rowAt s w pos) :=
    (ReadsAt.index hmethods).bind fun _ => (ReadsAt.index himports).bind fun _ =>
      (ReadsAt.index hvariables).bind fun _ => (ReadsAt.index hconstants).bind fun _ =>
      ReadsAt.u32.bind fun _ => ReadsAt.u32.map _
  exact hread.resize (by simp only [Row.size]; omega)

theorem readable_variable (hstrings : w.strings = 2 ∨ w.strings = 4) :
    Readable VariableRow s w := fun pos => by
  have hread :
      ReadsAt s pos (StoredRow.read w : Reader VariableRow) _ (Row.rowAt s w pos) :=
    ReadsAt.u16.bind fun _ => ReadsAt.u16.bind fun _ => (ReadsAt.index hstrings).map _
  exact hread.resize (by simp only [Row.size]; omega)

theorem readable_constant (hstrings : w.strings = 2 ∨ w.strings = 4)
    (hblobs : w.blobs = 2 ∨ w.blobs = 4) : Readable ConstantRow s w := fun _ =>
  (ReadsAt.index hstrings).bind fun _ => (ReadsAt.index hblobs).map _

/-! ### Tables -/

section Table

variable {ρ : Type} [StoredRow ρ] [Row ρ]

/-- The rows of a table stand one behind the other, each at a multiple of their size. -/
theorem readsAt_readRows (hrow : Readable ρ s w) (count : Nat) :
    ∀ {pos : Nat} (read : Array ρ), pos ≤ s.size →
      ReadsAt s pos (Tables.readRows w count read) (count * Row.size ρ w)
        (read ++ (tableAt s w ρ pos count).rows) := by
  induction count with
  | zero =>
      intro pos read hpos
      have hnone : read ++ (tableAt s w ρ pos 0).rows = read := by simp [tableAt]
      rw [hnone, Nat.zero_mul]
      exact .pure hpos read
  | succ count ih =>
      intro pos read hpos
      have hrows : read ++ (tableAt s w ρ pos (count + 1)).rows = read.push
          (Row.rowAt s w pos) ++ (tableAt s w ρ (pos + Row.size ρ w) count).rows := by
        apply Array.toList_inj.1
        simp [tableAt, List.ofFn_succ, Nat.add_mul, Nat.add_assoc, Nat.add_comm]
      rw [hrows]
      refine ((hrow pos).bind fun hnext => ih _ hnext).resize ?_
      ring

theorem readsAt_readTable (hrow : Readable ρ s w) {base id : Nat}
    (hid : (TableRow.kind ρ).id = id) (hbase : base ≤ s.size) :
    ReadsAt s base (Tables.readTable ρ (header s) w) (Layout.count s id * Row.size ρ w)
      (tableAt s w ρ base (Layout.count s id)) := by
  have hread := (readsAt_readRows hrow (Layout.count s id) #[] hbase).map Table.mk
  rw [Array.empty_append] at hread
  rw [Tables.readTable, TableHeader.rowsOf, toNat_rows, hid]
  exact hread

end Table

/-- A table that no debug file has is found before any row is read. -/
theorem read_of_foreign {id : Fin 64} (hheader : headerSize s ≤ s.size)
    (hforeign : foreign? s = some id) :
    Tables.read referenced ⟨s, 0, []⟩ =
      .error (.unsupportedTable id) ⟨s, headerSize s, []⟩ := by
  have hread := (readsAt_header s).ok (by omega)
  rw [Nat.zero_add] at hread
  rw [Tables.read, bind_of_ok hread]
  simp only [unsupported?_header, hforeign]
  rfl

theorem readsAt_read (referenced : RowCounts) (hnone : foreign? s = none) :
    ReadsAt s 0 (Tables.read referenced) (stop s (widths s referenced))
      (tables s (widths s referenced)) := by
  have hstrings := heapWidth_cases s 0
  have hguids := heapWidth_cases s 1
  have hblobs := heapWidth_cases s 2
  have htable := tableWidth_cases s referenced
  have hread : ReadsAt s 0 (Tables.read referenced)
      (headerSize s + (count s 0x30 * Row.size DocumentRow (widths s referenced) +
        (count s 0x31 * Row.size MethodRow (widths s referenced) +
        (count s 0x32 * Row.size ScopeRow (widths s referenced) +
        (count s 0x33 * Row.size VariableRow (widths s referenced) +
        count s 0x34 * Row.size ConstantRow (widths s referenced))))))
      (tables s (widths s referenced)) := by
    refine (readsAt_header s).bind fun hheader => ?_
    rw [Nat.zero_add] at hheader ⊢
    simp only [unsupported?_header, hnone, ofCounts_header]
    refine (readsAt_readTable (readable_document hblobs hguids) rfl hheader).bind
      fun hmethods => ?_
    refine (readsAt_readTable (readable_method (htable _) hblobs) rfl hmethods).bind
      fun hscopes => ?_
    refine (readsAt_readTable (readable_scope (htable _) (htable _) (htable _) (htable _))
      rfl hscopes).bind fun hvariables => ?_
    refine (readsAt_readTable (readable_variable hstrings) rfl hvariables).bind
      fun hconstants => ?_
    exact (readsAt_readTable (readable_constant hstrings hblobs) rfl hconstants).map _
  exact hread.resize
    (by simp only [stop, constantBase, variableBase, scopeBase, methodBase]; omega)

end Layout

open Layout in
/-- The reader of a table stream and its layout agree on every sequence of bytes: on the
rows of all tables, or on what is wrong with them. -/
theorem Tables.run_read_eq_decode (s : ByteArray) (referenced : RowCounts) :
    ((read referenced).run s).mapError Fault.of? = (decode s referenced).mapError some := by
  rw [decode, run]
  by_cases hshort : s.size < headerSize s
  · obtain ⟨offset, length, d, herror⟩ := (readsAt_header s).outOfBounds (by omega)
    have hread : read referenced (Cursor.ofBytes s) =
      .error (.outOfBounds offset length) d := bind_of_error herror
    rw [hread, if_pos hshort]
    rfl
  · rw [if_neg hshort]
    cases hforeign : foreign? s with
    | some id =>
        rw [show read referenced (Cursor.ofBytes s) =
          _ from read_of_foreign (by omega) hforeign]
        rfl
    | none =>
        have hread := readsAt_read referenced hforeign
        by_cases hend : s.size < stop s (widths s referenced)
        · obtain ⟨offset, length, d, herror⟩ := hread.outOfBounds (by omega)
          rw [show read referenced (Cursor.ofBytes s) = _ from herror]
          simp only [hend, if_true]
          rfl
        · rw [show read referenced (Cursor.ofBytes s) = _ from hread.ok (by omega)]
          simp only [hend, if_false]
          rfl

end PortablePdb
