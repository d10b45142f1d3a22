import PortablePdb.Table.Basic
import PortablePdb.Table.RowCounts

/-!
The rows of the tables and how they are stored. A column that points into a heap or a
table is four bytes wide if the target is large and two bytes wide if it is not, so the
columns of a row are read with the widths that hold in its file.
-/

namespace PortablePdb

/-- The widths in bytes of the columns that point into a heap or a table. -/
structure IndexWidths where
  strings : Nat
  guids : Nat
  blobs : Nat
  documents : Nat
  methods : Nat
  imports : Nat
  localVariables : Nat
  localConstants : Nat
  deriving DecidableEq

namespace IndexWidths

def ofWide (wide : Bool) : Nat :=
  if wide then 4 else 2

def isWide (rows : UInt32) : Bool :=
  0xFFFF < rows

/-- The lowest three bits of `heapSizes` tell which heaps are large. A table counts with
the rows it has in this file or in the assembly, whichever are more. -/
def ofCounts (heapSizes : UInt8) (own referenced : RowCounts) : IndexWidths :=
  let heap (bit : Nat) := ofWide (heapSizes.toNat.testBit bit)
  let table (kind : TableKind) :=
    ofWide (isWide (max (own.get kind.id) (referenced.get kind.id)))
  { strings := heap 0
    guids := heap 1
    blobs := heap 2
    documents := table .document
    methods := table .methodDef
    imports := table .importScope
    localVariables := table .localVariable
    localConstants := table .localConstant }

end IndexWidths

class StoredRow (ρ : Type) extends TableRow ρ where
  read : IndexWidths → Reader ρ

structure DocumentRow where
  name : UInt32
  hashAlgorithm : UInt32
  hash : UInt32
  language : UInt32
  deriving DecidableEq

structure MethodRow where
  document : UInt32
  sequencePoints : UInt32
  deriving DecidableEq

structure ScopeRow where
  method : UInt32
  importScope : UInt32
  variableList : UInt32
  constantList : UInt32
  startOffset : UInt32
  length : UInt32
  deriving DecidableEq

structure VariableRow where
  attributes : UInt16
  slot : UInt16
  name : UInt32
  deriving DecidableEq

structure ConstantRow where
  name : UInt32
  signature : UInt32
  deriving DecidableEq

/-- The lowest attribute bit hides a variable from debuggers. -/
def VariableRow.isHidden (row : VariableRow) : Bool :=
  row.attributes.toNat.testBit 0

open Reader

instance : StoredRow DocumentRow where
  kind := .document
  read widths := do
    let name ← index widths.blobs
    let hashAlgorithm ← index widths.guids
    let hash ← index widths.blobs
    let language ← index widths.guids
    return { name, hashAlgorithm, hash, language }

instance : StoredRow MethodRow where
  kind := .methodDebugInformation
  read widths := do
    let document ← index widths.documents
    let sequencePoints ← index widths.blobs
    return { document, sequencePoints }

instance : StoredRow ScopeRow where
  kind := .localScope
  read widths := do
    let method ← index widths.methods
    let importScope ← index widths.imports
    let variableList ← index widths.localVariables
    let constantList ← index widths.localConstants
    let startOffset ← u32
    let length ← u32
    return { method, importScope, variableList, constantList, startOffset, length }

instance : StoredRow VariableRow where
  kind := .localVariable
  read widths := do
    let attributes ← u16
    let slot ← u16
    let name ← index widths.strings
    return { attributes, slot, name }

instance : StoredRow ConstantRow where
  kind := .localConstant
  read widths := do
    let name ← index widths.strings
    let signature ← index widths.blobs
    return { name, signature }

end PortablePdb
