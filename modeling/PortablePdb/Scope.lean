import PortablePdb.Heap.Basic
import PortablePdb.Table.Stream

/-!
Lexical scopes. The rows of variables and constants are handed out to the scopes in the
order of their rows: a scope owns the rows from the one it names up to the one that the
next scope names, and the last scope those up to the end of the table.
-/

namespace PortablePdb

/-- The rows from `first` on that come before `stop`. -/
structure RowRange where
  first : Nat
  stop : Nat
  deriving DecidableEq

def RowRange.rows (range : RowRange) : List Nat :=
  List.range' range.first (range.stop - range.first)

/-- The rows that belong to a list in a table of `size` rows, when the next list starts at
`next`. -/
def RowRange.owned (table : TableKind) (size first : Nat) (next : Option Nat) :
    Except FormatError RowRange :=
  let stop := match next with
    | some next => min (size + 1) next
    | none => size + 1
  if stop < first then .error (.inconsistentRange table first stop)
  else if first = 0 ∧ 0 < stop then .error (.invalidRowIndex table 0)
  else .ok ⟨first, stop⟩

structure LocalVariable where
  name : String
  slot : UInt16
  /-- Whether debuggers leave the variable out. -/
  hidden : Bool
  deriving DecidableEq

structure LocalConstant where
  name : String
  deriving DecidableEq

structure Scope where
  /-- The row that the scope was built from. -/
  index : Nat
  startOffset : UInt32
  length : UInt32
  variableRows : RowRange
  constantRows : RowRange
  localVariables : List LocalVariable
  localConstants : List LocalConstant
  deriving DecidableEq

namespace Scope

def endOffset (scope : Scope) : Nat :=
  scope.startOffset.toNat + scope.length.toNat

def contains (scope : Scope) (ilOffset : UInt32) : Bool :=
  scope.startOffset ≤ ilOffset && ilOffset.toNat < scope.endOffset

def variableAt (heaps : Heaps) (tables : Tables) (row : Nat) :
    Except FormatError LocalVariable := do
  let r ← tables.localVariables.get row
  return { name := ← heaps.strings.get r.name, slot := r.slot, hidden := r.isHidden }

def constantAt (heaps : Heaps) (tables : Tables) (row : Nat) :
    Except FormatError LocalConstant := do
  let r ← tables.localConstants.get row
  return { name := ← heaps.strings.get r.name }

/-- The scope of a row that is followed by another row or is the last one. -/
def build (heaps : Heaps) (tables : Tables) (index : Nat) (row : ScopeRow)
    (next : Option ScopeRow) : Except FormatError Scope := do
  if row.method = 0 then throw (.invalidRowIndex .methodDef 0)
  let variableRows ← RowRange.owned .localVariable tables.localVariables.size
    row.variableList.toNat (next.map (·.variableList.toNat))
  let constantRows ← RowRange.owned .localConstant tables.localConstants.size
    row.constantList.toNat (next.map (·.constantList.toNat))
  let localVariables ← variableRows.rows.mapM (variableAt heaps tables)
  let localConstants ← constantRows.rows.mapM (constantAt heaps tables)
  return { index, startOffset := row.startOffset, length := row.length,
           variableRows, constantRows, localVariables, localConstants }

def buildAll (heaps : Heaps) (tables : Tables) : Except FormatError (List (Nat × Scope)) :=
  tables.scopes.entries.mapM fun (index, row) =>
    return (row.method.toNat,
      ← build heaps tables index row (tables.scopes.get? (index + 1)))

end Scope

end PortablePdb
