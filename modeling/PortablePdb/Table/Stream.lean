import PortablePdb.Table.Row

/-!
The stream that holds the tables: a header with the row counts, and then the rows of one
table after another. Of the tables of a debug file the last three are counted but not
read. No other table may have rows.
-/

namespace PortablePdb

structure TableHeader where
  majorVersion : UInt8
  minorVersion : UInt8
  heapSizes : UInt8
  /-- The tables that have a row count. -/
  valid : UInt64
  sorted : UInt64
  rows : RowCounts
  deriving DecidableEq

namespace TableHeader

open Reader

def read : Reader TableHeader := do
  let _reserved ← u32
  let majorVersion ← u8
  let minorVersion ← u8
  let heapSizes ← u8
  let _reserved ← u8
  let valid ← u64
  let sorted ← u64
  let rows ← RowCounts.read valid
  return { majorVersion, minorVersion, heapSizes, valid, sorted, rows }

/-- The first table with rows that no debug file has. -/
def unsupported? (header : TableHeader) : Option (Fin 64) :=
  (List.finRange 64).find? fun id => header.rows.get id != 0 && !TableKind.isDebugTable id

def rowsOf (header : TableHeader) (kind : TableKind) : UInt32 :=
  header.rows.get kind.id

end TableHeader

structure Tables where
  header : TableHeader
  documents : Table DocumentRow
  methods : Table MethodRow
  scopes : Table ScopeRow
  localVariables : Table VariableRow
  localConstants : Table ConstantRow
  deriving DecidableEq

namespace Tables

def readRows {ρ : Type} [StoredRow ρ] (widths : IndexWidths) :
    (count : Nat) → Array ρ → Reader (Array ρ)
  | 0, rows => pure rows
  | count + 1, rows => do
    let row ← StoredRow.read widths
    readRows widths count (rows.push row)

def readTable (ρ : Type) [StoredRow ρ] (header : TableHeader) (widths : IndexWidths) :
    Reader (Table ρ) :=
  return ⟨← readRows widths (header.rowsOf (TableRow.kind ρ)).toNat #[]⟩

def read (referenced : RowCounts) : Reader Tables := do
  let header ← TableHeader.read
  if let some id := header.unsupported? then throw (.unsupportedTable id)
  let widths := IndexWidths.ofCounts header.heapSizes header.rows referenced
  let documents ← readTable DocumentRow header widths
  let methods ← readTable MethodRow header widths
  let scopes ← readTable ScopeRow header widths
  let localVariables ← readTable VariableRow header widths
  let localConstants ← readTable ConstantRow header widths
  return { header, documents, methods, scopes, localVariables, localConstants }

end Tables

end PortablePdb
