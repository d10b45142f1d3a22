import PortablePdb.Guid
import PortablePdb.Table.RowCounts

/-!
The stream that ties a debug file to its assembly: the id that both share, the method that
the assembly starts with, and the row counts of the assembly's tables.
-/

namespace PortablePdb

structure PdbId where
  guid : Guid
  stamp : UInt32
  deriving DecidableEq

namespace PdbId

def size : Nat := Guid.size + 4

def ofBytes (bytes : List UInt8) : PdbId :=
  ⟨Guid.ofBytes (bytes.take Guid.size), (leNat (bytes.drop Guid.size)).toUInt32⟩

def bytes (id : PdbId) : List UInt8 :=
  id.guid.bytes ++ leBytes 4 id.stamp.toNat

/-- The text of the identifier, and the stamp behind it unless it is zero. -/
def text (id : PdbId) : String :=
  if id.stamp = 0 then id.guid.text else id.guid.text ++ "-" ++ Hex.padded 1 id.stamp.toNat

end PdbId

structure PdbStream where
  id : PdbId
  /-- The token of the method that the assembly starts with, or zero. -/
  entryPoint : UInt32
  referencedTables : UInt64
  referencedRows : RowCounts
  deriving DecidableEq

def PdbStream.read : Reader PdbStream := do
  let id := PdbId.ofBytes (← Reader.bytes PdbId.size).data.toList
  let entryPoint ← Reader.u32
  let referencedTables ← Reader.u64
  let referencedRows ← RowCounts.read referencedTables
  return { id, entryPoint, referencedTables, referencedRows }

end PortablePdb
