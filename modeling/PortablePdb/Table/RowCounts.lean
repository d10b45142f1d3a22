import PortablePdb.Reader.Basic

/-!
Row counts of the 64 possible tables. They are stored as a mask of table ids followed by
the counts of the tables in the mask, in ascending order; every other table has no rows.
-/

namespace PortablePdb

abbrev RowCounts := Vector UInt32 64

namespace RowCounts

def zero : RowCounts := Vector.replicate 64 0

def inMask (mask : UInt64) (id : Fin 64) : Bool :=
  mask.toNat.testBit id

def read (mask : UInt64) : Reader RowCounts :=
  Vector.ofFnM fun id => if inMask mask id then Reader.u32 else pure 0

def select (counts : RowCounts) (p : Fin 64 → Bool) : List (Fin 64 × UInt32) :=
  ((List.finRange 64).filter p).map fun id => (id, counts.get id)

def nonzero (counts : RowCounts) : List (Fin 64 × UInt32) :=
  counts.select fun id => counts.get id != 0

def maskOf (p : Fin 64 → Bool) : UInt64 :=
  ((List.finRange 64).filter p).foldl (fun mask id => mask ||| (1 <<< id.val).toUInt64) 0

end RowCounts

end PortablePdb
