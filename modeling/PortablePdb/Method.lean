import PortablePdb.Grouping
import PortablePdb.Scope
import PortablePdb.SequencePoint.Record

/-!
What is known about a method: its sequence points, the lines that its visible points
cover, and its scopes.
-/

namespace PortablePdb

structure Method where
  /-- The row of the method, which is the same in the assembly and in the debug file. -/
  methodDef : UInt32
  points : List SequencePoint
  scopes : List Scope
  deriving DecidableEq

/-- Work on the scopes of all methods, grouped by method. -/
abbrev ScopeTaking := StateT (Array (List Scope)) (Except FormatError)

def methodTokenKind : UInt32 := 0x06000000

namespace Method

def spans (m : Method) : List Span :=
  m.points.filterMap (·.span)

/-- The smallest line that a visible point starts on. -/
def firstLine (m : Method) : Option UInt32 :=
  (m.spans.map (·.startLine)).min?

/-- The largest line that a visible point ends on. -/
def lastLine (m : Method) : Option UInt32 :=
  (m.spans.map (·.endLine)).max?

def token (m : Method) : UInt32 :=
  methodTokenKind ||| m.methodDef

/-- The last of the leading points whose offsets are at most this one. -/
def pointAt? (m : Method) (ilOffset : UInt32) : Option SequencePoint :=
  (m.points.takeWhile fun p => p.ilOffset ≤ ilOffset).getLast?

def scopesAt (m : Method) (ilOffset : UInt32) : List Scope :=
  m.scopes.filter (·.contains ilOffset)

/-- The points of a row. Zero in place of a blob stands for none. -/
def pointsOf (heaps : Heaps) (index : Nat) (row : MethodRow) :
    Except FormatError (List SequencePoint) :=
  if row.sequencePoints = 0 then .ok []
  else do SequencePoint.readBlob index row.document (← heaps.blobs.get row.sequencePoints)

/-- The method of a row. Its scopes are taken out of those that are left. -/
def build (heaps : Heaps) (index : Nat) (row : MethodRow) : ScopeTaking Method := do
  let points ← pointsOf heaps index row
  let scopes ← modifyGet (Grouping.take index)
  return { methodDef := index.toUInt32, points, scopes }

end Method

end PortablePdb
