/-!
Sequence points map the code offsets of a method to ranges of its source text. A hidden
point has no range of its own; where a range has to be shown, it is that of the line
`hiddenLine` at columns zero.
-/

namespace PortablePdb

/-- The line that marks a hidden point, and that no visible point may start or end on. -/
def hiddenLine : UInt32 := 0xfeefee

/-- Code offsets and lines are smaller than this. -/
def lineLimit : Nat := 0x20000000

def columnLimit : Nat := 0x10000

/-- A range of source text. The end column lies behind the last character. -/
structure Span where
  startLine : UInt32
  startColumn : UInt32
  endLine : UInt32
  endColumn : UInt32
  deriving DecidableEq

namespace Span

def hidden : Span := ⟨hiddenLine, 0, hiddenLine, 0⟩

def isLine (line : Int) : Bool :=
  0 ≤ line && line < lineLimit && line != hiddenLine.toNat

def isColumn (column : Int) : Bool :=
  0 ≤ column && column < columnLimit

/-- The range of four numbers that are lines and columns, and whose end lies behind its
start. -/
def ofInts? (startLine startColumn endLine endColumn : Int) : Option Span :=
  if isLine startLine ∧ isLine endLine ∧ isColumn startColumn ∧ isColumn endColumn ∧
      (startLine < endLine ∨ startLine = endLine ∧ startColumn < endColumn) then
    some
      { startLine := startLine.toNat.toUInt32, startColumn := startColumn.toNat.toUInt32,
        endLine := endLine.toNat.toUInt32, endColumn := endColumn.toNat.toUInt32 }
  else none

end Span

structure SequencePoint where
  ilOffset : UInt32
  /-- Absent for a hidden point. -/
  span : Option Span
  deriving DecidableEq

namespace SequencePoint

def isHidden (p : SequencePoint) : Bool :=
  p.span.isNone

def range (p : SequencePoint) : Span :=
  p.span.getD .hidden

end SequencePoint

end PortablePdb
