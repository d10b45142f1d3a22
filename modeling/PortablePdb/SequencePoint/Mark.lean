import PortablePdb.CompressedInt
import PortablePdb.SequencePoint.Basic

/-!
Writes the blob that holds the sequence points of a method, from points with absolute
offsets and ranges. All distances are taken modulo `2 ^ 32`, and a distance that is too
large then has no compressed form.
-/

namespace PortablePdb.SequencePoint

/-- What a list to be written holds: points, and changes of document between them. -/
inductive Mark
  | point (p : SequencePoint)
  | document (row : UInt32)
  deriving DecidableEq

namespace Mark

open CompressedInt

/-- The distance to a word, as a number from `-2 ^ 31` up to `2 ^ 31`. -/
def signedDelta (new old : UInt32) : Int :=
  (new - old).toInt32.toInt

def encodeStart (base : Option (UInt32 × UInt32)) (line column : UInt32) :
    Except TooLarge (List UInt8) :=
  match base with
  | none => return (← encode line.toNat) ++ (← encode column.toNat)
  | some (baseLine, baseColumn) =>
    return (← encodeSigned (signedDelta line baseLine)) ++
      (← encodeSigned (signedDelta column baseColumn))

def encodeColumns (lines startColumn endColumn : UInt32) : Except TooLarge (List UInt8) :=
  if lines = 0 then encode (endColumn - startColumn).toNat
  else encodeSigned (signedDelta endColumn startColumn)

/-- The range of a point. Two zeros stand for none. -/
def encodeSpan (base : Option (UInt32 × UInt32)) :
    Option Span → Except TooLarge (List UInt8)
  | none => return (← encode 0) ++ (← encode 0)
  | some span => do
    let lines := span.endLine - span.startLine
    let extent :=
      (← encode lines.toNat) ++ (← encodeColumns lines span.startColumn span.endColumn)
    return extent ++ (← encodeStart base span.startLine span.startColumn)

def nextBase (base : Option (UInt32 × UInt32)) (span : Option Span) :
    Option (UInt32 × UInt32) :=
  (span.map fun s => (s.startLine, s.startColumn)).or base

def encodeFrom (ilOffset : UInt32) (base : Option (UInt32 × UInt32)) :
    List Mark → Except TooLarge (List UInt8)
  | [] => return []
  | .document row :: rest => do
    let change := (← encode 0) ++ (← encode row.toNat)
    return change ++ (← encodeFrom ilOffset base rest)
  | .point p :: rest => do
    let record := (← encode (p.ilOffset - ilOffset).toNat) ++ (← encodeSpan base p.span)
    return record ++ (← encodeFrom p.ilOffset (nextBase base p.span) rest)

/-- The first document is written only for a method that names none itself. -/
def encodeBlob (localSignature : UInt32) (firstDocument : Option UInt32)
    (marks : List Mark) : Except TooLarge (List UInt8) := do
  let signature ← encode localSignature.toNat
  let document ← match firstDocument with
    | some row => encode row.toNat
    | none => pure []
  return signature ++ document ++ (← encodeFrom 0 none marks)

end Mark

end PortablePdb.SequencePoint
