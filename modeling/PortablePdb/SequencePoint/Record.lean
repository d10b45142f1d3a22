import PortablePdb.CompressedInt
import PortablePdb.SequencePoint.Basic

/-!
The blob that holds the sequence points of a method. Behind a header it is a list of
records: points, whose offset is given as a distance to the point before and whose range
as a distance to the last visible range, and changes of document. `SequencePoint.resolve`
adds the distances of offsets up.
-/

namespace PortablePdb.SequencePoint

inductive Record
  | point (ilDelta : Nat) (span : Option Span)
  | documentChange (document : Nat)
  deriving DecidableEq

namespace Record

structure Context where
  /-- Whether a record was read before. -/
  started : Bool
  /-- Start line and start column of the last visible point. -/
  base : Option (UInt32 × UInt32)
  deriving DecidableEq

/-- Start line and start column. The first visible point has them in full. -/
def readStart : Option (UInt32 × UInt32) → Reader (Int × Int)
  | none => do
    let line ← CompressedInt.read
    let column ← CompressedInt.read
    return (line, column)
  | some (line, column) => do
    let lineDelta ← CompressedInt.readSigned
    let columnDelta ← CompressedInt.readSigned
    return (line.toNat + lineDelta, column.toNat + columnDelta)

/-- A range within one line cannot end before it starts, so its length has no sign. -/
def readColumns (lines : Nat) : Reader Int := do
  if lines = 0 then
    return (← CompressedInt.read)
  else
    CompressedInt.readSigned

/-- A distance of zero begins a change of document, except in the first record. -/
def read (context : Context) : Reader (Record × Context) := do
  let ilDelta ← CompressedInt.read
  if ilDelta = 0 ∧ context.started then
    let document ← CompressedInt.read
    return (.documentChange document, context)
  let lines ← CompressedInt.read
  let columns ← readColumns lines
  if lines = 0 ∧ columns = 0 then
    return (.point ilDelta none, { context with started := true })
  let (line, column) ← readStart context.base
  match Span.ofInts? line column (line + lines) (column + columns) with
  | some span =>
    return (.point ilDelta (some span), ⟨true, some (span.startLine, span.startColumn)⟩)
  | none => throw .invalidSequencePoint

/-- The records of a blob. A header with the local signature comes first, and if the
method names no document itself the first document follows. -/
def readAll (document : UInt32) : Reader (List Record) := do
  let _ ← CompressedInt.read
  if document = 0 then
    let _ ← CompressedInt.read
  Reader.untilEnd read ⟨false, none⟩

end Record

def resolveFrom (method : Nat) : (ilOffset : Nat) → Array SequencePoint → List Record →
    Except FormatError (Array SequencePoint)
  | _, points, [] => .ok points
  | _, _, .documentChange _ :: _ => .error (.crossDocumentMethod method)
  | ilOffset, points, .point ilDelta span :: rest =>
    if ilOffset + ilDelta < lineLimit then
      resolveFrom method (ilOffset + ilDelta)
        (points.push ⟨(ilOffset + ilDelta).toUInt32, span⟩) rest
    else
      .error .invalidSequencePoint

/-- The points of the method in this row. A method whose points change documents has
none. -/
def resolve (method : Nat) (records : List Record) :
    Except FormatError (List SequencePoint) :=
  (resolveFrom method 0 #[] records).map Array.toList

def readBlob (method : Nat) (document : UInt32) (blob : ByteArray) :
    Except FormatError (List SequencePoint) := do
  resolve method (← (Record.readAll document).run blob)

end PortablePdb.SequencePoint
