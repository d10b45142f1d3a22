import PortablePdb.Heap.Basic

/-!
Document names. The blob of a name holds a separator byte and then, for each part of the
name, the blob of its text; names share the blobs of the parts that they have in common.
Zero as a separator stands for none, and zero as a part for the empty text.
-/

namespace PortablePdb.BlobHeap

open Reader

/-- The text between two parts. Only a byte of ASCII is text by itself. -/
def separatorText (separator : UInt8) : Except FormatError String :=
  if separator = 0 then .ok ""
  else if separator < 0x80 then .ok (String.singleton (Char.ofNat separator.toNat))
  else .error .invalidStringData

def namePart (heap : BlobHeap) (part : Nat) : Except FormatError String :=
  if part = 0 then .ok ""
  else do
    match String.fromUTF8? (← heap.get part.toUInt32) with
    | some text => .ok text
    | none => .error .invalidStringData

def readNamePart (heap : BlobHeap) : Unit → Reader (String × Unit) := fun () => do
  let part ← CompressedInt.read
  return (← ofExcept (heap.namePart part), ())

def documentName (heap : BlobHeap) (offset : UInt32) : Except FormatError String := do
  let name ← heap.get offset
  Reader.run (do
    let separator ← ofExcept (separatorText (← u8))
    let parts ← untilEnd heap.readNamePart ()
    return separator.intercalate parts) name

end PortablePdb.BlobHeap
