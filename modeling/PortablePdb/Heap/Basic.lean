import PortablePdb.CompressedInt
import PortablePdb.Directory
import PortablePdb.Guid

/-!
The three heaps that table columns point into: strings that end with a zero, blobs behind
their lengths, and identifiers by number, the first of which is number one.
-/

namespace PortablePdb

structure StringHeap where
  data : ByteArray

structure BlobHeap where
  data : ByteArray

structure GuidHeap where
  data : ByteArray

structure Heaps where
  strings : StringHeap
  blobs : BlobHeap
  guids : GuidHeap

open Reader

def StringHeap.get (heap : StringHeap) (offset : UInt32) : Except FormatError String :=
  Reader.run (do
    seek offset.toNat
    utf8 (← nullTerminated) .invalidStringData) heap.data

/-- The blob whose length starts at an offset. -/
def BlobHeap.get (heap : BlobHeap) (offset : UInt32) : Except FormatError ByteArray :=
  Reader.run (do
    seek offset.toNat
    let length ← CompressedInt.read
    withLimit length do bytes (← remaining)) heap.data

def GuidHeap.get (heap : GuidHeap) (index : UInt32) : Except FormatError Guid :=
  if 1 ≤ index ∧ Guid.size * index.toNat ≤ heap.data.size then
    .ok (Guid.ofBytes (heap.data.extract (Guid.size * (index.toNat - 1))
      (Guid.size * index.toNat)).data.toList)
  else
    .error (.invalidGuidIndex index)

structure HeapStreams where
  strings : StreamHeader
  blobs : StreamHeader
  guids : StreamHeader
  deriving DecidableEq

def HeapStreams.slice (streams : HeapStreams) (data : ByteArray) :
    Except FormatError Heaps := do
  let strings ← streams.strings.slice data
  let blobs ← streams.blobs.slice data
  let guids ← streams.guids.slice data
  return ⟨⟨strings⟩, ⟨blobs⟩, ⟨guids⟩⟩

end PortablePdb
