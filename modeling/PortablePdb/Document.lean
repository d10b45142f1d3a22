import PortablePdb.HashAlgorithm
import PortablePdb.Heap.DocumentName
import PortablePdb.Grouping
import PortablePdb.Method
import PortablePdb.Language

/-!
The documents of a file with the methods defined in them. Every row of a method that names
a document is listed once, in that document, and the methods of a document keep the order
of their rows.
-/

namespace PortablePdb

structure Document where
  /-- The row that the document was built from. -/
  index : Nat
  path : String
  language : Language
  hashAlgorithm : HashAlgorithm
  /-- The checksum of the document, empty if there is none. -/
  hash : ByteArray
  methods : List Method

namespace Document

/-- The rows of the methods that name each document. The first method whose document does
not exist is an error. -/
def rowsByDocument (tables : Tables) :
    Except FormatError (Array (List (Nat × MethodRow))) :=
  let entries := tables.methods.entries
  match entries.find? fun (_, row) => tables.documents.size < row.document.toNat with
  | some (_, row) => .error (.invalidRowIndex .document row.document.toNat)
  | none => .ok (Grouping.byNumber tables.documents.size
    (entries.map fun entry => (entry.2.document.toNat, entry)))

def languageOf (guids : GuidHeap) (index : UInt32) : Except FormatError Language :=
  if index = 0 then .ok .unknown else return .ofGuid (← guids.get index)

def hashAlgorithmOf (guids : GuidHeap) (index : UInt32) :
    Except FormatError HashAlgorithm :=
  if index = 0 then .ok .unknown else return .ofGuid (← guids.get index)

/-- The document of a row with the methods of the given rows, whose scopes are taken out
of those that are left. -/
def build (heaps : Heaps) (index : Nat) (row : DocumentRow)
    (methodRows : List (Nat × MethodRow)) : ScopeTaking Document := do
  let path ← heaps.blobs.documentName row.name
  let language ← languageOf heaps.guids row.language
  let hashAlgorithm ← hashAlgorithmOf heaps.guids row.hashAlgorithm
  let hash ← heaps.blobs.get row.hash
  let methods ← methodRows.mapM fun (method, r) => Method.build heaps method r
  return { index, path, language, hashAlgorithm, hash, methods }

def buildAll (heaps : Heaps) (tables : Tables) : Except FormatError (List Document) := do
  let rows ← rowsByDocument tables
  let scopes := Grouping.byNumber tables.methods.size (← Scope.buildAll heaps tables)
  let documents : ScopeTaking (List Document) :=
    (tables.documents.entries.zip rows.toList).mapM
      fun ((index, row), methods) => build heaps index row methods
  documents.run' scopes

end Document

end PortablePdb
