import PortablePdb.Document
import PortablePdb.PdbStream

/-!
A debug file that was read completely: every stream, table and document of it is known to
be well formed. What lies in its heaps is read on demand.
-/

namespace PortablePdb

structure File where
  data : ByteArray
  directory : Directory
  heapStreams : HeapStreams
  pdb : PdbStream
  tables : Tables
  documents : Array Document
  /-- The name of the module that the file belongs to, which is not in the file itself. -/
  moduleName : Option String

namespace File

/-- Reads a whole file. Any part of it that is not well formed is an error. -/
def parse (data : ByteArray) : Except FormatError File := do
  let directory ← Directory.read.run data
  let strings ← directory.require "#Strings"
  let blobs ← directory.require "#Blob"
  let guids ← directory.require "#GUID"
  let tablesHeader ← directory.require "#~"
  let pdbHeader ← directory.require "#Pdb"
  let pdb ← PdbStream.read.run (← pdbHeader.slice data)
  let heapStreams : HeapStreams := { strings, blobs, guids }
  let heaps ← heapStreams.slice data
  let tables ← (Tables.read pdb.referencedRows).run (← tablesHeader.slice data)
  let documents ← Document.buildAll heaps tables
  return { data, directory, heapStreams, pdb, tables, documents := documents.toArray,
           moduleName := none }

def load : Option ByteArray → Except FormatError File
  | some data => parse data
  | none => .error .unreadableFile

def withModuleName (file : File) (name : String) : File :=
  { file with moduleName := some name }

def stream? (file : File) (name : String) : Option StreamHeader :=
  file.directory.find? name

def entryPoint? (file : File) : Option UInt32 :=
  if file.pdb.entryPoint = 0 then none else some file.pdb.entryPoint

def hasDebugInfo (file : File) : Bool :=
  !file.tables.methods.isEmpty

def heaps (file : File) : Except FormatError Heaps :=
  file.heapStreams.slice file.data

def getString (file : File) (offset : UInt32) : Except FormatError String := do
  (← file.heaps).strings.get offset

def getBlob (file : File) (offset : UInt32) : Except FormatError ByteArray := do
  (← file.heaps).blobs.get offset

def getGuid (file : File) (index : UInt32) : Except FormatError Guid := do
  (← file.heaps).guids.get index

def getDocumentName (file : File) (offset : UInt32) : Except FormatError String := do
  (← file.heaps).blobs.documentName offset

def getHash (file : File) (row : Nat) : Except FormatError ByteArray := do
  file.getBlob (← file.tables.documents.get row).hash

def document? (file : File) (row : Nat) : Option Document :=
  if row = 0 then none else file.documents[row - 1]?

/-- The method of a row, and the document it is defined in. -/
def findMethod? (file : File) (methodDef : UInt32) : Option (Document × Method) := do
  let row ← file.tables.methods.get? methodDef.toNat
  let document ← file.document? row.document.toNat
  let method ← document.methods.find? (·.methodDef = methodDef)
  return (document, method)

/-- The method of a token, which has the kind of a method in its highest byte and the row
in the others. -/
def findMethodByToken? (file : File) (token : UInt32) : Option (Document × Method) :=
  if token &&& 0xff000000 = methodTokenKind then file.findMethod? (token &&& 0x00ffffff)
  else none

end File

end PortablePdb
