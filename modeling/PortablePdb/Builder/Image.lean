import PortablePdb.Builder.Basic
import PortablePdb.Directory

/-!
The bytes of a built file: root header, directory, and the streams one after another,
every one of them padded to a multiple of four bytes.
-/

namespace PortablePdb.Builder

def padding (size : Nat) : List UInt8 :=
  List.replicate (alignUp size - size) 0

def padded (bytes : List UInt8) : List UInt8 :=
  bytes ++ padding bytes.length

def word16 (n : UInt16) : List UInt8 := leBytes 2 n.toNat

def word32 (n : UInt32) : List UInt8 := leBytes 4 n.toNat

def word64 (n : UInt64) : List UInt8 := leBytes 8 n.toNat

def pdbStream (b : Builder) : List UInt8 :=
  b.pdbId.bytes ++ word32 b.entryPoint ++
    word64 (RowCounts.maskOf fun id => b.referencedRows.get id != 0) ++
    b.referencedRows.nonzero.flatMap fun (_, rows) => word32 rows

def addedRows (b : Builder) (id : Fin 64) : UInt32 :=
  if id = TableKind.document.id then b.documents.size.toUInt32
  else if id = TableKind.methodDebugInformation.id then b.methods.size.toUInt32
  else if id = TableKind.localScope.id then b.scopes.size.toUInt32
  else if id = TableKind.localVariable.id then b.localVariables.size.toUInt32
  else if id = TableKind.localConstant.id then b.localConstants.size.toUInt32
  else 0

def isDeclared (b : Builder) (id : Fin 64) : Bool :=
  b.declaredRows.any fun declared => declared.1 = id

def rowCounts (b : Builder) : RowCounts :=
  b.declaredRows.foldl (fun counts declared => counts.set declared.1 declared.2)
    (Vector.ofFn b.addedRows)

def isCounted (b : Builder) (id : Fin 64) : Bool :=
  b.addedRows id != 0 || b.isDeclared id

/-- Writes a number into a column of four or two bytes, whichever holds the numbers of all
its targets. -/
def column (wide : Bool) (n : UInt32) : List UInt8 :=
  if wide then word32 n else word16 n.toUInt16

def heapColumn (b : Builder) : UInt32 → List UInt8 :=
  column b.wideHeaps

def tableColumn (b : Builder) (kind : TableKind) : UInt32 → List UInt8 :=
  column (0xFFFF < b.rowCounts.get kind.id || 0xFFFF < b.referencedRows.get kind.id)

def documentRow (b : Builder) (row : DocumentRow) : List UInt8 :=
  b.heapColumn row.name ++ b.heapColumn row.hashAlgorithm ++ b.heapColumn row.hash ++
    b.heapColumn row.language

def methodRow (b : Builder) (row : MethodRow) : List UInt8 :=
  b.tableColumn .document row.document ++ b.heapColumn row.sequencePoints

def scopeRow (b : Builder) (row : ScopeRow) : List UInt8 :=
  b.tableColumn .methodDef row.method ++ b.tableColumn .importScope row.importScope ++
    b.tableColumn .localVariable row.variableList ++ b.tableColumn .localConstant
      row.constantList ++ word32 row.startOffset ++ word32 row.length

def variableRow (b : Builder) (row : VariableRow) : List UInt8 :=
  word16 row.attributes ++ word16 row.slot ++ b.heapColumn row.name

def constantRow (b : Builder) (row : ConstantRow) : List UInt8 :=
  b.heapColumn row.name ++ b.heapColumn row.signature

def tablesHeader (b : Builder) : List UInt8 :=
  word32 0 ++ [2, 0, if b.wideHeaps then 0x07 else 0x00, 1] ++
    word64 (RowCounts.maskOf b.isCounted) ++ word64 0 ++
    (b.rowCounts.select b.isCounted).flatMap fun (_, rows) => word32 rows

def tablesStream (b : Builder) : List UInt8 :=
  b.tablesHeader ++ b.documents.toList.flatMap b.documentRow ++
    b.methods.toList.flatMap b.methodRow ++
    b.scopes.toList.flatMap b.scopeRow ++ b.localVariables.toList.flatMap b.variableRow ++
    b.localConstants.toList.flatMap b.constantRow

def allStreams (b : Builder) : List (String × ByteArray) :=
  [("#Pdb", b.pdbStream.toByteArray), ("#~", b.tablesStream.toByteArray),
    ("#Strings", b.strings),
    ("#US", [0].toByteArray), ("#GUID", b.guids), ("#Blob", b.blobs)]

def writtenName (b : Builder) (name : String) : String :=
  (b.renamed.lookup name).getD name

def streams (b : Builder) : List (String × ByteArray) :=
  (b.allStreams.filter fun stream => !b.omitted.contains stream.1).map
      fun (name, content) =>
    (b.writtenName name, content ++ (padding content.size).toByteArray)

def versionField : List UInt8 :=
  padded ("PDB v1.0".toUTF8.data.toList ++ [0])

def nameField (name : String) : List UInt8 :=
  padded (name.toUTF8.data.toList ++ [0])

/-- Directory entries of streams that lie one after another from `offset` on. -/
def directory : (offset : Nat) → List (String × ByteArray) → List UInt8
  | _, [] => []
  | offset, (name, content) :: rest =>
    word32 offset.toUInt32 ++ word32 content.size.toUInt32 ++ nameField name ++
      directory (offset + content.size) rest

def rootHeader (streamCount : Nat) : List UInt8 :=
  word32 metadataSignature ++ word16 1 ++ word16 1 ++ word32 0 ++
    word32 versionField.length.toUInt32 ++
    versionField ++ word16 0 ++ word16 streamCount.toUInt16

def directoryLength : List (String × ByteArray) → Nat
  | [] => 0
  | (name, _) :: rest => 8 + (nameField name).length + directoryLength rest

def headerLength (streams : List (String × ByteArray)) : Nat :=
  (rootHeader streams.length).length + directoryLength streams

def build (b : Builder) : ByteArray :=
  let streams := b.streams
  let header := rootHeader streams.length ++ directory (headerLength streams) streams
  streams.foldl (fun image stream => image ++ stream.2) header.toByteArray

end PortablePdb.Builder
