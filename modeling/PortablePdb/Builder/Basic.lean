import PortablePdb.SequencePoint.Mark
import PortablePdb.PdbStream
import PortablePdb.Table.Row
import PortablePdb.Text.Split

/-!
Builds a debug file from its parts. A builder holds the heaps and rows added so far.
Adding to a heap answers the offset or number of what was added, and adding a row answers
its number.
-/

namespace PortablePdb

structure Builder where
  strings : ByteArray
  blobs : ByteArray
  guids : ByteArray
  /-- The parts of document names that have a blob, with its offset. -/
  nameParts : List (String × UInt32)
  pdbId : PdbId
  entryPoint : UInt32
  referencedRows : RowCounts
  /-- Row counts that are written whatever rows there are, of which the last one of a
  table holds. -/
  declaredRows : List (Fin 64 × UInt32)
  omitted : List String
  /-- Streams and the names they are written under, of which the first one of a stream
  holds. -/
  renamed : List (String × String)
  wideHeaps : Bool
  documents : Array DocumentRow
  methods : Array MethodRow
  scopes : Array ScopeRow
  localVariables : Array VariableRow
  localConstants : Array ConstantRow

namespace Builder

def defaultPdbId : PdbId :=
  ⟨⟨0x0c1033f7, 0x8b3e, 0x4b5c, 0x9e2a4f1d8a9b7c61⟩, 1⟩

/-- A builder without rows. The heaps of strings and blobs start with an empty entry. -/
def empty : Builder where
  strings := [0].toByteArray
  blobs := [0].toByteArray
  guids := .empty
  nameParts := []
  pdbId := defaultPdbId
  entryPoint := 0
  referencedRows := .zero
  declaredRows := []
  omitted := []
  renamed := []
  wideHeaps := false
  documents := #[]
  methods := #[]
  scopes := #[]
  localVariables := #[]
  localConstants := #[]

/-- An addition to a builder. It fails on a number that has no compressed form. -/
abbrev Addition := EStateM CompressedInt.TooLarge Builder

def encoded : Except CompressedInt.TooLarge (List UInt8) → Addition (List UInt8) :=
  MonadExcept.ofExcept

/-- Adds a text and the zero that ends it. The bytes need not be UTF-8. -/
def addString (text : ByteArray) : Addition UInt32 := do
  let offset := (← get).strings.size.toUInt32
  modify fun b => { b with strings := b.strings ++ text ++ [0].toByteArray }
  return offset

def addBlob (content : ByteArray) : Addition UInt32 := do
  let offset := (← get).blobs.size.toUInt32
  let length ← encoded (CompressedInt.encode content.size.toUInt32.toNat)
  modify fun b => { b with blobs := b.blobs ++ length.toByteArray ++ content }
  return offset

def addGuid (guid : Guid) : Addition UInt32 := do
  modify fun b => { b with guids := b.guids ++ guid.bytes.toByteArray }
  return ((← get).guids.size / Guid.size).toUInt32

/-- The offset of the blob of a part of a name, which is added unless it is there already.
An empty part needs no blob. -/
def addNamePart (part : String) : Addition UInt32 := do
  if part.isEmpty then return 0
  match (← get).nameParts.lookup part with
  | some offset => return offset
  | none =>
    let offset ← addBlob part.toUTF8
    modify fun b => { b with nameParts := (part, offset) :: b.nameParts }
    return offset

/-- The parts of a path. Zero as a separator leaves the path whole. -/
def pathParts (path : String) (separator : UInt8) : List String :=
  if separator = 0 then [path]
  else (Text.split (Char.ofNat separator.toNat) path.toList).map String.ofList

def addNameParts : List String → Addition (List UInt8)
  | [] => return []
  | part :: rest => do
    let offset ← addNamePart part
    let first ← encoded (CompressedInt.encode offset.toNat)
    return first ++ (← addNameParts rest)

def addDocumentNameWith (path : String) (separator : UInt8) : Addition UInt32 := do
  let parts ← addNameParts (pathParts path separator)
  addBlob (separator :: parts).toByteArray

/-- Paths with a backslash are cut at backslashes, all others at slashes. -/
def addDocumentName (path : String) : Addition UInt32 :=
  addDocumentNameWith path (if path.toList.contains '\\' then 0x5c else 0x2f)

def addDocumentRow (row : DocumentRow) : Addition UInt32 := do
  modify fun b => { b with documents := b.documents.push row }
  return (← get).documents.size.toUInt32

def addDocument (path : String) (language : Guid) : Addition UInt32 := do
  let name ← addDocumentName path
  let language ← addGuid language
  addDocumentRow { name, hashAlgorithm := 0, hash := 0, language }

def addDocumentWithHash (path : String) (language hashAlgorithm : Guid) (hash : ByteArray) :
    Addition UInt32 := do
  let name ← addDocumentName path
  let hashAlgorithm ← addGuid hashAlgorithm
  let hash ← addBlob hash
  let language ← addGuid language
  addDocumentRow { name, hashAlgorithm, hash, language }

def addMethodRow (row : MethodRow) : Addition UInt32 := do
  modify fun b => { b with methods := b.methods.push row }
  return (← get).methods.size.toUInt32

/-- Adds a method of a document. One without points gets no blob. -/
def addMethod (document : UInt32) (marks : List SequencePoint.Mark) : Addition UInt32 := do
  if marks.isEmpty then addMethodRow { document, sequencePoints := 0 }
  else
    let blob ← encoded (SequencePoint.Mark.encodeBlob 0 none marks)
    let sequencePoints ← addBlob blob.toByteArray
    addMethodRow { document, sequencePoints }

def addScopeRow (row : ScopeRow) : Addition UInt32 := do
  modify fun b => { b with scopes := b.scopes.push row }
  return (← get).scopes.size.toUInt32

/-- Adds a scope that owns the variables and constants added from now on, up to the next
scope. -/
def addScope (method startOffset length : UInt32) : Addition UInt32 := do
  let b ← get
  addScopeRow
    { method, importScope := 0, variableList := b.localVariables.size.toUInt32 + 1,
      constantList := b.localConstants.size.toUInt32 + 1, startOffset, length }

def addVariable (name : ByteArray) (slot attributes : UInt16) : Addition UInt32 := do
  let name ← addString name
  modify fun b =>
    { b with localVariables := b.localVariables.push { attributes, slot, name } }
  return (← get).localVariables.size.toUInt32

/-- The signature of every constant that is added: a field of a 32-bit integer. -/
def constantSignature : List UInt8 := [0x06, 0x08]

def addConstant (name : String) : Addition UInt32 := do
  let name ← addString name.toUTF8
  let signature ← addBlob constantSignature.toByteArray
  modify fun b => { b with localConstants := b.localConstants.push { name, signature } }
  return (← get).localConstants.size.toUInt32

end Builder

end PortablePdb
