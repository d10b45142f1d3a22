import PortablePdb.Builder.Basic

/-!
Changes of a builder as data. `Edit.applyAll` makes the changes of a list in order and
stops at the first one that fails; `Edit.trace` tells what each of them answered up to
there.
-/

namespace PortablePdb.Builder

inductive Edit
  | pdbId (id : PdbId)
  | entryPoint (token : UInt32)
  | referencedRows (table : Fin 64) (rows : UInt32)
  | declaredRows (table : Fin 64) (rows : UInt32)
  | omitStream (name : String)
  | renameStream (name newName : String)
  | wideHeaps
  | string (text : ByteArray)
  | blob (content : ByteArray)
  | guid (guid : Guid)
  | documentName (path : String)
  | documentNameWith (path : String) (separator : UInt8)
  | documentRow (row : DocumentRow)
  | document (path : String) (language : Guid)
  | documentWithHash (path : String) (language hashAlgorithm : Guid) (hash : ByteArray)
  | methodRow (row : MethodRow)
  | method (document : UInt32) (marks : List SequencePoint.Mark)
  | scopeRow (row : ScopeRow)
  | scope (method startOffset length : UInt32)
  | localVariable (name : ByteArray) (slot attributes : UInt16)
  | localConstant (name : String)
  deriving Inhabited

namespace Edit

def setting (change : Builder → Builder) : Addition (Option UInt32) := do
  modify change
  return none

def apply : Edit → Addition (Option UInt32)
  | pdbId id => setting fun b => { b with pdbId := id }
  | entryPoint token => setting fun b => { b with entryPoint := token }
  | referencedRows table rows => setting fun b =>
    { b with referencedRows := b.referencedRows.set table rows }
  | declaredRows table rows => setting fun b =>
    { b with declaredRows := b.declaredRows ++ [(table, rows)] }
  | omitStream name => setting fun b => { b with omitted := b.omitted ++ [name] }
  | renameStream name newName => setting fun b =>
    { b with renamed := b.renamed ++ [(name, newName)] }
  | wideHeaps => setting fun b => { b with wideHeaps := true }
  | string text => some <$> addString text
  | blob content => some <$> addBlob content
  | guid g => some <$> addGuid g
  | documentName path => some <$> addDocumentName path
  | documentNameWith path separator => some <$> addDocumentNameWith path separator
  | documentRow row => some <$> addDocumentRow row
  | document path language => some <$> addDocument path language
  | documentWithHash path language hashAlgorithm hash =>
    some <$> addDocumentWithHash path language hashAlgorithm hash
  | methodRow row => some <$> addMethodRow row
  | method owner marks => some <$> addMethod owner marks
  | scopeRow row => some <$> addScopeRow row
  | scope owner startOffset length => some <$> addScope owner startOffset length
  | localVariable name slot attributes => some <$> addVariable name slot attributes
  | localConstant name => some <$> addConstant name

def applyAll : List Edit → Addition Unit
  | [] => pure ()
  | edit :: rest => do
    let _ ← edit.apply
    applyAll rest

def run (edits : List Edit) (b : Builder) : Except CompressedInt.TooLarge Builder :=
  match applyAll edits b with
  | .ok () after => .ok after
  | .error e _ => .error e

def trace : List Edit → Builder → List (Except CompressedInt.TooLarge (Option UInt32))
  | [], _ => []
  | edit :: rest, b =>
    match edit.apply b with
    | .ok answer after => .ok answer :: trace rest after
    | .error e _ => [.error e]

end Edit

end PortablePdb.Builder
