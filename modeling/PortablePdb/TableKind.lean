/-!
The metadata tables that a debug file names: `MethodDef` of the assembly it belongs to,
and the tables of its own, whose ids are `0x30` to `0x37`.
-/

namespace PortablePdb

inductive TableKind
  | methodDef
  | document
  | methodDebugInformation
  | localScope
  | localVariable
  | localConstant
  | importScope
  | stateMachineMethod
  | customDebugInformation
  deriving DecidableEq

namespace TableKind

/-- The bit of a table in the masks of table ids, and its place in an array of row
counts. -/
def id : TableKind → Fin 64
  | methodDef => 0x06
  | document => 0x30
  | methodDebugInformation => 0x31
  | localScope => 0x32
  | localVariable => 0x33
  | localConstant => 0x34
  | importScope => 0x35
  | stateMachineMethod => 0x36
  | customDebugInformation => 0x37

def name : TableKind → String
  | methodDef => "MethodDef"
  | document => "Document"
  | methodDebugInformation => "MethodDebugInformation"
  | localScope => "LocalScope"
  | localVariable => "LocalVariable"
  | localConstant => "LocalConstant"
  | importScope => "ImportScope"
  | stateMachineMethod => "StateMachineMethod"
  | customDebugInformation => "CustomDebugInformation"

def isDebugTable (id : Fin 64) : Bool :=
  0x30 ≤ id.val && id.val ≤ 0x37

end TableKind

end PortablePdb
