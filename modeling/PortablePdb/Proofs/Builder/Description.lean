import PortablePdb.Builder.Edit
import PortablePdb.Document
import PortablePdb.Proofs.SequencePoint.RoundTrip

/-!
What a list of edits describes. `Edit.described` reads the documents of a file off the
edits that build it, without a builder: documents and methods are numbered in the order in
which they are added, and a scope owns the variables and constants that are added behind
it and before the next scope.
-/

namespace PortablePdb.Builder.Edit

open SequencePoint

/-- The document that is added, still without its row and its methods. -/
def addedDocument? : Edit → Option Document
  | document path language =>
    some { index := 0, path, language := .ofGuid language, hashAlgorithm := .unknown,
           hash := .empty, methods := [] }
  | documentWithHash path language hashAlgorithm hash =>
    some { index := 0, path, language := .ofGuid language,
           hashAlgorithm := .ofGuid hashAlgorithm, hash, methods := [] }
  | _ => none

/-- The method that is added: the document it belongs to, and its points. -/
def addedMethod? : Edit → Option (UInt32 × List Mark)
  | method owner marks => some (owner, marks)
  | _ => none

theorem mem_filterMap_addedMethod? {edits : List Edit} {owner : UInt32}
    {marks : List Mark} :
    (owner, marks) ∈ edits.filterMap addedMethod? ↔ method owner marks ∈ edits := by
  rw [List.mem_filterMap]
  constructor
  · rintro ⟨edit, hmem, hadded⟩
    cases edit <;> cases hadded
    exact hmem
  · exact fun hmem => ⟨_, hmem, rfl⟩

def addedVariable? : Edit → Option LocalVariable
  | localVariable name slot attributes =>
    some { name := (String.fromUTF8? name).getD "", slot,
           hidden := attributes.toNat.testBit 0 }
  | _ => none

def addedConstant? : Edit → Option LocalConstant
  | localConstant name => some { name }
  | _ => none

def isScope : Edit → Bool
  | scope _ _ _ => true
  | _ => false

def untilScope (edits : List Edit) : List Edit :=
  edits.takeWhile fun edit => !edit.isScope

/-- The scopes that are added and the methods they belong to, when the next scope,
variable and constant get these rows. -/
def scopesFrom : (row variableRow constantRow : Nat) → List Edit → List (Nat × Scope)
  | _, _, _, [] => []
  | row, variableRow, constantRow, scope owner startOffset length :: rest =>
    let localVariables := (untilScope rest).filterMap addedVariable?
    let localConstants := (untilScope rest).filterMap addedConstant?
    (owner.toNat,
      { index := row, startOffset, length,
        variableRows := ⟨variableRow, variableRow + localVariables.length⟩,
        constantRows := ⟨constantRow, constantRow + localConstants.length⟩,
        localVariables, localConstants }) ::
      scopesFrom (row + 1) variableRow constantRow rest
  | row, variableRow, constantRow, localVariable _ _ _ :: rest =>
    scopesFrom row (variableRow + 1) constantRow rest
  | row, variableRow, constantRow, localConstant _ :: rest =>
    scopesFrom row variableRow (constantRow + 1) rest
  | row, variableRow, constantRow, _ :: rest => scopesFrom row variableRow constantRow rest

@[simp] theorem untilScope_nil : untilScope [] = [] := rfl

theorem untilScope_cons {edit : Edit} (hedit : edit.isScope = false) (rest : List Edit) :
    untilScope (edit :: rest) = edit :: untilScope rest := by
  simp [untilScope, hedit]

theorem untilScope_prefix (edits : List Edit) : untilScope edits <+: edits :=
  List.takeWhile_prefix _

def methods (edits : List Edit) : List (Nat × Method) :=
  ((edits.filterMap addedMethod?).zipIdx 1).map fun ((owner, marks), row) =>
    (owner.toNat,
      { methodDef := row.toUInt32, points := Mark.points marks,
        scopes := Grouping.itemsOf row (scopesFrom 1 1 1 edits) })

/-- The documents of a file that is built by these edits. -/
def described (edits : List Edit) : List Document :=
  ((edits.filterMap addedDocument?).zipIdx 1).map fun (d, row) =>
    { d with index := row, methods := Grouping.itemsOf row (methods edits) }

/-- An edit whose meaning `described` tells, with arguments that can be stored. -/
def Describable : Edit → Prop
  | document _ _ => True
  | documentWithHash _ _ _ _ => True
  | method _ marks => Mark.Valid marks ∧ ∀ row, Mark.document row ∉ marks
  | scope owner _ _ => owner ≠ 0
  | localVariable name _ _ => name.IsValidUTF8 ∧ 0 ∉ name.data.toList
  | localConstant name => 0 ∉ name.toUTF8.data.toList
  | wideHeaps => True
  | referencedRows _ _ => True
  | _ => False

end PortablePdb.Builder.Edit
