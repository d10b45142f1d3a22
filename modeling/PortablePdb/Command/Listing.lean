import PortablePdb.File.Basic

/-!
The listing of a file: its id, its documents and their methods, and in detail also the
sequence points and scopes of every method.
-/

namespace PortablePdb

def ilLabel (offset : Nat) : String :=
  "IL_" ++ Hex.padded 4 offset

def SequencePoint.line (p : SequencePoint) : String :=
  match p.span with
  | none => s!"    {ilLabel p.ilOffset.toNat} hidden"
  | some s =>
    s!"    {ilLabel p.ilOffset.toNat} ({s.startLine}, {s.startColumn})" ++
      s!" - ({s.endLine}, {s.endColumn})"

def LocalVariable.label (v : LocalVariable) : String :=
  s!"local {v.name} (slot {v.slot})"

def LocalConstant.label (c : LocalConstant) : String :=
  s!"const {c.name}"

def Scope.lines (scope : Scope) : List String :=
  s!"    scope {ilLabel scope.startOffset.toNat}..{ilLabel scope.endOffset}" ::
    ((scope.localVariables.map fun v =>
      "      " ++ v.label ++ if v.hidden then " [hidden]" else "") ++
      scope.localConstants.map fun c => "      " ++ c.label)

def Method.headLine (m : Method) : String :=
  match m.firstLine, m.lastLine with
  | some first, some last => s!"  {Hex.literal 8 m.token.toNat} lines {first}-{last}"
  | _, _ => s!"  {Hex.literal 8 m.token.toNat} (no source)"

def Method.lines (m : Method) (detailed : Bool) : List String :=
  m.headLine ::
    if detailed then m.points.map SequencePoint.line ++ m.scopes.flatMap Scope.lines else []

def Document.lines (d : Document) (detailed : Bool) : List String :=
  s!"{d.path} [{d.language.name}] ({d.methods.length} methods)" ::
    d.methods.flatMap fun m => m.lines detailed

def File.lines (file : File) (detailed : Bool) : List String :=
  let entryPoint :=
    file.entryPoint?.toList.map fun token => s!"Entry point: {Hex.literal 8 token.toNat}"
  s!"PDB id: {file.pdb.id.text}" ::
    (entryPoint ++ file.documents.toList.flatMap fun d => d.lines detailed)

end PortablePdb
