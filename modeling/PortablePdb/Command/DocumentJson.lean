import PortablePdb.File.Basic
import PortablePdb.Text.Json

/-!
Documents in JSON notation.
-/

namespace PortablePdb

open Text (Json)

def SequencePoint.toJson (p : SequencePoint) : Json :=
  .obj
    [("il_offset", .num p.ilOffset.toNat), ("start_line", .num p.range.startLine.toNat),
      ("end_line", .num p.range.endLine.toNat),
      ("start_column", .num p.range.startColumn.toNat),
      ("end_column", .num p.range.endColumn.toNat), ("is_hidden", .bool p.isHidden)]

def RowRange.toJson (range : RowRange) : Json :=
  .obj [("start", .num range.first), ("end", .num range.stop)]

def LocalVariable.toJson (v : LocalVariable) : Json :=
  .obj [("name", .str v.name), ("slot", .num v.slot.toNat),
    ("debugger_hidden", .bool v.hidden)]

def LocalConstant.toJson (c : LocalConstant) : Json :=
  .obj [("name", .str c.name)]

def Scope.toJson (scope : Scope) : Json :=
  .obj [("index", .num scope.index), ("start_offset", .num scope.startOffset.toNat),
    ("length", .num scope.length.toNat),
    ("local_variable_rows", scope.variableRows.toJson),
    ("local_constant_rows", scope.constantRows.toJson),
    ("local_variables", .arr (scope.localVariables.map LocalVariable.toJson)),
    ("local_constants", .arr (scope.localConstants.map LocalConstant.toJson))]

def Method.toJson (m : Method) : Json :=
  .obj [("method_def", .num m.methodDef.toNat),
    ("first_line", .optional (.num ·.toNat) m.firstLine),
    ("last_line", .optional (.num ·.toNat) m.lastLine),
    ("sequence_points", .arr (m.points.map SequencePoint.toJson)),
    ("local_scopes", .arr (m.scopes.map Scope.toJson))]

def Document.toJson (d : Document) : Json :=
  .obj
    [("index", .num d.index), ("file_path", .str d.path), ("language", .str d.language.tag),
      ("hash_algorithm", .str d.hashAlgorithm.tag),
      ("hash", .arr (d.hash.data.toList.map fun b => .num b.toNat)),
      ("methods", .arr (d.methods.map Method.toJson))]

def File.documentsJson (file : File) : Json :=
  .arr (file.documents.toList.map Document.toJson)

end PortablePdb
