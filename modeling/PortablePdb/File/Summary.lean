import PortablePdb.File.Basic
import PortablePdb.Text.Quoted

/-!
A one-line summary of a file, as a record with the fields of its headers.
-/

namespace PortablePdb

namespace Summary

def record (name : String) (fields : List (String × String)) : String :=
  name ++ " \x7b " ++
    ", ".intercalate (fields.map fun (field, value) => field ++ ": " ++ value) ++ " \x7d"

def list (items : List String) : String :=
  "[" ++ ", ".intercalate items ++ "]"

def optional : Option String → String
  | none => "None"
  | some text => "Some(" ++ text ++ ")"

def root (r : RootHeader) : String :=
  record "RootHeader" [("signature", toString r.signature.toNat),
    ("major_version", toString r.majorVersion.toNat),
    ("minor_version", toString r.minorVersion.toNat), ("version", Text.quoted r.version),
    ("flags", toString r.flags.toNat), ("stream_count", toString r.streamCount.toNat)]

def stream (s : StreamHeader) : String :=
  record "StreamHeader" [("name", Text.quoted s.name),
    ("offset", toString s.offset.toNat), ("size", toString s.size.toNat)]

def pdbId (id : PdbId) : String :=
  record "DebugId" [("uuid", Text.quoted id.guid.text),
    ("appendix", toString id.stamp.toNat)]

/-- The row counts are those of the tables in the mask, also where they are zero. -/
def tableHeader (h : TableHeader) : String :=
  let counts := h.rows.select (RowCounts.inMask h.valid)
  record "MetadataTableHeader" [("major_version", toString h.majorVersion.toNat),
    ("minor_version", toString h.minorVersion.toNat),
    ("heap_sizes", toString h.heapSizes.toNat),
    ("valid_tables", Hex.literal 16 h.valid.toNat),
    ("rows", list (counts.map fun (id, rows) => s!"({id.val}, {rows.toNat})"))]

end Summary

def File.summary (file : File) : String :=
  Summary.record "PortablePdbFile"
    [("module_name", Summary.optional (file.moduleName.map Text.quoted)),
      ("root_header", Summary.root file.directory.root),
      ("streams", Summary.list (file.directory.streams.toList.map Summary.stream)),
      ("pdb_id", Summary.pdbId file.pdb.id),
      ("tables", Summary.tableHeader file.tables.header),
      ("documents", toString file.documents.size)]

end PortablePdb
