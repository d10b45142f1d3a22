import PortablePdb.Builder.Edit
import PortablePdb.Builder.Image
import PortablePdb.File.Basic
import PortablePdb.Proofs.Outcome

/-!
A file that is accepted, part by part. Everything that is proved of accepted files starts
from `parse_eq_ok_iff`.
-/

namespace PortablePdb

namespace File

structure Parsed (data : ByteArray) (file : File) (heaps : Heaps) : Prop where
  data_eq : file.data = data
  directory : Directory.read.run data = .ok file.directory
  strings : file.directory.require "#Strings" = .ok file.heapStreams.strings
  blobs : file.directory.require "#Blob" = .ok file.heapStreams.blobs
  guids : file.directory.require "#GUID" = .ok file.heapStreams.guids
  heaps_eq : file.heapStreams.slice data = .ok heaps
  pdb : ∃ header bytes, file.directory.require "#Pdb" = .ok header ∧
    header.slice data = .ok bytes ∧ PdbStream.read.run bytes = .ok file.pdb
  tables : ∃ header bytes, file.directory.require "#~" = .ok header ∧
    header.slice data = .ok bytes ∧
    (Tables.read file.pdb.referencedRows).run bytes = .ok file.tables
  documents : Document.buildAll heaps file.tables = .ok file.documents.toList
  moduleName : file.moduleName = none

theorem parse_eq_ok_iff {data : ByteArray} {file : File} :
    parse data = .ok file ↔ ∃ heaps, Parsed data file heaps := by
  simp only [parse, Outcome.bind_eq_ok_iff]
  constructor
  · rintro ⟨directory, hdirectory, strings, hstrings, blobs, hblobs, guids,
      hguids, tablesHeader, htablesHeader, pdbHeader, hpdbHeader, pdbBytes, hpdbBytes,
      pdb, hpdb, heaps, hheaps, tablesBytes, htablesBytes, tables, htables,
      documents, hdocuments, heq⟩
    cases heq
    exact ⟨heaps, rfl, hdirectory, hstrings, hblobs, hguids, hheaps,
      ⟨_, _, hpdbHeader, hpdbBytes, hpdb⟩,
      ⟨_, _, htablesHeader, htablesBytes, htables⟩, hdocuments, rfl⟩
  · rintro ⟨heaps, h⟩
    obtain ⟨pdbHeader, pdbBytes, hpdbHeader, hpdbBytes, hpdb⟩ := h.pdb
    obtain ⟨tablesHeader, tablesBytes, htablesHeader, htablesBytes, htables⟩ := h.tables
    refine ⟨_, h.directory, _, h.strings,
      _, h.blobs, _, h.guids, _, htablesHeader, _, hpdbHeader, _, hpdbBytes, _,
      hpdb, _, h.heaps_eq, _, htablesBytes, _, htables, _, h.documents, ?_⟩
    have hdata := h.data_eq
    have hmodule := h.moduleName
    cases file
    subst hdata hmodule
    rfl

section Parsed

variable {data : ByteArray} {file : File} {heaps : Heaps} (h : Parsed data file heaps)
include h

/-- What is read on demand comes from the heaps that the documents were built from. -/
theorem Parsed.heaps_of_file : file.heaps = .ok heaps := by
  rw [File.heaps, h.data_eq, h.heaps_eq]

theorem Parsed.getString_eq (offset : UInt32) :
    file.getString offset = heaps.strings.get offset := by
  rw [getString, h.heaps_of_file]
  rfl

theorem Parsed.getBlob_eq (offset : UInt32) :
    file.getBlob offset = heaps.blobs.get offset := by
  rw [getBlob, h.heaps_of_file]
  rfl

theorem Parsed.getGuid_eq (index : UInt32) :
    file.getGuid index = heaps.guids.get index := by
  rw [getGuid, h.heaps_of_file]
  rfl

theorem Parsed.getDocumentName_eq (offset : UInt32) :
    file.getDocumentName offset = heaps.blobs.documentName offset := by
  rw [getDocumentName, h.heaps_of_file]
  rfl

theorem Parsed.getHash_eq (row : Nat) :
    file.getHash row = file.tables.documents.get row >>= fun r =>
      heaps.blobs.get r.hash := by
  simp only [getHash, h.getBlob_eq]

end Parsed

/-- A small file: a document and a method with a hidden point. -/
def sample : ByteArray :=
  match Builder.Edit.run [.document "main.cs" Guid.nil,
    .method 1 [.point ⟨0, some ⟨10, 5, 10, 20⟩⟩, .point ⟨3, none⟩,
      .point ⟨4, some ⟨8, 9, 12, 10⟩⟩]] .empty with
  | .ok b => b.build
  | .error _ => .empty

theorem parse_sample : ∃ file, parse sample = .ok file :=
  Outcome.isOk_iff.1 (by decide +kernel)

def built (edits : List Builder.Edit) : ByteArray :=
  match Builder.Edit.run edits .empty with
  | .ok b => b.build
  | .error _ => .empty

theorem exists_parse_built (edits : List Builder.Edit)
    (hrun : (Builder.Edit.run edits .empty).isOk = true)
    (hsize : (built edits).size < 2 ^ 32) (hparse : (parse (built edits)).isOk = true) :
    ∃ b file, Builder.Edit.run edits .empty = .ok b ∧ b.build.size < 2 ^ 32 ∧
      parse b.build = .ok file := by
  obtain ⟨b, hb⟩ := Outcome.isOk_iff.1 hrun
  rw [built, hb] at hsize hparse
  obtain ⟨file, hfile⟩ := Outcome.isOk_iff.1 hparse
  exact ⟨b, file, hb, hsize, hfile⟩

/-- A file of two documents and three methods, one of them in no document. The scopes of
the first method are not next to each other. -/
def scopedSample : ByteArray :=
  built [.document "a.cs" Guid.nil, .document "b.cs" Guid.nil,
    .method 2 [.point ⟨0, some ⟨10, 5, 10, 20⟩⟩], .methodRow ⟨0, 0⟩, .methodRow ⟨1, 0⟩,
    .scope 1 0 20, .localVariable "x".toUTF8 0 0, .localConstant "K", .scope 3 0 10,
    .scope 1 2 5, .localVariable "y".toUTF8 1 1, .localVariable "z".toUTF8 2 0,
    .scope 2 0 4]

theorem parse_scopedSample :
    ∃ file, parse scopedSample = .ok file ∧
      file.tables.methods.rows.toList.map (·.document) = [2, 0, 1] ∧
      file.tables.scopes.rows.toList.map
          (fun row => (row.method, row.variableList, row.constantList)) =
        [(1, 1, 1), (3, 2, 2), (1, 2, 2), (2, 4, 2)] ∧
      file.documents.toList.map
          (fun d => d.methods.map fun m => (m.methodDef, m.scopes.map (·.index))) =
        [[(3, [2])], [(1, [1, 3])]] := by
  have hshape : ((parse scopedSample).toOption.any fun file =>
      file.tables.methods.rows.toList.map (·.document) = [2, 0, 1] ∧
      file.tables.scopes.rows.toList.map
          (fun row => (row.method, row.variableList, row.constantList)) =
        [(1, 1, 1), (3, 2, 2), (1, 2, 2), (2, 4, 2)] ∧
      file.documents.toList.map (fun d => d.methods.map fun m =>
        (m.methodDef, m.scopes.map (·.index))) = [[(3, [2])], [(1, [1, 3])]]) = true := by
    decide +kernel
  obtain ⟨file, hparse, hfile⟩ := Outcome.any_toOption_iff.1 hshape
  exact ⟨file, hparse, of_decide_eq_true hfile⟩

end File

end PortablePdb
