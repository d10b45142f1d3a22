import PortablePdb.Proofs.Document.Rows
import PortablePdb.Proofs.File.Streams
import PortablePdb.Proofs.Table.Counts

/-!
The documents of accepted files. They are the rows of the document table, and the methods
listed in them are the rows of the method table that name a document: each of these once,
in the document it names, and in the order of the rows.
-/

namespace PortablePdb

namespace File

def methods (file : File) : List Method :=
  file.documents.toList.flatMap (·.methods)

theorem mem_methods_iff {file : File} {m : Method} :
    m ∈ file.methods ↔ ∃ d ∈ file.documents, m ∈ d.methods := by
  simp [methods]

theorem document?_eq_some_iff {file : File} {row : Nat} {d : Document} :
    file.document? row = some d ↔ row ≠ 0 ∧ file.documents[row - 1]? = some d := by
  by_cases hzero : row = 0 <;> simp [document?, hzero]

/-- The documents and methods of a file are those of its tables. -/
structure MethodsListed (file : File) : Prop where
  documents : file.documents.toList.map (·.index) = List.range' 1 file.tables.documents.size
  ascending : ∀ d ∈ file.documents, (d.methods.map (·.methodDef.toNat)).Pairwise (· < ·)
  mem_iff : ∀ d ∈ file.documents, ∀ index, index ∈ d.methods.map (·.methodDef.toNat) ↔
    ∃ row, file.tables.methods.get? index = some row ∧ row.document.toNat = d.index
  count : ∀ index row, file.tables.methods.get? index = some row →
    (file.methods.map (·.methodDef.toNat)).count index = if row.document = 0 then 0 else 1

section Parsed

variable {data : ByteArray} {file : File} {heaps : Heaps} (h : Parsed data file heaps)
include h

theorem Parsed.methods_lt : file.tables.methods.size < 2 ^ 32 := by
  obtain ⟨header, bytes, -, -, htables⟩ := h.tables
  obtain ⟨d, hread⟩ := Reader.run_eq_ok_iff.1 htables
  exact (Tables.counted_of_read hread).methods_lt

theorem Parsed.map_index :
    file.documents.toList.map (·.index) = List.range' 1 file.tables.documents.size := by
  obtain ⟨-, scopes, -, hdocuments⟩ := Document.buildAll_eq_ok_iff.1 h.documents
  rw [← Table.map_fst_entries]
  exact Outcome.map_eq_of_forall₂ (hdocuments.imp fun _ _ hbuilt => hbuilt.index_eq)

theorem Parsed.document?_index {d : Document} (hd : d ∈ file.documents) :
    file.document? d.index = some d := by
  obtain ⟨i, hi, rfl⟩ := Array.mem_iff_getElem.1 hd
  have hindex : (file.documents[i]).index = i + 1 := by
    have hnumbers := congrArg (·[i]?) h.map_index
    have hsize := congrArg List.length h.map_index
    rw [List.length_map, Array.length_toList, List.length_range'] at hsize
    simpa [hi, ← hsize, Nat.add_comm] using hnumbers
  rw [hindex]
  exact document?_eq_some_iff.2 ⟨Nat.succ_ne_zero i, Array.getElem?_eq_getElem hi⟩

theorem Parsed.methodDefs_eq {d : Document} (hd : d ∈ file.documents) :
    d.methods.map (·.methodDef.toNat) =
      (Document.methodRows file.tables d.index).map (·.1) := by
  obtain ⟨-, scopes, -, hdocuments⟩ := Document.buildAll_eq_ok_iff.1 h.documents
  obtain ⟨entry, -, hbuilt⟩ :=
    Outcome.exists_of_forall₂ hdocuments d (Array.mem_toList_iff.2 hd)
  rw [hbuilt.methodDefs_eq h.methods_lt, hbuilt.index_eq]

theorem Parsed.mem_methodDefs_iff {d : Document} (hd : d ∈ file.documents) {index : Nat} :
    index ∈ d.methods.map (·.methodDef.toNat) ↔
      ∃ row, file.tables.methods.get? index = some row ∧ row.document.toNat = d.index := by
  rw [h.methodDefs_eq hd, List.mem_map]
  constructor
  · rintro ⟨⟨i, row⟩, hmem, rfl⟩
    exact ⟨row, Document.mem_methodRows_iff.1 hmem⟩
  · rintro ⟨row, hrow⟩
    exact ⟨(index, row), Document.mem_methodRows_iff.2 hrow, rfl⟩

theorem Parsed.ascending {d : Document} (hd : d ∈ file.documents) :
    (d.methods.map (·.methodDef.toNat)).Pairwise (· < ·) := by
  rw [h.methodDefs_eq hd, List.pairwise_map]
  exact Document.pairwise_methodRows _ _

/-- A method is listed if its row names a document, which then exists. -/
theorem Parsed.mem_all_methodDefs_iff {index : Nat} {row : MethodRow}
    (hrow : file.tables.methods.get? index = some row) :
    index ∈ file.methods.map (·.methodDef.toNat) ↔ row.document ≠ 0 := by
  obtain ⟨howners, -⟩ := Document.buildAll_eq_ok_iff.1 h.documents
  rw [methods, List.map_flatMap, List.mem_flatMap]
  constructor
  · rintro ⟨d, hd, hmem⟩ hzero
    obtain ⟨other, hother, howner⟩ :=
      (h.mem_methodDefs_iff (Array.mem_toList_iff.1 hd)).1 hmem
    obtain rfl := Option.some.inj (hrow.symm.trans hother)
    have hindex : d.index ∈ file.documents.toList.map (·.index) := List.mem_map_of_mem hd
    rw [h.map_index, List.mem_range'_1, ← howner, hzero] at hindex
    simp at hindex
  · intro hne
    have hpos : row.document.toNat ≠ 0 := fun hzero => hne (UInt32.toNat_inj.1 hzero)
    have hindex : row.document.toNat ∈ file.documents.toList.map (·.index) := by
      rw [h.map_index, List.mem_range'_1]
      have := howners index row hrow
      omega
    obtain ⟨d, hd, heq⟩ := List.mem_map.1 hindex
    exact ⟨d, hd,
      (h.mem_methodDefs_iff (Array.mem_toList_iff.1 hd)).2 ⟨row, hrow, heq.symm⟩⟩

/-- No method is listed twice, be it in one document or in two. -/
theorem Parsed.nodup_methodDefs : (file.methods.map (·.methodDef.toNat)).Nodup := by
  have hrows : file.methods.map (·.methodDef.toNat) =
    (file.documents.toList.map (·.index)).flatMap fun document =>
      (Document.methodRows file.tables document).map (·.1) := by
    rw [methods, List.map_flatMap, List.flatMap_map]
    exact List.flatMap_congr fun d hd => h.methodDefs_eq (Array.mem_toList_iff.1 hd)
  rw [hrows, h.map_index]
  exact Document.nodup_methodRows file.tables List.nodup_range'

theorem Parsed.methodsListed : file.MethodsListed where
  documents := h.map_index
  ascending _ := h.ascending
  mem_iff _ hd _ := h.mem_methodDefs_iff hd
  count index row hrow := by
    have hmem := h.mem_all_methodDefs_iff hrow
    by_cases hzero : row.document = 0
    · rw [if_pos hzero, List.count_eq_zero, hmem]
      exact not_not_intro hzero
    · rw [if_neg hzero]
      exact List.count_eq_one_of_mem h.nodup_methodDefs (hmem.2 hzero)

end Parsed

/-- The methods of an accepted file are listed as its tables say. A file whose tables can
be read is rejected if a method names a document that is not there, and the error names
the first such document. -/
theorem methods_of_parse (data : ByteArray) :
    (∀ file, parse data = .ok file → file.MethodsListed) ∧
      ∀ directory pdb tables, Tabulated data directory pdb tables →
        ∀ index row, tables.methods.get? index = some row →
          tables.documents.size < row.document.toNat →
          (∀ earlier < index, ∀ r, tables.methods.get? earlier = some r →
            r.document.toNat ≤ tables.documents.size) →
          parse data = .error (.invalidRowIndex .document row.document.toNat) := by
  constructor
  · intro file h
    obtain ⟨heaps, hparsed⟩ := parse_eq_ok_iff.1 h
    exact hparsed.methodsListed
  · intro directory pdb tables htabulated index row hrow hlt hfirst
    obtain ⟨heapStreams, heaps, hparse⟩ := htabulated.parse_eq
    rw [hparse, Document.buildAll, Document.rowsByDocument_eq_error hrow hlt hfirst]
    rfl

/-- A file of one document. The second and the third method are in documents that are not
there. -/
def strayedSample : ByteArray :=
  built [.document "a.cs" Guid.nil, .methodRow ⟨1, 0⟩, .methodRow ⟨3, 0⟩, .methodRow ⟨2, 0⟩]

theorem tabulated_strayedSample :
    ∃ directory pdb tables, Tabulated strayedSample directory pdb tables ∧
      tables.documents.size = 1 ∧
      tables.methods.rows.toList.map (·.document) = [1, 3, 2] := by
  obtain ⟨directory, pdb, tables, htabulated, hrows⟩ := exists_tabulated strayedSample
    (fun tables => tables.documents.size = 1 ∧
      tables.methods.rows.toList.map (·.document) = [1, 3, 2]) (by decide +kernel)
  exact ⟨directory, pdb, tables, htabulated, of_decide_eq_true hrows⟩

/-- Of three methods the two that name documents are listed, and a file is rejected for
the first of its methods whose document is not there. -/
theorem methods_of_parse_sample :
    (∃ file, parse scopedSample = .ok file ∧
      file.documents.toList.map (fun d => d.methods.map (·.methodDef)) = [[3], [1]] ∧
      file.MethodsListed) ∧
      parse strayedSample = .error (.invalidRowIndex .document 3) := by
  constructor
  · obtain ⟨file, hparse, -, -, hmethods⟩ := parse_scopedSample
    refine ⟨file, hparse, ?_, (methods_of_parse scopedSample).1 file hparse⟩
    simpa [Function.comp_def] using congrArg (List.map (List.map Prod.fst)) hmethods
  · obtain ⟨directory, pdb, tables, htabulated, hsize, hrows⟩ := tabulated_strayedSample
    have howner (i : Nat) :
        (tables.methods.get? (i + 1)).map (·.document) = [1, 3, 2][i]? := by
      rw [← hrows]
      simp
    obtain ⟨row, hrow, hthree⟩ := Option.map_eq_some_iff.1 (howner 1)
    have herror :=
      (methods_of_parse strayedSample).2 directory pdb tables htabulated 2 row hrow
        (by rw [hthree, hsize]; decide) (fun earlier hearlier r hr => ?_)
    · rwa [hthree] at herror
    · obtain ⟨i, rfl⟩ : ∃ i, earlier = i + 1 :=
        Nat.exists_eq_succ_of_ne_zero (by rintro rfl; simp at hr)
      obtain rfl : i = 0 := by omega
      have hone := howner 0
      simp only [hr, Option.map_some] at hone
      rw [hsize, Option.some.inj hone]
      decide

end File

end PortablePdb
