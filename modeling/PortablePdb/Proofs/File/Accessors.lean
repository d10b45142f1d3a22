import PortablePdb.Proofs.File.Scopes

/-!
The documents of an accepted file against its accessors. The documents are made while a
file is parsed. The accessors read the file once more, from the heaps that its headers
point at, and both come from the same rows.
-/

namespace PortablePdb

/-- Items that are made from the rows of a range, one from each. -/
theorem RowRange.getElem?_of_forall₂ {α : Type} {R : Nat → α → Prop} {range : RowRange}
    {items : List α} (h : List.Forall₂ R range.rows items) {k : Nat} {item : α}
    (hk : items[k]? = some item) : R (range.first + k) item := by
  obtain ⟨hlength, hall⟩ := List.forall₂_iff_get.1 h
  obtain ⟨hlt, rfl⟩ := List.getElem?_eq_some_iff.1 hk
  have hrow := hall k (hlength ▸ hlt) hlt
  simpa [rows] using hrow

namespace File

/-- What an identifier stands for. Without one this is unknown. -/
def Identified {α : Type} (file : File) (index : UInt32) (unknown : α) (ofGuid : Guid → α)
    (a : α) : Prop :=
  if index = 0 then a = unknown else ∃ guid, file.getGuid index = .ok guid ∧ a = ofGuid guid

structure ShowsDocument (file : File) (index : Nat) (row : DocumentRow)
    (d : Document) : Prop where
  listed : file.documents[index - 1]? = some d
  document? : file.document? index = some d
  path : file.getDocumentName row.name = .ok d.path
  hash : file.getHash index = .ok d.hash
  hashBlob : file.getBlob row.hash = .ok d.hash
  language : file.Identified row.language .unknown .ofGuid d.language
  hashAlgorithm : file.Identified row.hashAlgorithm .unknown .ofGuid d.hashAlgorithm

structure ShowsLocals (file : File) (s : Scope) : Prop where
  length_localVariables : s.variableRows.first + s.localVariables.length =
    s.variableRows.stop
  localVariables : ∀ k v, s.localVariables[k]? = some v →
    ∃ row, file.tables.localVariables.get? (s.variableRows.first + k) = some row ∧
      file.getString row.name = .ok v.name ∧ v.slot = row.slot ∧ v.hidden = row.isHidden
  length_localConstants : s.constantRows.first + s.localConstants.length =
    s.constantRows.stop
  localConstants : ∀ k c, s.localConstants[k]? = some c →
    ∃ row, file.tables.localConstants.get? (s.constantRows.first + k) = some row ∧
      file.getString row.name = .ok c.name

section Parsed

variable {data : ByteArray} {file : File} {heaps : Heaps} (h : Parsed data file heaps)
include h

theorem Parsed.identified {α : Type} {unknown a : α} {ofGuid : Guid → α} {index : UInt32}
    (hread : (if index = 0 then .ok unknown
      else return ofGuid (← heaps.guids.get index)) = .ok a) :
    file.Identified index unknown ofGuid a := by
  rw [Identified]
  split at hread
  case isTrue hzero =>
    rw [if_pos hzero]
    exact (Except.ok.inj hread).symm
  case isFalse hne =>
    obtain ⟨guid, hguid, heq⟩ := Outcome.bind_eq_ok_iff.1 hread
    rw [if_neg hne, h.getGuid_eq]
    exact ⟨guid, hguid, (Except.ok.inj heq).symm⟩

theorem Parsed.exists_showsDocument {index : Nat} {row : DocumentRow}
    (hrow : file.tables.documents.get? index = some row) :
    ∃ d, file.ShowsDocument index row d := by
  obtain ⟨-, scopes, -, hdocuments⟩ := Document.buildAll_eq_ok_iff.1 h.documents
  obtain ⟨d, hd, hbuilt⟩ :=
    Outcome.exists_of_forall₂ hdocuments.flip _ (Table.mem_entries_iff.2 hrow)
  obtain rfl : d.index = index := hbuilt.index_eq
  have hdocument := h.document?_index (Array.mem_toList_iff.1 hd)
  refine ⟨d, (document?_eq_some_iff.1 hdocument).2, hdocument, ?_, ?_, ?_,
    h.identified hbuilt.language, h.identified hbuilt.hashAlgorithm⟩
  · rw [h.getDocumentName_eq]
    exact hbuilt.path
  · rw [h.getHash_eq, Table.get_eq_ok_iff.2 hrow]
    exact hbuilt.hash
  · rw [h.getBlob_eq]
    exact hbuilt.hash

/-- The ranges of a scope that is listed do not end in front of their beginnings. -/
theorem Parsed.first_le_stop {m : Method} (hm : m ∈ file.methods) {s : Scope}
    (hs : s ∈ m.scopes) (list : ScopeList) :
    (list.range s).first ≤ (list.range s).stop := by
  obtain ⟨scopes, htiled⟩ := h.scopesTiled
  obtain ⟨-, hle, -⟩ :=
    (htiled.tiling list).first_le_stop _ (List.mem_map_of_mem (htiled.listed m hm s hs))
  exact hle

theorem Parsed.showsLocals {m : Method} (hm : m ∈ file.methods) {s : Scope}
    (hs : s ∈ m.scopes) : file.ShowsLocals s := by
  obtain ⟨entry, -, hshows⟩ := Outcome.exists_of_forall₂ (h.forall₂_scopes hm) s hs
  have hvariables := hshows.localVariables.length_eq
  have hconstants := hshows.localConstants.length_eq
  rw [RowRange.rows, List.length_range'] at hvariables hconstants
  have hvariableRows := h.first_le_stop hm hs .localVariables
  have hconstantRows := h.first_le_stop hm hs .localConstants
  constructor
  case length_localVariables =>
    rw [← hvariables]
    exact Nat.add_sub_cancel' hvariableRows
  case length_localConstants =>
    rw [← hconstants]
    exact Nat.add_sub_cancel' hconstantRows
  case localVariables => exact fun k v => RowRange.getElem?_of_forall₂ hshows.localVariables
  case localConstants => exact fun k c => RowRange.getElem?_of_forall₂ hshows.localConstants

end Parsed

/-- What was made of the rows of a file when it was parsed is what its accessors answer
for these rows. -/
theorem accessors_of_parse {data : ByteArray} {file : File} (h : parse data = .ok file) :
    (∀ index row, file.tables.documents.get? index = some row →
      ∃ d, file.ShowsDocument index row d) ∧
      ∀ m ∈ file.methods, ∀ s ∈ m.scopes, file.ShowsLocals s := by
  obtain ⟨heaps, hparsed⟩ := parse_eq_ok_iff.1 h
  exact ⟨fun _ _ hrow => hparsed.exists_showsDocument hrow,
    fun _ hm _ hs => hparsed.showsLocals hm hs⟩

/-- The second document of a small file, and a scope of its method. -/
theorem accessors_of_parse_sample :
    ∃ file row d m s, parse scopedSample = .ok file ∧
      file.tables.documents.get? 2 = some row ∧
      file.ShowsDocument 2 row d ∧ m ∈ file.methods ∧ s ∈ m.scopes ∧ s.index = 3 ∧
      file.ShowsLocals s := by
  obtain ⟨file, hparse, -, -, hmethods⟩ := parse_scopedSample
  obtain ⟨heaps, hparsed⟩ := parse_eq_ok_iff.1 hparse
  obtain ⟨hdocuments, hlocals⟩ := accessors_of_parse hparse
  have hsize : 2 ≤ file.tables.documents.size := by
    have hindices := congrArg List.length hparsed.map_index
    have hlisted := congrArg List.length hmethods
    rw [List.length_map, List.length_range'] at hindices
    rw [List.length_map, hindices] at hlisted
    exact Nat.le_of_eq hlisted.symm
  obtain ⟨row, hrow⟩ : ∃ row, file.tables.documents.get? 2 = some row :=
    ⟨_, (Table.get?_succ _ 1).trans (Array.getElem?_eq_getElem hsize)⟩
  have hindices : (file.methods.map fun m => m.scopes.map (·.index)) = [[2], [1, 3]] := by
    simpa [methods, List.map_flatMap, List.flatMap_def, Function.comp_def] using
      congrArg (fun documents => documents.flatten.map Prod.snd) hmethods
  have hthird : [1, 3] ∈ file.methods.map fun m => m.scopes.map (·.index) := by
    rw [hindices]
    simp
  obtain ⟨m, hm, hscopes⟩ := List.mem_map.1 hthird
  have hthird : 3 ∈ m.scopes.map (·.index) := by
    rw [hscopes]
    simp
  obtain ⟨s, hs, hindex⟩ := List.mem_map.1 hthird
  obtain ⟨d, hshows⟩ := hdocuments 2 row hrow
  exact ⟨file, row, d, m, s, hparse, hrow, hshows, hm, hs, hindex, hlocals m hm s hs⟩

end File

end PortablePdb
