import PortablePdb.Proofs.File.Scopes

/-!
The methods that scopes belong to. Row zero is refused as an owner, and nothing else is: a
scope whose method has no row, or has one that names no document, is built and then left
out of the file (`scopeOwners_of_parse`).
-/

namespace PortablePdb

/-- The scopes before the first one without an owner are built, and then that one makes
the error. -/
theorem Scope.buildAll_eq_error_of_method {heaps : Heaps} {tables : Tables}
    {index : Nat} {row : ScopeRow}
    (hrow : tables.scopes.get? index = some row) (hmethod : row.method = 0)
    (hbefore : ∀ earlier < index, ∀ r, tables.scopes.get? earlier = some r → ∃ scope,
      build heaps tables earlier r (tables.scopes.get? (earlier + 1)) = .ok scope) :
    buildAll heaps tables = .error (.invalidRowIndex .methodDef 0) := by
  obtain ⟨i, rfl⟩ : ∃ i, index = i + 1 :=
    Nat.exists_eq_succ_of_ne_zero (by rintro rfl; simp at hrow)
  refine Outcome.mapM_eq_error_iff.2 ⟨i, (i + 1, row), ?_, ?_, fun j hj entry hentry => ?_⟩
  · rw [Table.getElem?_entries, hrow]
    rfl
  · have hbuild : build heaps tables (i + 1) row (tables.scopes.get? (i + 2)) =
        .error (.invalidRowIndex .methodDef 0) := by
      rw [build, if_pos hmethod]
      rfl
    exact Outcome.bind_eq_error_iff.2 (.inl hbuild)
  · rw [Table.getElem?_entries] at hentry
    obtain ⟨r, hr, rfl⟩ := Option.map_eq_some_iff.1 hentry
    obtain ⟨scope, hscope⟩ := hbefore (j + 1) (Nat.succ_lt_succ hj) r hr
    exact ⟨(r.method.toNat, scope), Outcome.bind_eq_ok_iff.2 ⟨scope, hscope, rfl⟩⟩

namespace File

section Parsed

variable {data : ByteArray} {file : File} {heaps : Heaps} (h : Parsed data file heaps)
include h

theorem Parsed.method_ne_zero {index : Nat} {row : ScopeRow}
    (hrow : file.tables.scopes.get? index = some row) :
    row.method ≠ 0 := by
  obtain ⟨scopes, hscopes, -⟩ := h.exists_scopes
  obtain ⟨s, -, -, hbuilt⟩ :=
    Outcome.exists_of_forall₂
      (Scope.buildAll_eq_ok_iff.1 hscopes).flip _ (Table.mem_entries_iff.2 hrow)
  exact hbuilt.method_ne

/-- A scope is in the file if its method is. -/
theorem Parsed.mem_scopeIndices_iff {index : Nat} {row : ScopeRow}
    (hrow : file.tables.scopes.get? index = some row) :
    index ∈ (file.methods.flatMap (·.scopes)).map (·.index) ↔
      row.method.toNat ∈ file.methods.map (·.methodDef.toNat) := by
  rw [List.map_flatMap, List.mem_flatMap, List.mem_map]
  refine exists_congr fun m => and_congr_right fun hm => ?_
  rw [h.scopeIndices_eq hm, List.mem_map, UInt32.toNat_inj]
  constructor
  · rintro ⟨⟨i, r⟩, hmem, rfl⟩
    obtain ⟨hget, howner⟩ := Scope.mem_rowsOf_iff.1 hmem
    obtain rfl := Option.some.inj (hrow.symm.trans hget)
    exact howner.symm
  · intro howner
    exact ⟨(index, row), Scope.mem_rowsOf_iff.2 ⟨hrow, howner.symm⟩, rfl⟩

/-- Only the rows of methods are listed. -/
theorem Parsed.mem_methodDefs_iff_exists {index : Nat} :
    index ∈ file.methods.map (·.methodDef.toNat) ↔
      ∃ row, file.tables.methods.get? index = some row ∧ row.document ≠ 0 := by
  constructor
  · intro hmem
    have hexists : ∃ row, file.tables.methods.get? index = some row := by
      rw [methods, List.map_flatMap, List.mem_flatMap] at hmem
      obtain ⟨d, hd, hmem⟩ := hmem
      obtain ⟨row, hrow, -⟩ := (h.mem_methodDefs_iff (Array.mem_toList_iff.1 hd)).1 hmem
      exact ⟨row, hrow⟩
    obtain ⟨row, hrow⟩ := hexists
    exact ⟨row, hrow, (h.mem_all_methodDefs_iff hrow).1 hmem⟩
  · rintro ⟨row, hrow, hdocument⟩
    exact (h.mem_all_methodDefs_iff hrow).2 hdocument

end Parsed

/-- Every scope of an accepted file names a method, and it is in the file exactly if that
method has a row which names a document. A scope that names no method makes an error,
unless another one is found before it. -/
theorem scopeOwners_of_parse (data : ByteArray) :
    (∀ file, parse data = .ok file → ∀ index row,
      file.tables.scopes.get? index = some row → row.method ≠ 0 ∧
        (index ∈ (file.methods.flatMap (·.scopes)).map (·.index) ↔ ∃ method,
          file.tables.methods.get? row.method.toNat = some method ∧ method.document ≠ 0)) ∧
      ∀ directory pdb tables streams heaps, Tabulated data directory pdb tables →
        directory.heapStreams = .ok streams → streams.slice data = .ok heaps →
        Document.OwnersExist tables →
        ∀ index row, tables.scopes.get? index = some row → row.method = 0 →
          (∀ earlier < index, ∀ r, tables.scopes.get? earlier = some r →
            ∃ scope,
              Scope.build heaps tables earlier r (tables.scopes.get? (earlier + 1)) =
                .ok scope) →
          parse data = .error (.invalidRowIndex .methodDef 0) := by
  constructor
  · intro file h index row hrow
    obtain ⟨heaps, hparsed⟩ := parse_eq_ok_iff.1 h
    exact ⟨hparsed.method_ne_zero hrow,
      (hparsed.mem_scopeIndices_iff hrow).trans hparsed.mem_methodDefs_iff_exists⟩
  · intro directory pdb tables streams heaps htabulated hstreams hheaps howners index row
      hrow hmethod hbefore
    have hscopes := Scope.buildAll_eq_error_of_method hrow hmethod hbefore
    have hrows := Document.rowsByDocument_eq_ok_iff.2 ⟨howners, rfl⟩
    rw [htabulated.parse_eq_of_heaps hstreams hheaps, Document.buildAll, hrows, hscopes]
    rfl

def unownedSample : ByteArray :=
  built [.document "a.cs" Guid.nil, .scope 0 0 4, .scope 1 0 4]

/-- The last scope is that of a method without a document. -/
theorem scopeOwners_of_parse_sample :
    (∃ file, parse scopedSample = .ok file ∧
      file.tables.scopes.rows.toList.map (·.method) = [1, 3, 1, 2] ∧
      (file.methods.flatMap (·.scopes)).map (·.index) = [2, 1, 3] ∧
      ∀ index row, file.tables.scopes.get? index = some row →
        row.method ≠ 0 ∧ (index ∈ (file.methods.flatMap (·.scopes)).map (·.index) ↔
          ∃ method, file.tables.methods.get? row.method.toNat = some method ∧
            method.document ≠ 0)) ∧
      parse unownedSample = .error (.invalidRowIndex .methodDef 0) := by
  constructor
  · obtain ⟨file, hparse, -, hrows, hmethods⟩ := parse_scopedSample
    refine ⟨file, hparse, ?_, ?_, (scopeOwners_of_parse scopedSample).1 file hparse⟩
    · simpa [Function.comp_def] using congrArg (List.map Prod.fst) hrows
    · simpa [methods, List.map_flatMap, List.flatMap_def, Function.comp_def] using
        congrArg (fun documents => documents.flatten.flatMap Prod.snd) hmethods
  · obtain ⟨directory, pdb, tables, htabulated, hrows⟩ := exists_tabulated unownedSample
      (fun tables => tables.methods.rows.toList = [] ∧
        tables.scopes.rows.toList.map (·.method) = [0, 1]) (by decide +kernel)
    obtain ⟨hmethods, hscopes⟩ := of_decide_eq_true hrows
    obtain ⟨streams, heaps, hstreams, hheaps⟩ := htabulated.exists_heaps
    obtain ⟨row, hrow, hzero⟩ : ∃ row, tables.scopes.get? 1 = some row ∧
        row.method = 0 := by
      rw [← Option.map_eq_some_iff, Table.get?_succ, ← Array.getElem?_toList,
        ← List.getElem?_map, hscopes]
      rfl
    refine (scopeOwners_of_parse unownedSample).2 directory pdb tables streams heaps
      htabulated hstreams hheaps (fun index method hmethod => ?_) 1 row hrow hzero
      fun earlier hearlier r hr => ?_
    · cases index with
      | zero => simp at hmethod
      | succ i => simp [← Array.getElem?_toList, hmethods] at hmethod
    · obtain rfl : earlier = 0 := by omega
      simp at hr

/-- A file of one method, and a scope of the seventh. -/
def orphanSample : ByteArray :=
  built [.document "a.cs" Guid.nil, .method 1 [.point ⟨0, some ⟨10, 5, 10, 20⟩⟩],
    .scope 7 0 4]

/-- The file is accepted, and its scope is nowhere in it. -/
theorem scopeOwners_of_orphan :
    ∃ file, parse orphanSample = .ok file ∧ file.tables.methods.size = 1 ∧
      file.tables.scopes.rows.toList.map (·.method) = [7] ∧ file.methods.length = 1 ∧
      file.methods.flatMap (·.scopes) = [] := by
  have hshape :
      ((parse orphanSample).toOption.any fun file => file.tables.methods.size = 1 ∧
        file.tables.scopes.rows.toList.map (·.method) = [7] ∧ file.methods.length = 1 ∧
        file.methods.flatMap (·.scopes) = []) = true := by
    decide +kernel
  obtain ⟨file, hparse, hfile⟩ := Outcome.any_toOption_iff.1 hshape
  exact ⟨file, hparse, of_decide_eq_true hfile⟩

end File

end PortablePdb
