import PortablePdb.Proofs.File.Documents
import PortablePdb.Proofs.Scope.Rows

/-!
The scopes of accepted files. The ranges of all scope rows, one behind another, cover the
tables of variables and of constants (`scopes_tile`). A method that is listed has the
scopes whose rows name it, and no scope is in two methods (`scopes_of_parse`).
-/

namespace PortablePdb

namespace Scope

variable {heaps : Heaps} {tables : Tables}

theorem variableAt_eq_ok_iff {row : Nat} {v : LocalVariable} :
    variableAt heaps tables row = .ok v ↔
      ∃ r, tables.localVariables.get? row = some r ∧ heaps.strings.get r.name = .ok v.name ∧
        v.slot = r.slot ∧ v.hidden = r.isHidden := by
  simp only [variableAt, Outcome.bind_eq_ok_iff, Table.get_eq_ok_iff]
  constructor
  · rintro ⟨r, hr, name, hname, h⟩
    cases h
    exact ⟨r, hr, hname, rfl, rfl⟩
  · rintro ⟨r, hr, hname, hslot, hhidden⟩
    refine ⟨r, hr, v.name, hname, ?_⟩
    rw [← hslot, ← hhidden]
    rfl

theorem constantAt_eq_ok_iff {row : Nat} {c : LocalConstant} :
    constantAt heaps tables row = .ok c ↔ ∃ r, tables.localConstants.get? row = some r ∧
      heaps.strings.get r.name = .ok c.name := by
  simp only [constantAt, Outcome.bind_eq_ok_iff, Table.get_eq_ok_iff]
  constructor
  · rintro ⟨r, hr, name, hname, h⟩
    cases h
    exact ⟨r, hr, hname⟩
  · rintro ⟨r, hr, hname⟩
    exact ⟨r, hr, c.name, hname, rfl⟩

def rowsOf (tables : Tables) (method : UInt32) : List (Nat × ScopeRow) :=
  tables.scopes.entries.filter fun entry => entry.2.method = method

theorem mem_rowsOf_iff {method : UInt32} {index : Nat} {row : ScopeRow} :
    (index, row) ∈ rowsOf tables method ↔
      tables.scopes.get? index = some row ∧ row.method = method := by
  simp [rowsOf, Table.mem_entries_iff]

theorem pairwise_rowsOf (tables : Tables) (method : UInt32) :
    (rowsOf tables method).Pairwise fun x y => x.1 < y.1 :=
  tables.scopes.pairwise_entries.filter _

theorem forall₂_rowsOf {scopes : List (Nat × Scope)}
    (h : buildAll heaps tables = .ok scopes) {method : UInt32} (hmethod : method ≠ 0) :
    List.Forall₂ (fun entry s =>
        Built heaps tables entry.1 entry.2 (tables.scopes.get? (entry.1 + 1)) s)
      (rowsOf tables method) (Grouping.itemsOf method.toNat scopes) := by
  have hnumber : method.toNat ≠ 0 := fun hzero => hmethod (UInt32.toNat_inj.1 hzero)
  have hrows : rowsOf tables method = Grouping.itemsOf method.toNat
      (tables.scopes.entries.map fun entry => (entry.2.method.toNat, entry)) := by
    simp only [Grouping.itemsOf_map, UInt32.toNat_inj, rowsOf]
  rw [hrows]
  refine Grouping.forall₂_itemsOf hnumber (List.forall₂_map_left_iff.2 ?_)
  exact (buildAll_eq_ok_iff.1 h).imp fun _ _ hs => ⟨hs.1.symm, fun _ => hs.2⟩

end Scope

namespace File

structure ShowsScope (file : File) (index : Nat) (row : ScopeRow)
    (scope : Scope) : Prop where
  index_eq : scope.index = index
  startOffset_eq : scope.startOffset = row.startOffset
  length_eq : scope.length = row.length
  range_eq : ∀ list : ScopeList, list.range scope =
    ⟨list.first row, ((file.tables.scopes.get? (index + 1)).map list.first).getD
      (list.size file.tables + 1)⟩
  localVariables : List.Forall₂
    (fun r v => ∃ variableRow, file.tables.localVariables.get? r = some variableRow ∧
      file.getString variableRow.name = .ok v.name ∧ v.slot = variableRow.slot ∧
      v.hidden = variableRow.isHidden) scope.variableRows.rows scope.localVariables
  localConstants : List.Forall₂
    (fun r c => ∃ constantRow, file.tables.localConstants.get? r = some constantRow ∧
      file.getString constantRow.name = .ok c.name)
    scope.constantRows.rows scope.localConstants

/-- All scopes of a file, whether their methods are listed or not, with the methods that
they belong to. -/
structure ScopesTiled (file : File) (scopes : List (Nat × Scope)) : Prop where
  built : ∃ heaps, file.heaps = .ok heaps ∧ Scope.buildAll heaps file.tables = .ok scopes
  indices : scopes.map (·.2.index) = List.range' 1 file.tables.scopes.size
  listed : ∀ m ∈ file.methods, ∀ s ∈ m.scopes, (m.methodDef.toNat, s) ∈ scopes
  inOrder : ∀ list : ScopeList,
    RowRange.InOrder (list.size file.tables) (list.firsts file.tables)
  tiling : ∀ list : ScopeList, RowRange.Tiling (list.size file.tables)
    (list.firsts file.tables) (scopes.map fun s => list.range s.2)

section Parsed

variable {data : ByteArray} {file : File} {heaps : Heaps} (h : Parsed data file heaps)
include h

/-- The scopes of a method that is listed are those that were put into its group. -/
theorem Parsed.exists_scopes :
    ∃ scopes, Scope.buildAll heaps file.tables = .ok scopes ∧
      ∀ m ∈ file.methods, m.methodDef ≠ 0 ∧
        m.scopes = Grouping.itemsOf m.methodDef.toNat scopes := by
  obtain ⟨-, scopes, hscopes, hdocuments⟩ := Document.buildAll_eq_ok_iff.1 h.documents
  refine ⟨scopes, hscopes, fun m hm => ?_⟩
  obtain ⟨d, hd, hm⟩ := List.mem_flatMap.1 hm
  obtain ⟨entry, -, hbuilt⟩ := Outcome.exists_of_forall₂ hdocuments d hd
  obtain ⟨⟨index, row⟩, hrow, hmethod⟩ := Outcome.exists_of_forall₂ hbuilt.methods m hm
  obtain ⟨points, -, rfl⟩ := Method.buildShared_eq_ok_iff.1 hmethod
  have hget := (Document.mem_methodRows_iff.1 hrow).1
  have hpos : 1 ≤ index := Nat.one_le_iff_ne_zero.2 (by rintro rfl; simp at hget)
  have hle : index ≤ file.tables.methods.size := Table.le_size_of_get? hget
  have hnumber : index.toUInt32.toNat = index :=
    toNat_toUInt32 (Nat.lt_of_le_of_lt hle h.methods_lt)
  constructor
  · intro hzero
    have : index.toUInt32.toNat = 0 := congrArg UInt32.toNat hzero
    omega
  · rw [hnumber]
    exact Grouping.group_byNumber scopes hpos hle

theorem Parsed.showsScope {index : Nat} {row : ScopeRow} {scope : Scope}
    (hbuilt : Scope.Built heaps file.tables index row
      (file.tables.scopes.get? (index + 1)) scope) : file.ShowsScope index row scope where
  index_eq := hbuilt.index_eq
  startOffset_eq := hbuilt.startOffset_eq
  length_eq := hbuilt.length_eq
  range_eq list := by
    obtain ⟨scopes, hscopes, -⟩ := h.exists_scopes
    have hnext : ∀ n ∈ (file.tables.scopes.get? (index + 1)).map list.first, 1 ≤ n ∧
        n ≤ list.size file.tables + 1 := by
      intro n hn
      rw [← list.getElem?_firsts] at hn
      exact (Scope.inOrder_of_buildAll hscopes list).within n (List.mem_of_getElem? hn)
    exact ((RowRange.owned_eq_ok_iff hnext).1 (hbuilt.owned list)).2
  localVariables := by
    simpa only [Scope.variableAt_eq_ok_iff, ← h.getString_eq] using hbuilt.localVariables
  localConstants := by
    simpa only [Scope.constantAt_eq_ok_iff, ← h.getString_eq] using hbuilt.localConstants

theorem Parsed.forall₂_scopes {m : Method} (hm : m ∈ file.methods) :
    List.Forall₂ (fun entry s => file.ShowsScope entry.1 entry.2 s)
      (Scope.rowsOf file.tables m.methodDef) m.scopes := by
  obtain ⟨scopes, hscopes, hlisted⟩ := h.exists_scopes
  obtain ⟨hne, hitems⟩ := hlisted m hm
  rw [hitems]
  exact (Scope.forall₂_rowsOf hscopes hne).imp fun _ _ => h.showsScope

theorem Parsed.scopeIndices_eq {m : Method} (hm : m ∈ file.methods) :
    m.scopes.map (·.index) = (Scope.rowsOf file.tables m.methodDef).map (·.1) :=
  Outcome.map_eq_of_forall₂ ((h.forall₂_scopes hm).imp fun _ _ hs => hs.index_eq)

theorem Parsed.nodup_scopes : ((file.methods.flatMap (·.scopes)).map (·.index)).Nodup := by
  rw [List.map_flatMap, List.nodup_flatMap]
  constructor
  · intro m hm
    rw [h.scopeIndices_eq hm, List.Nodup, List.pairwise_map]
    exact (Scope.pairwise_rowsOf file.tables m.methodDef).imp Nat.ne_of_lt
  · have hne : file.methods.Pairwise fun m n => m.methodDef.toNat ≠ n.methodDef.toNat :=
      List.pairwise_map.1 h.nodup_methodDefs
    -- A row names one method only.
    refine hne.imp_of_mem fun {m n} hm hn hdifferent i hi hi' => ?_
    simp only [h.scopeIndices_eq hm, h.scopeIndices_eq hn, List.mem_map] at hi hi'
    obtain ⟨⟨index, row⟩, hrow, rfl⟩ := hi
    obtain ⟨⟨index', row'⟩, hrow', rfl⟩ := hi'
    obtain ⟨hget, hmethod⟩ := Scope.mem_rowsOf_iff.1 hrow
    obtain ⟨hget', hmethod'⟩ := Scope.mem_rowsOf_iff.1 hrow'
    obtain rfl := Option.some.inj (hget.symm.trans hget')
    exact hdifferent (by rw [← hmethod, hmethod'])

theorem Parsed.scopesTiled : ∃ scopes, file.ScopesTiled scopes := by
  obtain ⟨scopes, hscopes, hlisted⟩ := h.exists_scopes
  refine ⟨scopes, ⟨heaps, h.heaps_of_file, hscopes⟩, ?_, fun m hm s hs => ?_,
    Scope.inOrder_of_buildAll hscopes, fun list => ?_⟩
  · rw [← Table.map_fst_entries]
    exact Outcome.map_eq_of_forall₂
      ((Scope.buildAll_eq_ok_iff.1 hscopes).imp fun _ _ hs => hs.2.index_eq)
  · rw [(hlisted m hm).2] at hs
    exact Grouping.mem_itemsOf_iff.1 hs
  · rw [Scope.map_range_of_buildAll hscopes list]
    exact (Scope.inOrder_of_buildAll hscopes list).tiling

end Parsed

/-- Whatever the tables are, the rows of all scopes pass the checks of their lists exactly
if the lists begin in order. So the scopes of an accepted file share out the rows of the
tables of variables and of constants. -/
theorem scopes_tile :
    (∀ (tables : Tables) (list : ScopeList),
      (∀ index row, tables.scopes.get? index = some row →
          ∃ range, list.owned tables row (tables.scopes.get? (index + 1)) = .ok range) ↔
        RowRange.InOrder (list.size tables) (list.firsts tables)) ∧
      ∀ data file, parse data = .ok file → ∃ scopes, file.ScopesTiled scopes := by
  refine ⟨fun tables list => list.owned_iff_inOrder tables, fun data file h => ?_⟩
  obtain ⟨heaps, hparsed⟩ := parse_eq_ok_iff.1 h
  exact hparsed.scopesTiled

theorem scopes_tile_sample :
    ∃ file scopes, parse scopedSample = .ok file ∧
      file.tables.scopes.rows.toList.map (fun row =>
        (row.variableList, row.constantList)) = [(1, 1), (2, 2), (2, 2), (4, 2)] ∧
      file.ScopesTiled scopes ∧ ∀ (list : ScopeList) (index : Nat) (row : ScopeRow),
        file.tables.scopes.get? index = some row →
        ∃ range, list.owned file.tables row (file.tables.scopes.get? (index + 1)) =
          .ok range := by
  obtain ⟨file, hparse, -, hrows, -⟩ := parse_scopedSample
  obtain ⟨scopes, htiled⟩ := scopes_tile.2 scopedSample file hparse
  refine ⟨file, scopes, hparse, ?_, htiled,
    fun list => (scopes_tile.1 file.tables list).2 (htiled.inOrder list)⟩
  simpa [Function.comp_def] using congrArg (List.map Prod.snd) hrows

/-- A method of an accepted file has the scopes of the rows that name it, each once and in
their order. No row is in two methods. -/
theorem scopes_of_parse {data : ByteArray} {file : File} (h : parse data = .ok file) :
    (∀ d ∈ file.documents, ∀ m ∈ d.methods,
      List.Forall₂ (fun entry s => file.ShowsScope entry.1 entry.2 s)
        (Scope.rowsOf file.tables m.methodDef) m.scopes) ∧
      ((file.methods.flatMap (·.scopes)).map (·.index)).Nodup := by
  obtain ⟨heaps, hparsed⟩ := parse_eq_ok_iff.1 h
  exact ⟨fun d hd m hm => hparsed.forall₂_scopes (mem_methods_iff.2 ⟨d, hd, hm⟩),
    hparsed.nodup_scopes⟩

/-- The first method has the first and the third scope, and the scope in between is that
of another method. -/
theorem scopes_of_parse_interleaved :
    ∃ file, parse scopedSample = .ok file ∧
      file.methods.map (fun m => (m.methodDef, m.scopes.map (·.index))) =
        [(3, [2]), (1, [1, 3])] ∧
      (∀ d ∈ file.documents, ∀ m ∈ d.methods,
        List.Forall₂ (fun entry s => file.ShowsScope entry.1 entry.2 s)
          (Scope.rowsOf file.tables m.methodDef) m.scopes) ∧
      ((file.methods.flatMap (·.scopes)).map (·.index)).Nodup := by
  obtain ⟨file, hparse, -, -, hmethods⟩ := parse_scopedSample
  refine ⟨file, hparse, ?_, scopes_of_parse hparse⟩
  simpa [methods, List.map_flatMap, List.flatMap_def, Function.comp_def] using
    congrArg List.flatten hmethods

end File

end PortablePdb
