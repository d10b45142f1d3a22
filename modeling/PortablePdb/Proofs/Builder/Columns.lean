import PortablePdb.Proofs.Builder.Changes
import PortablePdb.Proofs.Builder.Acceptance
import PortablePdb.Proofs.Table.Counts

/-!
The tables of a builder, read back from its streams. The rows may hold any numbers, and
nothing is asked of the heaps. A number is read as it was added if its column has four
bytes, and modulo `2 ^ 16` if it has two, and the reader works out the same widths as the
writer (`readBack_of_run`). No table may have more rows than a word counts
(`ReadBack.numbered`), and a builder can be given as many (`not_readBack_of_full`).
-/

namespace PortablePdb

open Reader

/-- What a column of a width holds of a number. -/
def IndexWidths.hold (width : Nat) (n : UInt32) : UInt32 :=
  if width = 4 then n else (n.toNat % 2 ^ 16).toUInt32

def DocumentRow.hold (w : IndexWidths) (row : DocumentRow) : DocumentRow where
  name := IndexWidths.hold w.blobs row.name
  hashAlgorithm := IndexWidths.hold w.guids row.hashAlgorithm
  hash := IndexWidths.hold w.blobs row.hash
  language := IndexWidths.hold w.guids row.language

def MethodRow.hold (w : IndexWidths) (row : MethodRow) : MethodRow where
  document := IndexWidths.hold w.documents row.document
  sequencePoints := IndexWidths.hold w.blobs row.sequencePoints

def ScopeRow.hold (w : IndexWidths) (row : ScopeRow) : ScopeRow where
  method := IndexWidths.hold w.methods row.method
  importScope := IndexWidths.hold w.imports row.importScope
  variableList := IndexWidths.hold w.localVariables row.variableList
  constantList := IndexWidths.hold w.localConstants row.constantList
  startOffset := row.startOffset
  length := row.length

def VariableRow.hold (w : IndexWidths) (row : VariableRow) : VariableRow where
  attributes := row.attributes
  slot := row.slot
  name := IndexWidths.hold w.strings row.name

def ConstantRow.hold (w : IndexWidths) (row : ConstantRow) : ConstantRow where
  name := IndexWidths.hold w.strings row.name
  signature := IndexWidths.hold w.blobs row.signature

namespace Builder

/-! ### Settings -/

/-- What rows and heaps have nothing to do with: counts of tables without rows, and which
streams are written. -/
def settings (b : Builder) :
    List (Fin 64 × UInt32) × List String × List (String × String) :=
  (b.declaredRows, b.omitted, b.renamed)

structure Keeps {α : Type} (x : Addition α) : Prop where
  settings_eq : ∀ {b after : Builder} {a : α}, x b = .ok a after →
    after.settings = b.settings

namespace Edit

/-- Edits that leave the streams under their usual names, and declare rows only of tables
that the builder writes none of. -/
def Storable : Edit → Prop
  | declaredRows table rows => Declarable (table, rows)
  | omitStream _ => False
  | renameStream _ _ => False
  | _ => True

end Edit

structure Plain (b : Builder) : Prop where
  declaredRows : ∀ d ∈ b.declaredRows, Declarable d
  omitted : b.omitted = []
  renamed : b.renamed = []

theorem plain_empty : Plain empty :=
  ⟨by simp [empty], rfl, rfl⟩

theorem Plain.congr {b after : Builder} (hb : b.Plain) (h : after.settings = b.settings) :
    after.Plain := by
  obtain ⟨hdeclared, homitted, hrenamed⟩ : _ ∧ _ ∧ _ := by simpa [settings] using h
  exact ⟨hdeclared ▸ hb.declaredRows, homitted.trans hb.omitted, hrenamed.trans hb.renamed⟩

/-- The settings change by declarations only. -/
theorem Edit.keeps_apply {edit : Edit} (hedit : edit.Storable)
    (hcounts : ∀ table rows, edit ≠ .declaredRows table rows) : Keeps edit.apply where
  settings_eq {b after answer} h := by
    have hadjust : (edit.adjust b).settings = b.settings := by
      cases edit with
      | declaredRows table rows => exact absurd rfl (hcounts table rows)
      | omitStream name => exact hedit.elim
      | renameStream name newName => exact hedit.elim
      | _ => rfl
    exact (congrArg settings (Edit.changes_of_apply h).frame).trans hadjust

theorem Plain.apply {b after : Builder}
    {edit : Edit} {answer : Option UInt32} (hb : b.Plain) (hedit : edit.Storable)
    (h : edit.apply b = .ok answer after) : after.Plain := by
  by_cases hcounts : ∀ table rows, edit ≠ .declaredRows table rows
  · exact hb.congr ((Edit.keeps_apply hedit hcounts).settings_eq h)
  · simp only [ne_eq, not_forall, not_not] at hcounts
    obtain ⟨table, rows, rfl⟩ := hcounts
    obtain ⟨-, rfl⟩ := EStateM.Result.ok.inj h
    refine ⟨fun d hd => ?_, hb.omitted, hb.renamed⟩
    rcases List.mem_append.1 hd with hbefore | hlast
    · exact hb.declaredRows d hbefore
    · rw [List.mem_singleton.1 hlast]
      exact hedit

theorem plain_of_run {edits : List Edit} {b : Builder}
    (hedits : ∀ edit ∈ edits, edit.Storable)
    (h : Edit.run edits empty = .ok b) : b.Plain :=
  Edit.kept_of_applyAll (P := Plain) (fun edit hmem _ _ _ hb hedit =>
    hb.apply (hedits edit hmem) hedit) plain_empty (Edit.run_eq_ok_iff.1 h)

/-! ### Columns -/

theorem narrow_eq_hold (wide : Bool) (n : UInt32) :
    narrow wide n = IndexWidths.hold (IndexWidths.ofWide wide) n := by
  cases wide with
  | true => rfl
  | false =>
      apply UInt32.toNat_inj.1
      simp [narrow, IndexWidths.hold, IndexWidths.ofWide]
      omega

theorem length_column (wide : Bool) (n : UInt32) :
    (column wide n).length = IndexWidths.ofWide wide := by
  cases wide <;> simp [column, word16, word32, IndexWidths.ofWide]

structure Writes (b : Builder) (w : IndexWidths) : Prop where
  strings : ∀ n, (b.heapColumn n).length = w.strings
  guids : ∀ n, (b.heapColumn n).length = w.guids
  blobs : ∀ n, (b.heapColumn n).length = w.blobs
  documents : ∀ n, (b.tableColumn .document n).length = w.documents
  methods : ∀ n, (b.tableColumn .methodDef n).length = w.methods
  imports : ∀ n, (b.tableColumn .importScope n).length = w.imports
  localVariables : ∀ n, (b.tableColumn .localVariable n).length = w.localVariables
  localConstants : ∀ n, (b.tableColumn .localConstant n).length = w.localConstants

theorem writes_widths (b : Builder) : b.Writes b.widths :=
  ⟨length_column _, length_column _, length_column _, length_column _, length_column _,
    length_column _, length_column _, length_column _⟩

/-- What is read of the tables of a builder and of its ties to an assembly. -/
structure ReadBack (b : Builder) (pdb : PdbStream) (tables : Tables) : Prop where
  id : pdb.id.bytes = b.pdbId.bytes
  entryPoint : pdb.entryPoint = b.entryPoint
  referencedRows : pdb.referencedRows = b.referencedRows
  referencedTables : ∀ id, RowCounts.inMask pdb.referencedTables id = true ↔
    b.referencedRows.get id ≠ 0
  /-- Of several counts that were declared for one table the last one holds. -/
  declaredRows : ∀ id, (∀ kind ∈ writtenTables, id ≠ kind.id) →
    tables.header.rows.get id = (b.declaredRows.reverse.lookup id).getD 0
  /-- The widths are those that the reader works out. -/
  rows : ∃ w, w = IndexWidths.ofCounts tables.header.heapSizes tables.header.rows
    pdb.referencedRows ∧ b.Writes w ∧
      tables.documents.rows = b.documents.map (DocumentRow.hold w) ∧
      tables.methods.rows = b.methods.map (MethodRow.hold w) ∧
      tables.scopes.rows = b.scopes.map (ScopeRow.hold w) ∧
      tables.localVariables.rows = b.localVariables.map (VariableRow.hold w) ∧
      tables.localConstants.rows = b.localConstants.map (ConstantRow.hold w)

theorem readBack_stored (b : Builder) : ReadBack b b.storedPdb b.storedTables where
  id := rfl
  entryPoint := rfl
  referencedRows := rfl
  referencedTables id := by
    rw [storedPdb, RowCounts.inMask_maskOf, bne_iff_ne]
  declaredRows id hid := by
    change b.rowCounts.get id = _
    rw [get_rowCounts, addedRows_eq_zero hid]
  rows := by
    refine ⟨b.widths, (ofCounts_eq_widths b).symm, b.writes_widths, ?_, ?_, ?_, ?_, ?_⟩
    · refine Array.map_congr_left fun row _ => ?_
      simp only [storedDocument, narrow_eq_hold]
      rfl
    · refine Array.map_congr_left fun row _ => ?_
      simp only [storedMethod, narrow_eq_hold]
      rfl
    · refine Array.map_congr_left fun row _ => ?_
      simp only [storedScope, narrow_eq_hold]
      rfl
    · refine Array.map_congr_left fun row _ => ?_
      simp only [storedVariable, narrow_eq_hold]
      rfl
    · refine Array.map_congr_left fun row _ => ?_
      simp only [storedConstant, narrow_eq_hold]
      rfl

/-- The rows of a builder and its ties to an assembly are read back, whatever numbers they
hold. -/
theorem readBack_of_run {edits : List Edit} {b : Builder}
    (hrun : Edit.run edits empty = .ok b)
    (hedits : ∀ edit ∈ edits, edit.Storable) (hb : b.Numbered) :
    ∃ pdbBytes tableBytes pdb tables, b.streams.lookup "#Pdb" = some pdbBytes ∧
      b.streams.lookup "#~" = some tableBytes ∧ PdbStream.read.run pdbBytes = .ok pdb ∧
      (Tables.read pdb.referencedRows).run tableBytes = .ok tables ∧
      ReadBack b pdb tables := by
  obtain ⟨hdeclared, homitted, hrenamed⟩ := plain_of_run hedits hrun
  refine ⟨paddedStream b.pdbStream.toByteArray, paddedStream b.tablesStream.toByteArray,
    b.storedPdb, b.storedTables, ?_, ?_, b.run_readPdb, ?_, b.readBack_stored⟩
  · simp [streams_eq homitted hrenamed, allStreams]
  · simp [streams_eq homitted hrenamed, allStreams, List.lookup_cons]
  · exact (consumes_tablesStream hdeclared hb).run
      (by simpa using prefix_paddedStream b.tablesStream.toByteArray)

/-- Rows that point nowhere, with numbers of more than two bytes in every column. The
assembly has many methods, and the file many imports. -/
def pointless : List Edit :=
  [.entryPoint 0x06000001, .referencedRows TableKind.methodDef.id 70000,
    .referencedRows TableKind.document.id 3,
    .declaredRows TableKind.importScope.id 5, .declaredRows TableKind.methodDef.id 0,
    .declaredRows TableKind.importScope.id 70000,
    .documentRow ⟨0x12345, 0x10000, 0xFFFFFFFF, 0x10001⟩, .methodRow ⟨0x10002, 0x20003⟩,
    .scopeRow ⟨0x12345, 0x12345, 0x12345, 0x12345, 0x10000, 0x20000⟩,
    .localConstant "limit"]

/-- The numbers of methods and imports are read as they were added, all others without
their high bytes. -/
theorem readBack_of_run_pointless :
    ∃ (b : Builder) (tableBytes : ByteArray) (pdb : PdbStream) (tables : Tables),
      Edit.run pointless empty = .ok b ∧ b.streams.lookup "#~" = some tableBytes ∧
      (Tables.read pdb.referencedRows).run tableBytes = .ok tables ∧
      pdb.entryPoint = 0x06000001 ∧
      tables.header.rows.get TableKind.importScope.id = 70000 ∧
      tables.documents.rows = #[⟨0x2345, 0, 0xFFFF, 1⟩] ∧
      tables.scopes.rows = #[⟨0x12345, 0x12345, 0x2345, 0x2345, 0x10000, 0x20000⟩] := by
  have hbuilt : ((Edit.run pointless empty).toOption.any fun b =>
      (b.documents = #[⟨0x12345, 0x10000, 0xFFFFFFFF, 0x10001⟩] ∧
        b.scopes = #[⟨0x12345, 0x12345, 0x12345, 0x12345, 0x10000, 0x20000⟩] ∧
        b.declaredRows = [(TableKind.importScope.id, 5), (TableKind.methodDef.id, 0),
          (TableKind.importScope.id, 70000)] ∧ b.entryPoint = 0x06000001) ∧
      (b.methods.size < 2 ^ 32 ∧ b.localVariables.size < 2 ^ 32 ∧
        b.localConstants.size < 2 ^ 32) ∧
      (b.heapColumn 0).length = 2 ∧ (b.tableColumn .methodDef 0).length = 4 ∧
      (b.tableColumn .importScope 0).length = 4 ∧
        (b.tableColumn .localVariable 0).length = 2 ∧
      (b.tableColumn .localConstant 0).length = 2) = true := by
    decide +kernel
  obtain ⟨b, hrun, hb⟩ := Outcome.any_toOption_iff.1 hbuilt
  obtain ⟨⟨hdocuments, hscopes, hdeclared, hentry⟩, ⟨hmethods, hvariables, hconstants⟩,
    hheap, hwide, himports, hlist, hconstantList⟩ := of_decide_eq_true hb
  have hstorable : ∀ edit ∈ pointless, edit.Storable := by
    simp only [pointless, List.forall_mem_cons]
    exact ⟨trivial, trivial, trivial, ⟨by decide, .inl rfl⟩, ⟨by decide, .inr rfl⟩,
      ⟨by decide, .inl rfl⟩, trivial, trivial, trivial, trivial, by simp⟩
  obtain ⟨pdbBytes, tableBytes, pdb, tables, -, htableBytes, -, hread, hback⟩ :=
    readBack_of_run hrun hstorable
      ⟨by simp [hdocuments], hmethods, by simp [hscopes], hvariables, hconstants⟩
  obtain ⟨w, -, hwrites, hreadDocuments, -, hreadScopes, -, -⟩ := hback.rows
  refine ⟨b, tableBytes, pdb, tables, hrun, htableBytes, hread,
    hback.entryPoint.trans hentry, ?_, ?_, ?_⟩
  · rw [hback.declaredRows _ (by decide), hdeclared]
    rfl
  · have hblobs : w.blobs = 2 := (hwrites.blobs 0).symm.trans hheap
    have hguids : w.guids = 2 := (hwrites.guids 0).symm.trans hheap
    rw [hreadDocuments, hdocuments]
    simp only [DocumentRow.hold, hblobs, hguids, List.map_toArray, List.map_cons,
      List.map_nil]
    decide
  · rw [hreadScopes, hscopes]
    simp only [ScopeRow.hold, ← hwrites.methods 0, ← hwrites.imports 0,
      ← hwrites.localVariables 0, ← hwrites.localConstants 0, hwide, himports, hlist,
      hconstantList, List.map_toArray, List.map_cons, List.map_nil]
    decide

/-! ### Tables that are too long -/

/-- The rows that are read have been counted by words. -/
theorem ReadBack.numbered {b : Builder} {tableBytes : ByteArray} {pdb : PdbStream}
    {tables : Tables} (h : ReadBack b pdb tables)
    (hread : (Tables.read pdb.referencedRows).run tableBytes = .ok tables) :
    b.Numbered := by
  obtain ⟨c, hread⟩ := Reader.run_eq_ok_iff.1 hread
  have hcounted := Tables.counted_of_read hread
  obtain ⟨w, -, -, hdocuments, hmethods, hscopes, hvariables, hconstants⟩ := h.rows
  have hsize {α β : Type} {rows : Array α} {f : α → β} {table : Table β} {count : UInt32}
      (hrows : table.rows = rows.map f) (hcount : table.size = count.toNat) :
      rows.size < 2 ^ 32 := by
    have hlt := count.toNat_lt
    rwa [← hcount, Table.size, hrows, Array.size_map] at hlt
  exact ⟨hsize hdocuments hcounted.documents, hsize hmethods hcounted.methods,
    hsize hscopes hcounted.scopes, hsize hvariables hcounted.localVariables,
    hsize hconstants hcounted.localConstants⟩

theorem run_replicate_methodRow (row : MethodRow) (count : Nat) :
    ∃ b, Edit.run (List.replicate count (.methodRow row)) empty = .ok b ∧
      b.methods.size = count := by
  have hstep : ∀ n (b : Builder), b.methods.size = n → ∃ answer after,
      Edit.apply (.methodRow row) b = .ok answer after ∧ after.methods.size = n + 1 :=
    fun n b hb => ⟨_, _, rfl, by simp [hb]⟩
  obtain ⟨b, hrun, hsize⟩ := Edit.applyAll_replicate hstep count (n := 0) (b := empty) rfl
  exact ⟨b, Edit.run_eq_ok_iff.2 hrun, by rw [hsize, Nat.zero_add]⟩

/-- One method more than a word counts. Its rows are written, and a count of zero before
them. -/
theorem not_readBack_of_full :
    ∃ b, Edit.run (List.replicate (2 ^ 32) (.methodRow ⟨0, 1⟩)) empty = .ok b ∧
      (∀ edit ∈ List.replicate (2 ^ 32) (.methodRow ⟨0, 1⟩), Edit.Storable edit) ∧
      ¬∃ pdbBytes tableBytes pdb tables, b.streams.lookup "#Pdb" = some pdbBytes ∧
        b.streams.lookup "#~" = some tableBytes ∧ PdbStream.read.run pdbBytes = .ok pdb ∧
        (Tables.read pdb.referencedRows).run tableBytes = .ok tables ∧
        ReadBack b pdb tables := by
  obtain ⟨b, hrun, hsize⟩ := run_replicate_methodRow ⟨0, 1⟩ (2 ^ 32)
  refine ⟨b, hrun, fun edit hedit => ?_, ?_⟩
  · rw [List.eq_of_mem_replicate hedit]
    trivial
  · rintro ⟨-, tableBytes, pdb, tables, -, -, -, hread, hback⟩
    exact (hback.numbered hread).methods.ne hsize

end Builder

end PortablePdb
