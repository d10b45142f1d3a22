import PortablePdb.Proofs.Builder.Acceptance
import PortablePdb.Proofs.Builder.Changes
import PortablePdb.Proofs.Scope.Rows

/-!
Where the lists of added scopes begin. A scope that nothing is added behind begins one row
behind the end of a table, and the width of the columns that name the row follows from the
size of the table alone. So the two meet at `0xFFFF` rows: behind these a list begins at a
row that its column does not hold, and the file is refused. At every other size the lists
are read as they were added, and the file is accepted (`accepted_iff_not_overflows`).
-/

namespace PortablePdb

def ScopeList.added (edits : List Builder.Edit) : ScopeList → Nat
  | localVariables => (edits.filterMap Builder.Edit.addedVariable?).length
  | localConstants => (edits.filterMap Builder.Edit.addedConstant?).length

theorem ScopeList.added_append (list : ScopeList) (edits more : List Builder.Edit) :
    list.added (edits ++ more) = list.added edits + list.added more := by
  cases list <;> simp [added]

namespace Builder

/-- Behind the last row of a list a scope is added, and there are as many rows as a column
of two bytes can count. -/
structure Edit.Overflows (edits : List Edit) (list : ScopeList) : Prop where
  full : list.added edits = 0xFFFF
  last : ∃ before owner startOffset length rest,
    edits = before ++ .scope owner startOffset length :: rest ∧
    list.added rest = 0

/-! ### Rows -/

def scopeRowFrom (variableRow constantRow : Nat) (before : List Edit)
    (owner startOffset length : UInt32) : ScopeRow where
  method := owner
  importScope := 0
  variableList := (variableRow + ScopeList.localVariables.added before).toUInt32
  constantList := (constantRow + ScopeList.localConstants.added before).toUInt32
  startOffset := startOffset
  length := length

theorem mem_map_rowOfScope_iff {edits : List Edit} {row : ScopeRow} :
    ∀ {first variableRow constantRow : Nat},
      row ∈ (Edit.scopesFrom first variableRow constantRow edits).map rowOfScope ↔
      ∃ before owner startOffset length rest,
        edits = before ++ .scope owner startOffset length :: rest ∧
        row = scopeRowFrom variableRow constantRow before owner startOffset length := by
  intro first variableRow constantRow
  constructor
  · induction edits generalizing first variableRow constantRow with
    | nil => simp [Edit.scopesFrom]
    | cons edit rest ih =>
        intro h
        -- Whatever edit comes first, it stands in front of the scopes of the rest.
        have hrest {v c : Nat}
            (hmem : row ∈ (Edit.scopesFrom first v c rest).map rowOfScope ∨
              row ∈ (Edit.scopesFrom (first + 1) v c rest).map rowOfScope)
            (hshift : ∀ before owner startOffset length,
              scopeRowFrom v c before owner startOffset length = scopeRowFrom variableRow
              constantRow (edit :: before) owner startOffset length) :
            ∃ before owner startOffset length more,
              edit :: rest = before ++ .scope owner startOffset length :: more ∧ row =
              scopeRowFrom variableRow constantRow before owner startOffset length := by
          obtain ⟨before, owner, startOffset, length, more, rfl, rfl⟩ := hmem.elim ih ih
          exact ⟨edit :: before, owner, startOffset, length, more, rfl, hshift _ _ _ _⟩
        cases edit with
        | scope owner startOffset length =>
            rcases List.mem_cons.1 h with rfl | hmem
            · exact ⟨[], owner, startOffset, length, rest,
                rfl, by simp [rowOfScope, scopeRowFrom, ScopeList.added]⟩
            · exact hrest (.inr hmem) fun _ _ _ _ => rfl
        | localVariable name slot attributes =>
            refine hrest (.inl h) fun before _ _ _ => ?_
            simp [scopeRowFrom, ScopeList.added, List.filterMap_cons, Edit.addedVariable?,
              Edit.addedConstant?, Nat.add_right_comm, Nat.add_assoc]
        | localConstant name =>
            refine hrest (.inl h) fun before _ _ _ => ?_
            simp [scopeRowFrom, ScopeList.added, List.filterMap_cons, Edit.addedVariable?,
              Edit.addedConstant?, Nat.add_right_comm, Nat.add_assoc]
        | _ => exact hrest (.inl h) fun _ _ _ _ => rfl
  · rintro ⟨before, owner, startOffset, length, rest, rfl, rfl⟩
    rw [map_rowOfScope_append]
    refine List.mem_append_right _ (List.mem_cons.2 (.inl ?_))
    simp [rowOfScope, scopeRowFrom, ScopeList.added]

theorem first_scopeRowFrom (list : ScopeList) {before : List Edit}
    {owner startOffset length : UInt32} (h : list.added before + 1 < 2 ^ 32) :
    list.first (scopeRowFrom 1 1 before owner startOffset length) =
      list.added before + 1 := by
  have hword (count : Nat)
      (hcount : count + 1 < 2 ^ 32) : (1 + count).toUInt32.toNat = count + 1 := by
    rw [toNat_toUInt32 (by omega), Nat.add_comm]
  cases list with
  | localVariables => exact hword _ h
  | localConstants => exact hword _ h

/-! ### Columns -/

/-- Whether the column of a list is wide follows from the size of its table if the
assembly tells nothing. -/
theorem wideTable_of_written {b : Builder} {kind : TableKind} (hkind : kind ∈ writtenTables)
    (hdeclared : b.declaredRows = []) (hreferenced : b.referencedRows = .zero) :
    b.wideTable kind = decide (0xFFFF < (b.addedRows kind.id).toNat) := by
  have hzero : (RowCounts.zero.get kind.id : UInt32) = 0 := by
    simp [RowCounts.zero, Vector.get]
  rw [wideTable, rowCounts_of_written (by simp [hdeclared]) hkind, hreferenced, hzero]
  simp [UInt32.lt_iff_toNat_lt]

theorem toNat_narrow_false (n : UInt32) : (narrow false n).toNat = n.toNat % 2 ^ 16 := by
  simp [narrow]

section Holds

variable {b : Builder} {edits : List Edit} (hb : b.Holds edits)
include hb

theorem Holds.mem_scopes_iff {row : ScopeRow} :
    row ∈ b.scopes ↔ ∃ before owner startOffset length rest,
      edits = before ++ .scope owner startOffset length :: rest ∧
        row = scopeRowFrom 1 1 before owner startOffset length := by
  rw [← Array.mem_toList_iff, hb.scopes, mem_map_rowOfScope_iff]

theorem Holds.added_eq (list : ScopeList) :
    list.added edits = list.size b.storedTables := by
  cases list with
  | localVariables => simp [ScopeList.added, ScopeList.size, storedTables, Table.size,
    hb.localVariables.length_eq]
  | localConstants => simp [ScopeList.added, ScopeList.size, storedTables, Table.size,
    hb.localConstants.length_eq]

theorem Holds.added_lt (hcountable : b.Countable) (list : ScopeList) :
    list.added edits + 1 < 2 ^ 32 := by
  rw [hb.added_eq]
  cases list with
  | localVariables =>
    simpa [ScopeList.size, storedTables, Table.size] using hcountable.localVariables
  | localConstants =>
    simpa [ScopeList.size, storedTables, Table.size] using hcountable.localConstants

variable (hreferenced : b.referencedRows = .zero) (hcountable : b.Countable)
include hreferenced hcountable

theorem Holds.wideTable_eq (list : ScopeList) :
    b.wideTable list.table = decide (0xFFFF < list.added edits) := by
  have hlt := hb.added_lt hcountable list
  have hword : (b.addedRows list.table.id).toNat = list.added edits := by
    rw [hb.added_eq]
    cases list with
    | localVariables =>
        refine (toNat_toUInt32 hcountable.numbered.localVariables).trans ?_
        simp [ScopeList.size, storedTables, Table.size]
    | localConstants =>
        refine (toNat_toUInt32 hcountable.numbered.localConstants).trans ?_
        simp [ScopeList.size, storedTables, Table.size]
  have hwritten : list.table ∈ writtenTables := by cases list <;> decide
  rw [wideTable_of_written hwritten hb.declaredRows hreferenced, hword]

/-- A row is named that its column does not hold exactly if a scope is added behind the
last of `0xFFFF` rows. -/
theorem Holds.overflows_iff (list : ScopeList) :
    Edit.Overflows edits list ↔
      ∃ row ∈ b.scopes, b.wideTable list.table = false ∧ 0xFFFF < list.first row := by
  have hlt := hb.added_lt hcountable list
  rw [hb.wideTable_eq hreferenced hcountable, decide_eq_false_iff_not]
  constructor
  · rintro ⟨hfull, before, owner, startOffset, length, rest, hedits, hlast⟩
    have hsum := list.added_append before (.scope owner startOffset length :: rest)
    have hrest : list.added (.scope owner startOffset length :: rest) =
      list.added rest := by cases list <;> rfl
    rw [← hedits] at hsum
    refine ⟨_, hb.mem_scopes_iff.2 ⟨before, owner, startOffset, length, rest, hedits,
      rfl⟩, by omega, ?_⟩
    rw [first_scopeRowFrom list (by omega)]
    omega
  · rintro ⟨row, hrow, hnarrow, hfirst⟩
    obtain ⟨before, owner, startOffset, length, rest, hedits, rfl⟩ :=
      hb.mem_scopes_iff.1 hrow
    have hsum := list.added_append before (.scope owner startOffset length :: rest)
    have hrest : list.added (.scope owner startOffset length :: rest) =
      list.added rest := by cases list <;> rfl
    rw [← hedits] at hsum
    rw [first_scopeRowFrom list (by omega)] at hfirst
    exact ⟨by omega, before, owner, startOffset, length, rest, hedits, by omega⟩

theorem Holds.fits (hwide : b.wideHeaps = true)
    (howners : ∀ owner marks, Edit.method owner marks ∈ edits →
      owner.toNat ≤ (edits.filterMap Edit.addedDocument?).length)
    (hscopes : ∀ owner startOffset length, Edit.scope owner startOffset length ∈ edits →
      owner.toNat ≤ 0xFFFF) (hlists : ∀ list, ¬Edit.Overflows edits list) : b.Fits := by
  have hheap (n : UInt32) : FitsColumn b.wideHeaps n := .inl hwide
  refine ⟨fun _ _ => ⟨hheap _, hheap _, hheap _, hheap _⟩, fun row hrow => ⟨?_, hheap _⟩,
    fun row hrow => ?_, fun _ _ => hheap _, fun _ _ => ⟨hheap _, hheap _⟩⟩
  · obtain ⟨m, hm, hstored⟩ :=
      Outcome.exists_of_forall₂ hb.methods row (Array.mem_toList_iff.2 hrow)
    have howner := howners m.1 m.2 (Edit.mem_filterMap_addedMethod?.1 hm)
    rw [hb.documents.length_eq, Array.length_toList] at howner
    have hcount : (b.addedRows TableKind.document.id).toNat = b.documents.size :=
      toNat_toUInt32 (Nat.lt_of_succ_lt hcountable.documents)
    rw [FitsColumn, wideTable_of_written (by decide) hb.declaredRows hreferenced, hcount,
      decide_eq_true_eq, hstored.document]
    omega
  · have hfits (list : ScopeList) : b.wideTable list.table = true ∨
        list.first row ≤ 0xFFFF := by
      by_contra hnot
      obtain ⟨hnarrow, hfirst⟩ := not_or.1 hnot
      exact hlists list ((hb.overflows_iff hreferenced hcountable list).2
        ⟨row, hrow, Bool.eq_false_of_not_eq_true hnarrow, Nat.lt_of_not_le hfirst⟩)
    obtain ⟨before, owner, startOffset, length, rest, hedits, rfl⟩ :=
      hb.mem_scopes_iff.1 hrow
    exact ⟨.inr (hscopes owner startOffset length (by simp [hedits])),
      .inr (Nat.zero_le _), hfits .localVariables, hfits .localConstants⟩

/-- A list that overflows is read as one that begins at row zero, and no scope is built of
that. -/
theorem Holds.not_buildAll_of_overflows {list : ScopeList}
    (h : Edit.Overflows edits list) (heaps : Heaps)
    (scopes : List (Nat × Scope)) : Scope.buildAll heaps b.storedTables ≠ .ok scopes := by
  intro hbuilt
  have hlt := hb.added_lt hcountable list
  obtain ⟨row, hrow, hnarrow, hfirst⟩ := (hb.overflows_iff hreferenced hcountable list).1 h
  have hexact : list.first row = 0x10000 := by
    obtain ⟨before, owner, startOffset, length, rest, hedits, rfl⟩ :=
      hb.mem_scopes_iff.1 hrow
    have hsum := list.added_append before (.scope owner startOffset length :: rest)
    have hfull := h.full
    rw [← hedits] at hsum
    rw [first_scopeRowFrom list (by omega)] at hfirst ⊢
    omega
  have hzero : list.first (b.storedScope row) = 0 := by
    cases list with
    | localVariables =>
        change (narrow (b.wideTable .localVariable) row.variableList).toNat = 0
        rw [show b.wideTable .localVariable = false from hnarrow, toNat_narrow_false]
        exact congrArg (· % 2 ^ 16) hexact
    | localConstants =>
        change (narrow (b.wideTable .localConstant) row.constantList).toNat = 0
        rw [show b.wideTable .localConstant = false from hnarrow, toNat_narrow_false]
        exact congrArg (· % 2 ^ 16) hexact
  have hmem : list.first (b.storedScope row) ∈ list.firsts b.storedTables :=
    List.mem_map_of_mem (Array.mem_toList_iff.2 (Array.mem_map_of_mem hrow))
  have hpos := ((Scope.inOrder_of_buildAll hbuilt list).within _ hmem).1
  omega

end Holds

/-- A file with a list that overflows is not accepted. -/
theorem Holds.not_parse_of_overflows {b : Builder} {edits : List Edit}
    (hb : b.Holds edits) (hreferenced : b.referencedRows = .zero)
    (hsize : b.build.size < 2 ^ 32) {list : ScopeList}
    (h : Edit.Overflows edits list) (file : File) : File.parse b.build ≠ .ok file := by
  intro hparse
  obtain ⟨heaps, hparsed⟩ := File.parse_eq_ok_iff.1 hparse
  obtain ⟨-, scopes, hbuilt, -⟩ := Document.buildAll_eq_ok_iff.1 hparsed.documents
  have hcountable := countable_of_size_build hb.omitted hb.renamed hsize
  rw [tables_of_parsed hb.omitted hb.renamed hsize hparsed
    (by simp [hb.declaredRows]) hcountable] at hbuilt
  exact hb.not_buildAll_of_overflows hreferenced hcountable h heaps scopes hbuilt

/-! ### Settings -/

namespace Edit

variable {b after : Builder} {edit : Edit} {answer : Option UInt32}

/-- Heaps that have become wide stay wide. -/
theorem wideHeaps_of_apply (hb : b.wideHeaps = true ∨ edit = .wideHeaps)
    (h : edit.apply b = .ok answer after) : after.wideHeaps = true := by
  rw [(changes_of_apply h).frame]
  change (edit.adjust b).wideHeaps = true
  rcases hb with hb | rfl
  · cases edit <;> first | exact hb | rfl
  · rfl

theorem wideHeaps_of_run {edits : List Edit} (hwide : .wideHeaps ∈ edits)
    (h : run edits b = .ok after) : after.wideHeaps = true := by
  obtain ⟨i, hi⟩ := List.mem_iff_getElem?.1 hwide
  obtain ⟨_, _, _, -, hedit, hrest, -⟩ := apply_of_applyAll (run_eq_ok_iff.1 h) hi
  exact kept_of_applyAll (P := fun b => b.wideHeaps = true) (fun _ _ _ _ _ hb =>
    wideHeaps_of_apply (.inl hb)) (wideHeaps_of_apply (.inr rfl) hedit) hrest

theorem referencedRows_of_run {edits : List Edit}
    (hedits : ∀ table rows, .referencedRows table rows ∉ edits)
    (h : run edits b = .ok after) : after.referencedRows = b.referencedRows := by
  refine kept_of_applyAll
    (P := fun last => last.referencedRows = b.referencedRows) ?_ rfl (run_eq_ok_iff.1 h)
  intro edit hmem before answer after hbefore hedit
  rw [(changes_of_apply hedit).frame]
  change (edit.adjust before).referencedRows = b.referencedRows
  cases edit with
  | referencedRows table rows => exact absurd hmem (hedits table rows)
  | _ => exact hbefore

end Edit

/-! ### The last scope behind many variables -/

/-- A method with a scope that owns many variables and another one that owns none. -/
def crowdedScope (count : Nat) : List Edit :=
  [.wideHeaps, .document "a.cs" Guid.nil, .method 1 [], .scope 1 0 1] ++
    (List.replicate count (.localVariable .empty 0 0) ++ [.scope 1 0 1])

theorem mem_crowdedScope {count : Nat} {edit : Edit} (h : edit ∈ crowdedScope count) :
    edit = .wideHeaps ∨ edit = .document "a.cs" Guid.nil ∨ edit = .method 1 [] ∨
      edit = .scope 1 0 1 ∨ edit = .localVariable .empty 0 0 := by
  simp only [crowdedScope, List.mem_append, List.mem_cons, List.not_mem_nil, or_false,
    List.mem_replicate] at h
  tauto

theorem wideHeaps_mem_crowdedScope (count : Nat) : .wideHeaps ∈ crowdedScope count :=
  List.mem_append_left _ List.mem_cons_self

theorem describable_crowdedScope (count : Nat) :
    ∀ edit ∈ crowdedScope count, edit.Describable := by
  have hnone : SequencePoint.Mark.Valid [] := by
    constructor <;> simp [SequencePoint.Mark.points, SequencePoint.Mark.spans]
  intro edit hedit
  rcases mem_crowdedScope hedit with rfl | rfl | rfl | rfl | rfl
  · trivial
  · trivial
  · exact ⟨hnone, by simp⟩
  · change (1 : UInt32) ≠ 0
    decide
  · exact ⟨String.isValidUTF8 "", by simp⟩

theorem owners_crowdedScope (count : Nat) (owner : UInt32) (marks : List SequencePoint.Mark)
    (h : .method owner marks ∈ crowdedScope count) :
    owner.toNat ≤ ((crowdedScope count).filterMap Edit.addedDocument?).length := by
  obtain ⟨rfl, rfl⟩ : owner = 1 ∧ marks = [] := by simpa using mem_crowdedScope h
  simp [crowdedScope, List.filterMap_cons, Edit.addedDocument?]

theorem scopes_crowdedScope (count : Nat) (owner startOffset length : UInt32)
    (h : .scope owner startOffset length ∈ crowdedScope count) : owner.toNat ≤ 0xFFFF := by
  obtain ⟨rfl, -, -⟩ : owner = 1 ∧ startOffset = 0 ∧
    length = 1 := by simpa using mem_crowdedScope h
  decide

/-- Heaps and rows of no more than a number of bytes, in streams with their usual
names. -/
structure AtMost (b : Builder) (size : Nat) : Prop where
  size_le : b.strings.size + b.blobs.size + b.guids.size + b.wideSize ≤ size
  omitted : b.omitted = []
  renamed : b.renamed = []

theorem AtMost.addVariable {b : Builder} {size : Nat} (hb : b.AtMost size) :
    ∃ answer after, Edit.apply (.localVariable .empty 0 0) b = .ok answer after ∧
      after.AtMost (size + 9) := by
  refine ⟨_, _, rfl, ?_, hb.omitted, hb.renamed⟩
  have hsize := hb.size_le
  simp only [wideSize, Array.size_push, ByteArray.size_append, List.size_toByteArray,
    ByteArray.size_empty, List.length_singleton] at hsize ⊢
  omega

theorem run_crowdedScope {count : Nat} (hcount : count < 2 ^ 28) :
    ∃ b, Edit.run (crowdedScope count) empty = .ok b ∧ b.build.size < 2 ^ 32 := by
  have hfirst :
      ((Edit.run [.wideHeaps, .document "a.cs" Guid.nil, .method 1 [], .scope 1 0 1]
        empty).toOption.any fun b =>
        b.strings.size + b.blobs.size + b.guids.size + b.wideSize ≤ 100 ∧
        b.omitted = [] ∧ b.renamed = []) = true := by
    decide +kernel
  obtain ⟨b, hrun, hb⟩ := Outcome.any_toOption_iff.1 hfirst
  obtain ⟨hsmall, homitted, hrenamed⟩ := of_decide_eq_true hb
  obtain ⟨b₁, hvariables, hb₁⟩ :=
    Edit.applyAll_replicate (P := fun n b => b.AtMost (100 + 9 * n))
      (fun n b hb => hb.addVariable) count (n := 0) ⟨hsmall, homitted, hrenamed⟩
  have hlast : Edit.run (crowdedScope count) empty = .ok
      { b₁ with scopes := b₁.scopes.push ⟨1, 0, b₁.localVariables.size.toUInt32 + 1,
                  b₁.localConstants.size.toUInt32 + 1, 0, 1⟩ } := by
    rw [Edit.run_eq_ok_iff, crowdedScope, Edit.applyAll_append (Edit.run_eq_ok_iff.1 hrun),
      Edit.applyAll_append hvariables]
    rfl
  refine ⟨_, hlast, Nat.lt_of_le_of_lt (size_build_le hb₁.omitted hb₁.renamed) ?_⟩
  have hsize := hb₁.size_le
  simp only [wideSize, Array.size_push] at hsize ⊢
  omega

theorem overflows_crowdedScope_iff (count : Nat) (list : ScopeList) :
    Edit.Overflows (crowdedScope count) list ↔ list = .localVariables ∧ count = 0xFFFF := by
  have hadded : ScopeList.localVariables.added (crowdedScope count) = count := by
    simp [ScopeList.added, crowdedScope, List.filterMap_cons, Edit.addedVariable?]
  have hnone : ScopeList.localConstants.added (crowdedScope count) = 0 := by
    simp [ScopeList.added, crowdedScope, List.filterMap_cons, Edit.addedConstant?]
  constructor
  · rintro ⟨hfull, -⟩
    cases list with
    | localVariables => exact ⟨rfl, hadded.symm.trans hfull⟩
    | localConstants => rw [hnone] at hfull; cases hfull
  · rintro ⟨rfl, hcount⟩
    refine ⟨hadded.trans hcount,
      [.wideHeaps, .document "a.cs" Guid.nil, .method 1 [], .scope 1 0 1] ++
        List.replicate count (.localVariable .empty 0 0), 1, 0, 1, [], ?_, rfl⟩
    rw [crowdedScope, List.append_assoc]

/-! ### Files -/

/-- A file with wide heaps, where no numbers of the assembly are needed, is accepted
exactly if no list overflows. Its scopes are then read as they were added, and own what is
described. -/
theorem accepted_iff_not_overflows {edits : List Edit} {b : Builder}
    (hrun : Edit.run edits empty = .ok b)
    (hedits : ∀ edit ∈ edits, edit.Describable) (hwide : .wideHeaps ∈ edits)
    (hreferenced : ∀ table rows, .referencedRows table rows ∉ edits)
    (howners : ∀ owner marks, .method owner marks ∈ edits →
      owner.toNat ≤ (edits.filterMap Edit.addedDocument?).length)
    (hscopes : ∀ owner startOffset length, .scope owner startOffset length ∈ edits →
      owner.toNat ≤ 0xFFFF) (hsize : b.build.size < 2 ^ 32) :
    ((∃ file, File.parse b.build = .ok file) ↔ ∀ list, ¬Edit.Overflows edits list) ∧
      ∀ file, File.parse b.build = .ok file → file.tables.scopes.rows = b.scopes ∧
        file.documents.toList = Edit.described edits := by
  have hb := holds_of_run hedits hrun
  have hzero : b.referencedRows = .zero := Edit.referencedRows_of_run hreferenced hrun
  have hcountable := countable_of_size_build hb.omitted hb.renamed hsize
  have hyes (hlists : ∀ list, ¬Edit.Overflows edits list) :
      ∃ file, File.parse b.build = .ok file ∧ file.tables.scopes.rows = b.scopes ∧
        file.documents.toList = Edit.described edits := by
    have hfits :=
      hb.fits hzero hcountable (Edit.wideHeaps_of_run hwide hrun) howners hscopes hlists
    obtain ⟨file, hparse, htables, hdocuments⟩ :=
      hb.parse_of_fits hedits howners hfits hsize
    exact ⟨file, hparse, by rw [htables, storedTables_eq hfits], by rw [hdocuments]⟩
  have hno : ∀ file, File.parse b.build = .ok file → ∀ list, ¬Edit.Overflows edits list :=
    fun file hparse list hoverflows =>
      hb.not_parse_of_overflows hzero hsize hoverflows file hparse
  refine ⟨⟨fun ⟨file, hparse⟩ => hno file hparse, fun hlists => ?_⟩, fun file hparse => ?_⟩
  · obtain ⟨file, hparse, -⟩ := hyes hlists
    exact ⟨file, hparse⟩
  · obtain ⟨other, hother, hrows, hdocuments⟩ := hyes (hno file hparse)
    obtain rfl := Except.ok.inj (hother.symm.trans hparse)
    exact ⟨hrows, hdocuments⟩

/-- With one row more, the columns of the list are wide, and the file is accepted. -/
theorem accepted_iff_not_overflows_wide :
    ∃ b file, Edit.run (crowdedScope 0x10000) empty = .ok b ∧
      File.parse b.build = .ok file ∧ file.tables.scopes.rows = b.scopes ∧
      file.documents.toList = Edit.described (crowdedScope 0x10000) := by
  obtain ⟨b, hrun, hsize⟩ := run_crowdedScope (show 0x10000 < 2 ^ 28 by decide)
  obtain ⟨hiff, hread⟩ := accepted_iff_not_overflows hrun (describable_crowdedScope _)
    (wideHeaps_mem_crowdedScope _) (fun table rows h => by simpa using mem_crowdedScope h)
    (owners_crowdedScope _) (scopes_crowdedScope _) hsize
  have hlists (list : ScopeList) : ¬Edit.Overflows (crowdedScope 0x10000) list := by
    rw [overflows_crowdedScope_iff]
    rintro ⟨-, hcount⟩
    cases hcount
  obtain ⟨file, hparse⟩ := hiff.2 hlists
  exact ⟨b, file, hrun, hparse, hread file hparse⟩

/-- A scope behind `0xFFFF` variables makes a file that is refused, though nothing is
wrong with the edits. -/
theorem refused_of_full :
    ∃ b, Edit.run (crowdedScope 0xFFFF) empty = .ok b ∧ b.build.size < 2 ^ 32 ∧
      (∀ edit ∈ crowdedScope 0xFFFF, edit = .wideHeaps ∨
        edit = .document "a.cs" Guid.nil ∨ edit = .method 1 [] ∨
        edit = .scope 1 0 1 ∨ edit = .localVariable .empty 0 0) ∧
      ∃ e, File.parse b.build = .error e := by
  obtain ⟨b, hrun, hsize⟩ := run_crowdedScope (show 0xFFFF < 2 ^ 28 by decide)
  refine ⟨b, hrun, hsize, fun _ => mem_crowdedScope, ?_⟩
  have hb := holds_of_run (describable_crowdedScope _) hrun
  have hzero : b.referencedRows = .zero :=
    Edit.referencedRows_of_run (fun table rows h => by simpa using mem_crowdedScope h) hrun
  have hoverflows := (overflows_crowdedScope_iff 0xFFFF .localVariables).2 ⟨rfl, rfl⟩
  cases hparse : File.parse b.build with
  | error e => exact ⟨e, rfl⟩
  | ok file => exact absurd hparse (hb.not_parse_of_overflows hzero hsize hoverflows file)

end Builder

end PortablePdb
