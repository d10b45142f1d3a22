import PortablePdb.Proofs.Builder.Scopes
import PortablePdb.Proofs.Document.Rows

/-!
The documents of a built file. Heaps and tables that hold what a builder does (`StoredIn`)
are read as the documents that its edits describe. Methods and scopes find their owners by
number on both sides, so it is enough that their rows agree one by one.
-/

namespace PortablePdb

namespace Builder

/-- The tables hold the rows of a builder, and the heaps start with those of the
builder. -/
structure StoredIn (b : Builder) (heaps : Heaps) (tables : Tables) : Prop where
  strings : b.strings.data.toList <+: heaps.strings.data.data.toList
  blobs : b.blobs.data.toList <+: heaps.blobs.data.data.toList
  guids : b.guids.data.toList <+: heaps.guids.data.data.toList
  strings_size : heaps.strings.data.size < 2 ^ 32
  blobs_size : heaps.blobs.data.size < 2 ^ 32
  guids_size : heaps.guids.data.size < 2 ^ 32
  documents : tables.documents.rows = b.documents
  methods : tables.methods.rows = b.methods
  scopes : tables.scopes.rows = b.scopes
  localVariables : tables.localVariables.rows = b.localVariables
  localConstants : tables.localConstants.rows = b.localConstants

section Stored

variable {b : Builder} {edits : List Edit} {heaps : Heaps} {tables : Tables}

theorem variableOf_eq (hstored : b.StoredIn heaps tables) {v : LocalVariable}
    {row : VariableRow} (h : VariableStored b v row) : variableOf heaps row = .ok v := by
  have hname : heaps.strings.get row.name = .ok v.name :=
    h.name _ hstored.strings hstored.strings_size
  rw [variableOf, hname, h.slot, h.hidden]
  rfl

theorem constantOf_eq (hstored : b.StoredIn heaps tables) {c : LocalConstant}
    {row : ConstantRow} (h : ConstantStored b c row) : constantOf heaps row = .ok c := by
  have hname : heaps.strings.get row.name = .ok c.name :=
    h.name _ hstored.strings hstored.strings_size
  rw [constantOf, hname]
  rfl

/-- All edits describe all rows. -/
theorem Holds.remaining (hb : b.Holds edits) (hstored : b.StoredIn heaps tables) :
    Remaining heaps tables 0 0 0 edits where
  scopes := by
    rw [hstored.scopes]
    exact hb.scopes
  localVariables := by
    rw [hstored.localVariables]
    exact hb.localVariables.imp fun _ _ => variableOf_eq hstored
  localConstants := by
    rw [hstored.localConstants]
    exact hb.localConstants.imp fun _ _ => constantOf_eq hstored
  variables_size := by
    rw [Table.size, hstored.localVariables, ← Array.length_toList,
      ← hb.localVariables.length_eq, Nat.zero_add]
  constants_size := by
    rw [Table.size, hstored.localConstants, ← Array.length_toList,
      ← hb.localConstants.length_eq, Nat.zero_add]

theorem Holds.buildAll_scopes (hb : b.Holds edits)
    (hedits : ∀ edit ∈ edits, edit.Describable)
    (hstored : b.StoredIn heaps tables) (hvariables : b.localVariables.size + 1 < 2 ^ 32)
    (hconstants : b.localConstants.size + 1 < 2 ^ 32) :
    Scope.buildAll heaps tables = .ok (Edit.scopesFrom 1 1 1 edits) := by
  have hvariables : tables.localVariables.size + 1 < 2 ^ 32 := by
    rwa [Table.size, hstored.localVariables]
  have hconstants : tables.localConstants.size + 1 < 2 ^ 32 := by
    rwa [Table.size, hstored.localConstants]
  exact (hb.remaining hstored).buildAll hvariables hconstants hedits

/-! ### Methods -/

theorem build_method (hstored : b.StoredIn heaps tables)
    {m : UInt32 × List SequencePoint.Mark} {row : MethodRow}
    (h : MethodStored b m row) (hdocument : m.1 ≠ 0) {index : Nat} (hindex : 1 ≤ index)
    (hle : index ≤ tables.methods.size) (scopes : List (Nat × Scope)) :
    Method.buildShared heaps (Grouping.byNumber tables.methods.size scopes) index row =
      .ok { methodDef := index.toUInt32, points := SequencePoint.Mark.points m.2,
            scopes := Grouping.itemsOf index scopes } := by
  have hpoints : Method.pointsOf heaps index row = .ok (SequencePoint.Mark.points m.2) :=
    h.points hdocument _ hstored.blobs hstored.blobs_size _ _ _
  rw [Method.buildShared, hpoints, Grouping.group_byNumber scopes hindex hle]
  rfl

/-- The rows of the methods of a document are built as the methods that are described.
Those of methods without a document are not built at all. -/
theorem Holds.forall₂_methods (hb : b.Holds edits) (hstored : b.StoredIn heaps tables)
    {document : Nat} (hdocument : document ≠ 0) :
    List.Forall₂ (fun x m => Method.buildShared heaps
        (Grouping.byNumber tables.methods.size (Edit.scopesFrom 1 1 1 edits)) x.1 x.2 =
          .ok m)
      (Document.methodRows tables document)
      (Grouping.itemsOf document (Edit.methods edits)) := by
  rw [Document.methodRows, ← Grouping.itemsOf_map]
  apply Grouping.forall₂_itemsOf hdocument
  have hsize : tables.methods.size = (edits.filterMap Edit.addedMethod?).length := by
    rw [Table.size, hstored.methods, ← Array.length_toList, hb.methods.length_eq]
  rw [Table.entries, hstored.methods, Edit.methods, List.forall₂_map_left_iff,
    List.forall₂_map_left_iff, List.forall₂_map_right_iff]
  refine ((Grouping.forall₂_zipIdx hb.methods 1).imp ?_).flip
  rintro ⟨⟨owner, marks⟩, index⟩ ⟨row, _⟩ ⟨hrow, rfl, hindex, hlt⟩
  refine ⟨congrArg UInt32.toNat hrow.document, fun hdocument => ?_⟩
  have howner : owner ≠ 0 := by
    rintro rfl
    exact hdocument (congrArg UInt32.toNat hrow.document)
  exact build_method hstored hrow howner hindex (by omega) _

/-! ### Documents -/

theorem Holds.size_documents (hb : b.Holds edits) (hstored : b.StoredIn heaps tables) :
    tables.documents.size = (edits.filterMap Edit.addedDocument?).length := by
  rw [Table.size, hstored.documents, ← Array.length_toList, hb.documents.length_eq]

theorem Holds.ownersExist (hb : b.Holds edits) (hstored : b.StoredIn heaps tables)
    (howners : ∀ m ∈ edits.filterMap Edit.addedMethod?,
      m.1.toNat ≤ (edits.filterMap Edit.addedDocument?).length) :
    Document.OwnersExist tables := by
  intro index row hget
  have hrow : row ∈ b.methods.toList := by
    rw [← hstored.methods, Array.mem_toList_iff]
    cases index with
    | zero => simp at hget
    | succ i => exact Array.mem_of_getElem? (by rwa [Table.get?_succ] at hget)
  obtain ⟨m, hm, hstoredMethod⟩ := Outcome.exists_of_forall₂ hb.methods row hrow
  rw [hb.size_documents hstored, hstoredMethod.document]
  exact howners m hm

theorem built_document (hstored : b.StoredIn heaps tables) {d : Document}
    {row : DocumentRow} (h : DocumentStored b d row) {index : Nat}
    {scopes : Array (List Scope)} {rows : List (Nat × MethodRow)} {methods : List Method}
    (hmethods : List.Forall₂
      (fun x m => Method.buildShared heaps scopes x.1 x.2 = .ok m) rows methods) :
    Document.Built heaps scopes index row rows
      { d with index := index, methods := methods } where
  index_eq := rfl
  path := h.path _ hstored.blobs hstored.blobs_size
  language := h.language _ hstored.guids hstored.guids_size
  hashAlgorithm := h.hashAlgorithm _ hstored.guids hstored.guids_size
  hash := h.hash _ hstored.blobs hstored.blobs_size
  methods := hmethods

theorem Holds.buildAll_documents (hb : b.Holds edits)
    (hedits : ∀ edit ∈ edits, edit.Describable)
    (hstored : b.StoredIn heaps tables) (hvariables : b.localVariables.size + 1 < 2 ^ 32)
    (hconstants : b.localConstants.size + 1 < 2 ^ 32)
    (howners : ∀ m ∈ edits.filterMap Edit.addedMethod?,
      m.1.toNat ≤ (edits.filterMap Edit.addedDocument?).length) :
    Document.buildAll heaps tables = .ok (Edit.described edits) := by
  have hscopes := hb.buildAll_scopes hedits hstored hvariables hconstants
  refine Document.buildAll_eq_ok_iff.2 ⟨hb.ownersExist hstored howners, _, hscopes, ?_⟩
  have hsize := hb.size_documents hstored
  -- Rows come with their numbers and descriptions are numbered by their places, so they
  -- are compared place by place.
  refine List.forall₂_iff_get.2 ⟨?_, fun i hi hi' => ?_⟩
  · simp [Table.length_entries, Edit.described, hsize]
  · have hrow : i < b.documents.size := by
      rwa [Table.length_entries, Table.size, hstored.documents] at hi
    have hdocument := hb.documents.get (i := i) (by simpa [Edit.described] using hi')
      (by simpa using hrow)
    simp only [List.get_eq_getElem, Table.entries, List.getElem_map, List.getElem_zipIdx,
      Edit.described, Array.getElem_toList, hstored.documents, Nat.add_comm 1]
    exact built_document hstored hdocument (hb.forall₂_methods hstored (Nat.succ_ne_zero i))

end Stored

end Builder

end PortablePdb
