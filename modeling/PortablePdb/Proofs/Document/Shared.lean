import PortablePdb.Document
import PortablePdb.Proofs.Grouping
import PortablePdb.Proofs.Taking

/-!
Every method gets its own scopes. Documents are built by taking the scopes of a method out
of those that are left, and no method is visited twice. So the documents are the same as
if the scopes of all methods stayed in their groups (`buildAll_eq_shared`), and what is
proved of documents is proved of these.
-/

namespace PortablePdb

/-- The method of a row, with scopes that stay in their group. -/
def Method.buildShared (heaps : Heaps) (scopes : Array (List Scope)) (index : Nat)
    (row : MethodRow) : Except FormatError Method := do
  let points ← pointsOf heaps index row
  return { methodDef := index.toUInt32, points, scopes := Grouping.group index scopes }

theorem Method.takes_build (heaps : Heaps) (scopes : Array (List Scope)) (index : Nat)
    (row : MethodRow) :
    Grouping.Takes scopes [index] (build heaps index row)
      (buildShared heaps scopes index row) :=
  .lift_bind fun _ => (Grouping.Takes.take index).bind_pure _

namespace Document

def buildShared (heaps : Heaps) (scopes : Array (List Scope))
    (index : Nat) (row : DocumentRow)
    (methodRows : List (Nat × MethodRow)) : Except FormatError Document := do
  let path ← heaps.blobs.documentName row.name
  let language ← languageOf heaps.guids row.language
  let hashAlgorithm ← hashAlgorithmOf heaps.guids row.hashAlgorithm
  let hash ← heaps.blobs.get row.hash
  let methods ← methodRows.mapM fun entry => Method.buildShared heaps scopes entry.1 entry.2
  return { index, path, language, hashAlgorithm, hash, methods }

theorem takes_build (heaps : Heaps) (scopes : Array (List Scope)) (index : Nat)
    (row : DocumentRow)
    {methodRows : List (Nat × MethodRow)} (hnodup : (methodRows.map (·.1)).Nodup) :
    Grouping.Takes scopes (methodRows.map (·.1)) (build heaps index row methodRows)
      (buildShared heaps scopes index row methodRows) := by
  rw [List.map_eq_flatMap] at hnodup ⊢
  exact .lift_bind fun _ => .lift_bind fun _ => .lift_bind fun _ => .lift_bind fun _ =>
    (Grouping.Takes.mapM
      (fun entry _ => Method.takes_build heaps scopes entry.1 entry.2) hnodup).bind_pure _

/-! ### Methods of documents -/

variable {tables : Tables}

def methodRows (tables : Tables) (document : Nat) : List (Nat × MethodRow) :=
  tables.methods.entries.filter fun entry => entry.2.document.toNat = document

theorem mem_methodRows_iff {document index : Nat} {row : MethodRow} :
    (index, row) ∈ methodRows tables document ↔
      tables.methods.get? index = some row ∧ row.document.toNat = document := by
  simp [methodRows, Table.mem_entries_iff]

theorem pairwise_methodRows (tables : Tables) (document : Nat) :
    (methodRows tables document).Pairwise fun x y => x.1 < y.1 :=
  tables.methods.pairwise_entries.filter _

/-- A method names one document only. -/
theorem nodup_methodRows (tables : Tables) {documents : List Nat} (h : documents.Nodup) :
    (documents.flatMap fun document => (methodRows tables document).map (·.1)).Nodup := by
  rw [List.nodup_flatMap]
  constructor
  · intro document _
    rw [List.Nodup, List.pairwise_map]
    exact (pairwise_methodRows tables document).imp Nat.ne_of_lt
  · refine h.imp fun {d e} hne i hi hi' => ?_
    obtain ⟨⟨index, row⟩, hrow, rfl⟩ := List.mem_map.1 hi
    obtain ⟨⟨index', row'⟩, hrow', rfl⟩ := List.mem_map.1 hi'
    obtain ⟨hget, howner⟩ := mem_methodRows_iff.1 hrow
    obtain ⟨hget', howner'⟩ := mem_methodRows_iff.1 hrow'
    obtain rfl := Option.some.inj (hget.symm.trans hget')
    exact hne (howner.symm.trans howner')

def OwnersExist (tables : Tables) : Prop :=
  ∀ index row, tables.methods.get? index = some row →
    row.document.toNat ≤ tables.documents.size

theorem rowsByDocument_eq_ok_iff {groups : Array (List (Nat × MethodRow))} :
    rowsByDocument tables = .ok groups ↔
      OwnersExist tables ∧ groups = Grouping.byNumber tables.documents.size
        (tables.methods.entries.map fun entry => (entry.2.document.toNat, entry)) := by
  rw [rowsByDocument]
  split
  case h_1 index row hfind =>
    have hlt := List.find?_some hfind
    have hmem := Table.mem_entries_iff.1 (List.mem_of_find?_eq_some hfind)
    simp only [decide_eq_true_eq] at hlt
    constructor
    · intro h
      cases h
    · rintro ⟨howners, -⟩
      exact absurd (howners index row hmem) (Nat.not_le.2 hlt)
  case h_2 hfind =>
    have howners : OwnersExist tables := by
      intro index row hrow
      simpa using List.find?_eq_none.1 hfind _ (Table.mem_entries_iff.2 hrow)
    simp [howners, eq_comm]

/-- The first method whose document is not there makes the error. -/
theorem rowsByDocument_eq_error {index : Nat} {row : MethodRow}
    (hrow : tables.methods.get? index = some row)
    (hlt : tables.documents.size < row.document.toNat)
    (hfirst : ∀ earlier < index, ∀ r, tables.methods.get? earlier = some r →
      r.document.toNat ≤ tables.documents.size) :
    rowsByDocument tables = .error (.invalidRowIndex .document row.document.toNat) := by
  have hfind : tables.methods.entries.find?
      (fun entry => tables.documents.size < entry.2.document.toNat) =
      some (index, row) := by
    obtain ⟨i, rfl⟩ : ∃ i, index = i + 1 :=
      Nat.exists_eq_succ_of_ne_zero (by rintro rfl; simp at hrow)
    have hentry : tables.methods.entries[i]? =
      some (i + 1, row) := by rw [Table.getElem?_entries, hrow]; rfl
    obtain ⟨hi, hget⟩ := List.getElem?_eq_some_iff.1 hentry
    refine List.find?_eq_some_iff_getElem.2
      ⟨by simpa using hlt, i, hi, hget, fun j hj => ?_⟩
    have hj' : tables.methods.entries[j]? = some tables.methods.entries[j] :=
      List.getElem?_eq_getElem _
    rw [Table.getElem?_entries] at hj'
    obtain ⟨r, hr, heq⟩ := Option.map_eq_some_iff.1 hj'
    rw [← heq]
    simpa using hfirst (j + 1) (by omega) r hr
  rw [rowsByDocument]
  simp only [hfind]

/-- The rows of the documents, each with those of its methods. -/
theorem zip_rowsByDocument (tables : Tables) :
    tables.documents.entries.zip (Grouping.byNumber tables.documents.size
        (tables.methods.entries.map fun entry => (entry.2.document.toNat, entry))).toList =
      tables.documents.entries.map fun entry => (entry, methodRows tables entry.1) := by
  simp only [Grouping.zip_toList_byNumber, Grouping.itemsOf_map, methodRows]

/-! ### All documents -/

def buildAllShared (heaps : Heaps) (tables : Tables) :
    Except FormatError (List Document) := do
  let _ ← rowsByDocument tables
  let scopes := Grouping.byNumber tables.methods.size (← Scope.buildAll heaps tables)
  tables.documents.entries.mapM fun entry =>
    buildShared heaps scopes entry.1 entry.2 (methodRows tables entry.1)

/-- No document misses scopes that another one has taken. -/
theorem buildAll_eq_shared (heaps : Heaps) (tables : Tables) :
    buildAll heaps tables = buildAllShared heaps tables := by
  refine Outcome.bind_congr fun rows hrows => Outcome.bind_congr fun scopes _ => ?_
  obtain ⟨-, rfl⟩ := rowsByDocument_eq_ok_iff.1 hrows
  rw [zip_rowsByDocument, List.mapM_map]
  have hnumbers : (tables.documents.entries.flatMap fun entry =>
      (methodRows tables entry.1).map (·.1)).Nodup := by
    have hdocuments : (tables.documents.entries.map (·.1)).Nodup := by
      rw [Table.map_fst_entries]
      exact List.nodup_range'
    simpa only [List.flatMap_map] using nodup_methodRows tables hdocuments
  refine (Grouping.Takes.mapM (fun entry hentry => ?_) hnumbers).run'_eq
  exact takes_build heaps _ entry.1 entry.2 ((List.nodup_flatMap.1 hnumbers).1 entry hentry)

end Document

end PortablePdb
