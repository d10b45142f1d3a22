import PortablePdb.Proofs.ByteOrder
import PortablePdb.Proofs.Document.Shared

/-!
Documents and the rows that they were built from. Every document row becomes one document
(`buildAll_eq_ok_iff`), and that holds the methods whose rows name it, provided that no
row names a document that is not there.
-/

namespace PortablePdb

theorem Method.buildShared_eq_ok_iff {heaps : Heaps} {scopes : Array (List Scope)}
    {index : Nat} {row : MethodRow} {m : Method} :
    buildShared heaps scopes index row = .ok m ↔
      ∃ points, pointsOf heaps index row = .ok points ∧
        m = { methodDef := index.toUInt32, points,
              scopes := Grouping.group index scopes } := by
  rw [buildShared, Outcome.bind_eq_ok_iff]
  simp only [pure, Except.pure, Except.ok.injEq, eq_comm]

namespace Document

structure Built (heaps : Heaps) (scopes : Array (List Scope)) (index : Nat)
    (row : DocumentRow) (methodRows : List (Nat × MethodRow)) (d : Document) : Prop where
  index_eq : d.index = index
  path : heaps.blobs.documentName row.name = .ok d.path
  language : languageOf heaps.guids row.language = .ok d.language
  hashAlgorithm : hashAlgorithmOf heaps.guids row.hashAlgorithm = .ok d.hashAlgorithm
  hash : heaps.blobs.get row.hash = .ok d.hash
  methods : List.Forall₂ (fun entry m => Method.buildShared heaps scopes entry.1 entry.2 =
    .ok m) methodRows d.methods

variable {heaps : Heaps} {tables : Tables}

theorem buildShared_eq_ok_iff {scopes : Array (List Scope)} {index : Nat}
    {row : DocumentRow} {methodRows : List (Nat × MethodRow)} {d : Document} :
    buildShared heaps scopes index row methodRows = .ok d ↔
      Built heaps scopes index row methodRows d := by
  simp only [buildShared, Outcome.bind_eq_ok_iff, Outcome.mapM_eq_ok_iff]
  constructor
  · rintro ⟨path, hpath, language, hlanguage, hashAlgorithm, hhashAlgorithm, hash, hhash,
      methods, hmethods, h⟩
    cases h
    exact ⟨rfl, hpath, hlanguage, hhashAlgorithm, hhash, hmethods⟩
  · rintro ⟨rfl, hpath, hlanguage, hhashAlgorithm, hhash, hmethods⟩
    exact ⟨_, hpath, _, hlanguage, _, hhashAlgorithm, _, hhash, _, hmethods, rfl⟩

/-- The methods of a document are numbered by the rows that name it. -/
theorem Built.methodDefs_eq {scopes : Array (List Scope)} {index document : Nat}
    {row : DocumentRow} {d : Document}
    (h : Built heaps scopes index row (methodRows tables document) d)
    (hsize : tables.methods.size < 2 ^ 32) :
    d.methods.map (·.methodDef.toNat) = (methodRows tables document).map (·.1) := by
  refine Outcome.map_eq_of_forall₂ (Outcome.forall₂_of_mem h.methods ?_)
  rintro ⟨i, r⟩ hmem m hm
  obtain ⟨points, -, rfl⟩ := Method.buildShared_eq_ok_iff.1 hm
  exact toNat_toUInt32
    (Nat.lt_of_le_of_lt (Table.le_size_of_get? (mem_methodRows_iff.1 hmem).1) hsize)

/-- A document table is accepted if every row of it is, all scopes are, and all methods
have documents. -/
theorem buildAll_eq_ok_iff {documents : List Document} :
    buildAll heaps tables = .ok documents ↔
      OwnersExist tables ∧ ∃ scopes, Scope.buildAll heaps tables = .ok scopes ∧
        List.Forall₂ (fun entry d =>
            Built heaps (Grouping.byNumber tables.methods.size scopes) entry.1 entry.2
              (methodRows tables entry.1) d)
          tables.documents.entries documents := by
  simp only [buildAll_eq_shared, buildAllShared, Outcome.bind_eq_ok_iff,
    rowsByDocument_eq_ok_iff, Outcome.mapM_eq_ok_iff, buildShared_eq_ok_iff]
  constructor
  · rintro ⟨groups, ⟨howners, -⟩, scopes, hscopes, h⟩
    exact ⟨howners, scopes, hscopes, h⟩
  · rintro ⟨howners, scopes, hscopes, h⟩
    exact ⟨_, ⟨howners, rfl⟩, scopes, hscopes, h⟩

end Document

end PortablePdb
