import PortablePdb.Proofs.Builder.Additions
import PortablePdb.Proofs.Builder.Description

/-!
Runs of a builder. `Adds` is what a single edit adds to the heaps and tables, and `Holds`
what a builder holds after a list of edits: for every document, method, variable and
constant a row from which it can be read, for good, and the rows of the scopes.
-/

namespace PortablePdb.Builder

open SequencePoint

/-! ### Rows from which a description can be read -/

structure DocumentStored (b : Builder) (d : Document) (row : DocumentRow) : Prop where
  path : Lasting (fun later => BlobHeap.documentName ⟨later⟩ row.name = .ok d.path) b.blobs
  language : Lasting
    (fun later => Document.languageOf ⟨later⟩ row.language = .ok d.language) b.guids
  hashAlgorithm :
    Lasting (fun later => Document.hashAlgorithmOf ⟨later⟩ row.hashAlgorithm =
      .ok d.hashAlgorithm) b.guids
  hash : Lasting (fun later => BlobHeap.get ⟨later⟩ row.hash = .ok d.hash) b.blobs

/-- The points of a method without a document are never read. -/
structure MethodStored (b : Builder) (m : UInt32 × List Mark) (row : MethodRow) : Prop where
  document : row.document = m.1
  points : m.1 ≠ 0 → Lasting (fun later => ∀ strings guids index,
    Method.pointsOf ⟨strings, ⟨later⟩, guids⟩ index row = .ok (Mark.points m.2)) b.blobs

structure VariableStored (b : Builder) (v : LocalVariable) (row : VariableRow) : Prop where
  name : Lasting (fun later => StringHeap.get ⟨later⟩ row.name = .ok v.name) b.strings
  slot : row.slot = v.slot
  hidden : row.isHidden = v.hidden

structure ConstantStored (b : Builder) (c : LocalConstant) (row : ConstantRow) : Prop where
  name : Lasting (fun later => StringHeap.get ⟨later⟩ row.name = .ok c.name) b.strings

def rowOfScope (scope : Nat × Scope) : ScopeRow where
  method := scope.1.toUInt32
  importScope := 0
  variableList := scope.2.variableRows.first.toUInt32
  constantList := scope.2.constantRows.first.toUInt32
  startOffset := scope.2.startOffset
  length := scope.2.length

section Growth

variable {b after : Builder} (hgrows : Grows b after)
include hgrows

theorem DocumentStored.mono {d : Document} {row : DocumentRow}
    (h : DocumentStored b d row) : DocumentStored after d row :=
  ⟨h.path.mono hgrows.blobs, h.language.mono hgrows.guids,
    h.hashAlgorithm.mono hgrows.guids, h.hash.mono hgrows.blobs⟩

theorem MethodStored.mono {m : UInt32 × List Mark} {row : MethodRow}
    (h : MethodStored b m row) : MethodStored after m row :=
  ⟨h.document, fun hne => (h.points hne).mono hgrows.blobs⟩

theorem VariableStored.mono {v : LocalVariable} {row : VariableRow}
    (h : VariableStored b v row) : VariableStored after v row :=
  ⟨h.name.mono hgrows.strings, h.slot, h.hidden⟩

theorem ConstantStored.mono {c : LocalConstant} {row : ConstantRow}
    (h : ConstantStored b c row) : ConstantStored after c row :=
  ⟨h.name.mono hgrows.strings⟩

end Growth

/-! ### One edit -/

/-- The tables have new rows at their ends, one for each of these entries. -/
def Extends {α ρ : Type} (R : α → ρ → Prop) (rows after : Array ρ)
    (entries : List α) : Prop :=
  ∃ added, after.toList = rows.toList ++ added ∧ List.Forall₂ R entries added

theorem Extends.refl {α ρ : Type} {R : α → ρ → Prop} {rows : Array ρ} :
    Extends R rows rows [] :=
  ⟨[], by simp, .nil⟩

theorem Extends.push {α ρ : Type} {R : α → ρ → Prop} {rows : Array ρ} {a : α} {row : ρ}
    (h : R a row) : Extends R rows (rows.push row) [a] :=
  ⟨[row], by simp, .cons h .nil⟩

structure Adds (b after : Builder) (edit : Edit) : Prop where
  sound : after.Sound
  grows : Grows b after
  declaredRows : after.declaredRows = b.declaredRows
  omitted : after.omitted = b.omitted
  renamed : after.renamed = b.renamed
  documents :
    Extends (DocumentStored after) b.documents after.documents edit.addedDocument?.toList
  methods : Extends (MethodStored after) b.methods after.methods edit.addedMethod?.toList
  scopes : after.scopes.toList = b.scopes.toList ++ (Edit.scopesFrom 1
    (b.localVariables.size + 1) (b.localConstants.size + 1) [edit]).map rowOfScope
  localVariables : Extends (VariableStored after) b.localVariables after.localVariables
    edit.addedVariable?.toList
  localConstants : Extends (ConstantStored after) b.localConstants after.localConstants
    edit.addedConstant?.toList

/-- A number of an identifier that is read is not zero, which stands for none. -/
theorem ne_zero_of_get {heap : GuidHeap} {index : UInt32} {guid : Guid}
    (h : heap.get index = .ok guid) : index ≠ 0 := by
  rintro rfl
  simp [GuidHeap.get] at h

theorem languageOf_of_get {heap : GuidHeap} {index : UInt32} {guid : Guid}
    (h : heap.get index = .ok guid) :
    Document.languageOf heap index = .ok (.ofGuid guid) := by
  rw [Document.languageOf, if_neg (ne_zero_of_get h), h]
  rfl

theorem hashAlgorithmOf_of_get {heap : GuidHeap} {index : UInt32} {guid : Guid}
    (h : heap.get index = .ok guid) :
    Document.hashAlgorithmOf heap index = .ok (.ofGuid guid) := by
  rw [Document.hashAlgorithmOf, if_neg (ne_zero_of_get h), h]
  rfl

theorem adds_document {b after : Builder} {path : String} {language : Guid} {row : UInt32}
    (hb : b.Sound) (h : addDocument path language b = .ok row after) :
    Adds b after (.document path language) := by
  obtain ⟨name, b₁, hname, hrest⟩ := Outcome.run_bind_eq_ok_iff.1 h
  obtain ⟨index, b₂, hguid, hrow⟩ := Outcome.run_bind_eq_ok_iff.1 hrest
  obtain ⟨hnamed, hpath⟩ := addDocumentName_spec hb hname
  obtain ⟨hadded, hlanguage⟩ := addGuid_spec hnamed.sound hguid
  obtain ⟨rfl, rfl⟩ := EStateM.Result.ok.inj hrow
  have hsound := hadded.sound
  have hpath := hpath.mono hadded.grows.blobs
  have hgrows := hnamed.grows.trans hadded.grows
  -- The heaps are all that changed, so that the tables are those of `b` in what follows.
  obtain ⟨blobs, nameParts, rfl⟩ := hnamed.exists_blobs
  obtain ⟨guids, rfl⟩ := hadded.exists_guids
  refine ⟨hsound.congr rfl rfl rfl, hgrows.trans (.of_eq rfl rfl rfl), rfl, rfl, rfl,
    .push ⟨hpath, ?_, ?_, ?_⟩, .refl, by simp [Edit.scopesFrom], .refl, .refl⟩
  · exact hlanguage.imp fun later => languageOf_of_get
  · exact fun later _ _ => rfl
  · exact BlobHeap.lasting_get_zero hsound.blobs_first

theorem adds_documentWithHash {b after : Builder} {path : String}
    {language hashAlgorithm : Guid} {hash : ByteArray} {row : UInt32} (hb : b.Sound)
    (h : addDocumentWithHash path language hashAlgorithm hash b = .ok row after) :
    Adds b after (.documentWithHash path language hashAlgorithm hash) := by
  obtain ⟨name, b₁, hname, hrest⟩ := Outcome.run_bind_eq_ok_iff.1 h
  obtain ⟨algorithmIndex, b₂, halgorithm, hrest⟩ := Outcome.run_bind_eq_ok_iff.1 hrest
  obtain ⟨hashOffset, b₃, hhash, hrest⟩ := Outcome.run_bind_eq_ok_iff.1 hrest
  obtain ⟨languageIndex, b₄, hlanguage, hrow⟩ := Outcome.run_bind_eq_ok_iff.1 hrest
  obtain ⟨hnamed, hpath⟩ := addDocumentName_spec hb hname
  obtain ⟨hfirst, halgorithmRead⟩ := addGuid_spec hnamed.sound halgorithm
  obtain ⟨hhashed, hhashRead⟩ := addBlob_spec hfirst.sound hhash
  obtain ⟨hlast, hlanguageRead⟩ := addGuid_spec hhashed.sound hlanguage
  obtain ⟨rfl, rfl⟩ := EStateM.Result.ok.inj hrow
  have hsound := hlast.sound
  -- The first three entries are followed by further additions, and are still read behind
  -- these.
  have hpath := ((hpath.mono hfirst.grows.blobs).mono hhashed.blobs).mono hlast.grows.blobs
  have halgorithmRead := halgorithmRead.mono (hhashed.grows.trans hlast.grows).guids
  have hhashRead := hhashRead.mono hlast.grows.blobs
  have hgrows := ((hnamed.grows.trans hfirst.grows).trans hhashed.grows).trans hlast.grows
  obtain ⟨blobs, nameParts, rfl⟩ := hnamed.exists_blobs
  obtain ⟨guids, rfl⟩ := hfirst.exists_guids
  obtain ⟨blobs, nameParts, rfl⟩ := hhashed.exists_blobs
  obtain ⟨guids, rfl⟩ := hlast.exists_guids
  refine ⟨hsound.congr rfl rfl rfl, hgrows.trans (.of_eq rfl rfl rfl), rfl, rfl, rfl,
    .push ⟨hpath, ?_, ?_, ?_⟩, .refl, by simp [Edit.scopesFrom], .refl, .refl⟩
  · exact hlanguageRead.imp fun later => languageOf_of_get
  · exact halgorithmRead.imp fun later => hashAlgorithmOf_of_get
  · exact hhashRead.imp fun later h => h.2

theorem adds_method {b after : Builder} {owner : UInt32} {marks : List Mark} {row : UInt32}
    (hb : b.Sound) (hmarks : Mark.Valid marks) (hstay : ∀ row, Mark.document row ∉ marks)
    (h : addMethod owner marks b = .ok row after) :
    Adds b after (.method owner marks) := by
  rw [addMethod] at h
  split at h
  case isTrue hempty =>
    obtain rfl := List.isEmpty_iff.1 hempty
    obtain ⟨rfl, rfl⟩ := EStateM.Result.ok.inj h
    exact ⟨hb.congr rfl rfl rfl, .of_eq rfl rfl rfl, rfl, rfl, rfl, .refl,
      .push ⟨rfl, fun _ _ _ _ _ _ _ => rfl⟩, by simp [Edit.scopesFrom], .refl, .refl⟩
  case isFalse =>
    obtain ⟨blob, b₁, hencoded, hrest⟩ := Outcome.run_bind_eq_ok_iff.1 h
    obtain ⟨offset, b₂, hblob, hrow⟩ := Outcome.run_bind_eq_ok_iff.1 hrest
    obtain ⟨hencode, rfl⟩ := encoded_eq_ok_iff.1 hencoded
    obtain ⟨hadds, hstored⟩ := addBlob_spec hb hblob
    obtain ⟨rfl, rfl⟩ := EStateM.Result.ok.inj hrow
    have hsound := hadds.sound
    have hgrows := hadds.grows
    obtain ⟨blobs, nameParts, rfl⟩ := hadds.exists_blobs
    refine ⟨hsound.congr rfl rfl rfl, hgrows.trans (.of_eq rfl rfl rfl),
      rfl, rfl, rfl, .refl,
      .push ⟨rfl, fun howner => hstored.imp ?_⟩, by simp [Edit.scopesFrom], .refl, .refl⟩
    intro later ⟨hoffset, hget⟩ strings guids index
    rw [Method.pointsOf, if_neg hoffset, hget]
    exact Mark.readBlob_of_encodeBlob (by decide) howner hmarks hstay hencode index

theorem adds_scope {b after : Builder} {owner startOffset length row : UInt32}
    (hb : b.Sound) (h : addScope owner startOffset length b = .ok row after) :
    Adds b after (.scope owner startOffset length) := by
  obtain ⟨rfl, rfl⟩ := EStateM.Result.ok.inj h
  refine ⟨hb.congr rfl rfl rfl, .of_eq rfl rfl rfl, rfl, rfl, rfl, .refl, .refl, ?_,
    .refl, .refl⟩
  simp [Edit.scopesFrom, rowOfScope]

theorem adds_localVariable {b after : Builder} {name : ByteArray} {slot attributes : UInt16}
    {row : UInt32} (hb : b.Sound) (hutf8 : name.IsValidUTF8) (hzero : 0 ∉ name.data.toList)
    (h : addVariable name slot attributes b = .ok row after) :
    Adds b after (.localVariable name slot attributes) := by
  obtain ⟨rfl, rfl⟩ := EStateM.Result.ok.inj h
  have htext : String.fromUTF8? name = some (String.fromUTF8 name hutf8) := dif_pos hutf8
  refine ⟨hb.congr rfl rfl rfl,
    ⟨prefix_append_append b.strings name [0].toByteArray, List.prefix_rfl, List.prefix_rfl⟩,
    rfl, rfl, rfl, .refl, .refl, by simp [Edit.scopesFrom], .push ⟨?_, rfl, rfl⟩, .refl⟩
  rw [htext]
  exact StringHeap.lasting_get htext hzero

theorem adds_localConstant {b after : Builder} {name : String} {row : UInt32} (hb : b.Sound)
    (hzero : 0 ∉ name.toUTF8.data.toList) (h : addConstant name b = .ok row after) :
    Adds b after (.localConstant name) := by
  obtain ⟨offset, b₁, hname, hrest⟩ := Outcome.run_bind_eq_ok_iff.1 h
  obtain ⟨signature, b₂, hsignature, hrow⟩ := Outcome.run_bind_eq_ok_iff.1 hrest
  rw [addString_eq] at hname
  obtain ⟨rfl, rfl⟩ := EStateM.Result.ok.inj hname
  have hnamed : Grows b { b with strings := b.strings ++ name.toUTF8 ++ [0].toByteArray } :=
    ⟨prefix_append_append _ _ _, List.prefix_rfl, List.prefix_rfl⟩
  have hsoundNamed :
      Sound { b with strings := b.strings ++ name.toUTF8 ++ [0].toByteArray } :=
    hb.congr rfl rfl rfl
  obtain ⟨hadds, -⟩ := addBlob_spec hsoundNamed hsignature
  obtain ⟨rfl, rfl⟩ := EStateM.Result.ok.inj hrow
  have hsound := hadds.sound
  have hgrows := hnamed.trans hadds.grows
  obtain ⟨blobs, nameParts, rfl⟩ := hadds.exists_blobs
  exact ⟨hsound.congr rfl rfl rfl, hgrows.trans (.of_eq rfl rfl rfl),
    rfl, rfl, rfl, .refl, .refl, by simp [Edit.scopesFrom], .refl,
    .push ⟨StringHeap.lasting_get (fromUTF8?_toUTF8 name) hzero⟩⟩

/-- What every edit adds that has a description. -/
theorem adds_of_apply {b after : Builder} {edit : Edit} {answer : Option UInt32}
    (hb : b.Sound) (hedit : edit.Describable) (h : edit.apply b = .ok answer after) :
    Adds b after edit := by
  cases edit with
  | document path language =>
      obtain ⟨row, hrow, -⟩ := Outcome.run_map_eq_ok_iff.1 h
      exact adds_document hb hrow
  | documentWithHash path language hashAlgorithm hash =>
      obtain ⟨row, hrow, -⟩ := Outcome.run_map_eq_ok_iff.1 h
      exact adds_documentWithHash hb hrow
  | method owner marks =>
      obtain ⟨row, hrow, -⟩ := Outcome.run_map_eq_ok_iff.1 h
      exact adds_method hb hedit.1 hedit.2 hrow
  | scope owner startOffset length =>
      obtain ⟨row, hrow, -⟩ := Outcome.run_map_eq_ok_iff.1 h
      exact adds_scope hb hrow
  | localVariable name slot attributes =>
      obtain ⟨row, hrow, -⟩ := Outcome.run_map_eq_ok_iff.1 h
      exact adds_localVariable hb hedit.1 hedit.2 hrow
  | localConstant name =>
      obtain ⟨row, hrow, -⟩ := Outcome.run_map_eq_ok_iff.1 h
      exact adds_localConstant hb hedit hrow
  | wideHeaps =>
      obtain ⟨rfl, rfl⟩ := EStateM.Result.ok.inj h
      exact ⟨hb.congr rfl rfl rfl, .of_eq rfl rfl rfl, rfl, rfl, rfl, .refl, .refl,
        by simp [Edit.scopesFrom], .refl, .refl⟩
  | referencedRows table rows =>
      obtain ⟨rfl, rfl⟩ := EStateM.Result.ok.inj h
      exact ⟨hb.congr rfl rfl rfl, .of_eq rfl rfl rfl, rfl, rfl, rfl, .refl, .refl,
        by simp [Edit.scopesFrom], .refl, .refl⟩
  | _ => exact hedit.elim

/-! ### A list of edits -/

structure Holds (b : Builder) (edits : List Edit) : Prop where
  sound : b.Sound
  declaredRows : b.declaredRows = []
  omitted : b.omitted = []
  renamed : b.renamed = []
  documents : List.Forall₂ (DocumentStored b)
    (edits.filterMap Edit.addedDocument?) b.documents.toList
  methods :
    List.Forall₂ (MethodStored b) (edits.filterMap Edit.addedMethod?) b.methods.toList
  scopes : b.scopes.toList = (Edit.scopesFrom 1 1 1 edits).map rowOfScope
  localVariables : List.Forall₂ (VariableStored b)
    (edits.filterMap Edit.addedVariable?) b.localVariables.toList
  localConstants : List.Forall₂ (ConstantStored b)
    (edits.filterMap Edit.addedConstant?) b.localConstants.toList

theorem holds_empty : Holds empty [] :=
  ⟨sound_empty, rfl, rfl, rfl, .nil, .nil, rfl, .nil, .nil⟩

/-- The rows of scopes do not depend on what the scopes own, so they can be told from the
edits one after another. -/
theorem map_rowOfScope_append (edits more : List Edit) :
    ∀ row variableRow constantRow : Nat,
      (Edit.scopesFrom row variableRow constantRow (edits ++ more)).map rowOfScope =
        (Edit.scopesFrom row variableRow constantRow edits).map rowOfScope ++
          (Edit.scopesFrom (row + edits.countP Edit.isScope)
            (variableRow + (edits.filterMap Edit.addedVariable?).length)
            (constantRow + (edits.filterMap Edit.addedConstant?).length) more).map
              rowOfScope := by
  induction edits with
  | nil => intros; rfl
  | cons edit rest ih =>
      intro row variableRow constantRow
      cases edit <;> simp [Edit.scopesFrom, List.filterMap_cons, List.countP_cons,
        Edit.addedVariable?, Edit.addedConstant?,
        Edit.isScope, ih, rowOfScope, Nat.add_assoc, Nat.add_comm 1]

/-- Nor do they depend on their own numbers. -/
theorem map_rowOfScope_single (edit : Edit) (row variableRow constantRow : Nat) :
    (Edit.scopesFrom row variableRow constantRow [edit]).map rowOfScope =
      (Edit.scopesFrom 1 variableRow constantRow [edit]).map rowOfScope := by
  cases edit <;> rfl

theorem Extends.append {α ρ : Type} {R R' : α → ρ → Prop} {rows after : Array ρ}
    {entries more : List α} (hmore : Extends R' rows after more)
    (h : List.Forall₂ R entries rows.toList) (hR : ∀ {a row}, R a row → R' a row) :
    List.Forall₂ R' (entries ++ more) after.toList := by
  obtain ⟨added, hafter, hadded⟩ := hmore
  rw [hafter]
  exact List.rel_append (h.imp fun _ _ => hR) hadded

theorem filterMap_snoc {α β : Type} (f : α → Option β) (as : List α) (a : α) :
    (as ++ [a]).filterMap f = as.filterMap f ++ (f a).toList := by
  cases h : f a <;> simp [List.filterMap_append, h]

theorem Holds.add {b after : Builder} {edits : List Edit} {edit : Edit} (hb : Holds b edits)
    (h : Adds b after edit) : Holds after (edits ++ [edit]) where
  sound := h.sound
  declaredRows := h.declaredRows.trans hb.declaredRows
  omitted := h.omitted.trans hb.omitted
  renamed := h.renamed.trans hb.renamed
  documents := by
    rw [filterMap_snoc]
    exact h.documents.append hb.documents (·.mono h.grows)
  methods := by
    rw [filterMap_snoc]
    exact h.methods.append hb.methods (·.mono h.grows)
  scopes := by
    have hvariables : _ = b.localVariables.size := hb.localVariables.length_eq
    have hconstants : _ = b.localConstants.size := hb.localConstants.length_eq
    rw [h.scopes, hb.scopes, map_rowOfScope_append, map_rowOfScope_single edit (1 + _),
      hvariables, hconstants,
      Nat.add_comm 1 b.localVariables.size, Nat.add_comm 1 b.localConstants.size]
  localVariables := by
    rw [filterMap_snoc]
    exact h.localVariables.append hb.localVariables (·.mono h.grows)
  localConstants := by
    rw [filterMap_snoc]
    exact h.localConstants.append hb.localConstants (·.mono h.grows)

theorem holds_of_applyAll {edits : List Edit} :
    ∀ {done : List Edit} {b after : Builder}, Holds b done →
      (∀ edit ∈ edits, edit.Describable) →
      Edit.applyAll edits b = .ok () after → Holds after (done ++ edits) := by
  induction edits with
  | nil =>
      intro done b after hb _ h
      obtain ⟨-, rfl⟩ := Outcome.run_pure_eq_ok_iff.1 h
      simpa using hb
  | cons edit rest ih =>
      intro done b after hb hedits h
      obtain ⟨answer, b₁, hedit, hrest⟩ := Outcome.run_bind_eq_ok_iff.1 h
      have hadds := adds_of_apply hb.sound (hedits edit (by simp)) hedit
      have hafter := ih (hb.add hadds) (fun e he => hedits e (by simp [he])) hrest
      rwa [List.append_assoc, List.singleton_append] at hafter

theorem Edit.run_eq_ok_iff {edits : List Edit} {b after : Builder} :
    Edit.run edits b = .ok after ↔ Edit.applyAll edits b = .ok () after := by
  rw [Edit.run]
  split
  case h_1 last happly => simp [happly]
  case h_2 e last happly => simp [happly]

/-- A builder that was made by a list of edits holds what these describe. -/
theorem holds_of_run {edits : List Edit} {b : Builder}
    (hedits : ∀ edit ∈ edits, edit.Describable)
    (h : Edit.run edits empty = .ok b) : Holds b edits :=
  holds_of_applyAll holds_empty hedits (Edit.run_eq_ok_iff.1 h)

end PortablePdb.Builder
