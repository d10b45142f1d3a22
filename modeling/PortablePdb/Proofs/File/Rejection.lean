import PortablePdb.Proofs.Failure
import PortablePdb.Proofs.File.Scopes
import PortablePdb.Proofs.SequencePoint.Resolution

/-!
Files that are not accepted. Many checks repeat what was made sure of before: streams that
the directory has measured are cut out of the file again, rows are looked up in tables
that they were counted in, and offsets of points are added that cannot leave a word. None
of these makes an error, so that every error of `File.parse` comes from the bytes
themselves (`File.rejection_of_parse`), and what is read from an accepted file on demand
fails by what was asked for alone.
-/

namespace PortablePdb

open FormatError Outcome

/-- What can be wrong with the documents of these tables. Rows of variables, constants and
methods are found, unless they are asked for by number zero. -/
inductive FormatError.OfDocuments (tables : Tables) : FormatError → Prop
  | content {e : FormatError} (h : OfContent e) : OfDocuments tables e
  | document {row : Nat} (hrow : tables.documents.size < row) :
      OfDocuments tables (.invalidRowIndex .document row)
  | zeroRow {table : TableKind}
      (htable : table = .methodDef ∨ table = .localVariable ∨ table = .localConstant) :
      OfDocuments tables (.invalidRowIndex table 0)

/-! ### Scopes -/

theorem Table.exists_get {ρ : Type} [TableRow ρ] {table : Table ρ} {row : Nat}
    (hpos : 1 ≤ row) (hle : row ≤ table.size) : ∃ r, table.get row = .ok r := by
  obtain ⟨i, rfl⟩ : ∃ i, row = i + 1 := ⟨row - 1, by omega⟩
  exact ⟨table.rows[i],
    get_eq_ok_iff.2 (by rw [get?_succ]; exact Array.getElem?_eq_getElem hle)⟩

namespace RowRange

/-- Wherever the next list begins, the range does not go beyond the table. -/
theorem exists_owned_eq (table : TableKind) (size first : Nat) (next : Option Nat) :
    ∃ stop ≤ size + 1, owned table size first next =
      if stop < first then .error (.inconsistentRange table first stop)
      else if first = 0 ∧ 0 < stop then .error (.invalidRowIndex table 0)
      else .ok ⟨first, stop⟩ := by
  cases next with
  | none => exact ⟨size + 1, Nat.le_refl _, rfl⟩
  | some next => exact ⟨min (size + 1) next, Nat.min_le_left _ _, rfl⟩

/-- A range that passes its check holds rows of the table and nothing else. -/
theorem mem_rows_of_owned {table : TableKind} {size first : Nat} {next : Option Nat}
    {range : RowRange} (h : owned table size first next = .ok range) {row : Nat}
    (hrow : row ∈ range.rows) : 1 ≤ row ∧ row ≤ size := by
  obtain ⟨stop, hstop, heq⟩ := exists_owned_eq table size first next
  rw [heq] at h
  split at h
  · cases h
  · split at h
    · cases h
    · cases h
      have hmem := mem_rows_iff.1 hrow
      dsimp only at hmem
      omega

theorem failsWith_owned (tables : Tables) {table : TableKind}
    (htable : table = .localVariable ∨ table = .localConstant)
    (size first : Nat) (next : Option Nat) :
    FailsWith (OfDocuments tables) (owned table size first next) := by
  obtain ⟨stop, -, heq⟩ := exists_owned_eq table size first next
  rw [heq]
  split
  · exact .error (.content (.inconsistentRange _ _ _))
  · split
    · exact .error (.zeroRow (.inr htable))
    · exact .ok _

end RowRange

namespace Scope

variable (heaps : Heaps) (tables : Tables)

/-- Of a row that is there only the name can be wrong. -/
theorem failsWith_named {ρ α : Type} [TableRow ρ] {table : Table ρ} {row : Nat}
    (hpos : 1 ≤ row) (hle : row ≤ table.size) (name : ρ → UInt32) (named : ρ → String → α) :
    FailsWith OfContent (do
      let r ← table.get row
      return named r (← heaps.strings.get (name r))) := by
  obtain ⟨r, hr⟩ := Table.exists_get hpos hle
  rw [hr]
  exact (heaps.strings.failsWith_get (name r)).map _

theorem failsWith_build (index : Nat) (row : ScopeRow) (next : Option ScopeRow) :
    FailsWith (OfDocuments tables) (build heaps tables index row next) := by
  rw [build.eq_def]
  split
  · exact .error (.zeroRow (.inl rfl))
  · refine (RowRange.failsWith_owned tables (.inl rfl) _ _ _).bind
      fun variableRows hvariables => ?_
    refine (RowRange.failsWith_owned tables (.inr rfl) _ _ _).bind
      fun constantRows hconstants => ?_
    refine FailsWith.bind (.mapM fun r hr => ?_) fun _ _ =>
      FailsWith.bind (.mapM fun r hr => ?_) fun _ _ => .ok _
    · obtain ⟨hpos, hle⟩ := RowRange.mem_rows_of_owned hvariables hr
      exact (failsWith_named heaps hpos hle (·.name) fun r name =>
        { name, slot := r.slot, hidden := r.isHidden : LocalVariable }).mono
          fun _ => .content
    · obtain ⟨hpos, hle⟩ := RowRange.mem_rows_of_owned hconstants hr
      exact (failsWith_named heaps hpos hle (·.name) fun _ name =>
        { name : LocalConstant }).mono fun _ => .content

theorem failsWith_buildAll : FailsWith (OfDocuments tables) (buildAll heaps tables) :=
  .mapM fun _ _ => (failsWith_build heaps tables _ _ _).map _

end Scope

/-! ### Documents -/

theorem Method.failsWith_buildShared (heaps : Heaps) (scopes : Array (List Scope))
    (index : Nat) (row : MethodRow) :
    FailsWith OfContent (buildShared heaps scopes index row) := by
  refine FailsWith.map ?_ _
  rw [pointsOf]
  split
  · exact .ok _
  · exact (heaps.blobs.failsWith_get _).bind fun blob _ =>
      SequencePoint.failsWith_readBlob index row.document blob

namespace Document

theorem failsWith_buildShared (heaps : Heaps) (scopes : Array (List Scope)) (index : Nat)
    (row : DocumentRow) (methodRows : List (Nat × MethodRow)) :
    FailsWith OfContent (buildShared heaps scopes index row methodRows) :=
  (heaps.blobs.failsWith_documentName _).bind fun _ _ =>
    (heaps.guids.failsWith_known _ Language.unknown .ofGuid).bind fun _ _ =>
    (heaps.guids.failsWith_known _ HashAlgorithm.unknown .ofGuid).bind fun _ _ =>
    (heaps.blobs.failsWith_get _).bind fun _ _ =>
    FailsWith.bind (.mapM fun _ _ => Method.failsWith_buildShared heaps scopes _ _)
      fun _ _ => .ok _

theorem failsWith_rowsByDocument (tables : Tables) :
    FailsWith (OfDocuments tables) (rowsByDocument tables) := by
  rw [rowsByDocument]
  dsimp only
  split
  case h_1 index row hfind =>
    have hlt := List.find?_some hfind
    exact .error (.document (of_decide_eq_true hlt))
  case h_2 => exact .ok _

theorem failsWith_buildAll (heaps : Heaps) (tables : Tables) :
    FailsWith (OfDocuments tables) (buildAll heaps tables) := by
  rw [buildAll_eq_shared]
  refine (failsWith_rowsByDocument tables).bind fun _ _ =>
    (Scope.failsWith_buildAll heaps tables).bind fun scopes _ => ?_
  exact .mapM fun _ _ => (failsWith_buildShared heaps _ _ _ _).mono fun _ => .content

/-- The rows that are put together for documents are rows of the table of methods. -/
theorem get_of_rowsByDocument {tables : Tables} {groups : Array (List (Nat × MethodRow))}
    (h : rowsByDocument tables = .ok groups) {group : List (Nat × MethodRow)}
    (hgroup : group ∈ groups) {entry : Nat × MethodRow} (hentry : entry ∈ group) :
    tables.methods.get entry.1 = .ok entry.2 := by
  obtain ⟨-, rfl⟩ := rowsByDocument_eq_ok_iff.1 h
  obtain ⟨i, hi, rfl⟩ := Array.mem_iff_getElem.1 hgroup
  rw [Grouping.getElem_byNumber, Grouping.itemsOf_map, List.mem_filter] at hentry
  exact Table.get_eq_ok_iff.2 (Table.mem_entries_iff.1 hentry.1)

end Document

/-! ### Offsets of points -/

namespace SequencePoint

def SumsFit : (ilOffset : Nat) → List Record → Prop
  | _, [] => True
  | _, .documentChange _ :: _ => True
  | ilOffset, .point ilDelta _ :: rest =>
    ilOffset + ilDelta < 2 ^ 32 ∧
      (ilOffset + ilDelta < lineLimit → SumsFit (ilOffset + ilDelta) rest)

namespace Record

/-- An offset is below the limit before a distance is added to it, or nothing is added any
more. -/
theorem sumsFit_of_ilDelta_lt {records : List Record}
    (h : ∀ ilDelta span, .point ilDelta span ∈ records → ilDelta < 2 ^ 29) :
    ∀ {ilOffset : Nat}, ilOffset < lineLimit → SumsFit ilOffset records := by
  induction records with
  | nil => exact fun _ => trivial
  | cons record rest ih =>
      intro ilOffset hoffset
      cases record with
      | documentChange document => trivial
      | point ilDelta span =>
          have hdelta := h ilDelta span (by simp)
          rw [lineLimit] at hoffset
          exact ⟨by omega, ih fun _ _ hmem => h _ _ (List.mem_cons_of_mem _ hmem)⟩

theorem sumsFit_of_readAll {document : UInt32} {blob : ByteArray} {records : List Record}
    (h : (readAll document).run blob = .ok records) : SumsFit 0 records := by
  obtain ⟨d, hread⟩ := Reader.run_eq_ok_iff.1 h
  exact sumsFit_of_ilDelta_lt
    (fun _ _ hmem => ilDelta_lt_of_answers (answers_of_readAll hread) hmem) (by decide)

end Record

end SequencePoint

/-! ### Files -/

theorem Directory.failsWith_require {P : FormatError → Prop}
    (hmissing : ∀ name, P (.missingStream name))
    (directory : Directory) (name : String) : FailsWith P (directory.require name) := by
  rw [require]
  split
  · exact .ok _
  · exact .error (hmissing name)

namespace File

inductive Refusal (data : ByteArray) : FormatError → Prop
  | directory {e : FormatError} (h : Directory.read.run data = .error e) : Refusal data e
  | missingStream (name : String) : Refusal data (.missingStream name)
  | content {e : FormatError} (h : e.OfContent) : Refusal data e
  | tables {e : FormatError} (h : e.OfTables) : Refusal data e
  | documents {directory : Directory} {pdb : PdbStream} {tables : Tables}
      {e : FormatError} (htabulated : Tabulated data directory pdb tables)
      (h : e.OfDocuments tables) : Refusal data e

theorem failsWith_parse (data : ByteArray) : FailsWith (Refusal data) (parse data) := by
  refine FailsWith.bind (fun e => .directory) fun directory hdirectory => ?_
  have hrequire := Directory.failsWith_require (P := Refusal data) .missingStream directory
  have hslice {name : String} {header : StreamHeader}
      (hheader : directory.require name = .ok header) :
      FailsWith (Refusal data) (header.slice data) := by
    rw [Directory.slice_eq_of_read hdirectory hheader]
    exact .ok _
  refine (hrequire _).bind fun strings hstrings => (hrequire _).bind fun blobs hblobs => ?_
  refine (hrequire _).bind fun guids hguids =>
    (hrequire _).bind fun tablesHeader htablesHeader => ?_
  refine (hrequire _).bind fun pdbHeader hpdbHeader =>
    (hslice hpdbHeader).bind fun pdbBytes hpdbBytes => ?_
  refine FailsWith.bind ((PdbStream.failsWith_read.run pdbBytes).mono fun _ => .content)
    fun pdb hpdb => ?_
  have hstreams : directory.heapStreams = .ok ⟨strings, blobs, guids⟩ :=
    Directory.heapStreams_eq_ok_iff.2 ⟨hstrings, hblobs, hguids⟩
  obtain ⟨heaps, hheaps⟩ := Directory.exists_heaps hdirectory hstreams
  dsimp only
  rw [hheaps]
  refine (FailsWith.ok heaps).bind fun heaps _ =>
    (hslice htablesHeader).bind fun tablesBytes htablesBytes => ?_
  refine ((Tables.failsWith_read tablesBytes _).mono fun _ => .tables).bind
    fun tables htables => ?_
  have htabulated : Tabulated data directory pdb tables := by
    refine ⟨hdirectory, ?_,
      ⟨_, _, Directory.require_eq_ok_iff.1 hpdbHeader, hpdbBytes, hpdb⟩,
      ⟨_, _, Directory.require_eq_ok_iff.1 htablesHeader, htablesBytes, htables⟩⟩
    simp only [requiredStreams, List.forall_mem_cons]
    simp [Directory.require_eq_ok_iff.1 hstrings, Directory.require_eq_ok_iff.1 hblobs,
      Directory.require_eq_ok_iff.1 hguids, Directory.require_eq_ok_iff.1 htablesHeader,
      Directory.require_eq_ok_iff.1 hpdbHeader]
  exact ((Document.failsWith_buildAll heaps tables).mono fun _ =>
    .documents htabulated).map _

/-! ### The identifier of the assembly -/

/-- The GUID and the stamp of an identifier as an id of another kind, or the given error
if there is none. -/
def convertId {ι : Type} (convert : List UInt8 → UInt32 → Option ι)
    (refusal : FormatError) (id : PdbId) : Except FormatError ι :=
  match convert id.guid.bytes id.stamp with
  | some converted => .ok converted
  | none => .error refusal

/-- Reads a whole file like `parse`, and converts its identifier as soon as that is
read. -/
def parseConverting {ι : Type} (convert : List UInt8 → UInt32 → Option ι)
    (refusal : FormatError) (data : ByteArray) : Except FormatError (ι × File) := do
  let directory ← Directory.read.run data
  let strings ← directory.require "#Strings"
  let blobs ← directory.require "#Blob"
  let guids ← directory.require "#GUID"
  let tablesHeader ← directory.require "#~"
  let pdbHeader ← directory.require "#Pdb"
  let pdb ← PdbStream.read.run (← pdbHeader.slice data)
  let id ← convertId convert refusal pdb.id
  let heapStreams : HeapStreams := { strings, blobs, guids }
  let heaps ← heapStreams.slice data
  let tables ← (Tables.read pdb.referencedRows).run (← tablesHeader.slice data)
  let documents ← Document.buildAll heaps tables
  return (id, { data, directory, heapStreams, pdb, tables, documents := documents.toArray,
                moduleName := none })

/-- A conversion that accepts every GUID is never refused, be it asked about a file that
is accepted or not. -/
theorem map_parseConverting {ι : Type} {convert : List UInt8 → UInt32 → Option ι}
    (hconvert : ∀ guid stamp, guid.length = Guid.size →
      (convert guid stamp).isSome = true) (refusal : FormatError) (data : ByteArray) :
    (parseConverting convert refusal data).map Prod.snd = parse data := by
  have haccepts (id : PdbId) :
      ∃ converted, convertId convert refusal id = .ok converted := by
    obtain ⟨converted, hid⟩ :=
      Option.isSome_iff_exists.1 (hconvert id.guid.bytes id.stamp id.guid.length_bytes)
    exact ⟨converted, by rw [convertId, hid]⟩
  choose converted hconverted using haccepts
  have hmap {α β γ : Type} (x : Except FormatError α) (f : α → Except FormatError β)
      (g : β → γ) : (x >>= f).map g = x >>= fun a => (f a).map g := by
    cases x <;> rfl
  simp only [parseConverting, parse, hconverted, hmap]
  rfl

/-! ### Rejection and access -/

structure Rejection (data : ByteArray) (e : FormatError) : Prop where
  readable : e ≠ .unreadableFile
  indexWidth : ∀ width, e ≠ .invalidIndexWidth width
  unsupportedTable : ∀ id, e = .unsupportedTable id → ¬(0x30 ≤ id.val ∧ id.val ≤ 0x37)
  malformedHeader : ∀ fault, e = .malformedHeader fault →
    Directory.read.run data = .error (.malformedHeader fault)
  invalidRowIndex : ∀ table row, e = .invalidRowIndex table row →
    (table = .document ∧ ∃ directory pdb tables, Tabulated data directory pdb tables ∧
      tables.documents.size < row) ∨
      row = 0 ∧ (table = .methodDef ∨ table = .localVariable ∨ table = .localConstant)

theorem rejection_of_content {data : ByteArray} {e : FormatError} (h : e.OfContent) :
    Rejection data e := by
  cases h <;> constructor <;> simp

/-- Of all errors of directories those of headers are the only ones that are not errors of
content. -/
theorem Refusal.rejection {data : ByteArray} {e : FormatError} (h : Refusal data e) :
    Rejection data e := by
  cases h with
  | directory hread =>
      cases Directory.failsWith_read.run data e hread with
      | content h => exact rejection_of_content h
      | malformedHeader fault =>
        exact ⟨by simp, by simp, by simp, fun _ heq => heq ▸ hread, by simp⟩
  | missingStream name => constructor <;> simp
  | content h => exact rejection_of_content h
  | tables h =>
      cases h with
      | content h => exact rejection_of_content h
      | @unsupportedTable id hid =>
          refine ⟨by simp, by simp, ?_, by simp, by simp⟩
          rintro _ ⟨⟩
          simpa [TableKind.isDebugTable] using hid
  | documents htabulated h =>
      cases h with
      | content h => exact rejection_of_content h
      | document hrow =>
          refine ⟨by simp, by simp, by simp, by simp, ?_⟩
          rintro _ _ ⟨⟩
          exact .inl ⟨rfl, _, _, _, htabulated, hrow⟩
      | zeroRow htable =>
          refine ⟨by simp, by simp, by simp, by simp, ?_⟩
          rintro _ _ ⟨⟩
          exact .inr ⟨rfl, htable⟩

/-- The checks that cannot fail, each where it is made. -/
structure ChecksPass (data : ByteArray) : Prop where
  streams : ∀ directory name header, Directory.read.run data = .ok directory →
    directory.require name = .ok header → ∃ bytes, header.slice data = .ok bytes
  identifier :
    ∀ (ι : Type) (convert : List UInt8 → UInt32 → Option ι) (refusal : FormatError),
      (∀ guid stamp, guid.length = Guid.size → (convert guid stamp).isSome = true) →
      (parseConverting convert refusal data).map Prod.snd = parse data
  methodRows : ∀ tables groups, Document.rowsByDocument tables = .ok groups →
    ∀ group ∈ groups, ∀ entry ∈ group, tables.methods.get entry.1 = .ok entry.2
  variableRows : ∀ (tables : Tables) first next range,
    RowRange.owned .localVariable tables.localVariables.size first next = .ok range →
      ∀ row ∈ range.rows, ∃ r, tables.localVariables.get row = .ok r
  constantRows : ∀ (tables : Tables) first next range,
    RowRange.owned .localConstant tables.localConstants.size first next = .ok range →
      ∀ row ∈ range.rows, ∃ r, tables.localConstants.get row = .ok r
  offsets : ∀ document blob records,
    (SequencePoint.Record.readAll document).run blob = .ok records →
    SequencePoint.SumsFit 0 records

theorem checksPass (data : ByteArray) : ChecksPass data where
  streams _ _ _ hdirectory hheader := ⟨_, Directory.slice_eq_of_read hdirectory hheader⟩
  identifier _ _ refusal hconvert := map_parseConverting hconvert refusal data
  methodRows _ _ hgroups _ hgroup _ hentry :=
    Document.get_of_rowsByDocument hgroups hgroup hentry
  variableRows _ _ _ _ howned _ hrow :=
    have ⟨hpos, hle⟩ := RowRange.mem_rows_of_owned howned hrow
    Table.exists_get hpos hle
  constantRows _ _ _ _ howned _ hrow :=
    have ⟨hpos, hle⟩ := RowRange.mem_rows_of_owned howned hrow
    Table.exists_get hpos hle
  offsets _ _ _ hrecords := SequencePoint.Record.sumsFit_of_readAll hrecords

/-- What is read from a file on demand is read from these heaps. Hashes have been read
before. -/
structure Accessible (file : File) (heaps : Heaps) : Prop where
  heaps_eq : file.heaps = .ok heaps
  string : ∀ offset, file.getString offset = heaps.strings.get offset
  blob : ∀ offset, file.getBlob offset = heaps.blobs.get offset
  guid : ∀ index, file.getGuid index = heaps.guids.get index
  documentName : ∀ offset, file.getDocumentName offset = heaps.blobs.documentName offset
  hash_eq_error_iff : ∀ row e, file.getHash row = .error e ↔
    file.tables.documents.get? row = none ∧ e = .invalidRowIndex .document row

section Parsed

variable {data : ByteArray} {file : File} {heaps : Heaps} (h : Parsed data file heaps)
include h

theorem Parsed.exists_hash {row : Nat} {r : DocumentRow}
    (hrow : file.tables.documents.get? row = some r) :
    ∃ hash, heaps.blobs.get r.hash = .ok hash := by
  obtain ⟨-, scopes, -, hdocuments⟩ := Document.buildAll_eq_ok_iff.1 h.documents
  obtain ⟨d, -, hbuilt⟩ :=
    Outcome.exists_of_forall₂ hdocuments.flip _ (Table.mem_entries_iff.2 hrow)
  exact ⟨d.hash, hbuilt.hash⟩

theorem Parsed.accessible : file.Accessible heaps where
  heaps_eq := h.heaps_of_file
  string := h.getString_eq
  blob := h.getBlob_eq
  guid := h.getGuid_eq
  documentName := h.getDocumentName_eq
  hash_eq_error_iff row e := by
    rw [h.getHash_eq, Table.get]
    cases hrow : file.tables.documents.get? row with
    | none => simp [bind, Except.bind, TableRow.kind, eq_comm]
    | some r =>
        obtain ⟨hash, hhash⟩ := h.exists_hash hrow
        simp [bind, Except.bind, hhash]

end Parsed

/-- No check of what was made sure of before makes an error, neither while a file is
parsed nor when something is read from it later. -/
theorem rejection_of_parse (data : ByteArray) :
    (∀ e, parse data = .error e → Rejection data e) ∧ ChecksPass data ∧
      ∀ file, parse data = .ok file → ∃ heaps, file.Accessible heaps := by
  refine ⟨fun e he => (failsWith_parse data e he).rejection, checksPass data,
    fun file h => ?_⟩
  obtain ⟨heaps, hparsed⟩ := parse_eq_ok_iff.1 h
  exact ⟨heaps, hparsed.accessible⟩

/-- A conversion that asks for sixteen bytes and for nothing else. -/
def ofGuidBytes (guid : List UInt8) (stamp : UInt32) : Option PdbId :=
  if guid.length = Guid.size then some ⟨Guid.ofBytes guid, stamp⟩ else none

/-- A file that is accepted, and one whose second method is in a document that is not
there. -/
theorem rejection_of_parse_sample :
    (∃ file heaps, parse sample = .ok file ∧ file.Accessible heaps ∧
      file.getHash 0 = .error (.invalidRowIndex .document 0)) ∧
      (parse strayedSample = .error (.invalidRowIndex .document 3) ∧
        Rejection strayedSample (.invalidRowIndex .document 3)) ∧ ∀ refusal,
        (parseConverting ofGuidBytes refusal sample).map Prod.snd = parse sample := by
  obtain ⟨-, hchecks, haccess⟩ := rejection_of_parse sample
  refine ⟨?_, ?_, fun refusal =>
    hchecks.identifier PdbId ofGuidBytes refusal fun guid stamp hguid => ?_⟩
  · obtain ⟨file, hparse⟩ := parse_sample
    obtain ⟨heaps, hheaps⟩ := haccess file hparse
    exact ⟨file, heaps, hparse, hheaps,
      (hheaps.hash_eq_error_iff 0 _).2 ⟨Table.get?_zero _, rfl⟩⟩
  · have herror : (parse strayedSample).map (fun _ => ()) =
      .error (.invalidRowIndex .document 3) := by decide +kernel
    have hparse : parse strayedSample = .error (.invalidRowIndex .document 3) := by
      cases hstrayed : parse strayedSample with
      | ok file =>
          rw [hstrayed] at herror
          cases herror
      | error e =>
          rw [hstrayed] at herror
          exact congrArg Except.error (Except.error.inj herror)
    exact ⟨hparse, (rejection_of_parse strayedSample).1 _ hparse⟩
  · rw [ofGuidBytes, if_pos hguid]
    rfl

end File

end PortablePdb
