import PortablePdb.Proofs.Builder.Container
import PortablePdb.Proofs.Builder.Documents
import PortablePdb.Proofs.Builder.Tables
import PortablePdb.Proofs.File.Parts

/-!
Built files of any size. A file whose streams keep their usual names is accepted if its
documents can be built, and how large it is at most follows from the sizes of its heaps
and tables.
-/

namespace PortablePdb.Builder

/-! ### Streams -/

/-- The names that streams are written under when none of them is left out or renamed. -/
def usualNames : List String :=
  ["#Pdb", "#~", "#Strings", "#US", "#GUID", "#Blob"]

theorem nameable_of_usual : ∀ name ∈ usualNames, Nameable name := by
  have h : ∀ name ∈ usualNames, 0 ∉ name.toUTF8.data.toList ∧
    name.toUTF8.size < 32 := by decide +kernel
  exact fun name hname => ⟨(h name hname).1, (h name hname).2⟩

def paddedStream (content : ByteArray) : ByteArray :=
  content ++ (padding content.size).toByteArray

theorem prefix_paddedStream (content : ByteArray) :
    content.data.toList <+: (paddedStream content).data.toList := by
  simp [paddedStream]

theorem size_le_of_slice {header : StreamHeader} {data content : ByteArray}
    (h : header.slice data = .ok content) : content.size ≤ data.size := by
  obtain ⟨-, -, heq⟩ := Outcome.bind_eq_ok_iff.1 h
  obtain rfl := Except.ok.inj heq
  rw [ByteArray.size_extract]
  omega

section Streams

variable {b : Builder} (homitted : b.omitted = []) (hrenamed : b.renamed = [])
include homitted hrenamed

theorem streams_eq :
    b.streams = b.allStreams.map fun stream => (stream.1, paddedStream stream.2) := by
  simp [streams, homitted, writtenName, hrenamed, paddedStream]

theorem names_streams : b.streams.map (·.1) = usualNames := by
  simp [streams_eq homitted hrenamed, allStreams, usualNames]

theorem nodup_streams : (b.streams.map (·.1)).Nodup := by
  rw [names_streams homitted hrenamed]
  decide

theorem run_readDirectory (hsize : b.build.size < 2 ^ 32) :
    Directory.read.run b.build = .ok b.storedDirectory := by
  have hnames := names_streams homitted hrenamed
  have hnameable : ∀ stream ∈ b.streams, Nameable stream.1 := fun stream hstream =>
    nameable_of_usual _ (hnames ▸ List.mem_map_of_mem hstream)
  simp only [Reader.run, read_directory hsize hnameable (nodup_streams homitted hrenamed)]

/-- Every stream is found by its usual name. -/
theorem exists_stream (hsize : b.build.size < 2 ^ 32) {name : String}
    {content : ByteArray} (hstream : (name, content) ∈ b.allStreams) :
    ∃ header, b.storedDirectory.require name = .ok header ∧
      header.slice b.build = .ok (paddedStream content) ∧
      (paddedStream content).size < 2 ^ 32 := by
  have hmem : (name, paddedStream content) ∈ b.streams := by
    rw [streams_eq homitted hrenamed]
    exact List.mem_map.2 ⟨_, hstream, rfl⟩
  obtain ⟨header, hfind, hslice⟩ :=
    exists_header hsize b.toList_build (nodup_streams homitted hrenamed) hmem
  rw [length_header] at hfind
  refine ⟨header, ?_, hslice, ?_⟩
  · simp only [Directory.require, Directory.find?, Directory.findIn?, storedDirectory,
      List.find?_toArray, hfind]
  · exact Nat.lt_of_le_of_lt (size_le_of_slice hslice) hsize

end Streams

/-! ### Files -/

def storedHeaps (b : Builder) : Heaps :=
  ⟨⟨paddedStream b.strings⟩, ⟨paddedStream b.blobs⟩, ⟨paddedStream b.guids⟩⟩

theorem run_readPdb (b : Builder) :
    PdbStream.read.run (paddedStream b.pdbStream.toByteArray) = .ok b.storedPdb :=
  b.consumes_pdbStream.run (by simpa using prefix_paddedStream b.pdbStream.toByteArray)

theorem run_readTables {b : Builder} (hdeclared : ∀ d ∈ b.declaredRows, Declarable d)
    (hb : b.Countable) :
    (Tables.read b.referencedRows).run (paddedStream b.tablesStream.toByteArray) =
      .ok b.storedTables :=
  (consumes_tablesStream hdeclared hb.numbered).run
    (by simpa using prefix_paddedStream b.tablesStream.toByteArray)

/-! ### Sizes -/

theorem length_column_le (wide : Bool) (n : UInt32) : (column wide n).length ≤ 4 := by
  cases wide <;> simp [column, word16, word32]

theorem length_flatMap_le {α : Type} {bytes : α → List UInt8} {size : Nat}
    (h : ∀ a, (bytes a).length ≤ size)
    (as : List α) : (as.flatMap bytes).length ≤ size * as.length := by
  induction as with
  | nil => exact Nat.zero_le _
  | cons a rest ih =>
      have ha := h a
      rw [List.flatMap_cons, List.length_append, List.length_cons, Nat.mul_succ]
      omega

/-- No more than 64 counts are written. -/
theorem length_select_le (counts : RowCounts) (p : Fin 64 → Bool) :
    ((counts.select p).flatMap fun entry => word32 entry.2).length ≤ 256 := by
  have hids : (counts.select p).length ≤ 64 := by
    have hfilter := List.length_filter_le p (List.finRange 64)
    simpa [RowCounts.select] using hfilter
  have hwords := length_flatMap_le (fun entry : Fin 64 × UInt32 =>
    Nat.le_of_eq (length_leBytes 4 entry.2.toNat)) (counts.select p)
  exact Nat.le_trans hwords (by omega)

theorem length_pdbStream_le (b : Builder) : b.pdbStream.length ≤ 288 := by
  have hcounts := length_select_le b.referencedRows fun id => b.referencedRows.get id != 0
  have hid : b.pdbId.bytes.length = 20 := by simp [PdbId.bytes, Guid.size]
  simp only [pdbStream, List.length_append, hid, word32, word64, length_leBytes]
  exact Nat.add_le_add_left hcounts 32

/-- The sizes of the columns of all rows, as if they were all wide. -/
def wideSize (b : Builder) : Nat :=
  16 * b.documents.size + 8 * b.methods.size + 24 * b.scopes.size +
    8 * b.localVariables.size + 8 * b.localConstants.size

theorem length_tablesStream_le (b : Builder) :
    b.tablesStream.length ≤ 280 + b.wideSize := by
  have hdocument (row : DocumentRow) : (b.documentRow row).length ≤ 16 := by
    simp only [documentRow, heapColumn, List.length_append]
    grind [length_column_le]
  have hmethod (row : MethodRow) : (b.methodRow row).length ≤ 8 := by
    simp only [methodRow, heapColumn, tableColumn, List.length_append]
    grind [length_column_le]
  have hscope (row : ScopeRow) : (b.scopeRow row).length ≤ 24 := by
    simp only [scopeRow, tableColumn, List.length_append, word32, length_leBytes]
    grind [length_column_le]
  have hvariable (row : VariableRow) : (b.variableRow row).length ≤ 8 := by
    simp only [variableRow, heapColumn, List.length_append, word16, length_leBytes]
    grind [length_column_le]
  have hconstant (row : ConstantRow) : (b.constantRow row).length ≤ 8 := by
    simp only [constantRow, heapColumn, List.length_append]
    grind [length_column_le]
  have hcounts := length_select_le b.rowCounts b.isCounted
  have hdocuments := length_flatMap_le hdocument b.documents.toList
  have hmethods := length_flatMap_le hmethod b.methods.toList
  have hscopes := length_flatMap_le hscope b.scopes.toList
  have hvariables := length_flatMap_le hvariable b.localVariables.toList
  have hconstants := length_flatMap_le hconstant b.localConstants.toList
  have hheader : b.tablesHeader.length =
      24 + ((b.rowCounts.select b.isCounted).flatMap fun entry =>
        word32 entry.2).length := by
    simp [tablesHeader, word32, word64]
    omega
  simp only [tablesStream, wideSize, List.length_append, hheader]
  simp only [Array.length_toList] at hdocuments hmethods hscopes hvariables hconstants
  omega

theorem size_paddedStream_le (content : ByteArray) :
    (paddedStream content).size ≤ content.size + 3 := by
  simp only [paddedStream, padding, alignUp, ByteArray.size_append, List.size_toByteArray,
    List.length_replicate]
  omega

/-- The names of the streams and their places take up a fixed number of bytes. -/
theorem headerLength_streams {b : Builder} (homitted : b.omitted = [])
    (hrenamed : b.renamed = []) : headerLength b.streams = 124 := by
  have hnames : ∀ streams : List (String × ByteArray), directoryLength streams =
      ((streams.map (·.1)).map fun name => 8 + (nameField name).length).sum := by
    intro streams
    induction streams with
    | nil => rfl
    | cons stream rest ih => simp [directoryLength, ih]
  have husual : ((usualNames.map fun name => 8 + (nameField name).length).sum = 92) ∧
      (rootHeader 6).length = 32 := by
    decide +kernel
  have hcount : b.streams.length = 6 := by
    rw [← List.length_map, names_streams homitted hrenamed]
    rfl
  rw [headerLength, hnames, names_streams homitted hrenamed, husual.1, hcount, husual.2]

theorem size_build_le {b : Builder} (homitted : b.omitted = [])
    (hrenamed : b.renamed = []) :
    b.build.size ≤ 711 + b.strings.size + b.blobs.size + b.guids.size + b.wideSize := by
  have hbytes := b.size_build
  rw [headerLength_streams homitted hrenamed] at hbytes
  have hcontents : (contents b.streams).length =
      (b.allStreams.map fun stream => (paddedStream stream.2).size).sum := by
    rw [streams_eq homitted hrenamed]
    induction b.allStreams with
    | nil => rfl
    | cons stream rest ih =>
        rw [List.map_cons, contents_cons, List.length_append, ih, List.map_cons,
          List.sum_cons]
        rfl
  have hpdb := size_paddedStream_le b.pdbStream.toByteArray
  have htables := size_paddedStream_le b.tablesStream.toByteArray
  have hstrings := size_paddedStream_le b.strings
  have huser := size_paddedStream_le [0].toByteArray
  have hguids := size_paddedStream_le b.guids
  have hblobs := size_paddedStream_le b.blobs
  have hpdbLength := b.length_pdbStream_le
  have htablesLength := b.length_tablesStream_le
  rw [List.size_toByteArray] at hpdb htables huser
  simp only [allStreams, List.map_cons, List.map_nil, List.sum_cons,
    List.sum_nil] at hcontents
  simp only [List.length_cons, List.length_nil] at huser
  omega

/-! ### Acceptance -/

/-- A built file is accepted if its documents can be built from the heaps and tables that
are read. -/
theorem parse_of_buildAll {b : Builder} {documents : List Document}
    (homitted : b.omitted = []) (hrenamed : b.renamed = [])
    (hdeclared : ∀ d ∈ b.declaredRows, Declarable d) (hb : b.Countable)
    (hsize : b.build.size < 2 ^ 32)
    (hdocuments : Document.buildAll b.storedHeaps b.storedTables = .ok documents) :
    ∃ file, File.parse b.build = .ok file ∧ file.tables = b.storedTables ∧
      file.documents = documents.toArray := by
  have hstream (name : String) (content : ByteArray)
      (hmem : (name, content) ∈ b.allStreams) :=
    exists_stream homitted hrenamed hsize hmem
  obtain ⟨pdbHeader, hpdbHeader, hpdb, -⟩ :=
    hstream "#Pdb" b.pdbStream.toByteArray (by simp [allStreams])
  obtain ⟨tablesHeader, htablesHeader, htables, -⟩ :=
    hstream "#~" b.tablesStream.toByteArray (by simp [allStreams])
  obtain ⟨strings, hstringsHeader, hstrings, -⟩ :=
    hstream "#Strings" b.strings (by simp [allStreams])
  obtain ⟨guids, hguidsHeader, hguids, -⟩ := hstream "#GUID" b.guids (by simp [allStreams])
  obtain ⟨blobs, hblobsHeader, hblobs, -⟩ := hstream "#Blob" b.blobs (by simp [allStreams])
  have hheaps :
      HeapStreams.slice { strings, blobs, guids } b.build = .ok b.storedHeaps := by
    simp only [HeapStreams.slice, hstrings, hblobs, hguids]
    rfl
  refine ⟨{ data := b.build, directory := b.storedDirectory,
            heapStreams := { strings, blobs, guids },
            pdb := b.storedPdb, tables := b.storedTables, documents := documents.toArray,
            moduleName := none }, File.parse_eq_ok_iff.2 ⟨b.storedHeaps, ?_⟩, rfl, rfl⟩
  exact ⟨rfl, run_readDirectory homitted hrenamed hsize, hstringsHeader, hblobsHeader,
    hguidsHeader, hheaps, ⟨_, _, hpdbHeader, hpdb, b.run_readPdb⟩,
    ⟨_, _, htablesHeader, htables, run_readTables hdeclared hb⟩, hdocuments, rfl⟩

section Sized

variable {b : Builder} (homitted : b.omitted = []) (hrenamed : b.renamed = [])
  (hsize : b.build.size < 2 ^ 32)
include homitted hrenamed hsize

/-- The rows are bytes of the file, so there are not too many of them. -/
theorem countable_of_size_build : b.Countable := by
  obtain ⟨-, -, -, htables⟩ :=
    exists_stream homitted hrenamed hsize
      (show ("#~", b.tablesStream.toByteArray) ∈ b.allStreams by simp [allStreams])
  refine countable_of_length_lt (Nat.lt_of_le_of_lt ?_ htables)
  simpa using (prefix_paddedStream b.tablesStream.toByteArray).length_le

/-- Padding is one more addition to a heap, and what was added before it is read as it
was. -/
theorem storedIn_of_fits (hfits : b.Fits) : b.StoredIn b.storedHeaps b.storedTables := by
  have hheap {name : String} {content : ByteArray}
      (hstream : (name, content) ∈ b.allStreams) :
      (paddedStream content).size < 2 ^ 32 := by
    obtain ⟨-, -, -, hlt⟩ := exists_stream homitted hrenamed hsize hstream
    exact hlt
  rw [storedTables_eq hfits]
  refine ⟨prefix_paddedStream _, prefix_paddedStream _, prefix_paddedStream _, ?_, ?_, ?_,
    rfl, rfl, rfl, rfl, rfl⟩
  · exact hheap (show ("#Strings", b.strings) ∈ b.allStreams by simp [allStreams])
  · exact hheap (show ("#Blob", b.blobs) ∈ b.allStreams by simp [allStreams])
  · exact hheap (show ("#GUID", b.guids) ∈ b.allStreams by simp [allStreams])

end Sized

/-- A file is accepted, and its tables and documents are read as they were added, if no
number is cut off. -/
theorem Holds.parse_of_fits {b : Builder} {edits : List Edit} (hb : b.Holds edits)
    (hedits : ∀ edit ∈ edits, edit.Describable)
    (howners : ∀ owner marks, Edit.method owner marks ∈ edits →
      owner.toNat ≤ (edits.filterMap Edit.addedDocument?).length)
    (hfits : b.Fits) (hsize : b.build.size < 2 ^ 32) :
    ∃ file, File.parse b.build = .ok file ∧ file.tables = b.storedTables ∧
      file.documents = (Edit.described edits).toArray := by
  have hcountable := countable_of_size_build hb.omitted hb.renamed hsize
  have hdocuments :=
    hb.buildAll_documents hedits (storedIn_of_fits hb.omitted hb.renamed hsize hfits)
      hcountable.localVariables hcountable.localConstants fun m hm =>
      howners m.1 m.2 (Edit.mem_filterMap_addedMethod?.1 hm)
  exact parse_of_buildAll hb.omitted hb.renamed
    (by simp [hb.declaredRows]) hcountable hsize hdocuments

section Parsed

variable {b : Builder} {file : File} {heaps : Heaps} (homitted : b.omitted = [])
  (hrenamed : b.renamed = [])
  (hsize : b.build.size < 2 ^ 32) (h : File.Parsed b.build file heaps)
include homitted hrenamed hsize h

theorem directory_of_parsed : file.directory = b.storedDirectory :=
  Except.ok.inj (h.directory.symm.trans (run_readDirectory homitted hrenamed hsize))

/-- A stream that is required by its usual name is that of the builder. -/
theorem slice_of_parsed (name : String) (content : ByteArray) {bytes : ByteArray}
    {header : StreamHeader} (hstream : (name, content) ∈ b.allStreams)
    (hheader : file.directory.require name = .ok header)
    (hbytes : header.slice b.build = .ok bytes) : bytes = paddedStream content := by
  obtain ⟨stored, hstored, hslice, -⟩ := exists_stream homitted hrenamed hsize hstream
  rw [directory_of_parsed homitted hrenamed hsize h, hstored] at hheader
  obtain rfl := Except.ok.inj hheader
  exact Except.ok.inj (hbytes.symm.trans hslice)

theorem heaps_of_parsed : heaps = b.storedHeaps := by
  have hheaps := h.heaps_eq
  simp only [HeapStreams.slice, Outcome.bind_eq_ok_iff] at hheaps
  obtain ⟨strings, hstrings, blobs, hblobs, guids, hguids, heq⟩ := hheaps
  obtain rfl := Except.ok.inj heq
  obtain rfl := slice_of_parsed homitted hrenamed hsize h "#Strings" b.strings
    (by simp [allStreams]) h.strings hstrings
  obtain rfl := slice_of_parsed homitted hrenamed hsize h "#Blob" b.blobs
    (by simp [allStreams]) h.blobs hblobs
  obtain rfl := slice_of_parsed homitted hrenamed hsize h "#GUID" b.guids
    (by simp [allStreams]) h.guids hguids
  rfl

/-- The tables of a built file are those of the builder, as far as their columns hold
them. -/
theorem tables_of_parsed (hdeclared : ∀ d ∈ b.declaredRows, Declarable d)
    (hb : b.Countable) : file.tables = b.storedTables := by
  obtain ⟨pdbHeader, pdbBytes, hpdbHeader, hpdbBytes, hpdb⟩ := h.pdb
  obtain ⟨tablesHeader, tablesBytes, htablesHeader, htablesBytes, htables⟩ := h.tables
  obtain rfl := slice_of_parsed homitted hrenamed hsize h "#Pdb" b.pdbStream.toByteArray
    (by simp [allStreams]) hpdbHeader hpdbBytes
  obtain rfl := slice_of_parsed homitted hrenamed hsize h "#~" b.tablesStream.toByteArray
    (by simp [allStreams]) htablesHeader htablesBytes
  have hpdb : file.pdb = b.storedPdb := Except.ok.inj (hpdb.symm.trans b.run_readPdb)
  rw [hpdb] at htables
  exact Except.ok.inj (htables.symm.trans (run_readTables hdeclared hb))

end Parsed

end PortablePdb.Builder
