import PortablePdb.Proofs.File.Truncation

/-!
The streams that a file is read from. Once the directory of a file is read, its streams
can be cut out of the file, and what becomes of the file depends on what lies in the five
of them that are required.
-/

namespace PortablePdb

/-- The streams that no file can do without. Others may be there and are not read. -/
def requiredStreams : List String :=
  ["#Strings", "#Blob", "#GUID", "#~", "#Pdb"]

theorem Directory.require_eq_ok_iff {directory : Directory}
    {name : String} {header : StreamHeader} :
    directory.require name = .ok header ↔ directory.find? name = some header := by
  rw [require]
  cases directory.find? name <;> simp

theorem Directory.mem_of_require {directory : Directory} {name : String}
    {header : StreamHeader} (h : directory.require name = .ok header) :
    header ∈ directory.streams ∧ header.name = name := by
  rw [require_eq_ok_iff] at h
  exact ⟨Array.mem_of_find?_eq_some h, by simpa using Array.find?_some h⟩

theorem StreamHeader.slice_of_le {header : StreamHeader} {data : ByteArray}
    (h : header.stop ≤ data.size) :
    header.slice data = .ok (data.extract header.start header.stop) := by
  rw [slice, checkWithin, if_pos h]
  rfl

def Directory.heapStreams (directory : Directory) : Except FormatError HeapStreams := do
  let strings ← directory.require "#Strings"
  let blobs ← directory.require "#Blob"
  let guids ← directory.require "#GUID"
  return { strings, blobs, guids }

/-- A directory that can be read names only streams that lie in the file. -/
theorem Directory.slice_eq_of_read {data : ByteArray} {directory : Directory}
    (h : read.run data = .ok directory) {name : String} {header : StreamHeader}
    (hheader : directory.require name = .ok header) :
    header.slice data = .ok (data.extract header.start header.stop) := by
  obtain ⟨after, hread⟩ := Reader.run_eq_ok_iff.1 h
  exact StreamHeader.slice_of_le ((stop_le_of_read hread).2 _ (mem_of_require hheader).1)

theorem Directory.heapStreams_eq_ok_iff {directory : Directory} {streams : HeapStreams} :
    directory.heapStreams = .ok streams ↔
      directory.require "#Strings" = .ok streams.strings ∧
        directory.require "#Blob" = .ok streams.blobs ∧
        directory.require "#GUID" = .ok streams.guids := by
  simp only [heapStreams, Outcome.bind_eq_ok_iff]
  constructor
  · rintro ⟨strings, hstrings, blobs, hblobs, guids, hguids, heq⟩
    cases heq
    exact ⟨hstrings, hblobs, hguids⟩
  · rintro ⟨hstrings, hblobs, hguids⟩
    exact ⟨_, hstrings, _, hblobs, _, hguids, rfl⟩

theorem Directory.exists_heaps {data : ByteArray} {directory : Directory}
    (h : read.run data = .ok directory)
    {streams : HeapStreams} (hstreams : directory.heapStreams = .ok streams) :
    ∃ heaps, streams.slice data = .ok heaps := by
  obtain ⟨hstrings, hblobs, hguids⟩ := heapStreams_eq_ok_iff.1 hstreams
  simp only [HeapStreams.slice, slice_eq_of_read h hstrings, slice_eq_of_read h hblobs,
    slice_eq_of_read h hguids]
  exact ⟨_, rfl⟩

namespace File

/-- A file whose directory, `#Pdb` stream and tables can be read and that lacks none of
the required streams. -/
structure Tabulated (data : ByteArray) (directory : Directory) (pdb : PdbStream)
    (tables : Tables) : Prop where
  directory_eq : Directory.read.run data = .ok directory
  required : ∀ name ∈ requiredStreams, (directory.find? name).isSome = true
  pdb_eq : ∃ header bytes, directory.find? "#Pdb" = some header ∧
    header.slice data = .ok bytes ∧ PdbStream.read.run bytes = .ok pdb
  tables_eq : ∃ header bytes, directory.find? "#~" = some header ∧
    header.slice data = .ok bytes ∧
    (Tables.read pdb.referencedRows).run bytes = .ok tables

/-- Reads a file up to its tables. Streams that are missing are a failure like any
other. -/
def readTables (data : ByteArray) : Except FormatError Tables := do
  let directory ← Directory.read.run data
  if requiredStreams.any fun name => (directory.find? name).isNone then
    throw .unreadableFile
  let pdb ← PdbStream.read.run (← (← directory.require "#Pdb").slice data)
  (Tables.read pdb.referencedRows).run (← (← directory.require "#~").slice data)

theorem exists_tabulated (data : ByteArray) (p : Tables → Bool)
    (h : (readTables data).toOption.any p = true) :
    ∃ directory pdb tables, Tabulated data directory pdb tables ∧ p tables = true := by
  obtain ⟨tables, hread, hp⟩ := Outcome.any_toOption_iff.1 h
  obtain ⟨directory, hdirectory, hread⟩ := Outcome.bind_eq_ok_iff.1 hread
  split at hread
  case isTrue => cases hread
  case isFalse hpresent =>
    obtain ⟨pdbHeader, hpdbHeader, hread⟩ := Outcome.bind_eq_ok_iff.1 hread
    obtain ⟨pdbBytes, hpdbBytes, hread⟩ := Outcome.bind_eq_ok_iff.1 hread
    obtain ⟨pdb, hpdb, hread⟩ := Outcome.bind_eq_ok_iff.1 hread
    obtain ⟨header, hheader, hread⟩ := Outcome.bind_eq_ok_iff.1 hread
    obtain ⟨bytes, hbytes, htables⟩ := Outcome.bind_eq_ok_iff.1 hread
    refine ⟨directory, pdb, tables, ⟨hdirectory, ?_, ?_, ?_⟩, hp⟩
    · simpa [Option.isSome_iff_ne_none] using hpresent
    · exact ⟨pdbHeader, pdbBytes, Directory.require_eq_ok_iff.1 hpdbHeader, hpdbBytes, hpdb⟩
    · exact ⟨header, bytes, Directory.require_eq_ok_iff.1 hheader, hbytes, htables⟩

section Tabulated

variable {data : ByteArray} {directory : Directory} {pdb : PdbStream} {tables : Tables}
  (h : Tabulated data directory pdb tables)
include h

theorem Tabulated.exists_heaps :
    ∃ heapStreams heaps, directory.heapStreams = .ok heapStreams ∧
      heapStreams.slice data = .ok heaps := by
  have hrequire : ∀ name ∈ requiredStreams, ∃ header,
      directory.require name = .ok header := fun name hname =>
    (Option.isSome_iff_exists.1 (h.required name hname)).imp fun _ =>
      Directory.require_eq_ok_iff.2
  obtain ⟨strings, hstrings⟩ := hrequire "#Strings" (by simp [requiredStreams])
  obtain ⟨blobs, hblobs⟩ := hrequire "#Blob" (by simp [requiredStreams])
  obtain ⟨guids, hguids⟩ := hrequire "#GUID" (by simp [requiredStreams])
  have hstreams : directory.heapStreams = .ok ⟨strings, blobs, guids⟩ :=
    Directory.heapStreams_eq_ok_iff.2 ⟨hstrings, hblobs, hguids⟩
  obtain ⟨heaps, hheaps⟩ := Directory.exists_heaps h.directory_eq hstreams
  exact ⟨_, heaps, hstreams, hheaps⟩

/-- All that is left is to build the documents. -/
theorem Tabulated.parse_eq_of_heaps {heapStreams : HeapStreams} {heaps : Heaps}
    (hstreams : directory.heapStreams = .ok heapStreams)
    (hheaps : heapStreams.slice data = .ok heaps) : parse data = do
      let documents ← Document.buildAll heaps tables
      return { data, directory, heapStreams, pdb, tables, documents := documents.toArray,
               moduleName := none } := by
  obtain ⟨pdbHeader, pdbBytes, hpdbHeader, hpdbBytes, hpdb⟩ := h.pdb_eq
  obtain ⟨tablesHeader, tablesBytes, htablesHeader, htablesBytes, htables⟩ := h.tables_eq
  obtain ⟨hstrings, hblobs, hguids⟩ := Directory.heapStreams_eq_ok_iff.1 hstreams
  simp only [parse, h.directory_eq, hstrings, hblobs, hguids,
    Directory.require_eq_ok_iff.2 hpdbHeader, Directory.require_eq_ok_iff.2 htablesHeader,
    hpdbBytes, hpdb, hheaps, htablesBytes, htables, bind, Except.bind]

theorem Tabulated.parse_eq :
    ∃ heapStreams heaps, parse data = do
      let documents ← Document.buildAll heaps tables
      return { data, directory, heapStreams, pdb, tables, documents := documents.toArray,
               moduleName := none } := by
  obtain ⟨heapStreams, heaps, hstreams, hheaps⟩ := h.exists_heaps
  exact ⟨heapStreams, heaps, h.parse_eq_of_heaps hstreams hheaps⟩

end Tabulated

end File

end PortablePdb
