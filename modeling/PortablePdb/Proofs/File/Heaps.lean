import PortablePdb.Proofs.File.Streams
import PortablePdb.Proofs.Heap.Lookup

/-!
The heaps of an accepted file. An accessor reads one stream of the file and nothing
outside it, from whatever offset it is asked to.
-/

namespace PortablePdb

theorem StreamHeader.slice_eq_ok_iff {header : StreamHeader} {data stream : ByteArray} :
    header.slice data = .ok stream ↔
      Cursor.slice? data header.start header.stop = some stream := by
  have hle : header.start ≤ header.stop := Nat.le_add_right _ _
  by_cases hstop : header.stop ≤ data.size
  · rw [slice_of_le hstop, Cursor.slice?_of_le hle hstop, Except.ok.injEq,
      Option.some.injEq]
  · have herror :
        header.slice data = .error (.outOfBounds header.start header.size.toNat) := by
      rw [slice, checkWithin, if_neg hstop]
      rfl
    constructor
    · intro h
      rw [herror] at h
      cases h
    · intro h
      exact absurd (Cursor.slice?_eq_some_iff.1 h).2.1 hstop

theorem HeapStreams.slice_eq_ok_iff {streams : HeapStreams} {data : ByteArray}
    {heaps : Heaps} :
    streams.slice data = .ok heaps ↔ streams.strings.slice data = .ok heaps.strings.data ∧
      streams.blobs.slice data = .ok heaps.blobs.data ∧
      streams.guids.slice data = .ok heaps.guids.data := by
  simp only [slice, Outcome.bind_eq_ok_iff]
  constructor
  · rintro ⟨strings, hstrings, blobs, hblobs, guids, hguids, heq⟩
    cases heq
    exact ⟨hstrings, hblobs, hguids⟩
  · rintro ⟨hstrings, hblobs, hguids⟩
    exact ⟨_, hstrings, _, hblobs, _, hguids, rfl⟩

namespace File

/-- The bytes of a file that its directory puts into the stream of a name. -/
def StreamBytes (file : File) (name : String) (stream : ByteArray) : Prop :=
  ∃ header, file.stream? name = some header ∧
    Cursor.slice? file.data header.start header.stop = some stream

theorem Parsed.streamBytes {data stream : ByteArray} {file : File} {heaps : Heaps}
    (h : Parsed data file heaps) {name : String} {header : StreamHeader}
    (hheader : file.directory.require name = .ok header)
    (hslice : header.slice data = .ok stream) : file.StreamBytes name stream := by
  rw [← h.data_eq] at hslice
  exact ⟨header, Directory.require_eq_ok_iff.1 hheader,
    StreamHeader.slice_eq_ok_iff.1 hslice⟩

/-- The accessors of a file answer what lies at a place of these three streams. -/
structure AnswersFrom (file : File) (strings blobs guids : ByteArray) : Prop where
  strings_eq : file.StreamBytes "#Strings" strings
  blobs_eq : file.StreamBytes "#Blob" blobs
  guids_eq : file.StreamBytes "#GUID" guids
  string : ∀ offset : UInt32,
    StringHeap.EntryAt strings offset.toNat (file.getString offset)
  blob : ∀ offset : UInt32, BlobHeap.EntryAt blobs offset.toNat (file.getBlob offset)
  guid : ∀ index : UInt32, GuidHeap.EntryAt guids index (file.getGuid index)

/-- An accessor of an accepted file finds exactly the entries of its stream, and the file
is where the stream is. -/
theorem answersFrom_of_parse {data : ByteArray} {file : File} (h : parse data = .ok file) :
    file.data = data ∧ ∃ strings blobs guids, file.AnswersFrom strings blobs guids := by
  obtain ⟨heaps, hparsed⟩ := parse_eq_ok_iff.1 h
  obtain ⟨hstrings, hblobs, hguids⟩ := HeapStreams.slice_eq_ok_iff.1 hparsed.heaps_eq
  refine ⟨hparsed.data_eq, heaps.strings.data, heaps.blobs.data, heaps.guids.data, ?_⟩
  constructor
  case strings_eq => exact hparsed.streamBytes hparsed.strings hstrings
  case blobs_eq => exact hparsed.streamBytes hparsed.blobs hblobs
  case guids_eq => exact hparsed.streamBytes hparsed.guids hguids
  case string => exact fun offset =>
    hparsed.getString_eq offset ▸ heaps.strings.entryAt_get offset
  case blob => exact fun offset =>
    hparsed.getBlob_eq offset ▸ heaps.blobs.entryAt_get offset
  case guid => exact fun index => hparsed.getGuid_eq index ▸ heaps.guids.entryAt_get index

/-- A file with a string, a few blobs and one identifier. -/
def constantSample : ByteArray :=
  built [.document "main.cs" Guid.nil, .localConstant "Kilo"]

/-- A string and a blob that start inside others, and a number behind the last
identifier. -/
theorem answersFrom_of_parse_sample :
    ∃ file strings blobs guids, parse constantSample = .ok file ∧
      file.AnswersFrom strings blobs guids ∧
      (∃ last, Cursor.FirstZero strings 2 strings.size last ∧
        Cursor.slice? strings 2 last = some "ilo".toUTF8) ∧
      BlobHeap.StoredAt blobs 11 [2].toByteArray ∧ guids.size < 32 := by
  have hentries : ((parse constantSample).toOption.any fun file =>
      file.getString 2 = .ok "ilo" ∧ file.getBlob 11 = .ok [2].toByteArray ∧
        file.getGuid 2 = .error (.invalidGuidIndex 2)) = true := by
    decide +kernel
  obtain ⟨file, hparse, hfile⟩ := Outcome.any_toOption_iff.1 hentries
  obtain ⟨hstring, hblob, hguid⟩ := of_decide_eq_true hfile
  obtain ⟨-, strings, blobs, guids, hanswers⟩ := answersFrom_of_parse hparse
  refine ⟨file, strings, blobs, guids, hparse,
    hanswers, ((hanswers.string 2).ok_iff "ilo").1 hstring,
    ((hanswers.blob 11).ok_iff _).1 hblob, ?_⟩
  exact ((hanswers.guid 2).invalid_iff.1 hguid).resolve_left (by decide)

end File

end PortablePdb
