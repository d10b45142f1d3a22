import PortablePdb.Proofs.Builder.Acceptance
import PortablePdb.Proofs.Builder.Changes

/-!
What edits put into the heaps of a builder is got from the built file, whatever else was
added before and behind it. All that is put into a heap comes behind what was there, so a
place lies between the sizes of the heap before and behind the edit, and no two edits
answer the same one (`entries_of_parse`).
-/

namespace PortablePdb.Builder

/-! ### Places -/

inductive Heap
  | strings
  | blobs
  | guids

namespace Heap

def bytes (b : Builder) : Heap → ByteArray
  | strings => b.strings
  | blobs => b.blobs
  | guids => b.guids

def next (bytes : ByteArray) : Heap → Nat
  | strings => bytes.size
  | blobs => bytes.size
  | guids => (bytes.size + Guid.size) / Guid.size

theorem prefix_bytes {b after : Builder} (h : Grows b after) (heap : Heap) :
    (heap.bytes b).data.toList <+: (heap.bytes after).data.toList := by
  cases heap with
  | strings => exact h.strings
  | blobs => exact h.blobs
  | guids => exact h.guids

theorem next_mono {b after : Builder} (h : Grows b after) (heap : Heap) :
    heap.next (heap.bytes b) ≤ heap.next (heap.bytes after) := by
  have hsize : (heap.bytes b).size ≤ (heap.bytes after).size :=
    (heap.prefix_bytes h).length_le
  cases heap with
  | guids => exact Nat.div_le_div_right (Nat.add_le_add_right hsize _)
  | _ => exact hsize

/-- There is an empty entry at place zero of the heaps that count bytes, and no identifier
has the number zero. -/
theorem next_pos {b : Builder} (hb : Grows empty b) (heap : Heap) :
    0 < heap.next (heap.bytes b) := by
  have hempty : 0 < heap.next (heap.bytes empty) := by
    cases heap <;> simp [next, bytes, empty, Guid.size]
  exact Nat.lt_of_lt_of_le hempty (heap.next_mono hb)

theorem next_le (heap : Heap) (bytes : ByteArray) : heap.next bytes ≤ bytes.size + 1 := by
  cases heap with
  | guids =>
      rw [next, Guid.size]
      omega
  | _ => exact Nat.le_succ _

/-- Every heap is a stream. -/
theorem exists_stream_bytes (b : Builder) (heap : Heap) :
    ∃ name, (name, heap.bytes b) ∈ b.allStreams := by
  cases heap with
  | strings => exact ⟨"#Strings", by simp [allStreams, bytes]⟩
  | blobs => exact ⟨"#Blob", by simp [allStreams, bytes]⟩
  | guids => exact ⟨"#GUID", by simp [allStreams, bytes]⟩

end Heap

def Edit.heap? : Edit → Option Heap
  | string _ => some .strings
  | blob _ => some .blobs
  | documentName _ => some .blobs
  | documentNameWith _ _ => some .blobs
  | guid _ => some .guids
  | _ => none

structure Places (b after : Builder) (heap : Heap) (place : Nat) : Prop where
  next_le : heap.next (heap.bytes b) ≤ place
  lt_next : place < heap.next (heap.bytes after)

theorem places_addBlob {b after : Builder} {content : ByteArray} {offset : UInt32}
    (h : addBlob content b = .ok offset after) :
    ∃ place : Nat, offset = place.toUInt32 ∧ Places b after .blobs place := by
  obtain ⟨length, hlength, rfl, rfl⟩ := exists_of_addBlob h
  refine ⟨b.blobs.size, rfl, Nat.le_refl _, ?_⟩
  have hsome : 0 < length.length :=
    List.length_pos_iff.2 (CompressedInt.encode_ne_nil hlength)
  simp only [Heap.next, Heap.bytes, ByteArray.size_append, List.size_toByteArray]
  omega

/-- The parts of a name are put in front of it. -/
theorem places_addDocumentNameWith {b after : Builder} {path : String} {separator : UInt8}
    {offset : UInt32} (h : addDocumentNameWith path separator b = .ok offset after) :
    ∃ place : Nat, offset = place.toUInt32 ∧ Places b after .blobs place := by
  obtain ⟨parts, b', hparts, hblob⟩ := Outcome.run_bind_eq_ok_iff.1 h
  obtain ⟨place, hoffset, hplaces⟩ := places_addBlob hblob
  have hgrows := ((Makes.addNameParts _).changes hparts).grows
  exact ⟨place, hoffset, (Heap.next_mono hgrows .blobs).trans hplaces.next_le,
    hplaces.lt_next⟩

theorem places_of_apply {b after : Builder} {edit : Edit} {heap : Heap}
    {answer : Option UInt32}
    (hheap : edit.heap? = some heap) (h : edit.apply b = .ok answer after) :
    ∃ place : Nat, answer = some place.toUInt32 ∧ Places b after heap place := by
  cases edit with
  | string text =>
      obtain rfl := Option.some.inj hheap
      obtain ⟨rfl, rfl⟩ := EStateM.Result.ok.inj h
      refine ⟨b.strings.size, rfl, Nat.le_refl _, ?_⟩
      simp only [Heap.next, Heap.bytes, ByteArray.size_append, List.size_toByteArray,
        List.length_singleton]
      omega
  | blob content =>
      obtain rfl := Option.some.inj hheap
      obtain ⟨offset, hblob, rfl⟩ := Outcome.run_map_eq_ok_iff.1 h
      obtain ⟨place, rfl, hplaces⟩ := places_addBlob hblob
      exact ⟨place, rfl, hplaces⟩
  | documentName path =>
      obtain rfl := Option.some.inj hheap
      obtain ⟨offset, hname, rfl⟩ := Outcome.run_map_eq_ok_iff.1 h
      obtain ⟨place, rfl, hplaces⟩ := places_addDocumentNameWith hname
      exact ⟨place, rfl, hplaces⟩
  | documentNameWith path separator =>
      obtain rfl := Option.some.inj hheap
      obtain ⟨offset, hname, rfl⟩ := Outcome.run_map_eq_ok_iff.1 h
      obtain ⟨place, rfl, hplaces⟩ := places_addDocumentNameWith hname
      exact ⟨place, rfl, hplaces⟩
  | guid guid =>
      obtain rfl := Option.some.inj hheap
      obtain ⟨rfl, rfl⟩ := EStateM.Result.ok.inj h
      refine ⟨(b.guids.size + Guid.size) /
        Guid.size, by simp only [size_append_guid], Nat.le_refl _, ?_⟩
      simp only [Heap.next, Heap.bytes, size_append_guid]
      rw [Nat.add_div_right (b.guids.size + Guid.size) (by decide)]
      exact Nat.lt_succ_self _
  | _ => cases hheap

/-! ### Entries -/

inductive Entry
  | string (text : ByteArray)
  | blob (content : ByteArray)
  | guid (guid : Guid)

namespace Entry

def heap : Entry → Heap
  | string _ => .strings
  | blob _ => .blobs
  | guid _ => .guids

def StoredAt (place : UInt32) (bytes : ByteArray) : Entry → Prop
  | string text => StringHeap.get ⟨bytes⟩ place = StringHeap.textOf text
  | blob content => BlobHeap.get ⟨bytes⟩ place = .ok content
  | guid id => GuidHeap.get ⟨bytes⟩ place = .ok id

def FoundAt (place : UInt32) (file : File) : Entry → Prop
  | string text => file.getString place = StringHeap.textOf text
  | blob content => file.getBlob place = .ok content
  | guid id => file.getGuid place = .ok id

theorem foundAt_of_storedAt {b : Builder} {file : File} {entry : Entry} {place : UInt32}
    (hfile : File.Parsed b.build file b.storedHeaps)
    (h : entry.StoredAt place (paddedStream (entry.heap.bytes b))) :
    entry.FoundAt place file := by
  cases entry with
  | string text => exact (hfile.getString_eq place).trans h
  | blob content => exact (hfile.getBlob_eq place).trans h
  | guid guid => exact (hfile.getGuid_eq place).trans h

end Entry

def Edit.entry? : Edit → Option Entry
  | string text => some (.string text)
  | blob content => some (.blob content)
  | guid id => some (.guid id)
  | _ => none

theorem stored_of_apply {b after : Builder} {edit : Edit} {entry : Entry}
    {answer : Option UInt32} (hgrows : Grows empty b)
    (hguids : b.guids.size % Guid.size = 0) (hentry : edit.entry? = some entry)
    (h : edit.apply b = .ok answer after) :
    ∃ place, answer = some place ∧
      Lasting (fun later => entry.StoredAt place later) (entry.heap.bytes after) := by
  cases edit with
  | string text =>
      obtain rfl := Option.some.inj hentry
      obtain ⟨rfl, rfl⟩ := EStateM.Result.ok.inj h
      exact ⟨_, rfl, StringHeap.lasting_get_textOf b.strings text⟩
  | blob content =>
      obtain rfl := Option.some.inj hentry
      obtain ⟨offset, hblob, rfl⟩ := Outcome.run_map_eq_ok_iff.1 h
      obtain ⟨length, hlength, rfl, rfl⟩ := exists_of_addBlob hblob
      have hpos : 0 < b.blobs.size := Heap.blobs.next_pos hgrows
      exact ⟨_, rfl,
        (BlobHeap.lasting_get (Nat.ne_of_gt hpos) hlength).imp fun later h => h.2⟩
  | guid guid =>
      obtain rfl := Option.some.inj hentry
      obtain ⟨rfl, rfl⟩ := EStateM.Result.ok.inj h
      refine ⟨_, rfl, ?_⟩
      simp only [size_append_guid]
      exact GuidHeap.lasting_get guid hguids
  | _ => cases hentry

/-! ### Lists of edits -/

namespace Edit

def heapAt? (edits : List Edit) (i : Nat) : Option Heap :=
  edits[i]?.bind heap?

def entryAt? (edits : List Edit) (i : Nat) : Option Entry :=
  edits[i]?.bind entry?

end Edit

section Retrieval

variable {edits : List Edit} {b : Builder} {file : File}

/-- Places are words as long as the heap at the end has less than `2 ^ 32` bytes. -/
theorem Places.toNat_place {before after : Builder} {heap : Heap} {place : Nat}
    (h : Places before after heap place) (hgrows : Grows after b)
    (hheap : (heap.bytes b).size < 2 ^ 32) : place.toUInt32.toNat = place := by
  have hlt := h.lt_next
  have hmono := heap.next_mono hgrows
  have hle := heap.next_le (heap.bytes b)
  exact toNat_toUInt32 (by omega)

theorem place_ne_zero (hrun : Edit.applyAll edits empty = .ok () b) {i : Nat} {heap : Heap}
    (hi : Edit.heapAt? edits i = some heap) (hheap : (heap.bytes b).size < 2 ^ 32) :
    ∃ place, (Edit.trace edits empty)[i]? = some (.ok (some place)) ∧ place ≠ 0 := by
  obtain ⟨edit, hedit, hanswers⟩ := Option.bind_eq_some_iff.1 hi
  obtain ⟨before, answer, after, htake, happly, hdrop, htrace⟩ :=
    Edit.apply_of_applyAll hrun hedit
  obtain ⟨place, rfl, hplaces⟩ := places_of_apply hanswers happly
  refine ⟨_, htrace, fun hzero => ?_⟩
  have hplace := hplaces.toNat_place (Edit.grows_of_applyAll hdrop) hheap
  have hpos :=
    Nat.lt_of_lt_of_le (heap.next_pos (Edit.grows_of_applyAll htake)) hplaces.next_le
  rw [hzero] at hplace
  exact Nat.ne_of_lt hpos hplace

/-- A later edit answers a higher place of the same heap. -/
theorem trace_ne_of_lt (hrun : Edit.applyAll edits empty = .ok () b) {i j : Nat}
    {heap : Heap} (hij : i < j) (hi : Edit.heapAt? edits i = some heap)
    (hj : Edit.heapAt? edits j = some heap) (hheap : (heap.bytes b).size < 2 ^ 32) :
    (Edit.trace edits empty)[i]? ≠ (Edit.trace edits empty)[j]? := by
  obtain ⟨edit, hedit, hanswers⟩ := Option.bind_eq_some_iff.1 hi
  obtain ⟨editLater, heditLater, hanswersLater⟩ := Option.bind_eq_some_iff.1 hj
  obtain ⟨before, answer, after, htake, happly, hdrop, htrace⟩ :=
    Edit.apply_of_applyAll hrun hedit
  obtain ⟨later, answerLater, last, htakeLater, happlyLater, hdropLater, htraceLater⟩ :=
    Edit.apply_of_applyAll hrun heditLater
  obtain ⟨place, rfl, hplaces⟩ := places_of_apply hanswers happly
  obtain ⟨placeLater, rfl, hplacesLater⟩ := places_of_apply hanswersLater happlyLater
  have hword := hplaces.toNat_place (Edit.grows_of_applyAll hdrop) hheap
  have hwordLater := hplacesLater.toNat_place (Edit.grows_of_applyAll hdropLater) hheap
  have hlt : place < placeLater :=
    calc place
      _ < heap.next (heap.bytes after) := hplaces.lt_next
      _ ≤ heap.next (heap.bytes later) :=
        heap.next_mono (Edit.grows_between hedit hij htake happly htakeLater)
      _ ≤ placeLater := hplacesLater.next_le
  rw [htrace, htraceLater]
  intro heq
  have hwords := Option.some.inj (Except.ok.inj (Option.some.inj heq))
  rw [← hword, ← hwordLater, hwords] at hlt
  exact Nat.lt_irrefl _ hlt

theorem stored_of_applyAll (hrun : Edit.applyAll edits empty = .ok () b) {i : Nat}
    {entry : Entry} (hi : Edit.entryAt? edits i = some entry) :
    ∃ place, (Edit.trace edits empty)[i]? = some (.ok (some place)) ∧
      Lasting (fun later => entry.StoredAt place later) (entry.heap.bytes b) := by
  obtain ⟨edit, hedit, hentry⟩ := Option.bind_eq_some_iff.1 hi
  obtain ⟨before, answer, after, htake, happly, hdrop, htrace⟩ :=
    Edit.apply_of_applyAll hrun hedit
  obtain ⟨place, rfl, hstored⟩ :=
    stored_of_apply (Edit.grows_of_applyAll htake)
      (Edit.guids_whole_of_applyAll htake rfl) hentry happly
  exact ⟨place, htrace,
    hstored.mono (entry.heap.prefix_bytes (Edit.grows_of_applyAll hdrop))⟩

/-- The heaps of a file that is built under the usual names are those of the builder. Each
of them is a stream, so that it has places for all its bytes if the file has. -/
theorem parsed_of_run (hrun : Edit.run edits empty = .ok b)
    (homit : ∀ name, Edit.omitStream name ∉ edits)
    (hrename : ∀ name newName, Edit.renameStream name newName ∉ edits)
    (hsize : b.build.size < 2 ^ 32) (hparse : File.parse b.build = .ok file) :
    File.Parsed b.build file b.storedHeaps ∧
      ∀ heap : Heap, (paddedStream (heap.bytes b)).size < 2 ^ 32 := by
  obtain ⟨homitted, hrenamed⟩ : b.omitted = [] ∧ b.renamed = [] :=
    Edit.streams_kept_of_applyAll homit hrename (Edit.run_eq_ok_iff.1 hrun)
  obtain ⟨heaps, hfile⟩ := File.parse_eq_ok_iff.1 hparse
  obtain rfl := heaps_of_parsed homitted hrenamed hsize hfile
  refine ⟨hfile, fun heap => ?_⟩
  obtain ⟨name, hstream⟩ := heap.exists_stream_bytes b
  obtain ⟨-, -, -, hlt⟩ := exists_stream homitted hrenamed hsize hstream
  exact hlt

/-- What was put into the heaps of a builder is got from the file that is built, and all
places in a heap that edits answer are different. -/
theorem entries_of_parse (hrun : Edit.run edits empty = .ok b)
    (homit : ∀ name, Edit.omitStream name ∉ edits)
    (hrename : ∀ name newName, Edit.renameStream name newName ∉ edits)
    (hsize : b.build.size < 2 ^ 32) (hparse : File.parse b.build = .ok file) :
    (∀ i entry, Edit.entryAt? edits i = some entry → ∃ place,
      (Edit.trace edits empty)[i]? = some (.ok (some place)) ∧ entry.FoundAt place file) ∧
      (∀ i heap, Edit.heapAt? edits i = some heap →
        ∃ place, (Edit.trace edits empty)[i]? = some (.ok (some place)) ∧ place ≠ 0) ∧
      ∀ i j heap, i ≠ j → Edit.heapAt? edits i = some heap →
        Edit.heapAt? edits j = some heap →
        (Edit.trace edits empty)[i]? ≠ (Edit.trace edits empty)[j]? := by
  obtain ⟨hfile, hpadded⟩ := parsed_of_run hrun homit hrename hsize hparse
  rw [Edit.run_eq_ok_iff] at hrun
  have hheap (heap : Heap) : (heap.bytes b).size < 2 ^ 32 :=
    Nat.lt_of_le_of_lt (prefix_paddedStream (heap.bytes b)).length_le (hpadded heap)
  refine ⟨fun i entry hi => ?_, fun i heap hi => place_ne_zero hrun hi (hheap heap),
    fun i j heap hij hi hj => ?_⟩
  case refine_1 =>
    obtain ⟨place, htrace, hstored⟩ := stored_of_applyAll hrun hi
    exact ⟨place, htrace, Entry.foundAt_of_storedAt hfile
      (hstored _ (prefix_paddedStream _) (hpadded entry.heap))⟩
  case refine_2 =>
    rcases Nat.lt_or_gt_of_ne hij with hlt | hgt
    · exact trace_ne_of_lt hrun hlt hi hj (hheap heap)
    · exact (trace_ne_of_lt hrun hgt hj hi (hheap heap)).symm

end Retrieval

/-- Entries of all heaps, with what other edits put into the heaps between them: a string
with a zero in it, one that is not UTF-8, and equal entries. -/
def mixedEntries : List Edit :=
  [.string [0x61, 0, 0xff].toByteArray, .documentName "src/a.cs",
    .blob (List.replicate 128 7).toByteArray, .guid Language.csharpGuid,
    .document "src" Language.csharpGuid, .string [0xc3].toByteArray, .blob "src".toUTF8,
    .localConstant "src", .string .empty, .guid Language.csharpGuid, .blob .empty]

theorem entries_of_parse_mixed :
    ∃ b file, Edit.run mixedEntries empty = .ok b ∧ File.parse b.build = .ok file ∧
      (∀ i entry, Edit.entryAt? mixedEntries i = some entry →
        ∃ place, (Edit.trace mixedEntries empty)[i]? = some (.ok (some place)) ∧
          entry.FoundAt place file) ∧
      (∀ i heap, Edit.heapAt? mixedEntries i = some heap → ∃ place,
        (Edit.trace mixedEntries empty)[i]? = some (.ok (some place)) ∧ place ≠ 0) ∧
      ∀ i j heap, i ≠ j → Edit.heapAt? mixedEntries i = some heap →
        Edit.heapAt? mixedEntries j = some heap →
        (Edit.trace mixedEntries empty)[i]? ≠ (Edit.trace mixedEntries empty)[j]? := by
  obtain ⟨b, file, hrun, hsize, hparse⟩ :=
    File.exists_parse_built mixedEntries (by decide +kernel)
      (by decide +kernel) (by decide +kernel)
  exact ⟨b, file, hrun, hparse,
    entries_of_parse hrun (by simp [mixedEntries]) (by simp [mixedEntries]) hsize hparse⟩

end PortablePdb.Builder
