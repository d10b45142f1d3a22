import PortablePdb.Proofs.Builder.Acceptance

/-!
The directory of any builder, with streams left out or under new names. If a reader can
tell the names apart and takes each of them, the streams are found one behind another from
the end of the directory to the end of the file. If it does not, the header is malformed
(`readDirectory_build`).
-/

namespace PortablePdb.Builder

open Reader

/-! ### Names that are refused -/

/-- A name that is too long is refused before anything behind it is read. -/
theorem read_of_long {name : String} (hzero : 0 ∉ name.toUTF8.data.toList)
    (hlong : 32 ≤ name.toUTF8.size) (offset size : UInt32) {c : Cursor}
    (hc : c.Ahead (word32 offset ++ word32 size ++ nameField name)) :
    ∃ after, StreamHeader.read c =
      .error (.malformedHeader .streamNameTooLong) after := by
  simp only [nameField, padded, List.append_assoc] at hc
  rw [← List.append_assoc name.toUTF8.data.toList] at hc
  have htext := hc.right.right.left
  have hlimit : StreamHeader.nameLimit ≤ name.toUTF8.data.toList.toByteArray.size := by
    rw [List.size_toByteArray]
    exact hlong
  have hword (n : UInt32) : Consumes u32 (word32 n) n := Consumes.u32 n
  rw [StreamHeader.read,
    bind_of_ok (hword offset _ hc.left), bind_of_ok (hword size _ hc.right.left),
    bind_of_ok (Consumes.nullTerminated hzero _ htext), if_pos hlimit]
  exact ⟨_, rfl⟩

/-- A directory with names that a reader refuses. Headers before it may have names that
come again in it. -/
theorem readStreams_of_refused {streams : List (String × ByteArray)} :
    ∀ {offset : Nat} {read : Array StreamHeader} {c : Cursor},
      c.Ahead (directory offset streams) →
      offset + (contents streams).length ≤ c.data.size → c.data.size < 2 ^ 32 →
      (∀ stream ∈ streams, 0 ∉ stream.1.toUTF8.data.toList) →
      ¬((∀ stream ∈ streams, Nameable stream.1) ∧ (streams.map (·.1)).Nodup ∧
        ∀ header ∈ read, header.name ∉ streams.map (·.1)) →
      ∃ fault after, Directory.readStreams streams.length read c =
        .error (.malformedHeader fault) after := by
  induction streams with
  | nil =>
      intro offset read c _ _ _ _ hbad
      exact absurd ⟨by simp, .nil, by simp⟩ hbad
  | cons stream rest ih =>
      intro offset read c hc hend hdata hzeros hbad
      obtain ⟨name, content⟩ := stream
      simp only [contents_cons, List.length_append] at hend
      change offset + (content.size + (contents rest).length) ≤ c.data.size at hend
      have hzero : 0 ∉ name.toUTF8.data.toList := hzeros _ List.mem_cons_self
      rw [directory] at hc
      rw [List.length_cons, Directory.readStreams]
      by_cases hlong : 32 ≤ name.toUTF8.size
      case pos =>
        obtain ⟨after, hread⟩ := read_of_long hzero hlong _ _ hc.left
        exact ⟨_, after, bind_of_error hread⟩
      case neg =>
        have hname : Nameable name := ⟨hzero, by omega⟩
        have hcheck : StreamHeader.checkWithin ⟨name, offset.toUInt32,
            content.size.toUInt32⟩ c.data.size = .ok () :=
          if_pos (by rw [(start_stop_of_lt name (by omega)).2]; omega)
        have hstep :=
          consumes_streamHeader hname offset.toUInt32 content.size.toUInt32 c hc.left
        rw [bind_of_ok hstep, bind_of_ok (get_of_cursor _), Cursor.data_advance,
          bind_of_ok (ofExcept_of_ok hcheck _)]
        dsimp only
        by_cases hfound : (Directory.findIn? read name).isSome = true
        case pos =>
          rw [if_pos hfound]
          exact ⟨_, _, rfl⟩
        case neg =>
          rw [if_neg hfound]
          -- What is wrong with all names is wrong with the rest of them, or with one that
          -- is now a duplicate.
          refine ih hc.right (by rw [Cursor.data_advance]; omega) hdata
            (fun s hs => hzeros s (by simp [hs])) ?_
          rintro ⟨hnames, hnodup, hread⟩
          refine hbad ⟨List.forall_mem_cons.2 ⟨hname, hnames⟩,
            List.nodup_cons.2 ⟨?_, hnodup⟩, fun header hmem => ?_⟩
          · exact hread ⟨name, offset.toUInt32, content.size.toUInt32⟩ (by simp)
          · rw [List.map_cons, List.mem_cons, not_or]
            refine ⟨fun heq => hfound ?_, hread header (by simp [hmem])⟩
            rw [Directory.findIn?, Array.find?_isSome]
            exact ⟨header, hmem, by simp [heq]⟩

/-! ### Where the streams are -/

def Adjacent : (start stop : Nat) → List StreamHeader → Prop
  | start, stop, [] => start = stop
  | start, stop, header :: rest => header.start = start ∧ Adjacent header.stop stop rest

theorem adjacent_headersFrom {streams : List (String × ByteArray)} :
    ∀ {offset : Nat}, offset + (contents streams).length < 2 ^ 32 → Adjacent offset
      (offset + (contents streams).length) (headersFrom offset streams) := by
  induction streams with
  | nil => exact fun _ => rfl
  | cons stream rest ih =>
      intro offset h
      obtain ⟨name, content⟩ := stream
      simp only [contents_cons, List.length_append] at h ⊢
      change offset + (content.size + (contents rest).length) < 2 ^ 32 at h
      obtain ⟨hstart, hstop⟩ :=
        start_stop_of_lt name (show offset + content.size < 2 ^ 32 by omega)
      refine ⟨hstart, ?_⟩
      rw [hstop, ← Nat.add_assoc]
      exact ih (by omega)

theorem forall₂_headersFrom {data : ByteArray} (hdata : data.size < 2 ^ 32)
    {streams : List (String × ByteArray)} :
    ∀ {pre : List UInt8}, data.data.toList = pre ++ contents streams →
      List.Forall₂ (fun stream header => header.name = stream.1 ∧
        data.extract header.start header.stop = stream.2)
      streams (headersFrom pre.length streams) := by
  induction streams with
  | nil => exact fun _ => .nil
  | cons stream rest ih =>
      intro pre hpre
      obtain ⟨name, content⟩ := stream
      rw [contents_cons] at hpre
      have hrest :=
          ih (show data.data.toList = (pre ++ content.data.toList) ++ contents rest by
        rw [hpre, List.append_assoc])
      rw [List.length_append] at hrest
      exact .cons ⟨rfl, (extract_stream hdata hpre name).2⟩ hrest

theorem aligned_headersFrom {streams : List (String × ByteArray)} :
    ∀ {offset : Nat}, offset % 4 = 0 → (∀ stream ∈ streams, stream.2.size % 4 = 0) →
      ∀ header ∈ headersFrom offset streams, header.start % 4 = 0 := by
  induction streams with
  | nil => exact fun _ _ => by simp [headersFrom]
  | cons stream rest ih =>
      intro offset halign hsizes
      obtain ⟨hsize, hmore⟩ := List.forall_mem_cons.1 hsizes
      have hstart : offset.toUInt32.toNat % 4 = 0 := by
        rw [UInt32.toNat_ofNat']
        omega
      exact List.forall_mem_cons.2 ⟨hstart, ih (by omega) hmore⟩

theorem length_padded (bs : List UInt8) : (padded bs).length % 4 = 0 := by
  rw [padded, padding, alignUp, List.length_append, List.length_replicate]
  omega

theorem directoryLength_aligned (streams : List (String × ByteArray)) :
    directoryLength streams % 4 = 0 := by
  induction streams with
  | nil => rfl
  | cons stream rest ih =>
      have hname : (nameField stream.1).length % 4 = 0 := length_padded _
      rw [directoryLength]
      omega

theorem headerLength_aligned (streams : List (String × ByteArray)) :
    headerLength streams % 4 = 0 := by
  have hroot : (rootHeader streams.length).length = 20 + versionField.length := by
    simp [rootHeader, word16, word32]
    omega
  have hversion : versionField.length % 4 = 0 := length_padded _
  have hdirectory := directoryLength_aligned streams
  rw [headerLength, hroot]
  omega

/-! ### The directory of a builder -/

def writtenNames (b : Builder) : List String :=
  (usualNames.filter fun name => !b.omitted.contains name).map b.writtenName

/-- The streams that are written, under their usual names and without the zeros behind
them. -/
def keptStreams (b : Builder) : List (String × ByteArray) :=
  b.allStreams.filter fun stream => !b.omitted.contains stream.1

/-- Bytes that are padded with as few zeros as a multiple of four needs. -/
def PaddedTo (content bytes : ByteArray) : Prop :=
  ∃ zeros < 4, bytes = content ++ (List.replicate zeros 0).toByteArray ∧ bytes.size % 4 = 0

/-- What a directory that ends at `stop` has to say about a built file. -/
structure LaidOut (b : Builder) (stop : Nat) (headers : List StreamHeader) : Prop where
  names : headers.map (·.name) = b.writtenNames
  adjacent : Adjacent stop b.build.size headers
  aligned : ∀ header ∈ headers, header.start % 4 = 0
  contents : List.Forall₂ (fun stream header =>
    PaddedTo stream.2 (b.build.extract header.start header.stop)) b.keptStreams headers

theorem streams_eq_map (b : Builder) :
    b.streams = b.keptStreams.map fun stream =>
      (b.writtenName stream.1, paddedStream stream.2) := rfl

theorem map_fst_streams (b : Builder) : b.streams.map (·.1) = b.writtenNames := by
  have hkept : b.keptStreams.map (·.1) = usualNames.filter fun name =>
      !b.omitted.contains name := by
    rw [show usualNames = b.allStreams.map (·.1) from rfl, List.filter_map]
    rfl
  rw [writtenNames, ← hkept, streams_eq_map, List.map_map, List.map_map]
  rfl

theorem paddedTo_paddedStream (content : ByteArray) :
    PaddedTo content (paddedStream content) := by
  refine ⟨alignUp content.size - content.size, ?_, rfl, ?_⟩
  · rw [alignUp]
    omega
  · rw [paddedStream, padding, alignUp, ByteArray.size_append, List.size_toByteArray,
      List.length_replicate]
    omega

theorem map_name_headersFrom (streams : List (String × ByteArray)) :
    ∀ offset : Nat, (headersFrom offset streams).map (·.name) = streams.map (·.1) := by
  induction streams with
  | nil => exact fun _ => rfl
  | cons stream rest ih => exact fun offset => congrArg (stream.1 :: ·) (ih _)

theorem laidOut_storedDirectory {b : Builder} (hsize : b.build.size < 2 ^ 32) :
    b.LaidOut (headerLength b.streams) b.storedDirectory.streams.toList where
  names := (map_name_headersFrom _ _).trans b.map_fst_streams
  adjacent := by
    have hend := b.size_build
    rw [hend]
    exact adjacent_headersFrom (hend ▸ hsize)
  aligned := by
    refine aligned_headersFrom (headerLength_aligned _) fun stream hstream => ?_
    rw [streams_eq_map] at hstream
    obtain ⟨kept, -, rfl⟩ := List.mem_map.1 hstream
    obtain ⟨-, -, -, halign⟩ := paddedTo_paddedStream kept.2
    exact halign
  contents := by
    have hfound := forall₂_headersFrom hsize b.toList_build
    rw [length_header, streams_eq_map, List.forall₂_map_left_iff,
      ← streams_eq_map] at hfound
    exact hfound.imp fun kept header h => h.2 ▸ paddedTo_paddedStream kept.2

/-- The directory of a built file is read back, and shows where all streams are, unless a
reader cannot tell two names apart or takes one of them for too long. -/
theorem readDirectory_build (b : Builder)
    (hzero : ∀ name ∈ b.writtenNames, 0 ∉ name.toUTF8.data.toList)
    (hsize : b.build.size < 2 ^ 32) :
    (b.writtenNames.Nodup → (∀ name ∈ b.writtenNames, name.toUTF8.size ≤ 31) →
      ∃ directory after, Directory.read (Cursor.ofBytes b.build) = .ok directory after ∧
        b.LaidOut after.pos directory.streams.toList) ∧
      (¬b.writtenNames.Nodup ∨ (∃ name ∈ b.writtenNames, 32 ≤ name.toUTF8.size) →
        ∃ fault, Directory.read.run b.build = .error (.malformedHeader fault)) := by
  rw [← map_fst_streams] at hzero ⊢
  have hzeros : ∀ stream ∈ b.streams, 0 ∉ stream.1.toUTF8.data.toList :=
      fun stream hstream =>
    hzero _ (List.mem_map_of_mem hstream)
  refine ⟨fun hnodup hshort => ?_, fun hbad => ?_⟩
  case refine_1 =>
    have hnames : ∀ stream ∈ b.streams, Nameable stream.1 := fun stream hstream =>
      ⟨hzeros stream hstream, Nat.lt_succ_of_le (hshort _ (List.mem_map_of_mem hstream))⟩
    refine ⟨_, _, read_directory hsize hnames hnodup, ?_⟩
    have hpos : ((Cursor.ofBytes b.build).advance (headerLength b.streams)).pos =
        headerLength b.streams :=
      Nat.zero_add _
    rw [hpos]
    exact laidOut_storedDirectory hsize
  case refine_2 =>
    have hend : headerLength b.streams + (contents b.streams).length ≤ b.build.size :=
      Nat.le_of_eq b.size_build.symm
    have hrefused :
        ¬((∀ stream ∈ b.streams, Nameable stream.1) ∧ (b.streams.map (·.1)).Nodup ∧
          ∀ header ∈ (#[] : Array StreamHeader), header.name ∉ b.streams.map (·.1)) := by
      rintro ⟨hnames, hnodup, -⟩
      rcases hbad with hdup | ⟨name, hname, hlong⟩
      · exact hdup hnodup
      · obtain ⟨stream, hstream, rfl⟩ := List.mem_map.1 hname
        exact Nat.not_lt.2 hlong (hnames stream hstream).size_lt
    obtain ⟨fault, after, hread⟩ :=
      readStreams_of_refused b.ahead_header.right hend hsize hzeros hrefused
    refine ⟨fault, ?_⟩
    rw [Reader.run, read_eq_readStreams, bind_of_error hread]

/-- A builder without the stream of user strings, whose blobs are written under that name
or another one. -/
def renamedTo (blobs : String) : Builder :=
  { empty with
    strings := [0, 0x61, 0].toByteArray
    omitted := ["#US"]
    renamed := [("#Strings", "the names of things in the file"), ("#Blob", blobs),
      ("#Blob", "#~")] }

/-- A name that is left out may be used again. One that is in use may not, nor may one of
32 bytes. -/
theorem readDirectory_renamedTo :
    (∃ directory after,
      Directory.read (Cursor.ofBytes (renamedTo "#US").build) = .ok directory after ∧
      (renamedTo "#US").LaidOut after.pos directory.streams.toList) ∧
      ∀ name ∈ ["#~", "größere Namen für die Zeichen"], ∃ fault,
        Directory.read.run (renamedTo name).build = .error (.malformedHeader fault) := by
  have hgood : (∀ name ∈ (renamedTo "#US").writtenNames, 0 ∉ name.toUTF8.data.toList ∧
    name.toUTF8.size ≤ 31) ∧ (renamedTo "#US").writtenNames.Nodup ∧
    (renamedTo "#US").build.size < 2 ^ 32 := by decide +kernel
  have hbad : ∀ name ∈ ["#~", "größere Namen für die Zeichen"],
      (∀ written ∈ (renamedTo name).writtenNames, 0 ∉ written.toUTF8.data.toList) ∧
      (renamedTo name).build.size < 2 ^ 32 ∧ (¬(renamedTo name).writtenNames.Nodup ∨
        ∃ long ∈ (renamedTo name).writtenNames, 32 ≤ long.toUTF8.size) := by
    decide +kernel
  obtain ⟨hnames, hnodup, hsize⟩ := hgood
  constructor
  · exact (readDirectory_build _ (fun name hname => (hnames name hname).1) hsize).1 hnodup
      fun name hname => (hnames name hname).2
  · intro name hname
    obtain ⟨hzero, hsize, hfault⟩ := hbad name hname
    exact (readDirectory_build _ hzero hsize).2 hfault

end PortablePdb.Builder
