import PortablePdb.Builder.Image
import PortablePdb.Proofs.Consumption
import PortablePdb.Proofs.Heap.Lasting

/-!
The container of streams. The directory of a file that is built names its streams one
after another, from the end of the directory to the end of the file. It is read back as
long as a reader can tell the streams apart and takes their names, and every stream is
then found where it was put.
-/

namespace PortablePdb

/-- The part of a buffer that stands between two others. -/
theorem extract_between {data : ByteArray} {pre bs post : List UInt8}
    (hdata : data.data.toList = pre ++ (bs ++ post)) :
    data.extract pre.length (pre.length + bs.length) = bs.toByteArray := by
  apply ByteArray.ext
  apply Array.toList_inj.1
  simp [ByteArray.data_extract, List.extract_eq_take_drop, hdata]

namespace Builder

open Reader

/-! ### The root header -/

def rootOf (streamCount : Nat) : RootHeader where
  signature := metadataSignature
  majorVersion := 1
  minorVersion := 1
  version := "PDB v1.0"
  flags := 0
  streamCount := streamCount.toUInt16

theorem consumes_rootHeader (streamCount : Nat) :
    Consumes RootHeader.read (rootHeader streamCount) (rootOf streamCount) := by
  simp only [rootHeader, List.append_assoc]
  apply (Consumes.u32 metadataSignature).bind
  rw [if_neg (by decide)]
  refine (Consumes.u16 1).bind
    ((Consumes.u16 1).bind ((Consumes.u32 0).bind ((Consumes.u32 _).bind ?_)))
  have hfield := Consumes.bytes versionField
  rw [show versionField.length = versionField.length.toUInt32.toNat by decide] at hfield
  have hversion : String.fromUTF8?
    ((versionField.toByteArray.data.toList.takeWhile (· ≠ 0)).toByteArray) =
    some "PDB v1.0" := by decide +kernel
  exact hfield.bind
    ((Consumes.utf8 hversion _).bind ((Consumes.u16 0).bind ((Consumes.u16 _).map _)))

/-! ### The directory -/

structure Nameable (name : String) : Prop where
  zero_notMem : 0 ∉ name.toUTF8.data.toList
  size_lt : name.toUTF8.size < 32

def headersFrom : (offset : Nat) → List (String × ByteArray) → List StreamHeader
  | _, [] => []
  | offset, (name, content) :: rest =>
    { name, offset := offset.toUInt32,
      size := content.size.toUInt32 } :: headersFrom (offset + content.size) rest

def contents (streams : List (String × ByteArray)) : List UInt8 :=
  streams.flatMap fun stream => stream.2.data.toList

@[simp] theorem contents_nil : contents [] = [] := rfl

@[simp] theorem contents_cons (stream : String × ByteArray)
    (rest : List (String × ByteArray)) :
    contents (stream :: rest) = stream.2.data.toList ++ contents rest := rfl

theorem consumes_streamHeader {name : String} (hname : Nameable name)
    (offset size : UInt32) :
    Consumes StreamHeader.read
      (word32 offset ++ word32 size ++ nameField name) { name, offset, size } := by
  have hsize : name.toUTF8.data.toList.toByteArray.size =
    name.toUTF8.data.toList.length := List.size_toByteArray
  have hpadding := Consumes.skip (padding (name.toUTF8.data.toList.length + 1))
  rw [padding, List.length_replicate] at hpadding
  simp only [nameField, padded, padding, List.length_append, List.length_singleton,
    List.append_assoc]
  rw [← List.append_assoc name.toUTF8.data.toList]
  refine (Consumes.u32 offset).bind
    ((Consumes.u32 size).bind ((Consumes.nullTerminated hname.zero_notMem).bind ?_))
  have hlimit : ¬StreamHeader.nameLimit ≤ name.toUTF8.data.toList.length :=
    Nat.not_le.2 hname.size_lt
  rw [hsize, if_neg hlimit, Cursor.toByteArray_toList]
  exact (Consumes.utf8 (fromUTF8?_toUTF8 name) _).bind (hpadding.last (.pure _))

/-- A header that does not reach behind the words tells where its stream is. -/
theorem start_stop_of_lt (name : String) {offset size : Nat} (h : offset + size < 2 ^ 32) :
    StreamHeader.start ⟨name, offset.toUInt32, size.toUInt32⟩ = offset ∧
      StreamHeader.stop ⟨name, offset.toUInt32, size.toUInt32⟩ = offset + size := by
  have hoffset : offset.toUInt32.toNat = offset := toNat_toUInt32 (by omega)
  have hsize : size.toUInt32.toNat = size := toNat_toUInt32 (by omega)
  rw [StreamHeader.start, StreamHeader.stop, hoffset, hsize]
  exact ⟨rfl, rfl⟩

/-- A directory is read back when the streams that it tells of lie within the file. -/
theorem readStreams_directory {streams : List (String × ByteArray)} :
    ∀ {offset : Nat} {read : Array StreamHeader} {c : Cursor},
      c.Ahead (directory offset streams) →
      offset + (contents streams).length ≤ c.data.size → c.data.size < 2 ^ 32 →
      (∀ stream ∈ streams, Nameable stream.1) → (streams.map (·.1)).Nodup →
      (∀ header ∈ read, header.name ∉ streams.map (·.1)) →
      Directory.readStreams streams.length read c =
        .ok (read ++ (headersFrom offset streams).toArray)
          (c.advance (directory offset streams).length) := by
  induction streams with
  | nil =>
      intro offset read c _ _ _ _ _ _
      simp [Directory.readStreams, headersFrom, directory, pure, EStateM.pure]
  | cons stream rest ih =>
      intro offset read c hc hend hdata hnames hnodup hread
      obtain ⟨name, content⟩ := stream
      simp only [contents_cons, List.length_append] at hend
      change offset + (content.size + (contents rest).length) ≤ c.data.size at hend
      rw [List.map_cons, List.nodup_cons] at hnodup
      have hname : Nameable name := hnames _ List.mem_cons_self
      have hcheck : StreamHeader.checkWithin ⟨name, offset.toUInt32,
          content.size.toUInt32⟩ c.data.size = .ok () :=
        if_pos (by rw [(start_stop_of_lt name (by omega)).2]; omega)
      have hnew : ¬(Directory.findIn? read name).isSome = true := by
        rw [Directory.findIn?, Array.find?_isSome]
        rintro ⟨header, hmem, heq⟩
        exact hread header hmem (by simp [beq_iff_eq.1 heq])
      rw [directory] at hc ⊢
      have hstep :=
        consumes_streamHeader hname offset.toUInt32 content.size.toUInt32 c hc.left
      -- The names that are left are different from this one too, which keeps the rest
      -- from being duplicates.
      have hothers : ∀ header ∈ read.push ⟨name, offset.toUInt32, content.size.toUInt32⟩,
          header.name ∉ rest.map (·.1) := by
        intro header hmem
        rcases Array.mem_push.1 hmem with hmem | rfl
        · exact fun h => hread header hmem (List.mem_cons_of_mem _ h)
        · exact hnodup.1
      have hrest := ih hc.right (by rw [Cursor.data_advance]; omega) hdata
        (fun stream hstream => hnames stream (by simp [hstream])) hnodup.2 hothers
      rw [List.length_cons, Directory.readStreams, bind_of_ok hstep,
        bind_of_ok (get_of_cursor _), Cursor.data_advance,
        bind_of_ok (ofExcept_of_ok hcheck _), if_neg hnew]
      dsimp only
      rw [hrest, Cursor.advance_advance, List.length_append]
      simp [headersFrom, Nat.add_assoc]

/-- A stream that stands between other bytes is where its header says. -/
theorem extract_stream {data content : ByteArray} (hdata : data.size < 2 ^ 32)
    {pre post : List UInt8}
    (h : data.data.toList = pre ++ (content.data.toList ++ post)) (name : String) :
    StreamHeader.stop ⟨name, pre.length.toUInt32, content.size.toUInt32⟩ ≤ data.size ∧
      data.extract (StreamHeader.start ⟨name, pre.length.toUInt32, content.size.toUInt32⟩)
          (StreamHeader.stop ⟨name, pre.length.toUInt32, content.size.toUInt32⟩) =
        content := by
  have hlength := congrArg List.length h
  simp only [List.length_append] at hlength
  change data.size = pre.length + (content.size + post.length) at hlength
  obtain ⟨hstart, hstop⟩ :=
    start_stop_of_lt name (show pre.length + content.size < 2 ^ 32 by omega)
  rw [hstart, hstop]
  refine ⟨by omega, ?_⟩
  change data.extract pre.length (pre.length + content.data.toList.length) = content
  rw [extract_between h, Cursor.toByteArray_toList]

/-- Every stream is found by its name, and is where its header says. -/
theorem exists_header {data : ByteArray} (hdata : data.size < 2 ^ 32)
    {streams : List (String × ByteArray)} :
    ∀ {pre : List UInt8}, data.data.toList = pre ++ contents streams →
      (streams.map (·.1)).Nodup → ∀ {name content}, (name, content) ∈ streams →
        ∃ header,
          (headersFrom pre.length streams).find? (fun header => header.name == name) =
            some header ∧
          header.slice data = .ok content := by
  induction streams with
  | nil => intro pre _ _ name content hmem; cases hmem
  | cons stream rest ih =>
      intro pre hpre hnodup name content hmem
      obtain ⟨first, firstContent⟩ := stream
      rw [List.map_cons, List.nodup_cons] at hnodup
      rw [contents_cons] at hpre
      rw [headersFrom, List.find?_cons]
      rcases List.mem_cons.1 hmem with heq | hmem
      · obtain ⟨rfl, rfl⟩ := Prod.mk.inj heq
        refine ⟨⟨name, pre.length.toUInt32, content.size.toUInt32⟩, by simp, ?_⟩
        obtain ⟨hwithin, hextract⟩ := extract_stream hdata hpre name
        rw [StreamHeader.slice, StreamHeader.checkWithin, if_pos hwithin, hextract]
        rfl
      · have hne : (first == name) = false := by
          rw [beq_eq_false_iff_ne]
          rintro rfl
          exact hnodup.1 (List.mem_map.2 ⟨_, hmem, rfl⟩)
        simp only [hne]
        have hrest := ih (by rw [hpre, List.append_assoc]) hnodup.2 hmem
        rwa [List.length_append] at hrest

/-! ### The file -/

theorem length_directory (streams : List (String × ByteArray)) :
    ∀ offset : Nat, (directory offset streams).length = directoryLength streams := by
  induction streams with
  | nil => intro offset; rfl
  | cons stream rest ih =>
      intro offset
      rw [directory, List.length_append, ih, directoryLength]
      simp [word32]
      omega

def header (streams : List (String × ByteArray)) : List UInt8 :=
  rootHeader streams.length ++ directory (headerLength streams) streams

theorem length_header (streams : List (String × ByteArray)) :
    (header streams).length = headerLength streams := by
  rw [header, List.length_append, length_directory, headerLength]

theorem toList_foldl_append (streams : List (String × ByteArray)) :
    ∀ image : ByteArray,
      (streams.foldl (fun image stream => image ++ stream.2) image).data.toList =
        image.data.toList ++ contents streams := by
  induction streams with
  | nil => simp
  | cons stream rest ih => intro image; simp [ih]

theorem toList_build (b : Builder) :
    b.build.data.toList = header b.streams ++ contents b.streams := by
  rw [build, toList_foldl_append, header]
  simp

theorem size_build (b : Builder) :
    b.build.size = headerLength b.streams + (contents b.streams).length := by
  have hlength := congrArg List.length b.toList_build
  rwa [List.length_append, length_header] at hlength

theorem ahead_header (b : Builder) : (Cursor.ofBytes b.build).Ahead (header b.streams) where
  within := by
    rw [length_header]
    change 0 + headerLength b.streams ≤ b.build.size
    rw [b.size_build]
    omega
  stored := by
    change _ <+: b.build.data.toList.drop 0
    rw [List.drop_zero, b.toList_build]
    exact List.prefix_append _ _

/-- No more streams are written than there are. -/
theorem length_streams_le (b : Builder) : b.streams.length ≤ 6 := by
  have hfilter :=
    List.length_filter_le (fun stream => !b.omitted.contains stream.1) b.allStreams
  rwa [streams, List.length_map]

/-- The root header tells how many headers follow. -/
theorem read_eq_readStreams (b : Builder) :
    Directory.read (Cursor.ofBytes b.build) =
      (do
          let streams ← Directory.readStreams b.streams.length #[]
          return { root := rootOf b.streams.length, streams } : Reader Directory)
        ((Cursor.ofBytes b.build).advance (rootHeader b.streams.length).length) := by
  have hcount : (rootOf b.streams.length).streamCount.toNat = b.streams.length := by
    have hle := b.length_streams_le
    simp [rootOf]
    omega
  rw [Directory.read,
    bind_of_ok (consumes_rootHeader b.streams.length _ b.ahead_header.left), hcount]

def storedDirectory (b : Builder) : Directory where
  root := rootOf b.streams.length
  streams := (headersFrom (headerLength b.streams) b.streams).toArray

/-- The directory is read back if the streams have names of their own, which a reader
takes. -/
theorem read_directory {b : Builder} (hsize : b.build.size < 2 ^ 32)
    (hnames : ∀ stream ∈ b.streams, Nameable stream.1)
    (hnodup : (b.streams.map (·.1)).Nodup) :
    Directory.read (Cursor.ofBytes b.build) = .ok b.storedDirectory
      ((Cursor.ofBytes b.build).advance (headerLength b.streams)) := by
  have hend : headerLength b.streams + (contents b.streams).length ≤ b.build.size :=
    Nat.le_of_eq b.size_build.symm
  have hstreams := readStreams_directory b.ahead_header.right hend hsize hnames hnodup
    (show ∀ header ∈ (#[] : Array StreamHeader), header.name ∉ b.streams.map (·.1) by simp)
  rw [read_eq_readStreams, bind_of_ok hstreams, Cursor.advance_advance,
    ← List.length_append, ← header, length_header, Array.empty_append]
  rfl

end Builder

end PortablePdb
