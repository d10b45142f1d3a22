import PortablePdb.Proofs.Exactness
import PortablePdb.Proofs.File.Streams

/-!
What a file is read from. The directory is read from its own bytes
(`Directory.exact_read`), and apart from these and the five required streams only the size
of the file matters, because every stream has to lie within it. So two files with the same
bytes in these places are read alike (`File.parse_of_resembles`).
-/

namespace PortablePdb

open Reader

/-! ### Bytes in common -/

def AgreeOn (first stop : Nat) (data other : ByteArray) : Prop :=
  ∀ i, first ≤ i → i < stop → other[i]? = data[i]?

theorem AgreeOn.extract_eq {first stop : Nat} {data other : ByteArray}
    (h : AgreeOn first stop data other) :
    other.extract first stop = data.extract first stop := by
  apply ByteArray.ext
  apply Array.toList_inj.1
  refine List.ext_getElem? fun i => ?_
  simp only [ByteArray.data_extract, Array.toList_extract, List.extract_eq_take_drop,
    List.getElem?_take, List.getElem?_drop]
  split
  case isTrue hi =>
    rw [← Cursor.getElem?_eq_toList, ← Cursor.getElem?_eq_toList]
    exact h (first + i) (by omega) (by omega)
  case isFalse => rfl

/-- What comes first in one buffer comes first in the other. -/
theorem AgreeOn.ahead {data other : ByteArray} {bs : List UInt8}
    (h : AgreeOn 0 bs.length data other)
    (hdata : (Cursor.ofBytes data).Ahead bs) : (Cursor.ofBytes other).Ahead bs := by
  have hprefix : bs <+: other.data.toList := by
    rw [List.prefix_iff_getElem?]
    intro i hi
    rw [← Cursor.getElem?_eq_toList, h i (Nat.zero_le _) hi, Cursor.getElem?_eq_toList]
    exact List.prefix_iff_getElem?.1 hdata.stored i hi
  refine ⟨?_, hprefix⟩
  have : bs.length ≤ other.size := hprefix.length_le
  simpa using this

/-- The buffer with other bytes in the place of those from `first` on. Bytes behind its
end are added. -/
def overwrite (data : ByteArray) (first : Nat) (bytes : ByteArray) : ByteArray :=
  data.extract 0 first ++ bytes ++ data.extract (first + bytes.size) data.size

section Overwrite

variable {data bytes : ByteArray} {first : Nat}

theorem toList_overwrite :
    (overwrite data first bytes).data.toList =
      data.data.toList.take first ++ bytes.data.toList ++ data.data.toList.drop
        (first + bytes.size) := by
  have hsize : data.data.toList.length = data.size := rfl
  simp only [overwrite, ByteArray.data_append,
    ByteArray.data_extract, Array.toList_append, Array.toList_extract,
    List.extract_eq_take_drop, List.drop_zero, Nat.sub_zero]
  rw [List.take_of_length_le (l := data.data.toList.drop (first + bytes.size))
    (by rw [List.length_drop, hsize])]

theorem size_le_overwrite (hfirst : first ≤ data.size) :
    data.size ≤ (overwrite data first bytes).size := by
  have hlength := congrArg List.length (@toList_overwrite data bytes first)
  simp only [List.length_append, List.length_take, List.length_drop, Array.length_toList,
    ByteArray.size_data] at hlength
  omega

/-- All other bytes stay as they are. -/
theorem agreeOn_overwrite {start stop : Nat} (hfirst : first ≤ data.size)
    (h : stop ≤ first ∨ first + bytes.size ≤ start) :
    AgreeOn start stop data (overwrite data first bytes) := by
  intro i hstart hi
  have hsize : data.data.toList.length = data.size := rfl
  have hbytes : bytes.data.toList.length = bytes.size := rfl
  rw [Cursor.getElem?_eq_toList, Cursor.getElem?_eq_toList, toList_overwrite,
    List.append_assoc]
  rcases h with hbefore | hbehind
  · rw [List.getElem?_append_left (by rw [List.length_take]; omega),
      List.getElem?_take_of_lt (by omega)]
  · rw [← List.append_assoc,
      List.getElem?_append_right (by rw [List.length_append, List.length_take]; omega),
      List.getElem?_drop]
    congr 1
    rw [List.length_append, List.length_take]
    omega

end Overwrite

/-! ### Directories -/

namespace Directory

/-- The headers are read alike wherever their bytes come next, in a buffer that has room
for their streams. -/
theorem exact_readStreams :
    ∀ {count : Nat} {streams result : Array StreamHeader} {c d : Cursor}, c.Inside →
      readStreams count streams c = .ok result d →
      (∀ s ∈ streams, s ∈ result) ∧ ∃ bs, c.Ahead bs ∧ d = c.advance bs.length ∧
        ∀ e : Cursor, e.Ahead bs → (∀ s ∈ result, s.stop ≤ e.data.size) →
          readStreams count streams e = .ok result (e.advance bs.length) := by
  intro count
  induction count with
  | zero =>
      intro streams result c d hc h
      obtain ⟨rfl, rfl⟩ := Outcome.run_pure_eq_ok_iff.1 h
      exact ⟨fun _ hs => hs, [], .nil hc.pos_le, rfl, fun _ _ _ => rfl⟩
  | succ count ih =>
      intro streams result c d hc h
      obtain ⟨header, c', hheader, h⟩ := Outcome.run_bind_eq_ok_iff.1 h
      obtain ⟨bs, hbs, hconsumes⟩ := StreamHeader.exact_read hc hheader
      obtain ⟨-, rfl⟩ := hconsumes.eq_of_ok hbs hheader
      rw [bind_of_ok (get_of_cursor _)] at h
      obtain ⟨⟨⟩, c', hcheck, h⟩ := Outcome.run_bind_eq_ok_iff.1 h
      obtain rfl : c.advance bs.length = c' := by
        cases hwithin : header.checkWithin (c.advance bs.length).data.size with
        | ok => rw [ofExcept_of_ok hwithin] at hcheck; cases hcheck; rfl
        | error e => rw [ofExcept_of_error hwithin] at hcheck; cases hcheck
      split at h
      case isTrue => cases h
      case isFalse hnew =>
        obtain ⟨hmem, cs, hcs, rfl, hrest⟩ := ih (hc.advance hbs) h
        refine ⟨fun s hs => hmem s (Array.mem_push.2 (.inl hs)), bs ++ cs, hbs.append hcs,
          ?_, fun e he hroom => ?_⟩
        · rw [Cursor.advance_advance, List.length_append]
        · -- The header is still among the streams in the end, so there is room for its
          -- stream already.
          have hwithin : header.checkWithin (e.advance bs.length).data.size = .ok () :=
            if_pos (hroom header (hmem header Array.mem_push_self))
          have htail := hrest (e.advance bs.length) he.right hroom
          rw [Cursor.advance_advance, ← List.length_append] at htail
          rw [readStreams, bind_of_ok (hconsumes e he.left), bind_of_ok (get_of_cursor _),
            bind_of_ok (ofExcept_of_ok hwithin _), if_neg hnew]
          exact htail

/-- A directory is read alike from every buffer that begins with its bytes and has room
for its streams. -/
theorem exact_read {c d : Cursor} {directory : Directory} (hc : c.Inside)
    (h : read c = .ok directory d) :
    ∃ bs, c.Ahead bs ∧ d = c.advance bs.length ∧
      ∀ e : Cursor, e.Ahead bs → (∀ s ∈ directory.streams, s.stop ≤ e.data.size) →
        read e = .ok directory (e.advance bs.length) := by
  obtain ⟨root, c', hroot, h⟩ := Outcome.run_bind_eq_ok_iff.1 h
  obtain ⟨bs, hbs, hconsumes⟩ := RootHeader.exact_read hc hroot
  obtain ⟨-, rfl⟩ := hconsumes.eq_of_ok hbs hroot
  obtain ⟨streams, c', hstreams, h⟩ := Outcome.run_bind_eq_ok_iff.1 h
  obtain ⟨rfl, rfl⟩ := Outcome.run_pure_eq_ok_iff.1 h
  obtain ⟨-, cs, hcs, rfl, hrest⟩ := exact_readStreams (hc.advance hbs) hstreams
  refine ⟨bs ++ cs, hbs.append
    hcs, by rw [Cursor.advance_advance, List.length_append], fun e he hroom => ?_⟩
  rw [read, bind_of_ok (hconsumes e he.left), bind_of_ok (hrest _ he.right hroom),
    Cursor.advance_advance, List.length_append]
  rfl

end Directory

/-! ### Files -/

namespace File

/-- A buffer that has all the bytes a file is read from. The directory, which ends at
`after`, and the required streams are the same in both, and the other streams have room in
both. -/
structure Resembles (directory : Directory) (after : Cursor)
    (data other : ByteArray) : Prop where
  directory_eq : Directory.read (Cursor.ofBytes data) = .ok directory after
  head : AgreeOn 0 after.pos data other
  streams : ∀ s ∈ directory.streams, s.name ∈ requiredStreams →
    AgreeOn s.start s.stop data other
  room : ∀ s ∈ directory.streams, s.stop ≤ other.size

/-- All that is looked up in the heaps is found in both files, or the same error is. -/
structure SameAnswers (file other : File) : Prop where
  getString : ∀ offset, other.getString offset = file.getString offset
  getBlob : ∀ offset, other.getBlob offset = file.getBlob offset
  getGuid : ∀ index, other.getGuid index = file.getGuid index
  getDocumentName : ∀ offset, other.getDocumentName offset = file.getDocumentName offset
  getHash : ∀ row, other.getHash row = file.getHash row

theorem sameAnswers_of_heaps {file other : File} (hheaps : other.heaps = file.heaps)
    (htables : other.tables = file.tables) : file.SameAnswers other := by
  have hblob (offset : UInt32) :
    other.getBlob offset = file.getBlob offset := by rw [getBlob, hheaps]; rfl
  refine ⟨fun _ => ?_, hblob, fun _ => ?_, fun _ => ?_, fun _ => ?_⟩
  · rw [getString, hheaps]; rfl
  · rw [getGuid, hheaps]; rfl
  · rw [getDocumentName, hheaps]; rfl
  · simp only [getHash, hblob, htables]

section Resembles

variable {directory : Directory} {after : Cursor} {data other : ByteArray}
  (h : Resembles directory after data other)
include h

theorem Resembles.run_eq : Directory.read.run other = .ok directory := by
  obtain ⟨bs, hbs, rfl, hread⟩ :=
    Directory.exact_read (Cursor.inside_ofBytes data) h.directory_eq
  have hpos : ((Cursor.ofBytes data).advance bs.length).pos = bs.length := by simp
  have hhead := h.head
  rw [hpos] at hhead
  exact run_eq_ok_iff.2 ⟨_, hread _ (hhead.ahead hbs) h.room⟩

theorem Resembles.slice_eq {name : String}
    {header : StreamHeader} (hheader : directory.require name = .ok header)
    (hname : name ∈ requiredStreams) : header.slice other = header.slice data := by
  obtain ⟨hmem, rfl⟩ := Directory.mem_of_require hheader
  rw [StreamHeader.slice_of_le (h.room header hmem),
    StreamHeader.slice_of_le ((Directory.stop_le_of_read h.directory_eq).2 header hmem),
    (h.streams header hmem hname).extract_eq]

theorem Resembles.heaps_eq {heapStreams : HeapStreams}
    (hstrings : directory.require "#Strings" = .ok heapStreams.strings)
    (hblobs : directory.require "#Blob" = .ok heapStreams.blobs)
    (hguids : directory.require "#GUID" = .ok heapStreams.guids) :
    heapStreams.slice other = heapStreams.slice data := by
  rw [HeapStreams.slice, h.slice_eq hstrings (by simp [requiredStreams]),
    h.slice_eq hblobs (by simp [requiredStreams]),
    h.slice_eq hguids (by simp [requiredStreams])]
  rfl

/-- Step by step both files have the same parts, down to the bytes that they keep. -/
theorem Resembles.parse_eq :
    parse other = (fun file => { file with data := other }) <$> parse data := by
  have hrun : Directory.read.run data = .ok directory :=
    run_eq_ok_iff.2 ⟨after, h.directory_eq⟩
  simp only [parse, map_bind, map_pure, h.run_eq, hrun]
  refine Outcome.bind_congr fun found hfound => ?_
  obtain rfl := Except.ok.inj hfound
  refine Outcome.bind_congr fun strings hstrings => Outcome.bind_congr fun blobs hblobs =>
    Outcome.bind_congr fun guids hguids => Outcome.bind_congr fun tablesHeader htables =>
    Outcome.bind_congr fun pdbHeader hpdb => ?_
  rw [h.slice_eq hpdb (by simp [requiredStreams]),
    h.slice_eq htables (by simp [requiredStreams]), h.heaps_eq hstrings hblobs hguids]

theorem Resembles.sameAnswers {file : File} (hfile : parse data = .ok file) :
    file.SameAnswers { file with data := other } := by
  obtain ⟨_, hparsed⟩ := parse_eq_ok_iff.1 hfile
  have hrun : Directory.read.run data = .ok directory :=
    run_eq_ok_iff.2 ⟨after, h.directory_eq⟩
  obtain rfl : directory = file.directory :=
    Except.ok.inj (hrun.symm.trans hparsed.directory)
  refine sameAnswers_of_heaps ?_ rfl
  rw [heaps, heaps, hparsed.data_eq]
  exact h.heaps_eq hparsed.strings hparsed.blobs hparsed.guids

end Resembles

/-- A file is read alike from every buffer with the same directory and the same bytes in
the required streams: it is accepted with the same parts and the same answers to all
lookups, or it is rejected with the same error. -/
theorem parse_of_resembles {directory : Directory} {after : Cursor} {data other : ByteArray}
    (h : Resembles directory after data other) :
    parse other = (parse data).map (fun file => { file with data := other }) ∧
      ∀ file, parse data = .ok file → file.SameAnswers { file with data := other } :=
  ⟨h.parse_eq, fun _ => h.sameAnswers⟩

/-- Bytes that are neither in the directory nor in a required stream. -/
theorem resembles_overwrite {directory : Directory}
    {after : Cursor} {data bytes : ByteArray} {first : Nat}
    (hread : Directory.read (Cursor.ofBytes data) = .ok directory after)
    (hfirst : first ≤ data.size) (hafter : after.pos ≤ first)
    (hstreams : ∀ s ∈ directory.streams, s.name ∈ requiredStreams →
      s.stop ≤ first ∨ first + bytes.size ≤ s.start) :
    Resembles directory after data (overwrite data first bytes) := by
  have hstop := (Directory.stop_le_of_read hread).2
  exact ⟨hread, agreeOn_overwrite hfirst (.inl hafter),
    fun s hs hname => agreeOn_overwrite hfirst (hstreams s hs hname),
    fun s hs => Nat.le_trans (hstop s hs) (size_le_overwrite hfirst)⟩

/-- Gaps between the streams, the contents of other streams and whatever comes behind the
file do not matter. -/
theorem parse_overwrite {directory : Directory} {after : Cursor} {data bytes : ByteArray}
    {first : Nat} (hread : Directory.read (Cursor.ofBytes data) = .ok directory after)
    (hfirst : first ≤ data.size) (hafter : after.pos ≤ first)
    (hstreams : ∀ s ∈ directory.streams, s.name ∈ requiredStreams →
      s.stop ≤ first ∨ first + bytes.size ≤ s.start) :
    parse (overwrite data first bytes) =
      (parse data).map fun file => { file with data := overwrite data first bytes } :=
  (resembles_overwrite hread hfirst hafter hstreams).parse_eq

/-- The small file with other user strings, which nobody reads. -/
theorem parse_of_resembles_sample :
    ∃ file, parse sample = .ok file ∧ parse (overwrite sample 204 "text".toUTF8) =
        .ok { file with data := overwrite sample 204 "text".toUTF8 } ∧
      file.SameAnswers { file with data := overwrite sample 204 "text".toUTF8 } := by
  have hplaces : ((Reader.run
    (do return (← Directory.read, ← position)) sample).toOption.any fun found =>
      found.2 ≤ 204 ∧ 204 ≤ sample.size ∧ ∀ s ∈ found.1.streams, s.name ∈ requiredStreams →
        s.stop ≤ 204 ∨ 204 + "text".toUTF8.size ≤ s.start) = true := by
    decide +kernel
  obtain ⟨⟨directory, stop⟩, hrun, hplaces⟩ := Outcome.any_toOption_iff.1 hplaces
  obtain ⟨_, hrun⟩ := run_eq_ok_iff.1 hrun
  obtain ⟨_, after, hread, hrun⟩ := Outcome.run_bind_eq_ok_iff.1 hrun
  cases hrun
  obtain ⟨hafter, hsize, hstreams⟩ := of_decide_eq_true hplaces
  obtain ⟨file, hparse⟩ := parse_sample
  obtain ⟨hsame, hanswers⟩ :=
    parse_of_resembles (resembles_overwrite hread hsize hafter hstreams)
  refine ⟨file, hparse, ?_, hanswers file hparse⟩
  rw [hsame, hparse]
  rfl

end File

end PortablePdb
