import PortablePdb.Proofs.Cursor.Bounds
import PortablePdb.Proofs.Exactness
import PortablePdb.Proofs.Text.Utf8

/-!
The directory of any file, header by header. A header is looked at where the one before it
ended. It is `Acceptable` there, or it has a `Defect`: the first one in the order in which
a header is checked, which is also what the whole directory fails with.
-/

namespace PortablePdb

theorem le_alignUp (n : Nat) : n ≤ alignUp n := by
  rw [alignUp]
  omega

theorem Cursor.FirstZero.zero_not_mem {data text : ByteArray} {start stop last : Nat}
    (h : FirstZero data start stop last) (htext : slice? data start last = some text) :
    0 ∉ text.data.toList := by
  obtain ⟨-, -, rfl⟩ := slice?_eq_some_iff.1 htext
  intro hmem
  obtain ⟨i, hi⟩ := List.mem_iff_getElem?.1 hmem
  rw [ByteArray.data_extract, Array.toList_extract, List.extract_eq_take_drop] at hi
  have hlt : i < last - start := by
    have := (List.getElem?_eq_some_iff.1 hi).1
    rw [List.length_take] at this
    omega
  rw [List.getElem?_take_of_lt hlt, List.getElem?_drop, ← getElem?_eq_toList] at hi
  exact h.nonzero_before (start + i) (Nat.le_add_right _ _) (by omega) hi

namespace Reader

theorem u32_of_lt {c : Cursor} (h : c.stop < c.pos + 4) :
    u32 c = .error (.outOfBounds c.pos 4) c :=
  return_eq_error_iff.2 (return_eq_error_iff.2 (bytes_of_lt h))

theorem u32_of_le {data : ByteArray} {pos : Nat} (h : pos + 4 ≤ data.size) :
    u32 ⟨data, pos, []⟩ = .ok (wordAt data pos 4).toUInt32 ⟨data, pos + 4, []⟩ :=
  ReadsAt.u32.ok h

theorem skip_of_le {n : Nat} {c : Cursor} (h : c.pos + n ≤ c.stop) :
    skip n c = .ok () (c.advance n) := by
  rw [skip, bind_of_ok (bytes_of_le h)]
  rfl

theorem skip_of_lt {n : Nat} {c : Cursor} (h : c.stop < c.pos + n) :
    skip n c = .error (.outOfBounds c.pos n) c :=
  bind_of_error (bytes_of_lt h)

end Reader

open Reader

/-! ### One header -/

/-- The fields of a header that starts at `pos`, and the offset behind the padding of its
name. -/
structure HeaderAt (data : ByteArray) (pos : Nat) (header : StreamHeader)
    (next : Nat) : Prop where
  offset_eq : header.offset.toNat = wordAt data pos 4
  size_eq : header.size.toNat = wordAt data (pos + 4) 4
  name_eq : ∃ last, Cursor.FirstZero data (pos + 8) data.size last ∧
    Cursor.slice? data (pos + 8) last = some header.name.toUTF8
  name_lt : header.name.toUTF8.size < 32
  next_eq : next = pos + 8 + alignUp (header.name.toUTF8.size + 1)
  next_le : next ≤ data.size

/-- The header also passes the checks against the buffer and against the headers before
it. -/
structure Acceptable (data : ByteArray) (before : List StreamHeader) (pos : Nat)
    (header : StreamHeader)
    (next : Nat) : Prop extends HeaderAt data pos header next where
  stop_le : header.stop ≤ data.size
  name_new : ∀ other ∈ before, other.name ≠ header.name

/-- What is wrong with the header at `pos`, and the error for it. What is checked earlier
is in order. -/
inductive Defect (data : ByteArray) (before : List StreamHeader) (pos : Nat) :
    FormatError → Prop
  | offsetCut (h : data.size < pos + 4) : Defect data before pos (.outOfBounds pos 4)
  | sizeCut (h : pos + 4 ≤ data.size) (hcut : data.size < pos + 8) :
      Defect data before pos (.outOfBounds (pos + 4) 4)
  | nameUnterminated (h : pos + 8 ≤ data.size)
      (hnonzero : ∀ i, pos + 8 ≤ i → data[i]? ≠ some 0) :
      Defect data before pos (.outOfBounds (pos + 8) (data.size - (pos + 8) + 1))
  | nameTooLong {last : Nat} (hlast : Cursor.FirstZero data (pos + 8) data.size last)
      (hlong : 32 ≤ last - (pos + 8)) :
      Defect data before pos (.malformedHeader .streamNameTooLong)
  | nameNotUtf8 {last : Nat} {text : ByteArray}
      (hlast : Cursor.FirstZero data (pos + 8) data.size last)
      (hshort : last - (pos + 8) < 32)
      (htext : Cursor.slice? data (pos + 8) last = some text)
      (hbad : ∀ s : String, text ≠ s.toUTF8) :
      Defect data before pos (.malformedHeader .streamNameNotUtf8)
  | paddingCut {last : Nat} {name : String}
      (hlast : Cursor.FirstZero data (pos + 8) data.size last)
      (hshort : last - (pos + 8) < 32)
      (htext : Cursor.slice? data (pos + 8) last = some name.toUTF8)
      (hcut : data.size < pos + 8 + alignUp (last - (pos + 8) + 1)) :
      Defect data before pos (.outOfBounds (last + 1)
        (alignUp (last - (pos + 8) + 1) - (last - (pos + 8) + 1)))
  | outside {header : StreamHeader} {next : Nat} (h : HeaderAt data pos header next)
      (hout : data.size < header.stop) :
      Defect data before pos (.outOfBounds header.offset.toNat header.size.toNat)
  | duplicate {header : StreamHeader} {next : Nat} (h : HeaderAt data pos header next)
      (hstop : header.stop ≤ data.size)
      (hdup : ∃ other ∈ before, other.name = header.name) :
      Defect data before pos (.malformedHeader .duplicateStreamName)

namespace StreamHeader

variable {data : ByteArray} {pos : Nat}

theorem checkWithin_of_le {header : StreamHeader} {size : Nat} (h : header.stop ≤ size) :
    header.checkWithin size = .ok () :=
  if_pos h

theorem checkWithin_of_lt {header : StreamHeader} {size : Nat} (h : size < header.stop) :
    header.checkWithin size = .error (.outOfBounds header.offset.toNat header.size.toNat) :=
  if_neg (Nat.not_le.2 h)

theorem read_of_offsetCut (h : data.size < pos + 4) :
    read ⟨data, pos, []⟩ = .error (.outOfBounds pos 4) ⟨data, pos, []⟩ := by
  exact bind_of_error (u32_of_lt h)

theorem read_of_sizeCut (h : pos + 4 ≤ data.size) (hcut : data.size < pos + 8) :
    read ⟨data, pos, []⟩ = .error (.outOfBounds (pos + 4) 4) ⟨data, pos + 4, []⟩ := by
  rw [read, bind_of_ok (u32_of_le h)]
  exact bind_of_error (u32_of_lt hcut)

theorem read_of_nonzero (h : pos + 8 ≤ data.size)
    (hnonzero : ∀ i, pos + 8 ≤ i → data[i]? ≠ some 0) :
    read ⟨data, pos, []⟩ = .error (.outOfBounds (pos + 8) (data.size - (pos + 8) + 1))
      ⟨data, pos + 8, []⟩ := by
  rw [read, bind_of_ok (u32_of_le (by omega)), bind_of_ok (u32_of_le h)]
  exact bind_of_error (nullTerminated_of_nonzero h fun i hi _ => hnonzero i hi)

section Terminated

variable {last : Nat} (hlast : Cursor.FirstZero data (pos + 8) data.size last)
include hlast

/-- With both words and the end of the name there, the rest depends on the name. -/
theorem read_of_firstZero {text : ByteArray}
    (htext : Cursor.slice? data (pos + 8) last = some text) :
    read ⟨data, pos, []⟩ = (do
      if 32 ≤ last - (pos + 8) then throw (.malformedHeader .streamNameTooLong)
      let name ← utf8 text (.malformedHeader .streamNameNotUtf8)
      skip (alignUp (last - (pos + 8) + 1) - (last - (pos + 8) + 1))
      return ⟨name, (wordAt data pos 4).toUInt32, (wordAt data (pos + 4) 4).toUInt32⟩ :
        Reader StreamHeader) ⟨data, last + 1, []⟩ := by
  have hstart : pos + 8 ≤ data.size :=
    Nat.le_trans hlast.start_le (Nat.le_of_lt hlast.lt_stop)
  have hname := nullTerminated_of_firstZero (c := ⟨data, pos + 8, []⟩) (Nat.le_refl _) hlast
  obtain ⟨-, -, rfl⟩ := Cursor.slice?_eq_some_iff.1 htext
  rw [read, bind_of_ok (u32_of_le (by omega)), bind_of_ok (u32_of_le hstart),
    bind_of_ok hname, nameLimit, Cursor.size_of_slice? htext]

theorem read_of_nameTooLong (hlong : 32 ≤ last - (pos + 8)) :
    read ⟨data, pos, []⟩ =
      .error (.malformedHeader .streamNameTooLong) ⟨data, last + 1, []⟩ := by
  rw [read_of_firstZero hlast
    (Cursor.slice?_of_le hlast.start_le (Nat.le_of_lt hlast.lt_stop)), if_pos hlong]
  rfl

variable (hshort : last - (pos + 8) < 32)
include hshort

theorem read_of_nameNotUtf8 {text : ByteArray}
    (htext : Cursor.slice? data (pos + 8) last = some text)
    (hbad : ∀ s : String, text ≠ s.toUTF8) :
    read ⟨data, pos, []⟩ =
      .error (.malformedHeader .streamNameNotUtf8) ⟨data, last + 1, []⟩ := by
  rw [read_of_firstZero hlast htext, if_neg (Nat.not_le.2 hshort)]
  exact bind_of_error (utf8_of_ne hbad _ _)

/-- The padding is all that is left to read behind a name. -/
theorem read_of_name {name : String}
    (htext : Cursor.slice? data (pos + 8) last = some name.toUTF8) :
    read ⟨data, pos, []⟩ = (do
      skip (alignUp (last - (pos + 8) + 1) - (last - (pos + 8) + 1))
      return ⟨name, (wordAt data pos 4).toUInt32, (wordAt data (pos + 4) 4).toUInt32⟩ :
        Reader StreamHeader) ⟨data, last + 1, []⟩ := by
  rw [read_of_firstZero hlast htext, if_neg (Nat.not_le.2 hshort)]
  exact bind_of_ok (utf8_toUTF8 name _ _)

theorem read_of_paddingCut {name : String}
    (htext : Cursor.slice? data (pos + 8) last = some name.toUTF8)
    (hcut : data.size < pos + 8 + alignUp (last - (pos + 8) + 1)) :
    read ⟨data, pos, []⟩ = .error
      (.outOfBounds (last + 1) (alignUp (last - (pos + 8) + 1) - (last - (pos + 8) + 1)))
      ⟨data, last + 1, []⟩ := by
  have hpadding := le_alignUp (last - (pos + 8) + 1)
  have hstart := hlast.start_le
  have hbehind : data.size <
    last + 1 + (alignUp (last - (pos + 8) + 1) - (last - (pos + 8) + 1)) := by omega
  rw [read_of_name hlast hshort htext]
  exact bind_of_error (skip_of_lt hbehind)

end Terminated

theorem read_of_headerAt {header : StreamHeader} {next : Nat}
    (h : HeaderAt data pos header next) :
    read ⟨data, pos, []⟩ = .ok header ⟨data, next, []⟩ := by
  obtain ⟨last, hlast, htext⟩ := h.name_eq
  have hsize := Cursor.size_of_slice? htext
  have hlt := h.name_lt
  have hnext := h.next_eq
  have hle := h.next_le
  rw [hsize] at hlt hnext
  have hpadding := le_alignUp (last - (pos + 8) + 1)
  have hstart := hlast.start_le
  have hend : last + 1 + (alignUp (last - (pos + 8) + 1) - (last - (pos + 8) + 1)) =
    next := by omega
  have hskip :=
    skip_of_le (c := ⟨data, last + 1, []⟩) (Nat.le_trans (Nat.le_of_eq hend) hle)
  rw [read_of_name hlast hlt htext, bind_of_ok hskip, ← h.offset_eq, ← h.size_eq,
    Cursor.advance, hend]
  simp [pure, EStateM.pure]

end StreamHeader

/-! ### One step -/

theorem exists_headerAt {data : ByteArray} {pos last : Nat} {name : String}
    (hlast : Cursor.FirstZero data (pos + 8) data.size last)
    (hshort : last - (pos + 8) < 32)
    (htext : Cursor.slice? data (pos + 8) last = some name.toUTF8)
    (hpadding : pos + 8 + alignUp (last - (pos + 8) + 1) ≤ data.size) :
    ∃ header next, HeaderAt data pos header next := by
  have hlength := Cursor.size_of_slice? htext
  refine ⟨⟨name, (wordAt data pos 4).toUInt32, (wordAt data (pos + 4) 4).toUInt32⟩,
    pos + 8 + alignUp (name.toUTF8.size + 1), ?_⟩
  constructor
  case offset_eq => exact toNat_toUInt32 (wordAt_lt data pos 4)
  case size_eq => exact toNat_toUInt32 (wordAt_lt data (pos + 4) 4)
  case name_eq => exact ⟨last, hlast, htext⟩
  case name_lt => exact hlength ▸ hshort
  case next_eq => rfl
  case next_le => exact hlength ▸ hpadding

/-- The checks leave nothing out. -/
theorem acceptable_or_defect (data : ByteArray) (before : List StreamHeader) (pos : Nat) :
    (∃ header next, Acceptable data before pos header next) ∨
      ∃ e, Defect data before pos e := by
  -- One case for each check, in the order in which they are made.
  by_cases hoffset : pos + 4 ≤ data.size
  case neg => exact .inr ⟨_, .offsetCut (Nat.not_le.1 hoffset)⟩
  by_cases hsize : pos + 8 ≤ data.size
  case neg => exact .inr ⟨_, .sizeCut hoffset (Nat.not_le.1 hsize)⟩
  by_cases hzero : ∃ last, Cursor.FirstZero data (pos + 8) data.size last
  case neg =>
    exact .inr ⟨_, .nameUnterminated hsize (Cursor.nonzero_of_not_firstZero hzero)⟩
  obtain ⟨last, hlast⟩ := hzero
  have hslice := Cursor.slice?_of_le hlast.start_le (Nat.le_of_lt hlast.lt_stop)
  by_cases hshort : last - (pos + 8) < 32
  case neg => exact .inr ⟨_, .nameTooLong hlast (Nat.not_lt.1 hshort)⟩
  by_cases htext : ∃ s : String, data.extract (pos + 8) last = s.toUTF8
  case neg => exact .inr ⟨_, .nameNotUtf8 hlast hshort hslice (not_exists.1 htext)⟩
  obtain ⟨name, hname⟩ := htext
  rw [hname] at hslice
  by_cases hpadding : pos + 8 + alignUp (last - (pos + 8) + 1) ≤ data.size
  case neg => exact .inr ⟨_, .paddingCut hlast hshort hslice (Nat.not_le.1 hpadding)⟩
  obtain ⟨header, next, hheader⟩ := exists_headerAt hlast hshort hslice hpadding
  by_cases hstop : header.stop ≤ data.size
  case neg => exact .inr ⟨_, .outside hheader (Nat.not_le.1 hstop)⟩
  by_cases hdup : ∃ other ∈ before, other.name = header.name
  case pos => exact .inr ⟨_, .duplicate hheader hstop hdup⟩
  exact .inl ⟨header, next, hheader, hstop,
    fun other hmem hname => hdup ⟨other, hmem, hname⟩⟩

namespace Directory

variable {data : ByteArray} {streams : Array StreamHeader} {pos : Nat}

theorem findIn?_isSome_iff {name : String} :
    (findIn? streams name).isSome = true ↔ ∃ other ∈ streams.toList, other.name = name := by
  simp [findIn?, Array.find?_isSome]

theorem readStreams_of_acceptable (streams : Array StreamHeader) {header : StreamHeader}
    {next : Nat} (h : Acceptable data streams.toList pos header next) (count : Nat) :
    readStreams (count + 1) streams ⟨data, pos, []⟩ =
      readStreams count (streams.push header) ⟨data, next, []⟩ := by
  have hnew : ¬(findIn? streams header.name).isSome = true := by
    rw [findIn?_isSome_iff]
    rintro ⟨other, hmem, hname⟩
    exact h.name_new other hmem hname
  rw [readStreams, bind_of_ok (StreamHeader.read_of_headerAt h.toHeaderAt),
    bind_of_ok (get_of_cursor _),
    bind_of_ok (ofExcept_of_ok (StreamHeader.checkWithin_of_le h.stop_le) _), if_neg hnew]

theorem readStreams_of_defect (streams : Array StreamHeader) {e : FormatError}
    (h : Defect data streams.toList pos e) (count : Nat) :
    ∃ d, readStreams (count + 1) streams ⟨data, pos, []⟩ = .error e d := by
  rw [readStreams]
  cases h with
  | offsetCut h => exact ⟨_, bind_of_error (StreamHeader.read_of_offsetCut h)⟩
  | sizeCut h hcut => exact ⟨_, bind_of_error (StreamHeader.read_of_sizeCut h hcut)⟩
  | nameUnterminated h hnonzero =>
    exact ⟨_, bind_of_error (StreamHeader.read_of_nonzero h hnonzero)⟩
  | nameTooLong hlast hlong =>
    exact ⟨_, bind_of_error (StreamHeader.read_of_nameTooLong hlast hlong)⟩
  | nameNotUtf8 hlast hshort htext hbad =>
      exact ⟨_, bind_of_error (StreamHeader.read_of_nameNotUtf8 hlast hshort htext hbad)⟩
  | paddingCut hlast hshort htext hcut =>
      exact ⟨_, bind_of_error (StreamHeader.read_of_paddingCut hlast hshort htext hcut)⟩
  | outside h hout =>
      rw [bind_of_ok (StreamHeader.read_of_headerAt h), bind_of_ok (get_of_cursor _)]
      exact ⟨_, bind_of_error (ofExcept_of_error (StreamHeader.checkWithin_of_lt hout) _)⟩
  | duplicate h hstop hdup =>
      rw [bind_of_ok (StreamHeader.read_of_headerAt h), bind_of_ok (get_of_cursor _),
        bind_of_ok (ofExcept_of_ok (StreamHeader.checkWithin_of_le hstop) _),
        if_pos (findIn?_isSome_iff.2 hdup)]
      exact ⟨_, rfl⟩

end Directory

theorem Defect.not_acceptable {data : ByteArray} {before : List StreamHeader} {pos : Nat}
    {e : FormatError} (h : Defect data before pos e) :
    ¬∃ header next, Acceptable data before pos header next := by
  rintro ⟨header, next, hheader⟩
  obtain ⟨d, herror⟩ := Directory.readStreams_of_defect before.toArray h 0
  rw [Directory.readStreams_of_acceptable before.toArray hheader] at herror
  cases herror

/-! ### All headers -/

/-- These headers stand one behind another from `start` on, each acceptable where it
stands, and end at an offset. -/
inductive Listed (data : ByteArray) (start : Nat) : List StreamHeader → Nat → Prop
  | nil : Listed data start [] start
  | snoc {headers : List StreamHeader} {pos next : Nat} {header : StreamHeader}
      (h : Listed data start headers pos)
      (hheader : Acceptable data headers pos header next) :
      Listed data start (headers ++ [header]) next

namespace Listed

variable {data : ByteArray} {start pos : Nat} {headers : List StreamHeader}
  (h : Listed data start headers pos)
include h

theorem nodup_names : (headers.map (·.name)).Nodup := by
  induction h with
  | nil => exact .nil
  | snoc _ hheader ih =>
      rw [List.map_append, List.map_singleton, ← List.concat_eq_append]
      refine ih.concat fun hmem => ?_
      obtain ⟨other, hother, hname⟩ := List.mem_map.1 hmem
      exact hheader.name_new other hother hname

theorem exists_acceptable {header : StreamHeader} (hmem : header ∈ headers) :
    ∃ before pos next, Acceptable data before pos header next := by
  induction h with
  | nil => cases hmem
  | snoc _ hheader ih =>
      rcases List.mem_append.1 hmem with hbefore | hlast
      · exact ih hbefore
      · obtain rfl := List.mem_singleton.1 hlast
        exact ⟨_, _, _, hheader⟩

end Listed

namespace Directory

variable {data : ByteArray} {start pos : Nat} {headers : List StreamHeader}

theorem readStreams_of_listed (h : Listed data start headers pos) (count : Nat) :
    readStreams (headers.length + count) #[] ⟨data, start, []⟩ =
      readStreams count headers.toArray ⟨data, pos, []⟩ := by
  induction h generalizing count with
  | nil => rw [List.length_nil, Nat.zero_add]
  | @snoc headers pos next header _ hheader ih =>
      rw [List.length_append, List.length_singleton, Nat.add_assoc,
        Nat.add_comm 1, ih (count + 1),
        readStreams_of_acceptable headers.toArray hheader, List.push_toArray]

/-- What is read is listed, and what cannot be read has a defect where the list ends. -/
theorem readStreams_cases (count : Nat) :
    ∀ {streams : Array StreamHeader} {pos : Nat}, Listed data start streams.toList pos →
      (∃ result stop, Listed data start result.toList stop ∧
        result.size = streams.size + count ∧
        readStreams count streams ⟨data, pos, []⟩ = .ok result ⟨data, stop, []⟩) ∨
        ∃ headers stop e d,
          Listed data start headers stop ∧ headers.length < streams.size + count ∧
          Defect data headers stop e ∧
          readStreams count streams ⟨data, pos, []⟩ = .error e d := by
  induction count with
  | zero =>
      intro streams pos hstreams
      exact .inl ⟨streams, pos, hstreams, rfl, rfl⟩
  | succ count ih =>
      -- Where the list ends another header is acceptable, and the list goes on behind it,
      -- or nothing else is read.
      intro streams pos hstreams
      rcases acceptable_or_defect data streams.toList pos with
        ⟨header, next, hheader⟩ | ⟨e, he⟩
      · have hpush : Listed data start (streams.push header).toList next := by
          rw [Array.toList_push]
          exact hstreams.snoc hheader
        have hcount : (streams.push header).size + count = streams.size + (count + 1) := by
          rw [Array.size_push, Nat.add_assoc, Nat.add_comm 1]
        rw [readStreams_of_acceptable streams hheader, ← hcount]
        exact ih hpush
      · obtain ⟨d, herror⟩ := readStreams_of_defect streams he count
        exact .inr ⟨streams.toList, pos, e, d, hstreams, by simp, he, herror⟩

/-- With names that differ there is only one stream to be found. -/
theorem find?_eq_some_iff {directory : Directory}
    (hnames : (directory.streams.toList.map (·.name)).Nodup)
    {name : String} {header : StreamHeader} :
    directory.find? name = some header ↔
      header ∈ directory.streams ∧ header.name = name := by
  constructor
  · intro h
    exact ⟨Array.mem_of_find?_eq_some h, by simpa using Array.find?_some h⟩
  · rintro ⟨hmem, hname⟩
    have hsome : (findIn? directory.streams name).isSome = true :=
      findIn?_isSome_iff.2 ⟨header, Array.mem_toList_iff.2 hmem, hname⟩
    obtain ⟨other, hother⟩ := Option.isSome_iff_exists.1 hsome
    have hmemOther := Array.mem_of_find?_eq_some hother
    have hnameOther : other.name = name := by simpa using Array.find?_some hother
    obtain rfl := List.inj_on_of_nodup_map hnames (Array.mem_toList_iff.2 hmem)
      (Array.mem_toList_iff.2 hmemOther) (hname.trans hnameOther.symm)
    exact hother

/-! ### The directory -/

theorem pos_of_rootHeader {root : RootHeader} {after : Cursor}
    (h : RootHeader.read (Cursor.ofBytes data) = .ok root after) :
    after = ⟨data, after.pos, []⟩ := by
  obtain ⟨bs, hbs, hconsumes⟩ := RootHeader.exact_read (Cursor.inside_ofBytes data) h
  obtain ⟨-, rfl⟩ := hconsumes.eq_of_ok hbs h
  rfl

theorem run_read_eq {root : RootHeader} {after : Cursor}
    (h : RootHeader.read (Cursor.ofBytes data) = .ok root after) :
    read.run data =
      match readStreams root.streamCount.toNat #[] ⟨data, after.pos, []⟩ with
      | .ok streams _ => .ok ⟨root, streams⟩
      | .error e _ => .error e := by
  rw [Reader.run, read, bind_of_ok h, pos_of_rootHeader h]
  cases hstreams : readStreams root.streamCount.toNat #[] ⟨data, after.pos, []⟩ with
  | ok streams d => rw [bind_of_ok hstreams]; rfl
  | error e d => rw [bind_of_error hstreams]

theorem run_read_of_rootHeader {e : FormatError} {d : Cursor}
    (h : RootHeader.read (Cursor.ofBytes data) = .error e d) :
    read.run data = .error e := by
  rw [Reader.run, read, bind_of_error h]

/-- Either there is no root header, or all headers behind it are listed, or one of them
has a defect. -/
theorem run_read_cases (data : ByteArray) :
    (∃ e d, RootHeader.read (Cursor.ofBytes data) = .error e d ∧
      read.run data = .error e) ∨ (∃ directory after stop,
      RootHeader.read (Cursor.ofBytes data) = .ok directory.root after ∧
      Listed data after.pos directory.streams.toList stop ∧
      directory.streams.size = directory.root.streamCount.toNat ∧
      read.run data = .ok directory) ∨
      ∃ root after headers pos e, RootHeader.read (Cursor.ofBytes data) = .ok root after ∧
        Listed data after.pos headers pos ∧ headers.length < root.streamCount.toNat ∧
        Defect data headers pos e ∧ read.run data = .error e := by
  cases hroot : RootHeader.read (Cursor.ofBytes data) with
  | error e d => exact .inl ⟨e, d, rfl, run_read_of_rootHeader hroot⟩
  | ok root after =>
      have hrun := run_read_eq hroot
      have hnil : Listed data after.pos (#[] : Array StreamHeader).toList after.pos := .nil
      rcases readStreams_cases root.streamCount.toNat hnil with
        ⟨streams, stop, hlisted, hsize, hread⟩ | ⟨headers, pos, e, d, hlisted, hcount,
          hdefect, hread⟩
      · rw [hread] at hrun
        exact .inr (.inl ⟨⟨root, streams⟩, after, stop, rfl, hlisted,
          hsize.trans (Nat.zero_add _), hrun⟩)
      · rw [hread] at hrun
        exact .inr (.inr ⟨root, after, headers, pos, e, rfl,
          hlisted, by simpa using hcount, hdefect, hrun⟩)

/-- A directory is what its headers say, as many of them as its root header announces. -/
theorem run_read_eq_ok_iff {directory : Directory} : read.run data = .ok directory ↔
    ∃ after stop, RootHeader.read (Cursor.ofBytes data) = .ok directory.root after ∧
      Listed data after.pos directory.streams.toList stop ∧
      directory.streams.size = directory.root.streamCount.toNat := by
  constructor
  · intro h
    have hcases := run_read_cases data
    rw [h] at hcases
    obtain ⟨-, -, -, ⟨⟩⟩ | ⟨directory, after, stop, hroot, hlisted, hsize, ⟨⟩⟩
      | ⟨-, -, -, -, -, -, -, -, -, ⟨⟩⟩ := hcases
    exact ⟨after, stop, hroot, hlisted, hsize⟩
  · rintro ⟨after, stop, hroot, hlisted, hsize⟩
    have hread := readStreams_of_listed hlisted 0
    rw [Nat.add_zero, Array.length_toList, hsize] at hread
    rw [run_read_eq hroot, hread]
    rfl

/-- A directory fails with its root header, or with the first defect of a header. -/
theorem run_read_eq_error_iff {e : FormatError} :
    read.run data = .error e ↔ (∃ d, RootHeader.read (Cursor.ofBytes data) = .error e d) ∨
      ∃ root after headers pos, RootHeader.read (Cursor.ofBytes data) = .ok root after ∧
        Listed data after.pos headers pos ∧ headers.length < root.streamCount.toNat ∧
        Defect data headers pos e := by
  constructor
  · intro h
    have hcases := run_read_cases data
    rw [h] at hcases
    obtain ⟨e, d, hroot, ⟨⟩⟩ | ⟨-, -, -, -, -, -, ⟨⟩⟩
      | ⟨root, after, headers, pos, e, hroot, hlisted, hcount, hdefect, ⟨⟩⟩ := hcases
    · exact .inl ⟨d, hroot⟩
    · exact .inr ⟨root, after, headers, pos, hroot, hlisted, hcount, hdefect⟩
  · rintro (⟨d, hroot⟩ | ⟨root, after, headers, pos, hroot, hlisted, hcount, hdefect⟩)
    · exact run_read_of_rootHeader hroot
    · obtain ⟨count, hcount⟩ := Nat.exists_eq_add_of_lt hcount
      obtain ⟨d, hread⟩ := readStreams_of_defect headers.toArray hdefect count
      rw [run_read_eq hroot, hcount, Nat.add_assoc, readStreams_of_listed hlisted, hread]

/-- A directory whose names tell its streams apart, and whose streams lie within the
buffer. -/
structure Valid (data : ByteArray) (directory : Directory) : Prop where
  size_eq : directory.streams.size = directory.root.streamCount.toNat
  nodup_names : (directory.streams.toList.map (·.name)).Nodup
  zero_not_mem_name : ∀ header ∈ directory.streams, 0 ∉ header.name.toUTF8.data.toList
  name_le : ∀ header ∈ directory.streams, header.name.toUTF8.size ≤ 31
  stop_le : ∀ header ∈ directory.streams, header.stop ≤ data.size
  find?_eq_some_iff (name : String) (header : StreamHeader) :
    directory.find? name = some header ↔ header ∈ directory.streams ∧ header.name = name
  find?_eq_none_iff (name : String) : directory.find? name = none ↔
    ∀ header ∈ directory.streams, header.name ≠ name

theorem valid_of_run_read {directory : Directory} (h : read.run data = .ok directory) :
    directory.Valid data := by
  obtain ⟨after, stop, -, hlisted, hsize⟩ := run_read_eq_ok_iff.1 h
  have hacceptable (header : StreamHeader) (hmem : header ∈ directory.streams) :
      ∃ before pos next, Acceptable data before pos header next :=
    hlisted.exists_acceptable (Array.mem_toList_iff.2 hmem)
  constructor
  case size_eq => exact hsize
  case nodup_names => exact hlisted.nodup_names
  case zero_not_mem_name =>
    intro header hmem
    obtain ⟨before, pos, next, hheader⟩ := hacceptable header hmem
    obtain ⟨last, hlast, htext⟩ := hheader.name_eq
    exact hlast.zero_not_mem htext
  case name_le =>
    intro header hmem
    obtain ⟨before, pos, next, hheader⟩ := hacceptable header hmem
    exact Nat.le_of_lt_succ hheader.name_lt
  case stop_le =>
    intro header hmem
    obtain ⟨before, pos, next, hheader⟩ := hacceptable header hmem
    exact hheader.stop_le
  case find?_eq_some_iff => exact fun name header =>
    Directory.find?_eq_some_iff hlisted.nodup_names
  case find?_eq_none_iff =>
    intro name
    simp [find?, findIn?]

/-- Where the headers that are listed stop being acceptable, the whole directory fails
with what is wrong there. Behind that place the buffer may be anything. -/
theorem run_read_validated (data : ByteArray) :
    (∀ directory, read.run data = .ok directory → directory.Valid data) ∧
      ∀ root after headers pos, RootHeader.read (Cursor.ofBytes data) = .ok root after →
        Listed data after.pos headers pos → headers.length < root.streamCount.toNat →
        (¬∃ header next, Acceptable data headers pos header next) →
        ∃ e, Defect data headers pos e ∧ (∀ other, Defect data headers pos other →
          other = e) ∧ read.run data = .error e := by
  refine ⟨fun directory => valid_of_run_read,
    fun root after headers pos hroot hlisted hcount hnone => ?_⟩
  have herror (e : FormatError)
      (he : Defect data headers pos e) : read.run data = .error e :=
    run_read_eq_error_iff.2 (.inr ⟨root, after, headers, pos, hroot, hlisted, hcount, he⟩)
  obtain ⟨e, he⟩ := (acceptable_or_defect data headers pos).resolve_left hnone
  refine ⟨e, he, fun other hother => ?_, herror e he⟩
  exact Except.error.inj ((herror other hother).symm.trans (herror e he))

/-- A root header that announces this many streams, and behind it two headers with one
name. -/
def twiceNamedSample (count : UInt8) : ByteArray :=
  [0x42, 0x53, 0x4A, 0x42, 1, 0, 1, 0, 0, 0, 0, 0, 4, 0, 0, 0, 0x76, 0x31, 0, 0, 0, 0,
    count, 0, 24, 0, 0, 0, 4, 0, 0, 0, 0x23, 0x41, 0, 0,
    0, 0, 0, 0, 0, 0, 0, 0, 0x23, 0x41, 0, 0].toByteArray

/-- The first of the headers is a directory by itself, and the second one may not be in
it. -/
theorem run_read_validated_twiceNamed :
    (∃ directory, read.run (twiceNamedSample 1) = .ok directory ∧
      directory.Valid (twiceNamedSample 1) ∧ directory.streams = #[⟨"#A", 24, 4⟩]) ∧
      Listed (twiceNamedSample 2) 24 [⟨"#A", 24, 4⟩] 36 ∧
      read.run (twiceNamedSample 2) = .error (.malformedHeader .duplicateStreamName) := by
  have hone : read.run (twiceNamedSample 1) =
      .ok ⟨⟨metadataSignature, 1, 1, "v1", 0, 1⟩, #[⟨"#A", 24, 4⟩]⟩ := by
    decide +kernel
  have hroot : RootHeader.read (Cursor.ofBytes (twiceNamedSample 2)) =
      .ok ⟨metadataSignature, 1, 1, "v1", 0, 2⟩ ⟨twiceNamedSample 2, 24, []⟩ := by
    rfl
  have hfirst : HeaderAt (twiceNamedSample 2) 24 ⟨"#A", 24, 4⟩ 36 := by
    refine ⟨by decide, by decide, ⟨34, ?_, by decide⟩, by decide, by decide, by decide⟩
    exact Cursor.zeroFrom?_eq_some_iff.1
      (show Cursor.zeroFrom? (twiceNamedSample 2) 32 16 = some 34 by decide)
  have hsecond : HeaderAt (twiceNamedSample 2) 36 ⟨"#A", 0, 0⟩ 48 := by
    refine ⟨by decide, by decide, ⟨46, ?_, by decide⟩, by decide, by decide, by decide⟩
    exact Cursor.zeroFrom?_eq_some_iff.1
      (show Cursor.zeroFrom? (twiceNamedSample 2) 44 4 = some 46 by decide)
  have hlisted : Listed (twiceNamedSample 2) 24 [⟨"#A", 24, 4⟩] 36 :=
    Listed.nil.snoc ⟨hfirst, by decide, nofun⟩
  have hdefect : Defect (twiceNamedSample 2) [⟨"#A", 24, 4⟩] 36
      (.malformedHeader .duplicateStreamName) :=
    .duplicate hsecond (by decide) ⟨⟨"#A", 24, 4⟩, List.mem_singleton_self _, rfl⟩
  refine ⟨⟨_, hone, (run_read_validated _).1 _ hone, rfl⟩, hlisted, ?_⟩
  obtain ⟨e, -, hunique, hrun⟩ :=
    (run_read_validated _).2 _ _ _ _ hroot hlisted (by decide) hdefect.not_acceptable
  rw [hrun, hunique _ hdefect]

end Directory

end PortablePdb
