import PortablePdb.Proofs.CompressedAcceptance
import PortablePdb.Proofs.Heap.Lasting

/-!
What heaps answer, said by their bytes. An offset may be anywhere in a heap, also inside
an entry or behind the last one. An entry is read exactly if all of its bytes lie in the
heap, and it consists of these bytes and no others.
-/

namespace PortablePdb

namespace Reader

variable {α : Type} {r : Reader α} {data : ByteArray} {offset : Nat} {d : Cursor}

theorem run_seek_of_lt (h : data.size < offset) :
    Reader.run (do seek offset; r) data = .error (.outOfBounds offset 0) := by
  have hseek : seek offset (Cursor.ofBytes data) =
      .error (.outOfBounds offset 0) (Cursor.ofBytes data) :=
    if_neg (Nat.not_le.2 h)
  simp only [Reader.run, bind_of_error hseek]

theorem run_seek_of_ok {a : α} (hoffset : offset ≤ data.size)
    (h : r ⟨data, offset, []⟩ = .ok a d) :
    Reader.run (do seek offset; r) data = .ok a := by
  have hseek : seek offset (Cursor.ofBytes data) = .ok () ⟨data, offset, []⟩ :=
    seek_of_le hoffset
  simp only [Reader.run, bind_of_ok hseek, h]

theorem run_seek_of_error {e : FormatError} (hoffset : offset ≤ data.size)
    (h : r ⟨data, offset, []⟩ = .error e d) :
    Reader.run (do seek offset; r) data = .error e := by
  have hseek : seek offset (Cursor.ofBytes data) = .ok () ⟨data, offset, []⟩ :=
    seek_of_le hoffset
  simp only [Reader.run, bind_of_ok hseek, h]

end Reader

open Reader CompressedInt

/-! ### Strings -/

namespace StringHeap

variable {heap : StringHeap} {offset : UInt32}

theorem get_of_nonzero (h : ∀ i, offset.toNat ≤ i → heap.data[i]? ≠ some 0) :
    heap.get offset =
      .error (.outOfBounds offset.toNat (heap.data.size + 1 - offset.toNat)) := by
  by_cases hoffset : offset.toNat ≤ heap.data.size
  · have hread := nullTerminated_of_nonzero (c := ⟨heap.data, offset.toNat, []⟩) hoffset
      fun i hi _ => h i hi
    rw [get, run_seek_of_error hoffset (bind_of_error hread), Nat.succ_sub hoffset]
    rfl
  · rw [get, run_seek_of_lt (Nat.not_le.1 hoffset),
      Nat.sub_eq_zero_of_le (Nat.not_le.1 hoffset)]

section FirstZero

variable {last : Nat} (h : Cursor.FirstZero heap.data offset.toNat heap.data.size last)
include h

theorem get_of_text {s : String}
    (htext : Cursor.slice? heap.data offset.toNat last = some s.toUTF8) :
    heap.get offset = .ok s := by
  rw [Cursor.slice?_of_le h.start_le (Nat.le_of_lt h.lt_stop), Option.some.injEq] at htext
  have hread :=
    nullTerminated_of_firstZero (c := ⟨heap.data, offset.toNat, []⟩) (Nat.le_refl _) h
  rw [show Cursor.data ⟨heap.data, offset.toNat, []⟩ = heap.data from rfl, htext] at hread
  exact run_seek_of_ok (Nat.le_trans h.start_le (Nat.le_of_lt h.lt_stop))
    ((bind_of_ok hread).trans (utf8_toUTF8 s _ _))

theorem get_of_notText
    {text : ByteArray} (htext : Cursor.slice? heap.data offset.toNat last = some text)
    (hbad : ∀ s : String, text ≠ s.toUTF8) :
    heap.get offset = .error .invalidStringData := by
  rw [Cursor.slice?_of_le h.start_le (Nat.le_of_lt h.lt_stop), Option.some.injEq] at htext
  have hread :=
    nullTerminated_of_firstZero (c := ⟨heap.data, offset.toNat, []⟩) (Nat.le_refl _) h
  rw [show Cursor.data ⟨heap.data, offset.toNat, []⟩ = heap.data from rfl, htext] at hread
  exact run_seek_of_error (Nat.le_trans h.start_le (Nat.le_of_lt h.lt_stop))
    ((bind_of_ok hread).trans (utf8_of_ne hbad _ _))

end FirstZero

/-- The string of a stream at an offset is what comes before the first zero, if that is
text. -/
structure EntryAt (stream : ByteArray) (offset : Nat)
    (answer : Except FormatError String) : Prop where
  ok_iff (s : String) : answer = .ok s ↔
    ∃ last, Cursor.FirstZero stream offset stream.size last ∧
      Cursor.slice? stream offset last = some s.toUTF8
  invalid_iff : answer = .error .invalidStringData ↔
    ∃ last text, Cursor.FirstZero stream offset stream.size last ∧
      Cursor.slice? stream offset last = some text ∧ ∀ s : String, text ≠ s.toUTF8
  outOfBounds_iff : answer = .error (.outOfBounds offset (stream.size + 1 - offset)) ↔
    ∀ i, offset ≤ i → stream[i]? ≠ some 0

/-- Either there is text before a zero, or something else before it, or no zero at all. -/
theorem get_cases (heap : StringHeap) (offset : UInt32) :
    (∃ last s, Cursor.FirstZero heap.data offset.toNat heap.data.size last ∧
      Cursor.slice? heap.data offset.toNat last = some s.toUTF8 ∧
      heap.get offset = .ok s) ∨
      (∃ last text, Cursor.FirstZero heap.data offset.toNat heap.data.size last ∧
        Cursor.slice? heap.data offset.toNat last = some text ∧
        (∀ s : String, text ≠ s.toUTF8) ∧ heap.get offset = .error .invalidStringData) ∨
      (∀ i, offset.toNat ≤ i → heap.data[i]? ≠ some 0) ∧ heap.get offset = .error
        (.outOfBounds offset.toNat (heap.data.size + 1 - offset.toNat)) := by
  by_cases hzero : ∃ last, Cursor.FirstZero heap.data offset.toNat heap.data.size last
  · obtain ⟨last, hlast⟩ := hzero
    have hslice := Cursor.slice?_of_le hlast.start_le (Nat.le_of_lt hlast.lt_stop)
    by_cases htext : ∃ s : String, heap.data.extract offset.toNat last = s.toUTF8
    · obtain ⟨s, hs⟩ := htext
      rw [hs] at hslice
      exact .inl ⟨last, s, hlast, hslice, get_of_text hlast hslice⟩
    · have hbad := not_exists.1 htext
      exact .inr (.inl ⟨last, _, hlast, hslice, hbad, get_of_notText hlast hslice hbad⟩)
  · have hnonzero := Cursor.nonzero_of_not_firstZero hzero
    exact .inr (.inr ⟨hnonzero, get_of_nonzero hnonzero⟩)

theorem entryAt_get (heap : StringHeap) (offset : UInt32) :
    EntryAt heap.data offset.toNat (heap.get offset) := by
  have hcases := get_cases heap offset
  constructor
  case ok_iff =>
    intro s
    refine ⟨fun h => ?_, fun ⟨last, hlast, htext⟩ => get_of_text hlast htext⟩
    rw [h] at hcases
    obtain ⟨last, s, hlast, htext, ⟨⟩⟩ | ⟨-, -, -, -, -, ⟨⟩⟩ | ⟨-, ⟨⟩⟩ := hcases
    exact ⟨last, hlast, htext⟩
  case invalid_iff =>
    refine ⟨fun h => ?_,
      fun ⟨last, text, hlast, htext, hbad⟩ => get_of_notText hlast htext hbad⟩
    rw [h] at hcases
    obtain ⟨-, -, -, -, ⟨⟩⟩ | ⟨last, text, hlast, htext, hbad, -⟩ | ⟨-, ⟨⟩⟩ := hcases
    exact ⟨last, text, hlast, htext, hbad⟩
  case outOfBounds_iff =>
    refine ⟨fun h => ?_, get_of_nonzero⟩
    rw [h] at hcases
    obtain ⟨-, -, -, -, ⟨⟩⟩ | ⟨-, -, -, -, -, ⟨⟩⟩ | ⟨hnonzero, -⟩ := hcases
    exact hnonzero

end StringHeap

/-! ### Blobs -/

namespace BlobHeap

/-- A blob is stored behind its length, which may be in any of its forms. -/
def StoredAt (stream : ByteArray) (offset : Nat) (blob : ByteArray) : Prop :=
  ∃ length form, (Value.unsigned length).HasForm form ∧
    Cursor.slice? stream offset (offset + form.length) = some form.toByteArray ∧
    Cursor.slice? stream (offset + form.length) (offset + form.length + length) = some blob

def ReservedAt (stream : ByteArray) (offset : Nat) : Prop :=
  ∃ first, stream[offset]? = some first ∧ first >>> 5 = 0b111

/-- The blob of a stream at an offset is as long as the length there says. -/
structure EntryAt (stream : ByteArray) (offset : Nat)
    (answer : Except FormatError ByteArray) : Prop where
  ok_iff (blob : ByteArray) : answer = .ok blob ↔ StoredAt stream offset blob
  reserved_iff : answer = .error (.invalidCompressedInteger offset) ↔
    ReservedAt stream offset
  otherwise : (∃ blob, answer = .ok blob) ∨
    answer = .error (.invalidCompressedInteger offset) ∨
    ∃ start length, answer = .error (.outOfBounds start length)

variable {heap : BlobHeap} {offset : UInt32}

/-- A length that cannot be read is the error of the blob. -/
theorem get_of_readPacked {e : FormatError} {d : Cursor}
    (hoffset : offset.toNat ≤ heap.data.size)
    (h : readPacked ⟨heap.data, offset.toNat, []⟩ = .error e d) :
    heap.get offset = .error e :=
  run_seek_of_error hoffset (bind_of_error (return_eq_error_iff.2 h))

theorem get_of_reserved (h : ReservedAt heap.data offset.toNat) :
    heap.get offset = .error (.invalidCompressedInteger offset.toNat) := by
  obtain ⟨first, hfirst, hreserved⟩ := h
  have hlt := Cursor.lt_size_of_getElem? hfirst
  have hahead : (⟨heap.data, offset.toNat, []⟩ : Cursor).Ahead [first] :=
    Cursor.ahead_singleton_iff.2 ⟨hlt, hfirst⟩
  exact get_of_readPacked (Nat.le_of_lt hlt)
    (readPacked_of_reserved hahead (Packing.announced?_eq_none_iff.2 hreserved))

section Form

variable {length : Nat} {form : List UInt8} (hform : (Value.unsigned length).HasForm form)
  (hahead : (⟨heap.data, offset.toNat, []⟩ : Cursor).Ahead form)
include hform hahead

/-- Behind its length a blob is read from a range of its own. -/
theorem get_of_hasForm :
    heap.get offset = match withLimit length (do bytes (← remaining))
      ⟨heap.data, offset.toNat + form.length, []⟩ with
    | .ok blob _ => .ok blob
    | .error e _ => .error e := by
  have hread := bind_of_ok (f := fun length => withLimit length do bytes (← remaining))
    (consumes_of_hasForm hform _ hahead)
  have hoffset : offset.toNat ≤ heap.data.size :=
    Nat.le_trans (Nat.le_add_right _ _) hahead.within
  cases h : withLimit length (do bytes (← remaining))
    ⟨heap.data, offset.toNat + form.length, []⟩ with
  | ok blob d => exact run_seek_of_ok hoffset (hread.trans h)
  | error e d => exact run_seek_of_error hoffset (hread.trans h)

theorem get_of_slice {blob : ByteArray} (hblob : Cursor.slice? heap.data
    (offset.toNat + form.length) (offset.toNat + form.length + length) = some blob) :
    heap.get offset = .ok blob := by
  have hlength : blob.data.toList.length = length := by
    rw [← Nat.add_sub_cancel_left (n := offset.toNat + form.length) (m := length)]
    exact Cursor.size_of_slice? hblob
  have hblobAhead :
      (⟨heap.data, offset.toNat + form.length, []⟩ : Cursor).Ahead blob.data.toList := by
    rw [Cursor.ahead_iff_slice?, hlength, Cursor.toByteArray_toList]
    exact hblob
  rw [get_of_hasForm hform hahead,
    Consumes.withLimit_remaining blob.data.toList hlength _ hblobAhead,
    Cursor.toByteArray_toList]

theorem get_of_short (hshort : heap.data.size < offset.toNat + form.length + length) :
    heap.get offset = .error (.outOfBounds (offset.toNat + form.length) length) := by
  rw [get_of_hasForm hform hahead, withLimit_of_lt hshort]

end Form

/-- A blob may end before its length begins, in its length or behind it, or its length may
be none. -/
theorem get_cases (heap : BlobHeap) (offset : UInt32) :
    (∃ blob, StoredAt heap.data offset.toNat blob ∧ heap.get offset = .ok blob) ∨
      ReservedAt heap.data offset.toNat ∧
        heap.get offset = .error (.invalidCompressedInteger offset.toNat) ∨
      ∃ start length, heap.get offset = .error (.outOfBounds start length) := by
  rcases Nat.lt_trichotomy heap.data.size offset.toNat with hbehind | hend | hlt
  · exact .inr (.inr ⟨_, _, run_seek_of_lt hbehind⟩)
  · have hread :=
      readPacked_of_stop_le (c := ⟨heap.data, offset.toNat, []⟩) (Nat.le_of_eq hend)
    exact .inr (.inr ⟨_, _, get_of_readPacked (Nat.le_of_eq hend.symm) hread⟩)
  · have hinside : (⟨heap.data, offset.toNat, []⟩ : Cursor).Inside :=
      ⟨Nat.le_of_lt hlt, Nat.le_refl _⟩
    obtain ⟨bs, hbs, hfirst⟩ := hinside.exists_ahead (n := 1) hlt
    obtain ⟨first, rfl⟩ := List.length_eq_one_iff.1 hbs
    cases hp : Packing.announced? first with
    | none =>
        have hreserved : ReservedAt heap.data offset.toNat :=
          ⟨first, (Cursor.ahead_singleton_iff.1 hfirst).2,
            Packing.announced?_eq_none_iff.1 hp⟩
        exact .inr (.inl ⟨hreserved, get_of_reserved hreserved⟩)
    | some p =>
        by_cases hcut : heap.data.size < offset.toNat + p.width
        · exact .inr (.inr ⟨_, _,
            get_of_readPacked (Nat.le_of_lt hlt) (readPacked_of_cut hfirst hp hcut)⟩)
        obtain ⟨length, hfits, hahead, -⟩ :=
          readPacked_of_whole hinside.stop_le hfirst hp (Nat.not_lt.1 hcut)
        have hform : (Value.unsigned length).HasForm (p.pack length) := ⟨p, hfits, rfl⟩
        by_cases hshort : heap.data.size < offset.toNat + (p.pack length).length + length
        · exact .inr (.inr ⟨_, _, get_of_short hform hahead hshort⟩)
        have hblob := Cursor.slice?_of_le (Nat.le_add_right _ _) (Nat.not_lt.1 hshort)
        exact .inl ⟨_, ⟨length, _, hform, Cursor.ahead_iff_slice?.1 hahead, hblob⟩,
          get_of_slice hform hahead hblob⟩

theorem entryAt_get (heap : BlobHeap) (offset : UInt32) :
    EntryAt heap.data offset.toNat (heap.get offset) := by
  have hcases := get_cases heap offset
  constructor
  case ok_iff =>
    intro blob
    constructor
    · intro h
      rw [h] at hcases
      obtain ⟨blob, hstored, ⟨⟩⟩ | ⟨-, ⟨⟩⟩ | ⟨-, -, ⟨⟩⟩ := hcases
      exact hstored
    · rintro ⟨length, form, hform, hahead, hblob⟩
      exact get_of_slice hform (Cursor.ahead_iff_slice?.2 hahead) hblob
  case reserved_iff =>
    refine ⟨fun h => ?_, get_of_reserved⟩
    rw [h] at hcases
    obtain ⟨-, -, ⟨⟩⟩ | ⟨hreserved, -⟩ | ⟨-, -, ⟨⟩⟩ := hcases
    exact hreserved
  case otherwise =>
    obtain ⟨blob, -, hget⟩ | ⟨-, hget⟩ | hget := hcases
    · exact .inl ⟨blob, hget⟩
    · exact .inr (.inl hget)
    · exact .inr (.inr hget)

end BlobHeap

/-! ### Identifiers -/

namespace GuidHeap

/-- The identifiers of a stream stand one behind the other, and the first one is number
one. -/
structure EntryAt (stream : ByteArray) (index : UInt32)
    (answer : Except FormatError Guid) : Prop where
  ok_iff (guid : Guid) : answer = .ok guid ↔ 1 ≤ index.toNat ∧ Cursor.slice? stream
    (16 * (index.toNat - 1)) (16 * index.toNat) = some guid.bytes.toByteArray
  isOk_iff : (∃ guid, answer = .ok guid) ↔ 1 ≤ index.toNat ∧ 16 * index.toNat ≤ stream.size
  invalid_iff : answer = .error (.invalidGuidIndex index) ↔
    index.toNat = 0 ∨ stream.size < 16 * index.toNat

variable {heap : GuidHeap} {index : UInt32}

theorem get_of_le (hindex : 1 ≤ index.toNat) (hsize : 16 * index.toNat ≤ heap.data.size) :
    ∃ guid : Guid, Cursor.slice? heap.data (16 * (index.toNat - 1)) (16 * index.toNat) =
      some guid.bytes.toByteArray ∧ heap.get index = .ok guid := by
  have hslice :=
    Cursor.slice?_of_le (Nat.mul_le_mul_left 16 (Nat.sub_le index.toNat 1)) hsize
  have hlength := Cursor.size_of_slice? hslice
  rw [← Nat.mul_sub, Nat.sub_sub_self hindex] at hlength
  have hbytes := Guid.bytes_ofBytes (show (heap.data.extract (16 * (index.toNat - 1))
    (16 * index.toNat)).data.toList.length = Guid.size from hlength)
  refine ⟨_, ?_, if_pos ⟨UInt32.le_iff_toNat_le.2 hindex, hsize⟩⟩
  rw [Guid.size, hbytes, Cursor.toByteArray_toList]
  exact hslice

theorem get_of_not_le (h : ¬(1 ≤ index.toNat ∧ 16 * index.toNat ≤ heap.data.size)) :
    heap.get index = .error (.invalidGuidIndex index) := by
  refine if_neg fun hindex => ?_
  exact h ⟨UInt32.le_iff_toNat_le.1 hindex.1, hindex.2⟩

theorem entryAt_get (heap : GuidHeap) (index : UInt32) :
    EntryAt heap.data index (heap.get index) := by
  by_cases hindex : 1 ≤ index.toNat ∧ 16 * index.toNat ≤ heap.data.size
  · obtain ⟨guid, hslice, hget⟩ := get_of_le hindex.1 hindex.2
    rw [hget]
    constructor
    case ok_iff =>
      intro other
      rw [hslice, Option.some.injEq, Except.ok.injEq, and_iff_right hindex.1]
      refine ⟨fun h => by rw [h], fun h => ?_⟩
      have hbytes : guid.bytes = other.bytes := by
        simpa using congrArg (fun bytes => bytes.data.toList) h
      rw [← guid.ofBytes_bytes, hbytes, other.ofBytes_bytes]
    case isOk_iff => exact iff_of_true ⟨guid, rfl⟩ hindex
    case invalid_iff => exact iff_of_false nofun (by omega)
  · rw [get_of_not_le hindex]
    constructor
    case ok_iff =>
      intro guid
      exact iff_of_false nofun fun ⟨hpos, hslice⟩ =>
        hindex ⟨hpos, (Cursor.slice?_eq_some_iff.1 hslice).2.1⟩
    case isOk_iff => exact iff_of_false nofun hindex
    case invalid_iff => exact iff_of_true rfl (by omega)

end GuidHeap

end PortablePdb
