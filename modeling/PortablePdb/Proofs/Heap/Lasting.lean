import PortablePdb.Heap.DocumentName
import PortablePdb.Proofs.Compression
import PortablePdb.Proofs.Text.Utf8

/-!
What was put into a heap can be read there, now and after any further additions. The heaps
only grow at their ends, so it is enough that an entry is read the same on every heap that
starts with this one: `Lasting`. The padding of a stream is an addition like any other.

Offsets are words. A heap of `2 ^ 32` bytes or more would have entries out of their reach,
and is left out.
-/

namespace PortablePdb

/-- What is true of a heap and of all that it can grow into. -/
def Lasting (P : ByteArray → Prop) (heap : ByteArray) : Prop :=
  ∀ later : ByteArray, heap.data.toList <+: later.data.toList →
    later.size < 2 ^ 32 → P later

namespace Lasting

variable {P Q : ByteArray → Prop} {heap later : ByteArray}

theorem mono (h : Lasting P heap) (hlater : heap.data.toList <+: later.data.toList) :
    Lasting P later :=
  fun last hlast hsize => h last (hlater.trans hlast) hsize

theorem imp (h : Lasting P heap) (himp : ∀ later, P later → Q later) : Lasting Q heap :=
  fun later hlater hsize => himp later (h later hlater hsize)

end Lasting

/-- The size of a heap is the offset of what is added next. -/
theorem toNat_toUInt32_size {heap later : ByteArray}
    (hlater : heap.data.toList <+: later.data.toList)
    (hsize : later.size < 2 ^ 32) : heap.size.toUInt32.toNat = heap.size := by
  have hle : heap.size ≤ later.size := hlater.length_le
  exact toNat_toUInt32 (by omega)

open Reader

namespace StringHeap

/-- The text of a string that is stored as these bytes. What stands behind a zero is not
part of it. -/
def textOf (bytes : ByteArray) : Except FormatError String :=
  match String.fromUTF8? (bytes.data.toList.takeWhile (· ≠ 0)).toByteArray with
  | some s => .ok s
  | none => .error .invalidStringData

/-- Bytes with a zero behind them start with those before their first zero, and that
zero. -/
theorem prefix_takeWhile_append_zero (bs : List UInt8) :
    bs.takeWhile (· ≠ 0) ++ [0] <+: bs ++ [0] := by
  induction bs with
  | nil => exact List.prefix_rfl
  | cons b rest ih =>
      by_cases hb : b = 0
      · simp [hb]
      · simpa [hb] using ih

theorem lasting_get_textOf (heap text : ByteArray) :
    Lasting (fun later => get ⟨later⟩ heap.size.toUInt32 = textOf text)
      (heap ++ text ++ [0].toByteArray) := by
  intro later hlater hsize
  have hentry : heap.data.toList ++ (text.data.toList ++ [0]) <+:
    later.data.toList := by simpa using hlater
  have hstored := ((List.prefix_append_right_inj _).2
    (prefix_takeWhile_append_zero text.data.toList)).trans hentry
  have hzero : 0 ∉ text.data.toList.takeWhile (· ≠ 0) := fun h => by
    simpa using List.mem_takeWhile_imp h
  obtain ⟨c, hseek, hc⟩ := exists_seek hstored
    (toNat_toUInt32_size ((List.prefix_append _ _).trans hstored) hsize)
  have htext := Consumes.nullTerminated hzero c hc
  simp only [get, Reader.run, bind_of_ok hseek, bind_of_ok htext, textOf, utf8]
  cases String.fromUTF8? (text.data.toList.takeWhile (· ≠ 0)).toByteArray <;> rfl

theorem lasting_get {heap text : ByteArray} {s : String}
    (htext : String.fromUTF8? text = some s) (hzero : 0 ∉ text.data.toList) :
    Lasting (fun later => get ⟨later⟩ heap.size.toUInt32 = .ok s)
      (heap ++ text ++ [0].toByteArray) := by
  have hall : text.data.toList.takeWhile (· ≠ 0) = text.data.toList :=
    List.takeWhile_eq_self_iff.2 fun b hb => decide_eq_true fun h : b = 0 => hzero (h ▸ hb)
  refine (lasting_get_textOf heap text).imp fun later h => ?_
  rw [h, textOf, hall, Cursor.toByteArray_toList, htext]

end StringHeap

namespace BlobHeap

/-- A blob that is not the first entry of its heap is not at offset zero, which stands for
no blob at all. -/
theorem lasting_get {heap content : ByteArray} {length : List UInt8} (hheap : heap.size ≠ 0)
    (hlength : CompressedInt.encode content.size.toUInt32.toNat = .ok length) :
    Lasting (fun later => heap.size.toUInt32 ≠ 0 ∧
        get ⟨later⟩ heap.size.toUInt32 = .ok content)
      (heap ++ length.toByteArray ++ content) := by
  intro later hlater hsize
  have hstored :
      heap.data.toList ++ (length ++ content.data.toList) <+: later.data.toList := by
    simpa using hlater
  -- The heap that is read bounds the length, which the writer takes modulo `2 ^ 32`.
  have hcontent : content.size.toUInt32.toNat = content.size := by
    have hle := hstored.length_le
    simp only [List.length_append] at hle
    change heap.size + (length.length + content.size) ≤ later.size at hle
    exact toNat_toUInt32 (by omega)
  rw [hcontent] at hlength
  have hread : Consumes (do
      let length ← CompressedInt.read
      withLimit length do bytes (← remaining)) (length ++ content.data.toList) content := by
    have hbody := Consumes.withLimit_remaining content.data.toList (n := content.size) rfl
    rw [Cursor.toByteArray_toList] at hbody
    exact (CompressedInt.consumes_read hlength).bind hbody
  have hoffset := toNat_toUInt32_size ((List.prefix_append _ _).trans hstored) hsize
  refine ⟨fun hzero => hheap ?_, hread.run_seek hstored hoffset⟩
  rw [← hoffset, hzero]
  rfl

/-- Both heaps that have an empty first entry have it at offset zero. -/
theorem lasting_get_zero {heap : ByteArray} (hheap : [0] <+: heap.data.toList) :
    Lasting (fun later => get ⟨later⟩ 0 = .ok .empty) heap := by
  intro later hlater _
  have hlength : CompressedInt.encode 0 = .ok [0] := by rfl
  have hread : Consumes (do
      let length ← CompressedInt.read
      withLimit length do bytes (← remaining)) [0] .empty :=
    (CompressedInt.consumes_read hlength).bind
      (Consumes.withLimit_remaining [] (n := 0) rfl)
  exact hread.run_seek (show [] ++ [0] <+: later.data.toList from hheap.trans hlater) rfl

/-! ### Document names -/

def between (separator : UInt8) : String :=
  if separator = 0 then "" else String.singleton (Char.ofNat separator.toNat)

theorem separatorText_eq (separator : UInt8) :
    separatorText separator = if separator < 0x80 then .ok (between separator)
      else .error .invalidStringData := by
  rw [separatorText, between]
  by_cases hzero : separator = 0
  · subst hzero
    rfl
  · rw [if_neg hzero, if_neg hzero]

/-- A part of a name that has a blob. -/
theorem lasting_namePart {heap : ByteArray} {offset : UInt32} {part : String}
    (h : Lasting (fun later => offset ≠ 0 ∧ get ⟨later⟩ offset = .ok part.toUTF8) heap) :
    Lasting (fun later => namePart ⟨later⟩ offset.toNat = .ok part) heap := by
  refine h.imp fun later ⟨hoffset, hget⟩ => ?_
  have hword : offset.toNat.toUInt32 = offset := by simp
  have hne : offset.toNat ≠ 0 := fun hzero => hoffset (UInt32.toNat_inj.1 hzero)
  rw [namePart, if_neg hne, hword, hget]
  simp only [bind, Except.bind, fromUTF8?_toUTF8]

theorem consumes_readNamePart {heap : BlobHeap} {offset : Nat} {bytes : List UInt8}
    {part : String} (hbytes : Consumes CompressedInt.read bytes offset)
    (hpart : heap.namePart offset = .ok part) :
    Consumes (heap.readNamePart ()) bytes (part, ()) :=
  hbytes.last ((Consumes.ofExcept hpart).map fun text => (text, ()))

/-- The blob of a name is a separator with the parts of the name behind it. The separator
has to be text by itself, also if there is nothing that it stands between. -/
theorem documentName_eq {heap : BlobHeap} {offset : UInt32} {separator : UInt8}
    {bytes : List UInt8} {parts : List String}
    (hname : heap.get offset = .ok (separator :: bytes).toByteArray)
    (hparts : Steps heap.readNamePart () bytes parts) :
    heap.documentName offset =
      if separator < 0x80 then .ok ((between separator).intercalate parts)
      else .error .invalidStringData := by
  have hall :
      (Cursor.ofBytes ([separator] ++ bytes).toByteArray).Ahead ([separator] ++ bytes) :=
    Cursor.ahead_ofBytes _
  have hend := hparts.untilEnd hall.right (by simp)
  rw [documentName, hname]
  change Reader.run _ ([separator] ++ bytes).toByteArray = _
  by_cases hlt : separator < 0x80
  · have htext : separatorText separator =
      .ok (between separator) := by rw [separatorText_eq, if_pos hlt]
    rw [if_pos hlt]
    simp only [Reader.run, bind_of_ok (Consumes.u8 separator _ hall.left),
      bind_of_ok (ofExcept_of_ok htext _), bind_of_ok hend]
    rfl
  · have htext : separatorText separator =
      .error .invalidStringData := by rw [separatorText_eq, if_neg hlt]
    rw [if_neg hlt]
    simp only [Reader.run, bind_of_ok (Consumes.u8 separator _ hall.left),
      bind_of_error (ofExcept_of_error htext _)]

end BlobHeap

namespace GuidHeap

theorem lasting_get {heap : ByteArray} (guid : Guid) (hheap : heap.size % Guid.size = 0) :
    Lasting (fun later => get ⟨later⟩ ((heap.size + Guid.size) / Guid.size).toUInt32 =
      .ok guid) (heap ++ guid.bytes.toByteArray) := by
  intro later hlater hsize
  have hstored :
    heap.data.toList ++ guid.bytes <+: later.data.toList := by simpa using hlater
  have hle := hstored.length_le
  have hlength : guid.bytes.length = 16 := guid.length_bytes
  simp only [List.length_append, hlength] at hle
  change heap.size + 16 ≤ later.size at hle
  rw [Guid.size] at hheap ⊢
  have hindex : ((heap.size + 16) / 16).toUInt32.toNat = heap.size / 16 + 1 := by
    rw [toNat_toUInt32 (by omega), Nat.add_div_right _ (by decide)]
  have hextract : later.extract heap.size (heap.size + 16) = guid.bytes.toByteArray := by
    have hahead : (⟨later, heap.size, []⟩ : Cursor).Ahead guid.bytes := by
      refine ⟨by rw [hlength]; exact hle, ?_⟩
      obtain ⟨rest, hrest⟩ := hstored
      refine ⟨rest, ?_⟩
      rw [← hrest, List.append_assoc]
      exact (List.drop_left ..).symm
    have := hahead.extract
    rwa [hlength] at this
  have hpos : 1 ≤ ((heap.size + 16) / 16).toUInt32 := by
    rw [UInt32.le_iff_toNat_le, hindex]
    exact Nat.le_add_left 1 _
  have hend : Guid.size * ((heap.size + 16) / 16).toUInt32.toNat ≤ later.size := by
    rw [hindex, Guid.size]
    omega
  rw [get, if_pos ⟨hpos, hend⟩, hindex, Guid.size,
    show 16 * (heap.size / 16 + 1 - 1) = heap.size by omega, show 16 * (heap.size / 16 +
      1) = heap.size + 16 by omega, hextract, List.data_toByteArray, Guid.ofBytes_bytes]

end GuidHeap

end PortablePdb
