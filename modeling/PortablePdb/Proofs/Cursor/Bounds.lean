import PortablePdb.Proofs.Outcome
import PortablePdb.Proofs.Placement
import PortablePdb.Reader.Script

/-!
What single operations do to a cursor. Bytes are read from a range that lies within the
buffer as well as before the limit, provided that the limit lies within the buffer. An
operation that fails leaves the cursor where it is, except for compressed integers, whose
first byte may have been read by then, and bodies under a limit of their own.
-/

namespace PortablePdb

namespace Cursor

/-- The bytes of a range that lies within the buffer. -/
def slice? (data : ByteArray) (first last : Nat) : Option ByteArray :=
  if first ≤ last ∧ last ≤ data.size then some (data.extract first last) else none

theorem slice?_of_le {data : ByteArray} {first last : Nat} (hfirst : first ≤ last)
    (hlast : last ≤ data.size) :
    slice? data first last = some (data.extract first last) :=
  if_pos ⟨hfirst, hlast⟩

theorem slice?_eq_some_iff {data bytes : ByteArray} {first last : Nat} :
    slice? data first last = some bytes ↔
      first ≤ last ∧ last ≤ data.size ∧ data.extract first last = bytes := by
  rw [slice?]
  split
  case isTrue h => simp [h]
  case isFalse h => exact iff_of_false nofun fun ⟨hfirst, hlast, _⟩ => h ⟨hfirst, hlast⟩

theorem size_of_slice? {data bytes : ByteArray} {first last : Nat}
    (h : slice? data first last = some bytes) : bytes.size = last - first := by
  obtain ⟨-, hlast, rfl⟩ := slice?_eq_some_iff.1 h
  rw [ByteArray.size_extract, Nat.min_eq_left hlast]

theorem lt_size_of_getElem? {data : ByteArray} {i : Nat} {b : UInt8}
    (h : data[i]? = some b) : i < data.size := by
  by_contra hge
  rw [getElem?_neg data i hge] at h
  cases h

/-- In a buffer without limits the bytes of a range come next where it begins. -/
theorem ahead_iff_slice? {data : ByteArray} {pos : Nat} {bs : List UInt8} :
    (⟨data, pos, []⟩ : Cursor).Ahead bs ↔
      slice? data pos (pos + bs.length) = some bs.toByteArray := by
  constructor
  · intro h
    rw [slice?_of_le (Nat.le_add_right _ _) h.within]
    exact congrArg some h.extract
  · intro h
    obtain ⟨-, hwithin, hextract⟩ := slice?_eq_some_iff.1 h
    refine ⟨hwithin, ?_⟩
    have hbytes := congrArg (fun bytes => bytes.data.toList) hextract
    simp only [ByteArray.data_extract, Array.toList_extract, List.extract_eq_take_drop,
      Nat.add_sub_cancel_left, List.data_toByteArray, List.toList_toArray] at hbytes
    exact hbytes ▸ List.take_prefix _ _

theorem ahead_singleton_iff {c : Cursor} {b : UInt8} :
    c.Ahead [b] ↔ c.pos < c.stop ∧ c.data[c.pos]? = some b := by
  constructor
  · intro h
    obtain ⟨rest, hrest⟩ := h.stored
    refine ⟨h.within, ?_⟩
    rw [getElem?_eq_toList, ← List.head?_drop, ← hrest]
    rfl
  · rintro ⟨hpos, hb⟩
    rw [getElem?_eq_toList] at hb
    obtain ⟨hlt, rfl⟩ := List.getElem?_eq_some_iff.1 hb
    exact ⟨hpos, _, (List.drop_eq_getElem_cons hlt).symm⟩

structure FirstZero (data : ByteArray) (start stop offset : Nat) : Prop where
  start_le : start ≤ offset
  lt_stop : offset < stop
  zero : data[offset]? = some 0
  nonzero_before : ∀ i, start ≤ i → i < offset → data[i]? ≠ some 0

theorem zeroFrom?_eq_some_iff {data : ByteArray} {count : Nat} :
    ∀ {start offset : Nat}, zeroFrom? data start count = some offset ↔
      FirstZero data start (start + count) offset := by
  induction count with
  | zero =>
      intro start offset
      refine ⟨nofun, fun h => ?_⟩
      have := h.start_le
      have := h.lt_stop
      omega
  | succ count ih =>
      intro start offset
      rw [zeroFrom?]
      split
      case isTrue hzero =>
        constructor
        · rintro ⟨⟩
          exact ⟨Nat.le_refl
            _, by omega, hzero, fun i hle hlt => absurd hlt (Nat.not_lt.2 hle)⟩
        · intro h
          by_contra hne
          have hlt : start < offset :=
            Nat.lt_of_le_of_ne h.start_le fun heq => hne (congrArg some heq)
          exact h.nonzero_before start (Nat.le_refl _) hlt hzero
      case isFalse hnonzero =>
        rw [ih]
        constructor
        · intro h
          refine ⟨Nat.le_of_succ_le
            h.start_le, by have := h.lt_stop; omega, h.zero, fun i hle hlt => ?_⟩
          rcases Nat.eq_or_lt_of_le hle with rfl | hbehind
          · exact hnonzero
          · exact h.nonzero_before i hbehind hlt
        · intro h
          have hne : start ≠ offset := fun heq => hnonzero (heq ▸ h.zero)
          exact ⟨Nat.lt_of_le_of_ne h.start_le hne, by have := h.lt_stop; omega, h.zero,
            fun i hle hlt => h.nonzero_before i (Nat.le_of_succ_le hle) hlt⟩

theorem exists_firstZero_iff {data : ByteArray} {start stop : Nat} :
    (∃ offset, FirstZero data start stop offset) ↔
      ∃ i, start ≤ i ∧ i < stop ∧ data[i]? = some 0 := by
  constructor
  · rintro ⟨offset, h⟩
    exact ⟨offset, h.start_le, h.lt_stop, h.zero⟩
  · intro h
    obtain ⟨hstart, hstop, hzero⟩ := Nat.find_spec h
    refine ⟨Nat.find h, hstart, hstop, hzero,
      fun i hle hlt hi => Nat.find_min h hlt ⟨hle, ?_, hi⟩⟩
    exact Nat.lt_trans hlt hstop

theorem nonzero_of_not_firstZero {data : ByteArray} {start : Nat}
    (h : ¬∃ last, FirstZero data start data.size last) :
    ∀ i, start ≤ i → data[i]? ≠ some 0 := by
  intro i hi hzero
  exact h (exists_firstZero_iff.2 ⟨i, hi, lt_size_of_getElem? hzero, hzero⟩)

end Cursor

namespace Reader

variable {α β : Type} {c d : Cursor}

/-! ### What is read -/

/-- No check against the end of the buffer can fail behind the one against the limit. -/
theorem bytes_eq_ok_iff (hc : c.stop ≤ c.data.size) {n : Nat} {read : ByteArray} :
    bytes n c = .ok read d ↔
      c.pos + n ≤ c.stop ∧ Cursor.slice? c.data c.pos (c.pos + n) = some read ∧
        d = c.advance n := by
  by_cases hn : c.pos + n ≤ c.stop
  · rw [bytes_of_le hn, Cursor.slice?_of_le (Nat.le_add_right _ _) (Nat.le_trans hn hc)]
    simp [hn, Cursor.advance, eq_comm]
  · rw [bytes_of_lt (Nat.not_le.1 hn)]
    simp [hn]

theorem bytes_isOk_iff {n : Nat} :
    (∃ read d, bytes n c = .ok read d) ↔ c.pos + n ≤ c.stop := by
  constructor
  · rintro ⟨read, d, h⟩
    by_contra hn
    rw [bytes_of_lt (Nat.not_le.1 hn)] at h
    cases h
  · intro hn
    exact ⟨_, _, bytes_of_le hn⟩

/-- The text ends at the first zero before the limit. -/
theorem nullTerminated_eq_ok_iff (hc : c.stop ≤ c.data.size) {text : ByteArray} :
    nullTerminated c = .ok text d ↔ ∃ last, Cursor.FirstZero c.data c.pos c.stop last ∧
      Cursor.slice? c.data c.pos last = some text ∧ d = { c with pos := last + 1 } := by
  by_cases hpos : c.pos ≤ c.stop
  · have hstop : c.pos + c.remaining = c.stop := by
      rw [Cursor.remaining]
      omega
    rw [nullTerminated, if_pos hpos]
    cases hfound : Cursor.zeroFrom? c.data c.pos c.remaining with
    | none =>
        constructor
        · intro h
          cases h
        · rintro ⟨last, hlast, -⟩
          rw [← hstop, ← Cursor.zeroFrom?_eq_some_iff, hfound] at hlast
          cases hlast
    | some last =>
        have hlast := Cursor.zeroFrom?_eq_some_iff.1 hfound
        rw [hstop] at hlast
        have hslice := Cursor.slice?_of_le hlast.start_le
          (Nat.le_trans (Nat.le_of_lt hlast.lt_stop) hc)
        constructor
        · rintro ⟨⟩
          exact ⟨last, hlast, hslice, rfl⟩
        · rintro ⟨other, hother, htext, rfl⟩
          rw [← hstop, ← Cursor.zeroFrom?_eq_some_iff, hfound] at hother
          obtain rfl := Option.some.inj hother
          obtain rfl := Option.some.inj (hslice.symm.trans htext)
          rfl
  · rw [nullTerminated, if_neg hpos]
    constructor
    · intro h
      cases h
    · rintro ⟨last, hlast, -⟩
      have := hlast.start_le
      have := hlast.lt_stop
      omega

theorem nullTerminated_of_firstZero (hc : c.stop ≤ c.data.size) {last : Nat}
    (h : Cursor.FirstZero c.data c.pos c.stop last) :
    nullTerminated c = .ok (c.data.extract c.pos last) { c with pos := last + 1 } :=
  (nullTerminated_eq_ok_iff hc).2 ⟨last, h,
    Cursor.slice?_of_le h.start_le (Nat.le_trans (Nat.le_of_lt h.lt_stop) hc), rfl⟩

/-- Without a zero one byte more than there are is missing. -/
theorem nullTerminated_of_nonzero (hpos : c.pos ≤ c.stop)
    (h : ∀ i, c.pos ≤ i → i < c.stop → c.data[i]? ≠ some 0) :
    nullTerminated c = .error (.outOfBounds c.pos (c.remaining + 1)) c := by
  have hnone : Cursor.zeroFrom? c.data c.pos c.remaining = none := by
    rw [Option.eq_none_iff_forall_ne_some]
    intro last hlast
    have hfound := Cursor.zeroFrom?_eq_some_iff.1 hlast
    rw [Cursor.remaining, Nat.add_sub_cancel' hpos] at hfound
    exact h last hfound.start_le hfound.lt_stop hfound.zero
  rw [nullTerminated, if_pos hpos, hnone]

theorem nullTerminated_isOk_iff (hc : c.stop ≤ c.data.size) :
    (∃ text d, nullTerminated c = .ok text d) ↔
      ∃ i, c.pos ≤ i ∧ i < c.stop ∧ c.data[i]? = some 0 := by
  rw [← Cursor.exists_firstZero_iff]
  constructor
  · rintro ⟨text, d, h⟩
    obtain ⟨last, hlast, -⟩ := (nullTerminated_eq_ok_iff hc).1 h
    exact ⟨last, hlast⟩
  · rintro ⟨last, hlast⟩
    have hslice :=
      Cursor.slice?_of_le hlast.start_le (Nat.le_trans (Nat.le_of_lt hlast.lt_stop) hc)
    exact ⟨_, _, (nullTerminated_eq_ok_iff hc).2 ⟨last, hlast, hslice, rfl⟩⟩

/-! ### Words -/

theorem return_eq_ok_iff {r : Reader α} {f : α → β} {b : β} :
    (do return f (← r)) c = .ok b d ↔ ∃ a, r c = .ok a d ∧ f a = b := by
  rw [Outcome.run_bind_eq_ok_iff]
  simp [Outcome.run_pure_eq_ok_iff]

theorem return_eq_error_iff {r : Reader α} {f : α → β} {e : FormatError} :
    (do return f (← r)) c = .error e d ↔ r c = .error e d := by
  rw [Outcome.run_bind_eq_error_iff]
  simp [pure, EStateM.pure]

/-- How many bytes an operation reads that always reads the same number and answers the
number in them. -/
def Op.width? : Op → Option Nat
  | .u8 => some 1
  | .u16 => some 2
  | .u32 => some 4
  | .u64 => some 8
  | .index width => if width = 2 ∨ width = 4 then some width else none
  | _ => none

/-- A word is not changed by what it is stored in, as long as that is wide enough. -/
theorem number_of_bytes_iff (width : Nat) (stored : Nat → Nat)
    (hstored : ∀ n < 256 ^ width, stored n = n) {reading : Reading} :
    (∃ read, bytes width c = .ok read d ∧
      Reading.number (stored (leNat read.data.toList)) = reading) ↔ ∃ read,
      bytes width c = .ok read d ∧ reading = .number (leNat read.data.toList) := by
  refine exists_congr fun read => and_congr_right fun h => ?_
  rw [bytes_of_le (bytes_isOk_iff.1 ⟨read, d, h⟩)] at h
  cases h
  have hword := hstored _ (wordAt_lt c.data c.pos width)
  rw [wordAt] at hword
  rw [hword, eq_comm]

/-- A word is the number in its bytes, lowest byte first. -/
theorem Op.run_eq_ok_iff_of_width {op : Op} {width : Nat} (hop : op.width? = some width)
    {reading : Reading} :
    op.run c = .ok reading d ↔ ∃ read,
      Reader.bytes width c = .ok read d ∧ reading = .number (leNat read.data.toList) := by
  cases op with
  | u8 =>
      cases hop
      simp only [Op.run, Reader.u8, word, return_eq_ok_iff, exists_exists_and_eq_and]
      exact number_of_bytes_iff 1 (fun n => n.toUInt8.toNat) fun n hn =>
        UInt8.toNat_ofNat_of_lt' hn
  | u16 =>
      cases hop
      simp only [Op.run, Reader.u16, word, return_eq_ok_iff, exists_exists_and_eq_and]
      exact number_of_bytes_iff 2 (fun n => n.toUInt16.toNat) fun n hn =>
        UInt16.toNat_ofNat_of_lt' hn
  | u32 =>
      cases hop
      simp only [Op.run, Reader.u32, word, return_eq_ok_iff, exists_exists_and_eq_and]
      exact number_of_bytes_iff 4 (fun n => n.toUInt32.toNat) fun n hn =>
        UInt32.toNat_ofNat_of_lt' hn
  | u64 =>
      cases hop
      simp only [Op.run, Reader.u64, word, return_eq_ok_iff, exists_exists_and_eq_and]
      exact number_of_bytes_iff 8 (fun n => n.toUInt64.toNat) fun n hn =>
        UInt64.toNat_ofNat_of_lt' hn
  | index given =>
      rw [Op.width?] at hop
      split at hop
      case isFalse => cases hop
      case isTrue hwidth =>
        cases hop
        rcases hwidth with rfl | rfl
        · simp only [Op.run, Reader.index, Reader.u16, word, return_eq_ok_iff,
            exists_exists_and_eq_and, UInt16.toNat_toUInt32]
          exact number_of_bytes_iff 2 (fun n => n.toUInt16.toNat) fun n hn =>
            UInt16.toNat_ofNat_of_lt' hn
        · simp only [Op.run, Reader.index, Reader.u32, word, return_eq_ok_iff,
            exists_exists_and_eq_and]
          exact number_of_bytes_iff 4 (fun n => n.toUInt32.toNat) fun n hn =>
            UInt32.toNat_ofNat_of_lt' hn
  | _ => cases hop

/-! ### Failures -/

/-- A reader that fails reads nothing. It runs out of bounds only where the bytes that it
wants do not end before the limit. -/
structure Atomic (r : Reader α) : Prop where
  unchanged {c d : Cursor} {e : FormatError} (h : r c = .error e d) : d = c
  crosses {c d : Cursor} {offset length : Nat}
    (h : r c = .error (.outOfBounds offset length) d) :
    c.pos ≤ offset ∧ c.stop < offset + length

theorem Atomic.map {r : Reader α} (hr : Atomic r) (f : α → β) :
    Atomic (do return f (← r)) where
  unchanged h := hr.unchanged (return_eq_error_iff.1 h)
  crosses h := hr.crosses (return_eq_error_iff.1 h)

theorem bytes_eq_error_iff {n : Nat} {e : FormatError} :
    bytes n c = .error e d ↔ c.stop < c.pos + n ∧ e = .outOfBounds c.pos n ∧ d = c := by
  by_cases hn : c.pos + n ≤ c.stop
  · simp [bytes_of_le hn, Nat.not_lt.2 hn]
  · rw [bytes_of_lt (Nat.not_le.1 hn)]
    simp [Nat.not_le.1 hn, eq_comm]

theorem Atomic.bytes (n : Nat) : Atomic (bytes n) where
  unchanged h := (bytes_eq_error_iff.1 h).2.2
  crosses h := by
    obtain ⟨hcross, herror, -⟩ := bytes_eq_error_iff.1 h
    cases herror
    exact ⟨Nat.le_refl _, hcross⟩

theorem nullTerminated_eq_error {e : FormatError} (h : nullTerminated c = .error e d) :
    d = c ∧ ∃ length, e = .outOfBounds c.pos length ∧ c.stop < c.pos + length := by
  rw [nullTerminated] at h
  split at h
  case isFalse hpos =>
    cases h
    exact ⟨rfl, 1, rfl, by omega⟩
  case isTrue hpos =>
    split at h
    case h_1 => cases h
    case h_2 =>
      cases h
      refine ⟨rfl, _, rfl, ?_⟩
      rw [Cursor.remaining]
      omega

theorem Atomic.nullTerminated : Atomic nullTerminated where
  unchanged h := (nullTerminated_eq_error h).1
  crosses h := by
    obtain ⟨-, length, herror, hcross⟩ := nullTerminated_eq_error h
    cases herror
    exact ⟨Nat.le_refl _, hcross⟩

theorem Atomic.pushLimit (n : Nat) : Atomic (pushLimit n) := by
  have hfails {c d : Cursor} {e : FormatError} (h : Reader.pushLimit n c = .error e d) :
      d = c ∧ e = .outOfBounds c.pos n ∧ c.stop < c.pos + n := by
    by_cases hn : c.pos + n ≤ c.stop
    · rw [pushLimit_of_le hn] at h
      cases h
    · rw [pushLimit_of_lt (Nat.not_le.1 hn)] at h
      cases h
      exact ⟨rfl, rfl, Nat.not_le.1 hn⟩
  refine ⟨fun h => (hfails h).1, fun h => ?_⟩
  obtain ⟨-, herror, hcross⟩ := hfails h
  cases herror
  exact ⟨Nat.le_refl _, hcross⟩

theorem Atomic.index (width : Nat) : Atomic (index width) := by
  unfold Reader.index
  split
  · exact (((Atomic.bytes 2).map _).map _).map _
  · exact ((Atomic.bytes 4).map _).map _
  · exact ⟨by rintro c d e ⟨⟩; rfl, by rintro c d offset length ⟨⟩⟩

/-- A compressed integer that cannot be read keeps the cursor or takes its first byte. -/
theorem readPacked_eq_error {e : FormatError}
    (h : CompressedInt.readPacked c = .error e d) :
    (d = c ∨ d = c.advance 1) ∧ ∀ offset length, e = .outOfBounds offset length →
      c.pos ≤ offset ∧ c.stop < offset + length := by
  have hbyte : Atomic u8 := ((Atomic.bytes 1).map _).map _
  obtain ⟨start, c₀, hstart, h⟩ := (Outcome.run_bind_eq_error_iff.1 h).resolve_left nofun
  obtain ⟨-, rfl⟩ : _ ∧ c = c₀ := EStateM.Result.ok.inj hstart
  rcases Outcome.run_bind_eq_error_iff.1 h with h | ⟨first, c₁, hfirst, h⟩
  · refine ⟨.inl (hbyte.unchanged h), ?_⟩
    rintro offset length rfl
    exact hbyte.crosses h
  · obtain rfl : c₁ = c.advance 1 := by
      simp only [u8, word, return_eq_ok_iff, exists_exists_and_eq_and] at hfirst
      obtain ⟨read, hread, -⟩ := hfirst
      rw [bytes_of_le (bytes_isOk_iff.1 ⟨read, c₁, hread⟩)] at hread
      cases hread
      rfl
    -- Whatever comes behind the first byte is read at once.
    have hbehind {α β : Type} {r : Reader α} {f : α → β} (hr : Atomic r)
        (h : (do return f (← r)) (c.advance 1) = .error e d) : (d = c ∨ d = c.advance 1) ∧
          ∀ offset length, e = .outOfBounds offset length →
            c.pos ≤ offset ∧ c.stop < offset + length := by
      refine ⟨.inr ((hr.map f).unchanged h), ?_⟩
      rintro offset length rfl
      obtain ⟨hle, hcross⟩ := (hr.map f).crosses h
      exact ⟨Nat.le_of_succ_le hle, hcross⟩
    split at h
    · cases h
    · split at h
      · exact hbehind hbyte h
      · split at h
        · exact hbehind (Atomic.bytes 3) h
        · cases h
          exact ⟨.inr rfl, nofun⟩

def Op.isAtomic : Op → Bool
  | .compressed => false
  | .compressedSigned => false
  | .withLimit _ _ => false
  | _ => true

def Op.isRead : Op → Bool
  | .seek _ => false
  | .pushLimit _ => false
  | .popLimit => false
  | .withLimit _ _ => false
  | _ => true

theorem Op.atomic_of_isRead {op : Op} (hread : op.isRead = true)
    (hatomic : op.isAtomic = true) : Atomic op.run := by
  cases op with
  | skip n =>
      simp only [Op.run, Reader.skip, bind_assoc, pure_bind]
      exact (Atomic.bytes n).map fun _ => Reading.nothing
  | bytes n => exact (Atomic.bytes n).map _
  | u8 => exact (((Atomic.bytes 1).map _).map _).map _
  | u16 => exact (((Atomic.bytes 2).map _).map _).map _
  | u32 => exact (((Atomic.bytes 4).map _).map _).map _
  | u64 => exact (((Atomic.bytes 8).map _).map _).map _
  | index width => exact (Atomic.index width).map _
  | nullTerminated => exact Atomic.nullTerminated.map _
  | seek _ | pushLimit _ | popLimit => cases hread
  | compressed | compressedSigned | withLimit _ _ => cases hatomic

theorem Op.unchanged_of_isAtomic {op : Op} (hatomic : op.isAtomic = true) {e : FormatError}
    (h : op.run c = .error e d) : d = c := by
  cases hread : op.isRead with
  | true => exact (Op.atomic_of_isRead hread hatomic).unchanged h
  | false =>
      cases op with
      | seek offset =>
          rw [Op.run, return_eq_error_iff, Reader.seek] at h
          split at h
          · cases h
          · cases h
            rfl
      | pushLimit n => exact ((Atomic.pushLimit n).map fun _ => Reading.nothing).unchanged h
      | popLimit => cases h
      | withLimit _ _ => cases hatomic
      | skip _ | bytes _ | u8 | u16 | u32 | u64 | index _ | nullTerminated | compressed
      | compressedSigned =>
          cases hread

theorem Op.readPacked_eq_error_of_run {op : Op}
    (hop : op = .compressed ∨ op = .compressedSigned) {e : FormatError}
    (h : op.run c = .error e d) : CompressedInt.readPacked c = .error e d := by
  rcases hop with rfl | rfl
  · simp only [Op.run, CompressedInt.read, return_eq_error_iff] at h
    exact h
  · simp only [Op.run, CompressedInt.readSigned, return_eq_error_iff] at h
    exact h

/-- A read that runs out of bounds names bytes that do not end before the limit. -/
theorem Op.crosses_of_isRead {op : Op} (hread : op.isRead = true) {offset length : Nat}
    (h : op.run c = .error (.outOfBounds offset length) d) :
    c.pos ≤ offset ∧ c.stop < offset + length := by
  cases hatomic : op.isAtomic with
  | true => exact (Op.atomic_of_isRead hread hatomic).crosses h
  | false =>
      have hop : op = .compressed ∨ op = .compressedSigned := by
        cases op <;> simp_all [Op.isRead, Op.isAtomic]
      exact (readPacked_eq_error (Op.readPacked_eq_error_of_run hop h)).2 offset length rfl

end Reader

end PortablePdb
