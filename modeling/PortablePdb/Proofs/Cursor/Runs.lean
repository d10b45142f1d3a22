import PortablePdb.Proofs.Composition
import PortablePdb.Proofs.Cursor.Bounds

/-!
Whole runs of cursor operations, failures included. `Cursor.InBounds` is what every
operation keeps: the offset does not leave the buffer, and every limit lies within those
around it. It does not say that the offset is before the limit, which is not so behind a
`seek`.
-/

namespace PortablePdb

namespace Cursor

structure InBounds (c : Cursor) : Prop where
  pos_le : c.pos ≤ c.data.size
  nested : c.limits.Pairwise (· ≤ ·)
  limits_le : ∀ limit ∈ c.limits, limit ≤ c.data.size

theorem inBounds_ofBytes (data : ByteArray) : (ofBytes data).InBounds where
  pos_le := Nat.zero_le _
  nested := .nil
  limits_le := by simp [ofBytes]

variable {c : Cursor}

theorem InBounds.stop_le (h : c.InBounds) : c.stop ≤ c.data.size := by
  rw [stop]
  cases hlimits : c.limits with
  | nil => exact Nat.le_refl _
  | cons limit rest => exact h.limits_le limit (by simp [hlimits])

theorem InBounds.stop_le_of_mem (h : c.InBounds) {limit : Nat}
    (hlimit : limit ∈ c.limits) : c.stop ≤ limit := by
  rw [stop]
  cases hlimits : c.limits with
  | nil => simp [hlimits] at hlimit
  | cons innermost rest =>
      rw [hlimits] at hlimit
      rcases List.mem_cons.1 hlimit with rfl | hmem
      · exact Nat.le_refl _
      · exact List.rel_of_pairwise_cons (hlimits ▸ h.nested) hmem

theorem InBounds.moveTo (h : c.InBounds) {pos : Nat} (hpos : pos ≤ c.data.size) :
    ({ c with pos := pos } : Cursor).InBounds :=
  ⟨hpos, h.nested, h.limits_le⟩

/-- A limit that ends before the one that holds now also ends before all the others. -/
theorem InBounds.push (h : c.InBounds) {limit : Nat} (hlimit : limit ≤ c.stop) :
    ({ c with limits := limit :: c.limits } : Cursor).InBounds where
  pos_le := h.pos_le
  nested := List.pairwise_cons.2
    ⟨fun _ hmem => Nat.le_trans hlimit (h.stop_le_of_mem hmem), h.nested⟩
  limits_le := List.forall_mem_cons.2 ⟨Nat.le_trans hlimit h.stop_le, h.limits_le⟩

theorem InBounds.drop (h : c.InBounds) (n : Nat) :
    ({ c with limits := c.limits.drop n } : Cursor).InBounds where
  pos_le := h.pos_le
  nested := h.nested.drop
  limits_le limit hlimit := h.limits_le limit (List.mem_of_mem_drop hlimit)

theorem InBounds.truncate (h : c.InBounds) (depth : Nat) : (c.truncate depth).InBounds :=
  h.drop _

end Cursor

namespace Reader

variable {α β : Type} {c d : Cursor}

/-- The cursor that a reader leaves behind, whether it succeeds or not. -/
def after (r : Reader α) (c : Cursor) : Cursor :=
  match r c with
  | .ok _ d => d
  | .error _ d => d

theorem after_of_ok {r : Reader α} {a : α} (h : r c = .ok a d) : r.after c = d := by
  rw [after, h]

theorem after_of_error {r : Reader α} {e : FormatError} (h : r c = .error e d) :
    r.after c = d := by
  rw [after, h]

/-- What two readers keep, one behind the other keeps. -/
theorem rel_after_bind (R : Cursor → Cursor → Prop)
    (htrans : ∀ {c d e : Cursor}, R c d → R d e → R c e) {r : Reader α} {f : α → Reader β}
    (hr : ∀ c, R c (r.after c)) (hf : ∀ a c, R c ((f a).after c)) (c : Cursor) :
    R c ((r >>= f).after c) := by
  have hstep := hr c
  cases h : r c with
  | error e d =>
      rw [after_of_error h] at hstep
      rwa [after_of_error (bind_of_error h)]
  | ok a d =>
      rw [after_of_ok h] at hstep
      rw [after, bind_of_ok h, ← after]
      exact htrans hstep (hf a d)

/-- A body that runs has its limits taken away behind it. -/
theorem after_withLimit {n : Nat} (hn : c.pos + n ≤ c.stop) (body : Reader α) :
    (withLimit n body).after c =
      (body.after { c with limits := (c.pos + n) :: c.limits }).truncate
        c.limits.length := by
  simp only [after, withLimit, pushLimit_of_le hn]
  cases body { c with limits := (c.pos + n) :: c.limits } <;> rfl

/-! ### What every operation keeps -/

def KeepsBounds (r : Reader α) : Prop :=
  ∀ c : Cursor, c.InBounds → (after r c).data = c.data ∧ (after r c).InBounds

namespace KeepsBounds

theorem bind {r : Reader α} {f : α → Reader β} (hr : KeepsBounds r)
    (hf : ∀ a, KeepsBounds (f a)) : KeepsBounds (r >>= f) := by
  refine rel_after_bind (fun c d => c.InBounds → d.data = c.data ∧ d.InBounds)
    (fun hcd hde hc => ?_) hr hf
  obtain ⟨hdata, hd⟩ := hcd hc
  obtain ⟨hdata', he⟩ := hde hd
  exact ⟨hdata'.trans hdata, he⟩

theorem pure (a : α) : KeepsBounds (pure a) :=
  fun _ hc => ⟨rfl, hc⟩

theorem map {r : Reader α} (hr : KeepsBounds r) (f : α → β) :
    KeepsBounds (do return f (← r)) :=
  hr.bind fun _ => pure _

theorem bytes (n : Nat) : KeepsBounds (bytes n) := by
  intro c hc
  by_cases hn : c.pos + n ≤ c.stop
  · rw [after_of_ok (bytes_of_le hn)]
    exact ⟨rfl, hc.moveTo (Nat.le_trans hn hc.stop_le)⟩
  · rw [after_of_error (bytes_of_lt (Nat.not_le.1 hn))]
    exact ⟨rfl, hc⟩

theorem nullTerminated : KeepsBounds nullTerminated := by
  intro c hc
  cases h : Reader.nullTerminated c with
  | error e d =>
      rw [after_of_error h, (nullTerminated_eq_error h).1]
      exact ⟨rfl, hc⟩
  | ok text d =>
      obtain ⟨last, hlast, -, rfl⟩ := (nullTerminated_eq_ok_iff hc.stop_le).1 h
      rw [after_of_ok h]
      exact ⟨rfl, hc.moveTo (Nat.le_trans hlast.lt_stop hc.stop_le)⟩

theorem position : KeepsBounds position :=
  fun _ hc => ⟨rfl, hc⟩

theorem compositional : Compositional (fun _ => True) KeepsBounds where
  pure := pure
  throw _ _ hc := ⟨rfl, hc⟩
  bind := bind
  bytes := bytes
  nullTerminated := nullTerminated

theorem seek (offset : Nat) : KeepsBounds (seek offset) := by
  intro c hc
  by_cases hoffset : offset ≤ c.data.size
  · rw [after_of_ok (seek_of_le hoffset)]
    exact ⟨rfl, hc.moveTo hoffset⟩
  · rw [after, Reader.seek, if_neg hoffset]
    exact ⟨rfl, hc⟩

theorem pushLimit (n : Nat) : KeepsBounds (pushLimit n) := by
  intro c hc
  by_cases hn : c.pos + n ≤ c.stop
  · rw [after_of_ok (pushLimit_of_le hn)]
    exact ⟨rfl, hc.push hn⟩
  · rw [after_of_error (pushLimit_of_lt (Nat.not_le.1 hn))]
    exact ⟨rfl, hc⟩

theorem popLimit : KeepsBounds popLimit := by
  intro c hc
  refine ⟨rfl, ?_⟩
  have h := hc.drop 1
  rwa [List.drop_one] at h

/-- The limits that a body leaves behind are taken away again. -/
theorem withLimit {body : Reader α} (hbody : KeepsBounds body) (n : Nat) :
    KeepsBounds (withLimit n body) := by
  intro c hc
  by_cases hn : c.pos + n ≤ c.stop
  · obtain ⟨hdata, hd⟩ := hbody _ (hc.push hn)
    rw [after_withLimit hn]
    exact ⟨hdata, hd.truncate _⟩
  · rw [after_of_error (withLimit_of_lt (Nat.not_le.1 hn))]
    exact ⟨rfl, hc⟩

end KeepsBounds

namespace Op

mutual

/-- One case an operation; the body of a limit is a run of its own. -/
theorem keepsBounds_run : ∀ op : Op, KeepsBounds op.run
  | .seek offset => (KeepsBounds.seek offset).map _
  | .skip n => (KeepsBounds.compositional.skip n).map _
  | .pushLimit n => (KeepsBounds.pushLimit n).map _
  | .popLimit => KeepsBounds.popLimit.map _
  | .bytes n => (KeepsBounds.bytes n).map _
  | .u8 => KeepsBounds.compositional.u8.map _
  | .u16 => KeepsBounds.compositional.u16.map _
  | .u32 => KeepsBounds.compositional.u32.map _
  | .u64 => KeepsBounds.compositional.u64.map _
  | .index _ => (KeepsBounds.compositional.index trivial).map _
  | .nullTerminated => KeepsBounds.nullTerminated.map _
  | .compressed =>
    (KeepsBounds.compositional.compressed KeepsBounds.position fun _ => trivial).map _
  | .compressedSigned => (KeepsBounds.compositional.compressedSigned KeepsBounds.position
    fun _ => trivial).map _
  | .withLimit n body => ((keepsBounds_runAll body).withLimit n).map _

theorem keepsBounds_runAll : ∀ ops : List Op, KeepsBounds (runAll ops)
  | [] => KeepsBounds.pure ()
  | op :: rest => (keepsBounds_run op).bind fun _ => keepsBounds_runAll rest

end

/-! ### Runs -/

/-- The cursors that operations lead to from a cursor, whether they succeed or not. What
is done under a limit of its own may go on after failures there too. -/
inductive Reaches : Cursor → Cursor → Prop
  | refl (c : Cursor) : Reaches c c
  | step {c d : Cursor} (h : Reaches c d) (op : Op) : Reaches c (op.run.after d)
  | underLimit {c d inner e : Cursor} {n : Nat}
      (h : Reaches c d) (hpush : Reader.pushLimit n d = .ok () inner)
      (hbody : Reaches inner e) : Reaches c (e.truncate d.limits.length)

theorem Reaches.trans {c d e : Cursor} (hcd : Reaches c d) (hde : Reaches d e) :
    Reaches c e := by
  induction hde with
  | refl _ => exact hcd
  | step _ op ih => exact (ih hcd).step op
  | underLimit _ hpush hbody ih _ => exact (ih hcd).underLimit hpush hbody

/-- A limit that fits takes the cursor into the body. -/
theorem reaches_of_pushLimit {c inner : Cursor} {n : Nat}
    (h : Reader.pushLimit n c = .ok () inner) : Reaches c inner := by
  have hrun : (Op.pushLimit n).run c = .ok .nothing inner := by
    rw [Op.run, bind_of_ok h]
    rfl
  exact after_of_ok hrun ▸ (Reaches.refl c).step (.pushLimit n)

theorem Reaches.keepsBounds {c d : Cursor} (h : Reaches c d) (hc : c.InBounds) :
    d.data = c.data ∧ d.InBounds := by
  induction h with
  | refl _ => exact ⟨rfl, hc⟩
  | @step _ d _ op ih =>
      obtain ⟨hdata, hd⟩ := ih hc
      obtain ⟨hdata', hd'⟩ := keepsBounds_run op d hd
      exact ⟨hdata'.trans hdata, hd'⟩
  | @underLimit _ d inner e n _ hpush _ ih ihbody =>
      obtain ⟨hdata, hd⟩ := ih hc
      obtain ⟨hdata', hd'⟩ := KeepsBounds.pushLimit n d hd
      rw [after_of_ok hpush] at hdata' hd'
      obtain ⟨hdata'', hd''⟩ := ihbody hd'
      exact ⟨hdata''.trans (hdata'.trans hdata), hd''.truncate _⟩

end Op

/-- The cursors that an entry records: its own, and those of the operations inside it. -/
inductive Entry.Leaves : Entry → Cursor → Prop
  | after (entry : Entry) : Leaves entry entry.after
  | nested {entry inner : Entry} {c : Cursor} (hinner : inner ∈ entry.nested)
      (h : Leaves inner c) : Leaves entry c

theorem mem_of_mem_untilFailure {entry : Entry} {entries : List Entry}
    (h : entry ∈ untilFailure entries) : entry ∈ entries := by
  induction entries with
  | nil => exact h
  | cons first rest ih =>
      rw [untilFailure] at h
      split at h
      · rw [List.mem_singleton.1 h]
        exact List.mem_cons_self
      · rcases List.mem_cons.1 h with rfl | hrest
        · exact List.mem_cons_self
        · exact List.mem_cons_of_mem _ (ih hrest)

theorem Entry.after_ofResult (nested : List Entry) (r : Reader Reading) (c : Cursor) :
    (Entry.ofResult nested (r c)).after = Reader.after r c := by
  rw [Reader.after]
  cases r c <;> rfl

theorem Entry.nested_ofResult (nested : List Entry)
    (result : EStateM.Result FormatError Cursor Reading) :
    (Entry.ofResult nested result).nested = nested := by
  cases result <;> rfl

namespace Op

mutual

theorem reaches_of_nested :
    ∀ (op : Op) (c : Cursor), ∀ entry ∈ op.nested c, ∀ d, entry.Leaves d → Reaches c d
  | .withLimit n body, c => by
      intro entry hentry d hd
      rw [Op.nested] at hentry
      split at hentry
      case h_1 inner hpush =>
        have hbody :=
          reaches_of_trace body inner entry (mem_of_mem_untilFailure hentry) d hd
        exact (reaches_of_pushLimit hpush).trans hbody
      case h_2 => cases hentry
  | .seek _, _ | .skip _, _ | .pushLimit _, _ | .popLimit, _ | .bytes _, _ | .u8,
    _ | .u16, _ | .u32, _ | .u64, _
  | .index _, _ | .nullTerminated, _ | .compressed, _ | .compressedSigned, _ => nofun

/-- Every cursor of a trace is one that the operations lead to. -/
theorem reaches_of_trace :
    ∀ (ops : List Op) (c : Cursor), ∀ entry ∈ trace ops c, ∀ d, entry.Leaves d →
      Reaches c d
  | [], _ => nofun
  | op :: rest, c => by
      intro entry hentry d hd
      have hstep : Reaches c (op.run.after c) := (Reaches.refl c).step op
      rw [Op.trace, Entry.after_ofResult] at hentry
      rcases List.mem_cons.1 hentry with rfl | hrest
      · cases hd with
        | after => exact (Entry.after_ofResult _ op.run c).symm ▸ hstep
        | nested hinner hd =>
            rw [Entry.nested_ofResult] at hinner
            exact reaches_of_nested op c _ hinner d hd
      · exact hstep.trans (reaches_of_trace rest _ entry hrest d hd)

end

end Op

/-- What operations do on a cursor, said by its bytes and by the offset at which reads
end. -/
structure Guarded (c : Cursor) : Prop where
  bytes_iff (n : Nat) (read : ByteArray) (d : Cursor) : bytes n c = .ok read d ↔
    c.pos + n ≤ c.stop ∧ Cursor.slice? c.data c.pos (c.pos + n) = some read ∧
      d = c.advance n
  bytes_isOk (n : Nat) : (∃ read d, bytes n c = .ok read d) ↔ c.pos + n ≤ c.stop
  nullTerminated_iff (text : ByteArray) (d : Cursor) : nullTerminated c = .ok text d ↔
    ∃ last, Cursor.FirstZero c.data c.pos c.stop last ∧
      Cursor.slice? c.data c.pos last = some text ∧ d = { c with pos := last + 1 }
  nullTerminated_isOk : (∃ text d, nullTerminated c = .ok text d) ↔
    ∃ i, c.pos ≤ i ∧ i < c.stop ∧ c.data[i]? = some 0
  word_iff (op : Op) (width : Nat) (hop : op.width? = some width) (reading : Reading)
    (d : Cursor) : op.run c = .ok reading d ↔
      ∃ read, bytes width c = .ok read d ∧ reading = .number (leNat read.data.toList)
  unchanged (op : Op) (hop : op.isAtomic = true) (e : FormatError)
    (d : Cursor) : op.run c = .error e d → d = c
  compressed (op : Op) (hop : op = .compressed ∨ op = .compressedSigned) (e : FormatError)
    (d : Cursor) : op.run c = .error e d → d = c ∨ d = c.advance 1
  crosses (op : Op) (hop : op.isRead = true) (offset length : Nat) (d : Cursor) :
    op.run c = .error (.outOfBounds offset length) d →
      c.pos ≤ offset ∧ c.stop < offset + length

theorem guarded_of_inBounds {c : Cursor} (h : c.InBounds) : Guarded c where
  bytes_iff _ _ _ := bytes_eq_ok_iff h.stop_le
  bytes_isOk _ := bytes_isOk_iff
  nullTerminated_iff _ _ := nullTerminated_eq_ok_iff h.stop_le
  nullTerminated_isOk := nullTerminated_isOk_iff h.stop_le
  word_iff _ _ hop _ _ := Op.run_eq_ok_iff_of_width hop
  unchanged _ hop _ _ := Op.unchanged_of_isAtomic hop
  compressed _ hop _ _ hfail :=
    (readPacked_eq_error (Op.readPacked_eq_error_of_run hop hfail)).1
  crosses _ hop _ _ _ := Op.crosses_of_isRead hop

/-- From the start of a buffer no operation gets out of bounds, and on every cursor that
it gets to each one does what its bounds say. -/
theorem Op.inBounds_of_reaches (data : ByteArray) :
    (∀ ops, ∀ entry ∈ Op.trace ops (Cursor.ofBytes data), ∀ c, entry.Leaves c →
        Op.Reaches (Cursor.ofBytes data) c) ∧
      ∀ c, Op.Reaches (Cursor.ofBytes data) c → c.data = data ∧ c.InBounds ∧ Guarded c := by
  refine ⟨fun ops => Op.reaches_of_trace ops _, fun c hc => ?_⟩
  obtain ⟨hdata, hbounds⟩ := hc.keepsBounds (Cursor.inBounds_ofBytes data)
  exact ⟨hdata, hbounds, guarded_of_inBounds hbounds⟩

/-- Goes behind a limit and back before it, and reads against the limits on the way. -/
def sampleOps : List Op :=
  [.pushLimit 2, .seek 4, .bytes 1, .seek 0, .withLimit 1 [.u8, .u8], .nullTerminated,
    .popLimit, .compressed, .seek 3, .compressed, .u8]

def sampleBytes : ByteArray := [0x12, 0x34, 0x00, 0xC1, 0x07].toByteArray

theorem Op.inBounds_of_reaches_sample :
    (Op.trace sampleOps (Cursor.ofBytes sampleBytes)).map (fun entry =>
        (entry.failed, entry.after.pos, entry.after.limits)) =
      [(false, 0, [2]), (false, 4, [2]), (true, 4, [2]), (false, 0, [2]), (true, 1, [2]),
        (true, 1, [2]), (false, 1, []), (false, 2, []), (false, 3, []), (true, 4, []),
        (false, 5, [])] ∧
      ∀ entry ∈ Op.trace sampleOps (Cursor.ofBytes sampleBytes),
        entry.after.InBounds ∧ Guarded entry.after := by
  obtain ⟨htrace, hreaches⟩ := Op.inBounds_of_reaches sampleBytes
  exact ⟨by decide +kernel, fun entry hentry => (hreaches
    _ (htrace _ entry hentry _ (.after entry))).2⟩

end Reader

end PortablePdb
