import PortablePdb.Proofs.CompressedAcceptance
import PortablePdb.Proofs.Cursor.Runs

/-!
Limits that are put back. The limits of a cursor are a stack, and a body that runs under a
limit of its own gets the whole of it: it may push without popping, and it may pop the
limit that it runs under. As long as it leaves the limits below alone, these are a suffix
of whatever it makes of the stack, and to put them back is to cut the stack to its old
depth.
-/

namespace PortablePdb

theorem Cursor.truncate_of_suffix {c : Cursor} {base : List Nat} (h : base <:+ c.limits) :
    c.truncate base.length = { c with limits := base } := by
  rw [truncate, ← List.suffix_iff_eq_drop.1 h]

/-- A cut that leaves enough limits leaves the ones at the bottom. -/
theorem Cursor.suffix_truncate {c : Cursor} {base : List Nat}
    (h : base <:+ c.limits) {depth : Nat}
    (hdepth : base.length ≤ depth) : base <:+ (c.truncate depth).limits := by
  refine List.suffix_of_suffix_length_le h (List.drop_suffix _ _) ?_
  rw [truncate, List.length_drop]
  have := h.length_le
  omega

namespace Reader

variable {α β : Type} {c d inner : Cursor} {depth : Nat}

theorem pushLimit_eq_ok_iff {n : Nat} :
    pushLimit n c = .ok () inner ↔
      c.pos + n ≤ c.stop ∧ inner = { c with limits := (c.pos + n) :: c.limits } := by
  by_cases hn : c.pos + n ≤ c.stop
  · simp [pushLimit_of_le hn, hn, eq_comm]
  · simp [pushLimit_of_lt (Nat.not_le.1 hn), hn]

/-! ### One operation -/

theorem after_return (r : Reader α) (f : α → β) (c : Cursor) :
    (do return f (← r) : Reader β).after c = r.after c := by
  cases h : r c with
  | ok a d => rw [after_of_ok h, after_of_ok (return_eq_ok_iff.2 ⟨a, h, rfl⟩)]
  | error e d => rw [after_of_error h, after_of_error (return_eq_error_iff.2 h)]

def KeepsLimits (r : Reader α) : Prop :=
  ∀ c : Cursor, (r.after c).limits = c.limits

namespace KeepsLimits

theorem bind {r : Reader α} {f : α → Reader β} (hr : KeepsLimits r)
    (hf : ∀ a, KeepsLimits (f a)) : KeepsLimits (r >>= f) :=
  rel_after_bind (fun c d => d.limits = c.limits) (fun hcd hde => hde.trans hcd) hr hf

theorem pure (a : α) : KeepsLimits (pure a) :=
  fun _ => rfl

theorem map {r : Reader α} (hr : KeepsLimits r) (f : α → β) :
    KeepsLimits (do return f (← r)) :=
  hr.bind fun _ => pure _

theorem bytes (n : Nat) : KeepsLimits (bytes n) := by
  intro c
  by_cases hn : c.pos + n ≤ c.stop
  · rw [after_of_ok (bytes_of_le hn)]
  · rw [after_of_error (bytes_of_lt (Nat.not_le.1 hn))]

theorem nullTerminated : KeepsLimits nullTerminated := by
  intro c
  simp only [after, Reader.nullTerminated]
  by_cases hpos : c.pos ≤ c.stop
  · rw [if_pos hpos]
    cases Cursor.zeroFrom? c.data c.pos c.remaining <;> rfl
  · rw [if_neg hpos]

theorem seek (offset : Nat) : KeepsLimits (seek offset) := by
  intro c
  simp only [after, Reader.seek]
  by_cases hoffset : offset ≤ c.data.size
  · rw [if_pos hoffset]
  · rw [if_neg hoffset]

theorem compositional : Compositional (fun _ => True) KeepsLimits where
  pure := pure
  throw _ _ := rfl
  bind := bind
  bytes := bytes
  nullTerminated := nullTerminated

end KeepsLimits

def Op.isFlat : Op → Bool
  | .withLimit _ _ => false
  | _ => true

/-- One operation leaves the stack as it is, or puts one limit on it or takes one from
it. -/
theorem Op.limits_after {op : Op} (hflat : op.isFlat = true) (c : Cursor) :
    (op.run.after c).limits = c.limits ∨
      (∃ limit, (op.run.after c).limits = limit :: c.limits) ∨
      (op.run.after c).limits = c.limits.tail := by
  have hcompressed : KeepsLimits position := fun _ => rfl
  cases op with
  | pushLimit n =>
      have hrun : (pushLimit n).run.after c = (Reader.pushLimit n).after c :=
        after_return _ _ c
      rw [hrun]
      by_cases hn : c.pos + n ≤ c.stop
      · rw [after_of_ok (pushLimit_of_le hn)]
        exact .inr (.inl ⟨_, rfl⟩)
      · rw [after_of_error (pushLimit_of_lt (Nat.not_le.1 hn))]
        exact .inl rfl
  | popLimit => exact .inr (.inr rfl)
  | seek offset => exact .inl ((KeepsLimits.seek offset).map _ c)
  | skip n => exact .inl ((KeepsLimits.compositional.skip n).map _ c)
  | bytes n => exact .inl ((KeepsLimits.bytes n).map _ c)
  | u8 => exact .inl (KeepsLimits.compositional.u8.map _ c)
  | u16 => exact .inl (KeepsLimits.compositional.u16.map _ c)
  | u32 => exact .inl (KeepsLimits.compositional.u32.map _ c)
  | u64 => exact .inl (KeepsLimits.compositional.u64.map _ c)
  | index _ => exact .inl ((KeepsLimits.compositional.index trivial).map _ c)
  | nullTerminated => exact .inl (KeepsLimits.nullTerminated.map _ c)
  | compressed =>
      exact .inl
        ((KeepsLimits.compositional.compressed hcompressed fun _ => trivial).map _ c)
  | compressedSigned =>
      exact .inl
        ((KeepsLimits.compositional.compressedSigned hcompressed fun _ => trivial).map _ c)
  | withLimit _ _ => cases hflat

/-! ### Runs above a depth -/

namespace Op

/-- The operations lead from one cursor to the other, and there are never fewer limits
than `depth` on the way, also not under limits of their own. -/
inductive StaysAbove (depth : Nat) : Cursor → Cursor → Prop
  | refl {c : Cursor} (habove : depth ≤ c.limits.length) : StaysAbove depth c c
  | step {c d : Cursor} (h : StaysAbove depth c d) {op : Op} (hflat : op.isFlat = true)
      (habove : depth ≤ (op.run.after d).limits.length) :
      StaysAbove depth c (op.run.after d)
  | underLimit {c d inner e : Cursor} {n : Nat} (h : StaysAbove depth c d)
      (hpush : Reader.pushLimit n d = .ok () inner) (hbody : StaysAbove depth inner e) :
      StaysAbove depth c (e.truncate d.limits.length)

namespace StaysAbove

theorem trans {c d e : Cursor} (hcd : StaysAbove depth c d) (hde : StaysAbove depth d e) :
    StaysAbove depth c e := by
  induction hde with
  | refl _ => exact hcd
  | step _ hflat habove ih => exact (ih hcd).step hflat habove
  | underLimit _ hpush hbody ih _ => exact (ih hcd).underLimit hpush hbody

theorem reaches {c d : Cursor} (h : StaysAbove depth c d) : Reaches c d := by
  induction h with
  | refl _ => exact .refl _
  | step _ _ _ ih => exact ih.step _
  | underLimit _ hpush _ ih ihbody => exact ih.underLimit hpush ihbody

theorem depth_le {c d : Cursor} (h : StaysAbove depth c d) : depth ≤ d.limits.length := by
  induction h with
  | refl habove => exact habove
  | step _ _ habove _ => exact habove
  | underLimit _ _ _ ih ihbody =>
      rw [Cursor.truncate, List.length_drop]
      omega

/-- What lies below the depth is not touched. -/
theorem suffix {base : List Nat} {c d : Cursor} (h : StaysAbove base.length c d)
    (hbase : base <:+ c.limits) : base <:+ d.limits := by
  induction h with
  | refl _ => exact hbase
  | @step _ d _ op hflat habove ih =>
      have hd := ih hbase
      obtain heq | ⟨limit, heq⟩ | heq := limits_after hflat d
      · rwa [heq]
      · rw [heq]
        exact hd.trans (List.suffix_cons _ _)
      · -- A limit was taken from the stack. It is none of those below, or the stack would
        -- not be deep enough now.
        rw [heq] at habove ⊢
        exact List.suffix_of_suffix_length_le hd (List.tail_suffix _) habove
  | @underLimit _ d inner e n _ hpush _ ih ihbody =>
      have hd := ih hbase
      obtain ⟨-, rfl⟩ := pushLimit_eq_ok_iff.1 hpush
      exact Cursor.suffix_truncate (ihbody (hd.trans (List.suffix_cons _ _))) hd.length_le

end StaysAbove

end Op

mutual

def Entry.isAbove (depth : Nat) : Entry → Bool
  | ⟨_, after, nested⟩ => decide (depth ≤ after.limits.length) && allAbove depth nested

def allAbove (depth : Nat) : List Entry → Bool
  | [] => true
  | entry :: rest => entry.isAbove depth && allAbove depth rest

end

theorem Entry.isAbove_ofResult {nested : List Entry} {r : Reader Reading} :
    (Entry.ofResult nested (r c)).isAbove depth = true ↔
      depth ≤ (r.after c).limits.length ∧ allAbove depth nested = true := by
  rw [Reader.after]
  cases r c <;> simp [ofResult, isAbove]

namespace Op

mutual

/-- A run that records enough limits everywhere has enough of them everywhere. -/
theorem staysAbove_run :
    ∀ (op : Op) (c : Cursor), depth ≤ c.limits.length →
      allAbove depth (op.nested c) = true →
      depth ≤ (op.run.after c).limits.length → StaysAbove depth c (op.run.after c)
  | .withLimit n body, c, hc, hnested, _ => by
      rw [run, after_return]
      by_cases hn : c.pos + n ≤ c.stop
      · rw [nested, pushLimit_of_le hn] at hnested
        rw [after_withLimit hn]
        refine (StaysAbove.refl hc).underLimit (pushLimit_of_le hn)
          (staysAbove_runAll body _ ?_ hnested)
        exact Nat.le_succ_of_le hc
      · rw [after_of_error (withLimit_of_lt (Nat.not_le.1 hn))]
        exact .refl hc
  | .seek _, _, hc, _, habove | .skip _, _, hc, _, habove | .pushLimit _, _, hc, _, habove
  | .popLimit, _, hc, _, habove
  | .bytes _, _, hc, _, habove | .u8, _, hc, _, habove | .u16, _, hc, _, habove
  | .u32, _, hc, _, habove
  | .u64, _, hc, _, habove | .index _, _, hc, _, habove | .nullTerminated, _, hc, _, habove
  | .compressed, _, hc, _, habove | .compressedSigned, _, hc, _, habove =>
    (StaysAbove.refl hc).step rfl habove

theorem staysAbove_runAll :
    ∀ (ops : List Op) (c : Cursor), depth ≤ c.limits.length →
      allAbove depth (untilFailure (trace ops c)) = true →
      StaysAbove depth c ((runAll ops).after c)
  | [], _, hc, _ => .refl hc
  | op :: rest, c, hc, hops => by
      have hentry : (Entry.ofResult (op.nested c) (op.run c)).isAbove depth = true := by
        rw [trace, untilFailure] at hops
        split at hops <;> simp_all [allAbove]
      obtain ⟨habove, hnested⟩ := Entry.isAbove_ofResult.1 hentry
      have hop := staysAbove_run op c hc hnested habove
      -- Behind a failure nothing is run, and nothing of the trace is looked at.
      cases h : op.run c with
      | error e d =>
          rw [after_of_error h] at hop
          rwa [runAll, after_of_error (bind_of_error h)]
      | ok reading d =>
          rw [after_of_ok h] at hop
          have hrest : allAbove depth (untilFailure (trace rest d)) = true := by
            rw [trace, untilFailure, h] at hops
            exact (Bool.and_eq_true _ _ ▸ hops).2
          rw [runAll, after, bind_of_ok h, ← after]
          exact hop.trans (staysAbove_runAll rest d hop.depth_le hrest)

end

end Op

/-! ### Reads under a limit -/

def Fails (r : Reader α) (c : Cursor) : Prop :=
  ∃ e d, r c = .error e d

theorem Fails.bind {r : Reader α} (h : Fails r c) (f : α → Reader β) :
    Fails (r >>= f) c := by
  obtain ⟨e, d, h⟩ := h
  exact ⟨e, d, bind_of_error h⟩

/-- Behind the limit nothing is read, not even no bytes. -/
theorem Op.fails_of_lt {op : Op} (hread : op.isRead = true) (hpos : c.stop < c.pos) :
    Fails op.run c := by
  have hbytes (n : Nat) : Fails (Reader.bytes n) c :=
    ⟨_, _, bytes_of_lt (Nat.lt_add_right n hpos)⟩
  have hpacked : Fails CompressedInt.readPacked c :=
    ⟨_, _, CompressedInt.readPacked_of_stop_le (Nat.le_of_lt hpos)⟩
  cases op with
  | skip n => exact ((hbytes n).bind _).bind _
  | bytes n => exact (hbytes n).bind _
  | u8 => exact (((hbytes 1).bind _).bind _).bind _
  | u16 => exact (((hbytes 2).bind _).bind _).bind _
  | u32 => exact (((hbytes 4).bind _).bind _).bind _
  | u64 => exact (((hbytes 8).bind _).bind _).bind _
  | index width =>
      refine Fails.bind ?_ _
      unfold Reader.index
      split
      · exact (((hbytes 2).bind _).bind _).bind _
      · exact ((hbytes 4).bind _).bind _
      · exact ⟨_, _, rfl⟩
  | nullTerminated => exact Fails.bind ⟨_, _, if_neg (Nat.not_le.2 hpos)⟩ _
  | compressed => exact (hpacked.bind _).bind _
  | compressedSigned => exact (hpacked.bind _).bind _
  | seek _ | pushLimit _ | popLimit | withLimit _ _ => cases hread

theorem Exact.readPacked : Exact CompressedInt.readPacked := by
  intro c d packed hc h
  obtain ⟨hraw, hahead, -⟩ := CompressedInt.ahead_of_readPacked hc h
  exact ⟨_, hahead, CompressedInt.Packing.consumes_readPacked hraw⟩

/-- Whatever is read was read from the bytes that came next, and would be read from them
anywhere. -/
theorem Op.exact_run {op : Op} (hread : op.isRead = true) : Exact op.run := by
  cases op with
  | skip n => exact (compositional_exact.skip n).map _
  | bytes n => exact (Exact.bytes n).map _
  | u8 => exact compositional_exact.u8.map _
  | u16 => exact compositional_exact.u16.map _
  | u32 => exact compositional_exact.u32.map _
  | u64 => exact compositional_exact.u64.map _
  | index _ => exact (compositional_exact.index trivial).map _
  | nullTerminated => exact Exact.nullTerminated.map _
  | compressed => exact (Exact.readPacked.map _).map _
  | compressedSigned => exact (Exact.readPacked.map _).map _
  | seek _ | pushLimit _ | popLimit | withLimit _ _ => cases hread

/-- An answer in bytes starts where the cursor is, and ends no later than what was
read. -/
theorem Op.slice?_of_run {op : Op} (hc : c.stop ≤ c.data.size) {read : ByteArray}
    (h : op.run c = .ok (.bytes read) d) :
    ∃ last ≤ d.pos, Cursor.slice? c.data c.pos last = some read := by
  cases op with
  | bytes n =>
      obtain ⟨_, hread, ⟨⟩⟩ := return_eq_ok_iff.1 h
      obtain ⟨-, hslice, rfl⟩ := (bytes_eq_ok_iff hc).1 hread
      exact ⟨_, Nat.le_refl _, hslice⟩
  | nullTerminated =>
      obtain ⟨_, hread, ⟨⟩⟩ := return_eq_ok_iff.1 h
      obtain ⟨last, -, hslice, rfl⟩ := (nullTerminated_eq_ok_iff hc).1 hread
      exact ⟨last, Nat.le_succ last, hslice⟩
  | seek _ | skip _ | pushLimit _ | popLimit | u8 | u16 | u32 | u64 | index _ | compressed
  | compressedSigned
  | withLimit _ _ =>
      obtain ⟨_, -, ⟨⟩⟩ := return_eq_ok_iff.1 h

/-- What an operation answered was read from bytes before `stop`, and depends on no
others. -/
def Op.ReadsBelow (stop : Nat) (op : Op) (reading : Reading) (c d : Cursor) : Prop :=
  ∃ bs, c.Ahead bs ∧ Consumes op.run bs reading ∧ d = c.advance bs.length ∧
    c.pos + bs.length ≤ stop ∧ ∀ read, reading = .bytes read →
      ∃ last ≤ stop, Cursor.slice? c.data c.pos last = some read

theorem Op.readsBelow_of_run {op : Op} (hc : c.InBounds) (hread : op.isRead = true)
    {reading : Reading}
    (h : op.run c = .ok reading d) : op.ReadsBelow c.stop reading c d := by
  have hpos : c.pos ≤ c.stop := by
    by_contra hlt
    obtain ⟨e, d', herror⟩ := Op.fails_of_lt hread (Nat.not_le.1 hlt)
    rw [herror] at h
    cases h
  obtain ⟨bs, hahead, hconsumes⟩ := Op.exact_run hread ⟨hpos, hc.stop_le⟩ h
  obtain ⟨-, rfl⟩ := hconsumes.eq_of_ok hahead h
  refine ⟨bs, hahead, hconsumes, rfl, hahead.within, ?_⟩
  rintro read rfl
  obtain ⟨last, hlast, hslice⟩ := Op.slice?_of_run hc.stop_le h
  exact ⟨last, Nat.le_trans hlast hahead.within, hslice⟩

/-! ### The body of a limit -/

/-- The outcome is that of the body, with the limits from before. -/
structure Restores (n : Nat) (body : Reader α) (c inner : Cursor) : Prop where
  ok (a : α) (d : Cursor) : body inner = .ok a d →
    withLimit n body c = .ok a { d with limits := c.limits }
  error (e : FormatError) (d : Cursor) :
    body inner = .error e d → withLimit n body c = .error e { d with limits := c.limits }

theorem restores_of_suffix {n : Nat}
    (hpush : pushLimit n c = .ok () inner) {body : Reader α}
    (hbody : c.limits <:+ (body.after inner).limits) : Restores n body c inner where
  ok a d h := by
    rw [after_of_ok h] at hbody
    simp only [withLimit, hpush, h, Cursor.truncate_of_suffix hbody]
  error e d h := by
    rw [after_of_error h] at hbody
    simp only [withLimit, hpush, h, Cursor.truncate_of_suffix hbody]

theorem after_ofExcept (x : Except FormatError α) (c : Cursor) :
    (MonadExcept.ofExcept x : Reader α).after c = c := by
  cases x <;> rfl

/-- An end of its own does not move the cursor of a script. -/
theorem after_runAll_ofExcept (ops : List Op) (ending : Except FormatError α) (c : Cursor) :
    (do Op.runAll ops; MonadExcept.ofExcept ending : Reader α).after c =
      (Op.runAll ops).after c := by
  cases h : Op.runAll ops c with
  | error e d => rw [after_of_error (bind_of_error h), after_of_error h]
  | ok _ d =>
      rw [after, bind_of_ok h, ← after, after_of_ok h]
      exact after_ofExcept ending d

/-- What a limit of `n` bytes does to the body that runs under it. The body may be any
reader that leaves the limits below alone, or a script of operations that ends where one
fails or in an outcome of its own. -/
structure LimitScope (n : Nat) (c : Cursor) : Prop where
  refused (h : c.stop < c.pos + n) :
    (∀ {α : Type} (body : Reader α), withLimit n body c = .error (.outOfBounds c.pos n) c) ∧
      ∀ ops, (Op.withLimit n ops).nested c = []
  restored {inner : Cursor} (h : pushLimit n c = .ok () inner) {α : Type}
    (body : Reader α) :
    Op.StaysAbove c.limits.length inner (body.after inner) → Restores n body c inner
  script {inner : Cursor} (h : pushLimit n c = .ok () inner) {α : Type} (ops : List Op)
    (ending : Except FormatError α) :
    allAbove c.limits.length ((Op.withLimit n ops).nested c) = true →
      Restores n (do Op.runAll ops; MonadExcept.ofExcept ending) c inner
  kept {inner e : Cursor} (h : pushLimit n c = .ok () inner) :
    Op.StaysAbove (c.limits.length + 1) inner e → Op.Reaches inner e ∧ c.pos + n ∈ e.limits
  reads {inner e : Cursor} (h : pushLimit n c = .ok () inner)
    (hinner : Op.Reaches inner e) (hlimit : c.pos + n ∈ e.limits)
    {op : Op} (hop : op.isRead = true) {reading : Reading} {d : Cursor} :
    op.run e = .ok reading d → op.ReadsBelow (c.pos + n) reading e d

/-- A limit of its own is undone by whatever way a body ends, and holds until the body
takes it away itself. -/
theorem limitScope_of_reaches {data : ByteArray} (hc : Op.Reaches (Cursor.ofBytes data) c)
    (n : Nat) : LimitScope n c := by
  constructor
  case refused =>
    intro h
    refine ⟨fun body => withLimit_of_lt h, fun ops => ?_⟩
    rw [Op.nested, pushLimit_of_lt h]
  case restored =>
    intro inner hpush α body hbody
    refine restores_of_suffix hpush (hbody.suffix ?_)
    rw [(pushLimit_eq_ok_iff.1 hpush).2]
    exact List.suffix_cons _ _
  case script =>
    intro inner hpush α ops ending hops
    have hinner : c.limits <:+ inner.limits := by
      rw [(pushLimit_eq_ok_iff.1 hpush).2]
      exact List.suffix_cons _ _
    rw [Op.nested, hpush] at hops
    refine restores_of_suffix hpush ?_
    rw [after_runAll_ofExcept]
    exact (Op.staysAbove_runAll ops inner hinner.length_le hops).suffix hinner
  case kept =>
    intro inner e hpush he
    obtain ⟨-, rfl⟩ := pushLimit_eq_ok_iff.1 hpush
    have habove : Op.StaysAbove ((c.pos + n) :: c.limits).length _ e := he
    exact ⟨he.reaches, (habove.suffix List.suffix_rfl).mem List.mem_cons_self⟩
  case reads =>
    intro inner e hpush hinner hlimit op hop reading d hrun
    have hreaches := (hc.trans (Op.reaches_of_pushLimit hpush)).trans hinner
    have hbounds := (hreaches.keepsBounds (Cursor.inBounds_ofBytes data)).2
    have hstop := hbounds.stop_le_of_mem hlimit
    obtain ⟨bs, hahead, hconsumes, hd, hend, hslice⟩ :=
      Op.readsBelow_of_run hbounds hop hrun
    refine ⟨bs, hahead, hconsumes, hd, Nat.le_trans hend hstop, fun read hread => ?_⟩
    obtain ⟨last, hlast, hread⟩ := hslice read hread
    exact ⟨last, Nat.le_trans hlast hstop, hread⟩

/-- Takes away the limit that it runs under, leaves two of its own behind and one less in
a limit inside it, and fails. -/
def unpairedOps : List Op :=
  [.popLimit, .u8, .pushLimit 2, .pushLimit 1,
    .withLimit 1 [.popLimit, .popLimit, .u8], .bytes 9]

/-- The limits of unpaired operations are gone behind them, while a read under the limit
stays under it. -/
theorem limitScope_of_reaches_unpaired :
    ∃ c inner, pushLimit 3 c = .ok () inner ∧ c.limits = [4] ∧
      ((Op.runAll unpairedOps).after inner).limits = [3, 4] ∧
      withLimit 3 (do Op.runAll unpairedOps; MonadExcept.ofExcept (.ok ())) c =
        .error (.outOfBounds 2 9) { c with pos := 2 } ∧
      ∃ reading d, Op.nullTerminated.run inner = .ok reading d ∧
        Op.nullTerminated.ReadsBelow 3 reading inner d := by
  have hreaches : Op.Reaches (Cursor.ofBytes sampleBytes) ⟨sampleBytes, 0, [4]⟩ :=
    Op.reaches_of_pushLimit (n := 4) rfl
  have hscope := limitScope_of_reaches hreaches 3
  have hpush : pushLimit 3 ⟨sampleBytes, 0, [4]⟩ = .ok () ⟨sampleBytes, 0, [3, 4]⟩ := by rfl
  refine ⟨_, _, hpush, rfl, by decide +kernel, ?_, _, _, rfl, ?_⟩
  · exact (hscope.script hpush unpairedOps (.ok ()) (by decide +kernel)).error
      _ ⟨sampleBytes, 2, [3, 4]⟩ rfl
  · exact hscope.reads hpush (.refl _) List.mem_cons_self rfl rfl

end Reader

end PortablePdb
