import PortablePdb.Proofs.CompressedForm
import PortablePdb.Proofs.SequencePoint.Resolution
import PortablePdb.Proofs.SequencePoint.Words

/-!
The arithmetic of sequence points. Every blob is read in words as it is read in integers,
and no operation on the way is inexact (`readBlob_exact`). The step is `agrees_read`:
distances are added to the start of a range that was checked, and what passes the check is
again such a range, so no sum grows with the number of records.
-/

namespace PortablePdb.SequencePoint.Words

open CompressedInt Reader

variable {α β γ δ : Type} {R : α → β → Prop} {S : γ → δ → Prop} {c : Cursor}

/-! ### Words and integers -/

/-- Reading in words does what reading in integers does, to the same cursor, and with
related answers. -/
def Agrees (R : α → β → Prop) (x : WordReader α) (r : Reader β) (c : Cursor) : Prop :=
  match r c with
  | .ok b d => ∃ a, x c = .ok a d ∧ R a b
  | .error e d => x c = .error (.refused e) d

theorem Agrees.pure {a : α} {b : β} (h : R a b) : Agrees R (pure a) (pure b) c :=
  ⟨a, rfl, h⟩

theorem Agrees.throw (e : FormatError) : Agrees R (throw (.refused e)) (throw e) c :=
  rfl

theorem Agrees.bind {x : WordReader α} {r : Reader β} {f : α → WordReader γ}
    {g : β → Reader δ} (h : Agrees R x r c)
    (hf : ∀ a b d, R a b → Agrees S (f a) (g b) d) : Agrees S (x >>= f) (r >>= g) c := by
  unfold Agrees at h
  cases hr : r c with
  | error e d =>
      rw [hr] at h
      have hg : (r >>= g) c = .error e d := Outcome.run_bind_eq_error_iff.2 (.inl hr)
      rw [Agrees, hg]
      exact Outcome.run_bind_eq_error_iff.2 (.inl h)
  | ok b d =>
      rw [hr] at h
      obtain ⟨a, hx, hab⟩ := h
      have hnext := hf a b d hab
      have hg : (r >>= g) c = g b d := by simp [Bind.bind, EStateM.bind, hr]
      have hf : (x >>= f) c = f a d := by simp [Bind.bind, EStateM.bind, hx]
      rw [Agrees, hg, hf]
      exact hnext

/-- The answer of a reader in integers, taken into words. -/
theorem agrees_ofReader (r : Reader α) :
    Agrees (fun a b => a = b ∧ ∃ c d, r c = .ok b d) (ofReader r) r c := by
  unfold Agrees
  cases hr : r c with
  | error e d => simp [ofReader, hr]
  | ok a d => exact ⟨a, by simp [ofReader, hr], rfl, c, d, hr⟩

theorem agrees_unsigned :
    Agrees (fun w n => w.toNat = n ∧ n < 2 ^ 29) unsigned CompressedInt.read c := by
  rw [← bind_pure CompressedInt.read]
  refine (agrees_ofReader _).bind fun n n' d ⟨heq, c', d', hread⟩ => ?_
  obtain rfl := heq
  have hlt := read_lt hread
  exact Agrees.pure ⟨toNat_toUInt32 (by omega), hlt⟩

/-- The value bits but for the lowest one. -/
theorem toInt_magnitude {raw : Nat} (h : raw < 2 ^ 29) :
    (raw.toUInt32 >>> 1).toInt32.toInt = (raw / 2 : Nat) := by
  have hshift : (raw.toUInt32 >>> 1).toNat = raw / 2 := by
    rw [UInt32.toNat_shiftRight, toNat_toUInt32 (by omega)]
    exact Nat.shiftRight_eq_div_pow raw 1
  rw [toInt_toInt32 (by omega), hshift]

theorem and_one_eq_zero_iff {raw : Nat} (h : raw < 2 ^ 29) :
    raw.toUInt32 &&& 1 = 0 ↔ raw % 2 = 0 := by
  rw [← UInt32.toNat_inj, UInt32.toNat_and, toNat_toUInt32 (by omega)]
  exact Eq.congr_left (Nat.and_one_is_mod raw)

/-- There are at most 29 value bits, so that no word of the difference is above
`2 ^ 28`. -/
theorem agrees_signed :
    Agrees (fun w n => w.toInt = n ∧ -2 ^ 28 ≤ n ∧ n < 2 ^ 28) signed readSigned c := by
  refine (agrees_ofReader _).bind fun packed packed' d ⟨heq, c', d', hread⟩ => ?_
  obtain rfl := heq
  obtain ⟨p, raw⟩ := packed
  have hraw := lt_of_readPacked hread
  have hbounds := Packing.unrotate_bounds hraw
  have hroom : p.half ≤ 2 ^ 28 ∧ p.capacity ≤ 2 ^ 29 := by cases p <;> decide
  have hmagnitude : (raw.toUInt32 >>> 1).toInt32.toInt = (raw / 2 : Nat) :=
    toInt_magnitude (by omega)
  have hvalue : p.unrotate raw = if raw % 2 = 0 then ((raw / 2 : Nat) : Int)
    else (raw / 2 : Nat) - p.half := rfl
  dsimp only
  by_cases heven : raw % 2 = 0
  · rw [if_pos ((and_one_eq_zero_iff (by omega)).2 heven)]
    rw [if_pos heven] at hvalue
    exact Agrees.pure ⟨by rw [hmagnitude, hvalue], by omega, by omega⟩
  · have hexact : (Operation.difference (raw.toUInt32 >>> 1).toInt32 (half p)).Exact := by
      rw [Operation.Exact, hmagnitude, toInt_half]
      omega
    rw [if_neg ((and_one_eq_zero_iff (by omega)).not.2 heven), perform_bind hexact]
    rw [if_neg heven] at hvalue
    refine Agrees.pure ⟨?_, by omega, by omega⟩
    rw [Int32.toInt_sub, hmagnitude, toInt_half, hvalue, Int.bmod_eq_of_le] <;> omega

/-! ### Records -/

/-- The word is this number: a line, a column or a distance that need not have been
checked yet. -/
def Near (w : Int64) (n : Int) : Prop :=
  w.toInt = n ∧ -2 ^ 28 ≤ n ∧ n < 2 ^ 29 + 2 ^ 28

theorem near_wide {w : UInt32} {n : Nat} (h : w.toNat = n ∧ n < 2 ^ 29) : Near (wide w) n :=
  ⟨by rw [toInt_wide, h.1], by omega, by omega⟩

theorem agrees_readColumns {lines : UInt32} :
    Agrees Near (readColumns lines) (Record.readColumns lines.toNat) c := by
  have hzero : lines = 0 ↔ lines.toNat = 0 := UInt32.toNat_inj.symm
  rw [readColumns, Record.readColumns]
  by_cases hlines : lines = 0
  · rw [if_pos hlines, if_pos (hzero.1 hlines)]
    exact agrees_unsigned.bind fun _ _ _ hn => Agrees.pure (near_wide hn)
  · rw [if_neg hlines, if_neg (hzero.not.1 hlines), ← bind_pure readSigned]
    refine agrees_signed.bind fun w n d ⟨hw, hlow, hhigh⟩ =>
      Agrees.pure ⟨?_, by omega, by omega⟩
    rw [Int32.toInt_toInt64, hw]

/-- A distance is added to a line or a column that was checked. -/
theorem exists_add_near {w : UInt32} {delta : Int32} {m : Int} (hw : w.toNat < 2 ^ 29)
    (hm : delta.toInt = m ∧ -2 ^ 28 ≤ m ∧ m < 2 ^ 28) :
    ∃ n, add (wide w) delta.toInt64 = pure n ∧ Near n (w.toNat + m) := by
  have hsum : (wide w).toInt + delta.toInt64.toInt = w.toNat + m := by
    rw [toInt_wide, Int32.toInt_toInt64, hm.1]
  obtain ⟨n, hadd, hn⟩ :=
    exists_add (a := wide w) (b := delta.toInt64) (by omega) (by omega)
  exact ⟨n, hadd, by rw [hn, hsum], by omega, by omega⟩

theorem agrees_readStart {base : Option (UInt32 × UInt32)}
    (hbase : ∀ start ∈ base, start.1.toNat < 2 ^ 29 ∧ start.2.toNat < 2 ^ 29) :
    Agrees (fun w n => Near w.1 n.1 ∧ Near w.2 n.2) (readStart base)
      (Record.readStart base) c := by
  cases base with
  | none =>
      refine agrees_unsigned.bind fun line m d hm => ?_
      refine agrees_unsigned.bind fun column n e hn => ?_
      exact Agrees.pure ⟨near_wide hm, near_wide hn⟩
  | some start =>
      obtain ⟨hline, hcolumn⟩ := hbase start rfl
      refine agrees_signed.bind fun lineDelta m d hm => ?_
      obtain ⟨line, haddLine, hline⟩ := exists_add_near hline hm
      rw [haddLine, pure_bind]
      refine agrees_signed.bind fun columnDelta n e hn => ?_
      obtain ⟨column, haddColumn, hcolumn⟩ := exists_add_near hcolumn hn
      rw [haddColumn, pure_bind]
      exact Agrees.pure ⟨hline, hcolumn⟩

/-- The end of a range is computed before its start is known to be one, and is in bounds
all the same. -/
theorem spanFrom_eq {line column columns : Int64} {lines : UInt32} {l k m : Int}
    (hline : Near line l) (hcolumn : Near column k) (hlines : lines.toNat < 2 ^ 29)
    (hcolumns : Near columns m) :
    spanFrom line column lines columns = (Span.ofInts? l k (l + lines.toNat) (k + m)).elim
      (throw (.refused .invalidSequencePoint)) pure := by
  obtain ⟨rfl, hlineLow, hlineHigh⟩ := hline
  obtain ⟨rfl, hcolumnLow, hcolumnHigh⟩ := hcolumn
  obtain ⟨rfl, hcolumnsLow, hcolumnsHigh⟩ := hcolumns
  have hwide := toInt_wide lines
  obtain ⟨endLine, haddLine, hendLine⟩ :=
    exists_add (a := line) (b := wide lines) (by omega) (by omega)
  obtain ⟨endColumn, haddColumn, hendColumn⟩ :=
    exists_add (a := column) (b := columns) (by omega) (by omega)
  rw [spanFrom, haddLine, pure_bind, haddColumn, pure_bind, toSpan_eq, hendLine,
    hendColumn, toInt_wide]

/-- The words behind some records, and what the records are read with in integers. -/
structure Tracks (s : State) (context : Record.Context) : Prop where
  started_iff : context.started = true ↔ s.records ≠ []
  base_eq : context.base = s.base
  exact : (Operation.base s.base s.records).Exact

theorem Tracks.base_lt {s : State} {context : Record.Context} (h : Tracks s context) :
    ∀ start ∈ s.base, start.1.toNat < 2 ^ 29 ∧ start.2.toNat < 2 ^ 29 := by
  obtain ⟨hbase, hvalid⟩ := h.exact
  intro start hstart
  rw [hbase] at hstart
  obtain ⟨span, hspan, rfl⟩ := Option.mem_map.1 hstart
  have hline := (hvalid span hspan).startLine_lt
  have hcolumn := (hvalid span hspan).startColumn_lt
  exact ⟨hline, Nat.lt_trans hcolumn (by decide)⟩

theorem agrees_next {s : State} {record : Record} {base : Option (UInt32 × UInt32)}
    {next : Record.Context} (hstarted : next.started = true) (hbase : next.base = base)
    (hexact : (Operation.base base (record :: s.records)).Exact) :
    Agrees (fun t answer => t.records = answer.1 :: s.records ∧ Tracks t answer.2)
      (s.next record base) (pure (record, next)) c := by
  rw [State.next, perform_bind hexact]
  exact Agrees.pure ⟨rfl, by simp [hstarted], hbase, hexact⟩

/-- What one record leaves behind is as exact as what was there before. -/
theorem agrees_read {s : State} {context : Record.Context} (h : Tracks s context) :
    Agrees (fun t answer => t.records = answer.1 :: s.records ∧ Tracks t answer.2)
      (read s) (Record.read context) c := by
  refine agrees_unsigned.bind fun ilDelta n d ⟨hdelta, _⟩ => ?_
  subst hdelta
  have hchange : (ilDelta = 0 ∧ s.records ≠ []) ↔
      (ilDelta.toNat = 0 ∧ context.started = true) := by
    rw [h.started_iff, ← UInt32.toNat_inj]
    rfl
  by_cases hchanges : ilDelta = 0 ∧ s.records ≠ []
  · rw [if_pos hchanges, if_pos (hchange.1 hchanges)]
    refine agrees_unsigned.bind fun document k d ⟨hdocument, _⟩ => ?_
    subst hdocument
    exact agrees_next (hchange.1 hchanges).2 h.base_eq h.exact
  · rw [if_neg hchanges, if_neg (hchange.not.1 hchanges)]
    refine agrees_unsigned.bind fun lines k d ⟨hlines, hlt⟩ => ?_
    subst hlines
    refine agrees_readColumns.bind fun columns m d hcolumns => ?_
    have hhidden : (lines = 0 ∧ columns = 0) ↔ (lines.toNat = 0 ∧ m = 0) := by
      rw [← UInt32.toNat_inj, ← Int64.toInt_inj, hcolumns.1]
      rfl
    by_cases hhides : lines = 0 ∧ columns = 0
    · rw [if_pos hhides, if_pos (hhidden.1 hhides)]
      exact agrees_next rfl h.base_eq h.exact
    · rw [if_neg hhides, if_neg (hhidden.not.1 hhides), h.base_eq]
      refine (agrees_readStart h.base_lt).bind
        fun ⟨line, column⟩ ⟨l, k⟩ d ⟨hline, hcolumn⟩ => ?_
      dsimp only
      rw [spanFrom_eq hline hcolumn hlt hcolumns]
      generalize hspan : Span.ofInts? l k (l + lines.toNat) (k + m) = span
      cases span with
      | none => exact Agrees.throw _
      | some span =>
          obtain ⟨hvalid, hstartLine, hstartColumn, -⟩ := Span.ofInts?_eq_some_iff.1 hspan
          have hexact : (Operation.base (some (span.startLine, span.startColumn))
              (.point ilDelta.toNat (some span) :: s.records)).Exact :=
            ⟨rfl, by rintro _ ⟨⟩; exact hvalid⟩
          rw [Option.elim_some, pure_bind, narrow_eq (hline.1.trans hstartLine), pure_bind,
            narrow_eq (hcolumn.1.trans hstartColumn), pure_bind]
          exact agrees_next rfl rfl hexact

theorem agrees_readFrom {fuel : Nat} :
    ∀ {s : State} {context : Record.Context} {read : Array Record} {c : Cursor},
      Tracks s context → s.records.reverse = read.toList →
      Agrees (fun t result => t.records.reverse = result.toList) (readFrom fuel s)
        (manyFrom Record.read fuel context read) c := by
  induction fuel with
  | zero => exact fun _ hread => Agrees.pure hread
  | succ fuel ih =>
      intro s context read c htracks hread
      refine (agrees_ofReader hasMore).bind fun more more' d ⟨heq, _⟩ => ?_
      subst heq
      cases more with
      | false => exact Agrees.pure hread
      | true =>
          refine (agrees_read htracks).bind fun t answer e ⟨hrecords, hnext⟩ => ih hnext ?_
          rw [hrecords, List.reverse_cons, hread, Array.toList_push]

theorem agrees_readAll (document : UInt32) :
    Agrees Eq (readAll document) (Record.readAll document) c := by
  have htracks : Tracks ⟨[], none⟩ ⟨false, none⟩ := ⟨by simp, rfl, rfl, by simp [lastSpan]⟩
  have hrecords (d : Cursor) : Agrees Eq (do
      let s ← readFrom (← ofReader remaining) ⟨[], none⟩
      return s.records.reverse) (untilEnd Record.read ⟨false, none⟩) d := by
    refine (agrees_ofReader remaining).bind fun fuel fuel' e ⟨heq, _⟩ => ?_
    subst heq
    exact (agrees_readFrom htracks rfl).bind fun s result _ hresult => Agrees.pure hresult
  refine agrees_unsigned.bind fun signature n d _ => ?_
  by_cases hdocument : document = 0
  · simp only [hdocument, if_true]
    exact agrees_unsigned.bind fun first n e _ => hrecords e
  · simp only [hdocument, if_false]
    exact hrecords d

/-! ### Points -/

/-- An offset is below the limit before a distance is added to it, so no sum wraps
around. -/
theorem resolveFrom_eq {method : Nat} {records : List Record}
    (hrecords : ∀ ilDelta span, .point ilDelta span ∈ records → ilDelta < 2 ^ 29) :
    ∀ (ilOffset : UInt32) (points : Array SequencePoint), ilOffset.toNat < 2 ^ 29 →
      resolveFrom method ilOffset points records =
        (SequencePoint.resolveFrom method ilOffset.toNat points records).mapError
          .refused := by
  induction records with
  | nil => exact fun _ _ _ => rfl
  | cons record rest ih =>
      intro ilOffset points hoffset
      cases record with
      | documentChange document => rfl
      | point ilDelta span =>
          have hdelta := hrecords ilDelta span (by simp)
          have hword : ilDelta.toUInt32.toNat = ilDelta := toNat_toUInt32 (by omega)
          have hexact : (Operation.advance ilOffset ilDelta.toUInt32).Exact := by
            rw [Operation.Exact, hword]
            omega
          have hsum : (ilOffset + ilDelta.toUInt32).toNat = ilOffset.toNat + ilDelta := by
            rw [UInt32.toNat_add, hword, Nat.mod_eq_of_lt (by omega)]
          rw [resolveFrom, SequencePoint.resolveFrom,
            Operation.check_of_exact hexact, ← hsum]
          generalize ilOffset + ilDelta.toUInt32 = next
          have hnext : next.toNat.toUInt32 = next := UInt32.ofNat_toNat
          have hlimit : next < 0x20000000 ↔ next.toNat < lineLimit := UInt32.lt_iff_toNat_lt
          rw [hnext]
          by_cases hbelow : next < 0x20000000
          · have hrest := ih (fun _ _ hmem => hrecords _ _ (List.mem_cons_of_mem _ hmem))
            rw [if_pos (hlimit.1 hbelow), ← hrest _ _ (hlimit.1 hbelow)]
            exact if_pos hbelow
          · rw [if_neg (hlimit.not.1 hbelow)]
            exact if_neg hbelow

theorem resolve_eq {method : Nat} {records : List Record}
    (hrecords : ∀ ilDelta span, .point ilDelta span ∈ records → ilDelta < 2 ^ 29) :
    resolve method records = (SequencePoint.resolve method records).mapError .refused := by
  rw [resolve, resolveFrom_eq hrecords 0 #[] (by decide), SequencePoint.resolve,
    UInt32.toNat_zero]
  cases SequencePoint.resolveFrom method 0 #[] records <;> rfl

theorem readBlob_eq_mapError (method : Nat) (document : UInt32) (blob : ByteArray) :
    readBlob method document blob =
      (SequencePoint.readBlob method document blob).mapError .refused := by
  have hagrees : Agrees Eq (readAll document) (Record.readAll document)
    (Cursor.ofBytes blob) := agrees_readAll document
  unfold Agrees at hagrees
  rw [readBlob, SequencePoint.readBlob, run]
  cases hread : Record.readAll document (Cursor.ofBytes blob) with
  | error e d =>
      rw [hread] at hagrees
      rw [hagrees]
      rfl
  | ok records d =>
      rw [hread] at hagrees
      obtain ⟨_, hwords, rfl⟩ := hagrees
      rw [hwords]
      exact resolve_eq fun _ _ hmem =>
        Record.ilDelta_lt_of_answers (Record.answers_of_readAll hread) hmem

/-- A blob is read in words as it is in integers, and no operation on the way is
inexact. -/
theorem readBlob_exact (method : Nat) (document : UInt32) (blob : ByteArray) :
    (∀ operation, readBlob method document blob ≠ .error (.inexact operation)) ∧
      readBlob method document blob =
        (SequencePoint.readBlob method document blob).mapError .refused := by
  have heq := readBlob_eq_mapError method document blob
  refine ⟨fun operation hinexact => ?_, heq⟩
  rw [heq] at hinexact
  cases hpoints : SequencePoint.readBlob method document blob with
  | error e => rw [hpoints] at hinexact; cases hinexact
  | ok points => rw [hpoints] at hinexact; cases hinexact

example : readBlob 1 1 [0, 0, 1, 0x7B, 20, 9, 4, 0, 2, 0x7B, 0x06].toByteArray =
    .ok [⟨0, some ⟨20, 9, 21, 6⟩⟩, ⟨4, some ⟨17, 12, 17, 14⟩⟩] := by
  decide +kernel

-- Behind a base that no range starts at, a sum does leave its bounds.
example :
  (match read ⟨[], some (0xffffffff, 0)⟩ (Cursor.ofBytes [1, 0, 5, 2, 2].toByteArray) with
    | .ok _ _ => none
    | .error stop _ => some stop) = some (.inexact (.sum 0xffffffff 1)) := by
  decide +kernel

end PortablePdb.SequencePoint.Words
