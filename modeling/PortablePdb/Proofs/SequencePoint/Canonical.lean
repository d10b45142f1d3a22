import PortablePdb.Proofs.CompressedForm
import PortablePdb.Proofs.SequencePoint.Resolution
import PortablePdb.Proofs.SequencePoint.RoundTrip

/-!
What is read of a blob, written again. The integers of a blob are forms of values that its
points determine, `values`, and the writer puts down the shortest forms of just these. So
a blob that is read differs from the one that is written for its points in the lengths of
its integers alone, and is never the shorter one.
-/

namespace PortablePdb.SequencePoint

open CompressedInt Reader

/-! ### The integers of a record -/

/-- The end column of a range, as a distance to its start column. It has a sign if the
range has several lines. -/
def columnsValue (s : Span) : Value :=
  if s.endLine = s.startLine then .unsigned (s.endColumn.toNat - s.startColumn.toNat)
  else .signed (s.endColumn.toNat - s.startColumn.toNat)

def startValues (base : Option (UInt32 × UInt32)) (s : Span) : List Value :=
  match base with
  | none => [.unsigned s.startLine.toNat, .unsigned s.startColumn.toNat]
  | some (line, column) =>
    [.signed (s.startLine.toNat - line.toNat), .signed (s.startColumn.toNat - column.toNat)]

def spanValues (base : Option (UInt32 × UInt32)) : Option Span → List Value
  | none => [.unsigned 0, .unsigned 0]
  | some s => .unsigned (s.endLine.toNat - s.startLine.toNat) :: columnsValue s ::
    startValues base s

namespace Record

def values (base : Option (UInt32 × UInt32)) : Record → List Value
  | point ilDelta span => .unsigned ilDelta :: spanValues base span
  | documentChange document => [.unsigned 0, .unsigned document]

def baseBehind (base : Option (UInt32 × UInt32)) : Record → Option (UInt32 × UInt32)
  | point _ span => Mark.nextBase base span
  | documentChange _ => base

def valuesFrom (base : Option (UInt32 × UInt32)) : List Record → List Value
  | [] => []
  | record :: rest => record.values base ++ valuesFrom (record.baseBehind base) rest

end Record

/-- The integers that a blob with these points holds, behind the signature. -/
def values (signature : Nat) (points : List SequencePoint) : List Value :=
  .unsigned signature :: Record.valuesFrom none (Mark.records 0 (points.map .point))

/-! ### Reading -/

namespace Record

theorem passes_readColumns {c d : Cursor} {lines : Nat} {columns : Int} (hc : c.Inside)
    (h : readColumns lines c = .ok columns d) :
    (lines = 0 ∧ ∃ n : Nat, columns = n ∧ c.Passes [.unsigned n] d) ∨
      (lines ≠ 0 ∧ c.Passes [.signed columns] d) := by
  rw [readColumns] at h
  split at h
  case isTrue hzero =>
    obtain ⟨n, d', hread, h⟩ := Outcome.run_bind_eq_ok_iff.1 h
    obtain ⟨rfl, rfl⟩ := Outcome.run_pure_eq_ok_iff.1 h
    exact .inl ⟨hzero, n, rfl, passes_read hc hread⟩
  case isFalse hne => exact .inr ⟨hne, passes_readSigned hc h⟩

theorem passes_readStart {c d : Cursor} {base : Option (UInt32 × UInt32)}
    {line column : Int} {s : Span} (hc : c.Inside)
    (h : readStart base c = .ok (line, column) d) (hline : line = s.startLine.toNat)
    (hcolumn : column = s.startColumn.toNat) : c.Passes (startValues base s) d := by
  cases base with
  | none =>
      obtain ⟨m, c₁, hfirst, h⟩ := Outcome.run_bind_eq_ok_iff.1 h
      obtain ⟨n, c₂, hsecond, h⟩ := Outcome.run_bind_eq_ok_iff.1 h
      obtain ⟨heq, rfl⟩ := Outcome.run_pure_eq_ok_iff.1 h
      obtain ⟨rfl, rfl⟩ := Prod.mk.inj heq
      have hm : m = s.startLine.toNat := by omega
      have hn : n = s.startColumn.toNat := by omega
      have hpasses := passes_read hc hfirst
      rw [startValues, ← hm, ← hn]
      exact hpasses.append (passes_read (hpasses.inside hc) hsecond)
  | some start =>
      obtain ⟨m, c₁, hfirst, h⟩ := Outcome.run_bind_eq_ok_iff.1 h
      obtain ⟨n, c₂, hsecond, h⟩ := Outcome.run_bind_eq_ok_iff.1 h
      obtain ⟨heq, rfl⟩ := Outcome.run_pure_eq_ok_iff.1 h
      obtain ⟨rfl, rfl⟩ := Prod.mk.inj heq
      have hm : (s.startLine.toNat - start.1.toNat : Int) = m := by omega
      have hn : (s.startColumn.toNat - start.2.toNat : Int) = n := by omega
      have hpasses := passes_readSigned hc hfirst
      change c.Passes [.signed (s.startLine.toNat - start.1.toNat),
        .signed (s.startColumn.toNat - start.2.toNat)] c₂
      rw [hm, hn]
      exact hpasses.append (passes_readSigned (hpasses.inside hc) hsecond)

/-- The integers of a record that is read. -/
theorem passes_read {context next : Context} {record : Record} {c d : Cursor}
    (hc : c.Inside) (h : read context c = .ok (record, next) d) :
    c.Passes (record.values context.base) d ∧
      next.base = record.baseBehind context.base := by
  obtain ⟨ilDelta, c₁, hdelta, h⟩ := Outcome.run_bind_eq_ok_iff.1 h
  have hfirst := CompressedInt.passes_read hc hdelta
  have hinside₁ := hfirst.inside hc
  by_cases hchange : ilDelta = 0 ∧ context.started = true
  · rw [if_pos hchange] at h
    obtain ⟨document, c₂, hdocument, h⟩ := Outcome.run_bind_eq_ok_iff.1 h
    obtain ⟨heq, rfl⟩ := Outcome.run_pure_eq_ok_iff.1 h
    cases heq
    rw [hchange.1] at hfirst
    exact ⟨hfirst.append (CompressedInt.passes_read hinside₁ hdocument), rfl⟩
  · rw [if_neg hchange] at h
    obtain ⟨lines, c₂, hlines, h⟩ := Outcome.run_bind_eq_ok_iff.1 h
    obtain ⟨columns, c₃, hcolumns, h⟩ := Outcome.run_bind_eq_ok_iff.1 h
    have hsecond := CompressedInt.passes_read hinside₁ hlines
    have hinside₂ := hsecond.inside hinside₁
    have hthird := passes_readColumns hinside₂ hcolumns
    by_cases hhidden : lines = 0 ∧ columns = 0
    · rw [if_pos hhidden] at h
      obtain ⟨heq, rfl⟩ := Outcome.run_pure_eq_ok_iff.1 h
      cases heq
      obtain ⟨rfl, rfl⟩ := hhidden
      rcases hthird with ⟨-, n, hn, hthird⟩ | ⟨hne, -⟩
      · obtain rfl : n = 0 := by omega
        exact ⟨(hfirst.append hsecond).append hthird, rfl⟩
      · exact absurd rfl hne
    · rw [if_neg hhidden] at h
      obtain ⟨⟨line, column⟩, c₄, hstart, h⟩ := Outcome.run_bind_eq_ok_iff.1 h
      dsimp only at h
      generalize hspan :
        Span.ofInts? line column (line + lines) (column + columns) = span at h
      cases span with
      | none => cases h
      | some s =>
          obtain ⟨heq, rfl⟩ := Outcome.run_pure_eq_ok_iff.1 h
          cases heq
          obtain ⟨hs, hline, hcolumn, hendLine, hendColumn⟩ :=
            Span.ofInts?_eq_some_iff.1 hspan
          have hle := hs.startLine_le
          have hextent : lines = s.endLine.toNat - s.startLine.toNat := by omega
          -- The sign of the columns was read off the number of lines, and so is that of
          -- the value.
          have hthird : c₂.Passes [columnsValue s] c₃ := by
            have hiff : s.endLine = s.startLine ↔ lines = 0 := by
              rw [← UInt32.toNat_inj]
              omega
            rw [columnsValue]
            rcases hthird with ⟨hzero, n, hn, hthird⟩ | ⟨hne, hthird⟩
            · rw [if_pos (hiff.2 hzero),
                show s.endColumn.toNat - s.startColumn.toNat = n by omega]
              exact hthird
            · rw [if_neg (hiff.not.2 hne),
                show (s.endColumn.toNat - s.startColumn.toNat : Int) = columns by omega]
              exact hthird
          rw [hextent] at hsecond
          have hinside₃ := hthird.inside hinside₂
          have hfourth := passes_readStart hinside₃ hstart hline hcolumn
          exact ⟨((hfirst.append hsecond).append hthird).append hfourth, rfl⟩

theorem values_ne_nil (base : Option (UInt32 × UInt32)) (record : Record) :
    record.values base ≠ [] := by
  cases record <;> simp [values]

/-- A blob that is read holds the integers of its records, behind a signature, and nothing
else. -/
theorem forms_of_readAll {document : UInt32} {blob : ByteArray} {records : List Record}
    (hdocument : document ≠ 0) (h : (readAll document).run blob = .ok records) :
    ∃ signature forms, CompressedInt.read.run blob = .ok signature ∧
      List.Forall₂ Value.HasForm (.unsigned signature :: valuesFrom none records) forms ∧
      forms.flatten.toByteArray = blob := by
  obtain ⟨d, h⟩ := run_eq_ok_iff.1 h
  obtain ⟨signature, c₁, hsignature, h⟩ := Outcome.run_bind_eq_ok_iff.1 h
  simp only [hdocument, if_false] at h
  have hc := Cursor.inside_ofBytes blob
  have hfirst := CompressedInt.passes_read hc hsignature
  obtain ⟨values, rfl, hrest, hend⟩ := CompressedInt.passes_untilEnd
    (R := fun context records values => values = valuesFrom context.base records)
    (fun _ => rfl) (fun hc hstep => by
      obtain ⟨hpasses, hbase⟩ := passes_read hc hstep
      refine ⟨_, values_ne_nil _ _, hpasses, ?_⟩
      rintro records _ rfl
      rw [hbase]
      rfl)
    (hfirst.inside hc) h
  obtain ⟨forms, hforms, hahead, rfl⟩ := hfirst.append hrest
  exact ⟨signature, forms, run_eq_ok_iff.2
    ⟨_, hsignature⟩, by simpa using hforms, (hahead.eq_of_remaining hend).symm⟩

end Record

/-! ### Writing -/

namespace Mark

theorem encodeColumns_eq_encodeAll {s : Span} (hs : s.Valid) :
    encodeColumns (s.endLine - s.startLine) s.startColumn s.endColumn =
      encodeAll [columnsValue s] := by
  have hiff : s.endLine - s.startLine = 0 ↔ s.endLine = s.startLine := by
    have hle := hs.startLine_le
    rw [← UInt32.toNat_inj, ← UInt32.toNat_inj, hs.toNat_lines]
    change s.endLine.toNat - s.startLine.toNat = 0 ↔ _
    omega
  have hstart := hs.startColumn_lt
  have hend := hs.endColumn_lt
  rw [encodeAll_singleton, encodeColumns, columnsValue]
  by_cases hline : s.endLine = s.startLine
  · have hordered := hs.ordered
    rw [hline, UInt32.lt_iff_toNat_lt, UInt32.lt_iff_toNat_lt] at hordered
    rw [if_pos (hiff.2 hline), if_pos hline, UInt32.toNat_sub_of_le
      _ _ (UInt32.le_iff_toNat_le.2 (by omega : s.startColumn.toNat ≤ s.endColumn.toNat))]
    rfl
  · rw [if_neg (hiff.not.2 hline), if_neg hline, signedDelta_eq _ _ (by omega) (by omega)]
    rfl

theorem encodeStart_eq_encodeAll {prev : Option Span} {s : Span}
    (hprev : ∀ a, prev = some a → a.Valid) (hs : s.Valid) :
    encodeStart (baseOf prev) s.startLine s.startColumn =
      encodeAll (startValues (baseOf prev) s) := by
  have hline := hs.startLine_lt
  have hcolumn := hs.startColumn_lt
  cases prev with
  | none => simp [encodeStart, startValues, encodeAll, Value.encode]
  | some a =>
      have haLine := (hprev a rfl).startLine_lt
      have haColumn := (hprev a rfl).startColumn_lt
      simp [encodeStart, startValues, encodeAll, Value.encode, baseOf,
        signedDelta_eq s.startLine a.startLine (by omega) (by omega),
        signedDelta_eq s.startColumn a.startColumn (by omega) (by omega)]

theorem encodeSpan_eq_encodeAll {prev span : Option Span}
    (hprev : ∀ a, prev = some a → a.Valid) (hspan : ∀ s, span = some s → s.Valid) :
    encodeSpan (baseOf prev) span = encodeAll (spanValues (baseOf prev) span) := by
  cases span with
  | none => simp [encodeSpan, spanValues, encodeAll, Value.encode]
  | some s =>
      have hs := hspan s rfl
      change _ = encodeAll ([.unsigned (s.endLine.toNat - s.startLine.toNat)] ++
        ([columnsValue s] ++ startValues (baseOf prev) s))
      rw [encodeAll_append, encodeAll_append, encodeAll_singleton,
        ← encodeColumns_eq_encodeAll hs, ← encodeStart_eq_encodeAll hprev hs]
      simp [-bind_pure_comp, encodeSpan, Value.encode, hs.toNat_lines]

/-- The writer puts down the values of the records and nothing else, whether it gets
through or not. -/
theorem encodeFrom_eq_encodeAll {marks : List Mark} {started : Bool} {ilOffset : UInt32}
    (h : Follows started ilOffset marks) :
    ∀ {prev : Option Span}, (∀ a, prev = some a → a.Valid) →
      encodeFrom ilOffset (baseOf prev) marks =
        encodeAll (Record.valuesFrom (baseOf prev) (records ilOffset.toNat marks)) := by
  induction h with
  | nil => intros; rfl
  | document _ _ ih =>
      intro prev hprev
      rw [records, Record.valuesFrom, encodeAll_append, Record.baseBehind, ← ih hprev]
      simp [-bind_pure_comp, encodeFrom, Record.values, encodeAll, Value.encode]
  | @point started ilOffset p rest hle hlt hbound hspan _ ih =>
      intro prev hprev
      have hdelta : (p.ilOffset - ilOffset).toNat = p.ilOffset.toNat - ilOffset.toNat :=
        UInt32.toNat_sub_of_le _ _ hle
      rw [records, Record.valuesFrom, encodeAll_append, Record.baseBehind,
        nextBase_baseOf, ← ih (valid_of_or hprev hspan), Record.values, encodeAll,
        ← encodeSpan_eq_encodeAll hprev hspan, encodeFrom, hdelta, nextBase_baseOf]
      simp [-bind_pure_comp, Value.encode]

theorem encodeBlob_eq_encodeAll (signature : UInt32) {points : List SequencePoint}
    (h : Valid (points.map .point)) :
    encodeBlob signature none (points.map .point) =
      encodeAll (values signature.toNat points) := by
  have hpoints : encodeFrom 0 (baseOf none) (points.map .point) = _ :=
    encodeFrom_eq_encodeAll h.follows (by simp)
  rw [baseOf_none, UInt32.toNat_zero] at hpoints
  simp [encodeBlob, values, encodeAll, Value.encode, hpoints]

end Mark

/-! ### Reading and writing -/

/-- Records that resolve are those of the points they resolve to. -/
theorem records_of_resolveFrom {method : Nat} {recs : List Record} :
    ∀ {ilOffset : Nat} {read result : Array SequencePoint},
      resolveFrom method ilOffset read recs = .ok result →
      ∃ points : List SequencePoint, result = read ++ points.toArray ∧
        Mark.records ilOffset (points.map .point) = recs := by
  induction recs with
  | nil =>
      intro ilOffset read result h
      obtain rfl : read = result := Except.ok.inj h
      exact ⟨[], by simp, rfl⟩
  | cons record rest ih =>
      intro ilOffset read result h
      cases record with
      | documentChange document => cases h
      | point ilDelta span =>
          rw [resolveFrom] at h
          split at h
          case isFalse => cases h
          case isTrue hlimit =>
            obtain ⟨points, rfl, hpoints⟩ := ih h
            have hword : (ilOffset + ilDelta).toUInt32.toNat = ilOffset + ilDelta :=
              toNat_toUInt32 (by rw [lineLimit] at hlimit; omega)
            refine ⟨⟨(ilOffset + ilDelta).toUInt32, span⟩ :: points, by simp, ?_⟩
            rw [List.map_cons, Mark.records, hword, hpoints, Nat.add_sub_cancel_left]

theorem records_of_resolve {method : Nat} {recs : List Record} {points : List SequencePoint}
    (h : resolve method recs = .ok points) : Mark.records 0 (points.map .point) = recs := by
  rw [resolve] at h
  cases hfrom : resolveFrom method 0 #[] recs with
  | error e => rw [hfrom] at h; cases h
  | ok result =>
      rw [hfrom] at h
      obtain ⟨points', rfl, hrecords⟩ := records_of_resolveFrom hfrom
      obtain rfl := Except.ok.inj h
      simpa using hrecords

theorem points_map_point (points : List SequencePoint) :
    Mark.points (points.map .point) = points := by
  induction points with
  | nil => rfl
  | cons p rest ih => rw [List.map_cons, Mark.points_point, ih]

/-- Points that are read can be written. -/
theorem Resolved.valid {points : List SequencePoint} (h : Resolved points) :
    Mark.Valid (points.map .point) where
  first := by
    intro row hrow
    cases points <;> cases hrow
  ascending := by
    rw [points_map_point]
    exact h.ascending
  offset_lt := by
    rw [points_map_point]
    exact h.offset_lt
  row_lt := by simp
  span_valid := by
    intro s hs
    rw [Mark.spans, points_map_point] at hs
    obtain ⟨p, hp, hspan⟩ := List.mem_filterMap.1 hs
    exact h.span_valid p hp s hspan

/-- A blob that is read holds forms of the integers that its points determine. Its points
are written with the signature it has, they read back, and the blob that is written is no
longer. The two are equal exactly if there are only shortest forms in the blob that was
read. -/
theorem encodeBlob_of_readBlob {method : Nat} {document : UInt32} {blob : ByteArray}
    {points : List SequencePoint} (hdocument : document ≠ 0)
    (h : readBlob method document blob = .ok points) :
    ∃ (signature : UInt32) (forms : List (List UInt8)) (bytes : List UInt8),
      CompressedInt.read.run blob = .ok signature.toNat ∧
      forms.flatten.toByteArray = blob ∧
      List.Forall₂ Value.HasForm (values signature.toNat points) forms ∧
      Mark.encodeBlob signature none (points.map .point) = .ok bytes ∧
      readBlob method document bytes.toByteArray = .ok points ∧ bytes.length ≤ blob.size ∧
      (bytes.toByteArray = blob ↔
        List.Forall₂ Value.IsShortest (values signature.toNat points) forms) := by
  have hvalid := (resolved_of_readBlob h).valid
  obtain ⟨recs, hrecs, hresolve⟩ := Outcome.bind_eq_ok_iff.1 h
  obtain ⟨signature, forms, hread, hforms, rfl⟩ := Record.forms_of_readAll hdocument hrecs
  obtain ⟨shortest, hshortest, hle, heq⟩ := shortest_of_forms hforms
  have hlt : signature < 2 ^ 29 := by
    obtain ⟨form, _, hform, -, -⟩ := List.forall₂_cons_left_iff.1 hshortest
    obtain ⟨p, hp, -⟩ := encode_eq_ok_iff.1 (Value.isShortest_iff.1 hform)
    exact ofNat?_isSome_iff.1 (Option.isSome_iff_exists.2 ⟨p, hp⟩)
  have hword : signature.toUInt32.toNat = signature := toNat_toUInt32 (by omega)
  have hbytes : Mark.encodeBlob signature.toUInt32 none (points.map .point) =
      .ok shortest.flatten := by
    rw [Mark.encodeBlob_eq_encodeAll _ hvalid, hword, values, records_of_resolve hresolve]
    exact encodeAll_eq_of_shortest hshortest
  have hback :=
    Mark.readBlob_of_encodeBlob (by omega) hdocument hvalid (by simp) hbytes method
  rw [points_map_point] at hback
  refine ⟨signature.toUInt32, forms, shortest.flatten, ?_⟩
  rw [hword, values, records_of_resolve hresolve]
  refine ⟨hread, rfl, hforms, hbytes,
    hback, by simpa using hle, fun hsame => ?_, fun hall => ?_⟩
  · have hflat := congrArg ByteArray.size hsame
    rw [List.size_toByteArray, List.size_toByteArray] at hflat
    rw [← heq hflat]
    exact hshortest
  · rw [eq_of_shortest hall hshortest]

/-- One point, behind a signature in two bytes where one is enough. -/
def spacious : ByteArray :=
  ⟨#[0x80, 0x11, 0, 0, 5, 10, 3]⟩

theorem encodeBlob_of_readBlob_spacious :
    readBlob 1 1 spacious = .ok [⟨0, some ⟨10, 3, 10, 8⟩⟩] ∧
      ∃ (signature : UInt32) (bytes : List UInt8),
        CompressedInt.read.run spacious = .ok signature.toNat ∧
        Mark.encodeBlob signature none [.point ⟨0, some ⟨10, 3, 10, 8⟩⟩] = .ok bytes ∧
        readBlob 1 1 bytes.toByteArray = .ok [⟨0, some ⟨10, 3, 10, 8⟩⟩] ∧
        bytes.length < spacious.size := by
  have hread : readBlob 1 1 spacious = .ok [⟨0, some ⟨10, 3, 10, 8⟩⟩] := by decide +kernel
  obtain ⟨signature, forms, bytes, hsignature, -, -, hbytes, hback, hle, -⟩ :=
    encodeBlob_of_readBlob (by decide : (1 : UInt32) ≠ 0) hread
  refine ⟨hread, signature, bytes, hsignature, hbytes, hback, ?_⟩
  obtain rfl : signature = 0x11 := by
    have hvalue : CompressedInt.read.run spacious = .ok 0x11 := by decide +kernel
    rw [hvalue] at hsignature
    exact UInt32.toNat_inj.1 (Except.ok.inj hsignature).symm
  obtain rfl : bytes = [0x11, 0, 0, 5, 10, 3] := by
    have hwritten : Mark.encodeBlob 0x11 none [.point ⟨0, some ⟨10, 3, 10, 8⟩⟩] =
        .ok [0x11, 0, 0, 5, 10, 3] := by
      decide +kernel
    exact Except.ok.inj (hbytes.symm.trans hwritten)
  decide

end PortablePdb.SequencePoint
