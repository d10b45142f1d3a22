import PortablePdb.Proofs.Compression
import PortablePdb.Proofs.Outcome
import PortablePdb.Proofs.SequencePoint.Span
import PortablePdb.SequencePoint.Mark
import PortablePdb.SequencePoint.Record

/-!
What is written for a list of marks reads back. Writer and reader each keep a state of
their own, the last offset and the start of the last visible range, and the induction on
the list shows that the two stay equal: a change of document leaves both alone, and a
hidden point moves only the offset.

The writer fails on such a list exactly where two successive visible points start on lines
too far apart for a signed compressed integer, `encodeBlob_isError_iff`. Every other
distance in the list has a compressed form.
-/

namespace PortablePdb.SequencePoint

open CompressedInt Reader

namespace Mark

/-! ### Lists that are written for a reader -/

def points (marks : List Mark) : List SequencePoint :=
  marks.filterMap fun
    | .point p => some p
    | .document _ => none

def spans (marks : List Mark) : List Span :=
  (points marks).filterMap (·.span)

/-- The records of a list behind a point at `ilOffset`: the distance of every point to the
point before. -/
def records (ilOffset : Nat) : List Mark → List Record
  | [] => []
  | .document row :: rest => .documentChange row.toNat :: records ilOffset rest
  | .point p :: rest =>
    .point (p.ilOffset.toNat - ilOffset) p.span :: records p.ilOffset.toNat rest

structure Valid (marks : List Mark) : Prop where
  /-- The first mark is a point. -/
  first : ∀ row, marks.head? ≠ some (.document row)
  ascending : (points marks).Pairwise fun p q => p.ilOffset < q.ilOffset
  offset_lt : ∀ p ∈ points marks, p.ilOffset.toNat < 0x20000000
  row_lt : ∀ row, .document row ∈ marks → row.toNat < 2 ^ 29
  span_valid : ∀ s ∈ spans marks, s.Valid

/-- The start lines of two ranges are close enough for a signed compressed integer. -/
def Near (a b : Span) : Prop :=
  -2 ^ 28 ≤ (b.startLine.toNat : Int) - a.startLine.toNat ∧
    (b.startLine.toNat : Int) - a.startLine.toNat < 2 ^ 28

@[simp] theorem points_nil : points [] = [] := rfl

@[simp] theorem points_point (p : SequencePoint) (rest : List Mark) :
    points (.point p :: rest) = p :: points rest := rfl

@[simp] theorem points_document (row : UInt32) (rest : List Mark) :
    points (.document row :: rest) = points rest := rfl

@[simp] theorem spans_nil : spans [] = [] := rfl

@[simp] theorem spans_point (p : SequencePoint) (rest : List Mark) :
    spans (.point p :: rest) = p.span.toList ++ spans rest := by
  cases h : p.span <;> simp [spans, h]

@[simp] theorem spans_document (row : UInt32) (rest : List Mark) :
    spans (.document row :: rest) = spans rest := rfl

/-- The rest of a valid list, seen from behind the marks that came before it: the
induction principle for writer and reader. `started` tells whether there were any, and
`ilOffset` is the offset of the last point among them. -/
inductive Follows : (started : Bool) → (ilOffset : UInt32) → List Mark → Prop
  | nil {started : Bool} {ilOffset : UInt32} : Follows started ilOffset []
  | document {ilOffset row : UInt32} {rest : List Mark} (hrow : row.toNat < 2 ^ 29)
      (hrest : Follows true ilOffset rest) : Follows true ilOffset (.document row :: rest)
  | point {started : Bool} {ilOffset : UInt32} {p : SequencePoint} {rest : List Mark}
      (hle : ilOffset ≤ p.ilOffset) (hlt : started = true → ilOffset < p.ilOffset)
      (hbound : p.ilOffset.toNat < 0x20000000) (hspan : ∀ s, p.span = some s → s.Valid)
      (hrest : Follows true p.ilOffset rest) : Follows started ilOffset (.point p :: rest)

theorem follows_of_bounds {marks : List Mark} :
    ∀ {started : Bool} {ilOffset : UInt32},
      (started = false → ∀ row, marks.head? ≠ some (.document row)) →
      (points marks).Pairwise (fun p q => p.ilOffset < q.ilOffset) →
      (∀ p ∈ points marks, ilOffset ≤ p.ilOffset ∧
        (started = true → ilOffset < p.ilOffset)) →
      (∀ p ∈ points marks, p.ilOffset.toNat < 0x20000000) →
      (∀ row, .document row ∈ marks → row.toNat < 2 ^ 29) → (∀ s ∈ spans marks, s.Valid) →
      Follows started ilOffset marks := by
  induction marks with
  | nil => intros; exact .nil
  | cons mark rest ih =>
      intro started ilOffset hfirst hascending hafter hbound hrow hspan
      cases mark with
      | document row =>
          -- A list must not start with this mark, so there is one before it.
          obtain rfl : started = true := by
            cases started
            · exact absurd rfl (hfirst rfl row)
            · rfl
          exact .document (hrow row (by simp)) (ih (by simp) hascending hafter hbound
            (fun r hr => hrow r (by simp [hr])) hspan)
      | point p =>
          rw [points_point] at hascending hafter hbound
          obtain ⟨hhead, htail⟩ := List.pairwise_cons.1 hascending
          have hp := hafter p (by simp)
          refine .point hp.1 hp.2 (hbound p (by simp))
            (fun s hs => hspan s (by simp [hs])) ?_
          refine ih (by simp) htail (fun q hq => ?_) (fun q hq => hbound q (by simp [hq]))
            (fun r hr => hrow r (by simp [hr])) (fun s hs => hspan s (by simp [hs]))
          exact ⟨UInt32.le_of_lt (hhead q hq), fun _ => hhead q hq⟩

theorem Valid.follows {marks : List Mark} (h : Valid marks) : Follows false 0 marks :=
  follows_of_bounds (fun _ => h.first) h.ascending
    (fun p _ => ⟨UInt32.zero_le, by simp⟩) h.offset_lt h.row_lt h.span_valid

/-! ### The pieces of a point -/

/-- Words below `2 ^ 31` keep their distance as signed words. -/
theorem signedDelta_eq (new old : UInt32) (hnew : new.toNat < 2 ^ 31)
    (hold : old.toNat < 2 ^ 31) :
    signedDelta new old = (new.toNat : Int) - old.toNat := by
  change (new.toInt32 - old.toInt32).toInt = _
  rw [Int32.toInt_sub, toInt_toInt32 hnew, toInt_toInt32 hold]
  rw [Int.bmod_eq_of_le] <;> omega

theorem encodeColumns_isOk {s : Span} (hs : s.Valid) :
    ∃ bytes, encodeColumns (s.endLine - s.startLine) s.startColumn s.endColumn = .ok bytes ∧
      Consumes (Record.readColumns (s.endLine.toNat - s.startLine.toNat)) bytes
        ((s.endColumn.toNat : Int) - s.startColumn.toNat) := by
  have hstart := hs.startColumn_lt
  have hend := hs.endColumn_lt
  -- On a single line the columns ascend. Over several lines they need not, and their
  -- distance has a sign.
  rcases hs.ordered with hline | ⟨hline, hcolumn⟩
  · rw [UInt32.lt_iff_toNat_lt] at hline
    have hne : s.endLine - s.startLine ≠ 0 := by
      rw [ne_eq, ← UInt32.toNat_inj,
        UInt32.toNat_sub_of_le _ _ (UInt32.le_iff_toNat_le.2 (by omega))]
      change ¬s.endLine.toNat - s.startLine.toNat = 0
      omega
    have hdelta := signedDelta_eq s.endColumn s.startColumn (by omega) (by omega)
    obtain ⟨bytes, hbytes⟩ :=
      encodeSigned_isOk (n := (s.endColumn.toNat : Int) - s.startColumn.toNat)
        (by omega) (by omega)
    refine ⟨bytes, by rw [encodeColumns, if_neg hne, hdelta, hbytes], ?_⟩
    rw [Record.readColumns, if_neg (by omega)]
    exact consumes_readSigned hbytes
  · rw [UInt32.lt_iff_toNat_lt] at hcolumn
    have hdelta : (s.endColumn - s.startColumn).toNat =
        s.endColumn.toNat - s.startColumn.toNat :=
      UInt32.toNat_sub_of_le _ _ (UInt32.le_iff_toNat_le.2 (by omega))
    obtain ⟨bytes, hbytes⟩ :=
      encode_isOk (n := s.endColumn.toNat - s.startColumn.toNat) (by omega)
    refine ⟨bytes, by rw [encodeColumns, if_pos (by rw [hline, UInt32.sub_self]), hdelta,
      hbytes], ?_⟩
    rw [Record.readColumns, if_pos (by rw [hline, Nat.sub_self]),
      show (s.endColumn.toNat : Int) - s.startColumn.toNat =
        ((s.endColumn.toNat - s.startColumn.toNat : Nat) : Int) by omega]
    exact (consumes_read hbytes).map fun n => (n : Int)

def baseOf (prev : Option Span) : Option (UInt32 × UInt32) :=
  prev.map fun s => (s.startLine, s.startColumn)

@[simp] theorem baseOf_none : baseOf none = none := rfl

theorem nextBase_baseOf (prev span : Option Span) :
    nextBase (baseOf prev) span = baseOf (span.or prev) := by
  cases span <;> rfl

/-- The last visible range behind a point is valid when that of the point is. -/
theorem valid_of_or {prev span : Option Span} (hprev : ∀ a, prev = some a → a.Valid)
    (hspan : ∀ s, span = some s → s.Valid) : ∀ a, span.or prev = some a → a.Valid := by
  intro a ha
  rcases Option.or_eq_some_iff.1 ha with h | ⟨-, h⟩
  · exact hspan a h
  · exact hprev a h

theorem or_toList_suffix (prev span : Option Span) (rest : List Span) :
    (span.or prev).toList ++ rest <:+ prev.toList ++ (span.toList ++ rest) := by
  cases span with
  | none => exact List.suffix_rfl
  | some s => exact List.suffix_append _ _

theorem encodeStart_isOk {prev : Option Span} {s : Span}
    (hprev : ∀ a, prev = some a → a.Valid ∧ Near a s) (hs : s.Valid) :
    ∃ bytes, encodeStart (baseOf prev) s.startLine s.startColumn = .ok bytes ∧
      Consumes (Record.readStart (baseOf prev)) bytes
        (s.startLine.toNat, s.startColumn.toNat) := by
  have hline := hs.startLine_lt
  have hcolumn := hs.startColumn_lt
  cases prev with
  | none =>
      obtain ⟨lineBytes, hlineBytes⟩ := encode_isOk (n := s.startLine.toNat) (by omega)
      obtain ⟨columnBytes, hcolumnBytes⟩ :=
        encode_isOk (n := s.startColumn.toNat) (by omega)
      refine ⟨lineBytes ++ columnBytes, ?_, ?_⟩
      · simp only [baseOf, Option.map_none, encodeStart, hlineBytes, hcolumnBytes]
        rfl
      · exact (consumes_read hlineBytes).bind ((consumes_read hcolumnBytes).map _)
  | some a =>
      obtain ⟨ha, hnear⟩ := hprev a rfl
      have haLine := ha.startLine_lt
      have haColumn := ha.startColumn_lt
      have hlineDelta := signedDelta_eq s.startLine a.startLine (by omega) (by omega)
      have hcolumnDelta := signedDelta_eq s.startColumn a.startColumn (by omega) (by omega)
      obtain ⟨lineBytes, hlineBytes⟩ := encodeSigned_isOk hnear.1 hnear.2
      obtain ⟨columnBytes, hcolumnBytes⟩ := encodeSigned_isOk
        (n := (s.startColumn.toNat : Int) - a.startColumn.toNat) (by omega) (by omega)
      refine ⟨lineBytes ++ columnBytes, ?_, ?_⟩
      · simp only [baseOf, Option.map_some, encodeStart, hlineDelta, hcolumnDelta,
          hlineBytes, hcolumnBytes]
        rfl
      · refine (consumes_readSigned hlineBytes).bind
          ((consumes_readSigned hcolumnBytes).last ?_)
        rw [show (a.startLine.toNat : Int) + (s.startLine.toNat - a.startLine.toNat) =
            s.startLine.toNat by omega,
          show (a.startColumn.toNat : Int) + (s.startColumn.toNat - a.startColumn.toNat) =
            s.startColumn.toNat by omega]
        exact Consumes.pure _

theorem encodeStart_isError {a s : Span} (ha : a.Valid) (hs : s.Valid) (hfar : ¬Near a s) :
    ∃ e, encodeStart (baseOf (some a)) s.startLine s.startColumn = .error e := by
  have hline := hs.startLine_lt
  have haLine := ha.startLine_lt
  have hdelta := signedDelta_eq s.startLine a.startLine (by omega) (by omega)
  have herror := encodeSigned_eq_error hfar
  exact ⟨_, by simp only [baseOf, Option.map_some, encodeStart, hdelta, herror]; rfl⟩

/-- The end of a visible record. The check is a variable here, because on the numbers of a
range it would be evaluated. -/
theorem consumes_range {check : Int → Int → Int → Int → Option Span}
    {start : Reader (Int × Int)} {bytes : List UInt8} {line column columns : Int}
    {lines ilDelta : Nat} {s : Span} (hstart : Consumes start bytes (line, column))
    (hcheck : check line column (line + lines) (column + columns) = some s) :
    Consumes
      (do
        let (line, column) ← start
        match check line column (line + lines) (column + columns) with
        | some span => return (Record.point ilDelta (some span),
            ⟨true, some (span.startLine, span.startColumn)⟩)
        | none => throw .invalidSequencePoint)
      bytes
      (.point ilDelta (some s),
        (⟨true, some (s.startLine, s.startColumn)⟩ : Record.Context)) := by
  apply hstart.last
  simp only [hcheck]
  exact Consumes.pure _

/-! ### The list -/

theorem encodeSpan_isError {a s : Span} (ha : a.Valid) (hs : s.Valid) (hfar : ¬Near a s) :
    ∃ e, encodeSpan (baseOf (some a)) (some s) = .error e := by
  obtain ⟨lineBytes, hlineBytes⟩ :=
    encode_isOk (n := (s.endLine - s.startLine).toNat) hs.lines_lt
  obtain ⟨columnBytes, hcolumnBytes, -⟩ := encodeColumns_isOk hs
  obtain ⟨e, he⟩ := encodeStart_isError ha hs hfar
  exact ⟨e, by simp only [encodeSpan, hlineBytes, hcolumnBytes, he]; rfl⟩

/-- A point of a valid list, behind a last visible range that is near enough. -/
theorem encodeSpan_isOk {prev span : Option Span} (hspan : ∀ s, span = some s → s.Valid)
    (hprev : ∀ a s, prev = some a → span = some s → a.Valid ∧ Near a s) :
    ∃ bytes, encodeSpan (baseOf prev) span = .ok bytes ∧
      ∀ {started : Bool} {ilDelta : Nat} {deltaBytes : List UInt8},
        encode ilDelta = .ok deltaBytes → (started = true → ilDelta ≠ 0) →
        Consumes (Record.read ⟨started, baseOf prev⟩) (deltaBytes ++ bytes)
          (.point ilDelta span, ⟨true, baseOf (span.or prev)⟩) := by
  cases span with
  | none =>
      obtain ⟨zero, hzero⟩ := encode_isOk (n := 0) (by decide)
      refine ⟨zero ++ zero, by simp only [encodeSpan, hzero]; rfl, ?_⟩
      intro started ilDelta deltaBytes hdelta hstarted
      apply (consumes_read hdelta).bind
      rw [if_neg (fun h => hstarted h.2 h.1)]
      have hcolumns : Consumes (Record.readColumns 0) zero 0 := by
        rw [Record.readColumns, if_pos rfl]
        exact (consumes_read hzero).map fun n => (n : Int)
      refine (consumes_read hzero).bind (hcolumns.last ?_)
      rw [if_pos ⟨rfl, rfl⟩]
      exact Consumes.pure _
  | some s =>
      have hs := hspan s rfl
      have hle := hs.startLine_le
      have hlines := hs.toNat_lines
      obtain ⟨lineBytes, hlineBytes⟩ :=
        encode_isOk (n := s.endLine.toNat - s.startLine.toNat) (hlines ▸ hs.lines_lt)
      obtain ⟨columnBytes, hcolumnBytes, hreadColumns⟩ := encodeColumns_isOk hs
      obtain ⟨startBytes, hstartBytes, hreadStart⟩ :=
        encodeStart_isOk (fun a ha => hprev a s ha rfl) hs
      refine ⟨lineBytes ++ columnBytes ++ startBytes, ?_, ?_⟩
      · simp only [encodeSpan, hlines, hlineBytes, hcolumnBytes, hstartBytes]
        rfl
      · intro started ilDelta deltaBytes hdelta hstarted
        -- Zero lines and zero columns would be taken for a hidden point.
        have hvisible : ¬(s.endLine.toNat - s.startLine.toNat = 0 ∧
            (s.endColumn.toNat : Int) - s.startColumn.toNat = 0) := by
          have hordered := hs.ordered
          rw [UInt32.lt_iff_toNat_lt, UInt32.lt_iff_toNat_lt,
            ← UInt32.toNat_inj] at hordered
          omega
        have haccepted : Span.ofInts? s.startLine.toNat s.startColumn.toNat
            (s.startLine.toNat + (s.endLine.toNat - s.startLine.toNat : Nat))
            (s.startColumn.toNat + (s.endColumn.toNat - s.startColumn.toNat)) = some s :=
          Span.ofInts?_eq_some_iff.2 ⟨hs, rfl, rfl, by omega, by omega⟩
        apply (consumes_read hdelta).bind
        rw [if_neg (fun h => hstarted h.2 h.1), List.append_assoc]
        refine (consumes_read hlineBytes).bind (hreadColumns.bind ?_)
        rw [if_neg hvisible]
        exact consumes_range hreadStart haccepted

/-- A valid list whose successive ranges are near one another is written, and reads back
step by step. -/
theorem encodeFrom_isOk {marks : List Mark} {started : Bool} {ilOffset : UInt32}
    (h : Follows started ilOffset marks) :
    ∀ {prev : Option Span}, (∀ a, prev = some a → a.Valid) →
      (∀ a b, [a, b] <:+: prev.toList ++ spans marks → Near a b) →
      ∃ bytes, encodeFrom ilOffset (baseOf prev) marks = .ok bytes ∧
        Steps Record.read ⟨started, baseOf prev⟩ bytes (records ilOffset.toNat marks) := by
  induction h with
  | nil =>
      intro prev _ _
      exact ⟨[], rfl, .nil _⟩
  | @document ilOffset row rest hrow _ ih =>
      intro prev hprev hnear
      obtain ⟨zero, hzero⟩ := encode_isOk (n := 0) (by decide)
      obtain ⟨rowBytes, hrowBytes⟩ := encode_isOk hrow
      obtain ⟨bytes, hbytes, hsteps⟩ := ih hprev hnear
      refine ⟨zero ++ rowBytes ++ bytes, ?_, ?_⟩
      · simp only [encodeFrom, hzero, hrowBytes, hbytes]
        rfl
      · refine .cons ?_ (by simp [encode_ne_nil hzero]) hsteps
        apply (consumes_read hzero).bind
        rw [if_pos ⟨rfl, rfl⟩]
        exact (consumes_read hrowBytes).map _
  | @point started ilOffset p rest hle hlt hbound hspan _ ih =>
      intro prev hprev hnear
      rw [spans_point] at hnear
      have hdelta : (p.ilOffset - ilOffset).toNat = p.ilOffset.toNat - ilOffset.toNat :=
        UInt32.toNat_sub_of_le _ _ hle
      obtain ⟨deltaBytes, hdeltaBytes⟩ :=
        encode_isOk (n := p.ilOffset.toNat - ilOffset.toNat) (by omega)
      obtain ⟨spanBytes, hspanBytes, hread⟩ := encodeSpan_isOk hspan fun a s ha hs => by
        refine ⟨hprev a ha, hnear a s ?_⟩
        rw [ha, hs]
        exact ⟨[], spans rest, rfl⟩
      obtain ⟨bytes, hbytes, hsteps⟩ := ih (valid_of_or hprev hspan) fun a b hab =>
        hnear a b (hab.trans (or_toList_suffix prev p.span (spans rest)).isInfix)
      refine ⟨deltaBytes ++ spanBytes ++ bytes, ?_, ?_⟩
      · simp only [encodeFrom, hdelta, hdeltaBytes, hspanBytes, nextBase_baseOf, hbytes]
        rfl
      · refine .cons (hread hdeltaBytes fun hstarted => ?_)
          (by simp [encode_ne_nil hdeltaBytes]) hsteps
        have hstrict := UInt32.lt_iff_toNat_lt.1 (hlt hstarted)
        omega

/-- Two successive ranges that are too far apart stop the writer. -/
theorem encodeFrom_isError {marks : List Mark} {started : Bool} {ilOffset : UInt32}
    (h : Follows started ilOffset marks) {a b : Span} (hfar : ¬Near a b) :
    ∀ {prev : Option Span}, (∀ c, prev = some c → c.Valid) →
      [a, b] <:+: prev.toList ++ spans marks →
      ∃ e, encodeFrom ilOffset (baseOf prev) marks = .error e := by
  induction h with
  | nil =>
      intro prev _ hab
      have hlength := hab.length_le
      cases prev <;> simp at hlength
  | @document ilOffset row rest hrow _ ih =>
      intro prev hprev hab
      obtain ⟨zero, hzero⟩ := encode_isOk (n := 0) (by decide)
      obtain ⟨rowBytes, hrowBytes⟩ := encode_isOk hrow
      obtain ⟨e, he⟩ := ih hprev hab
      exact ⟨e, by simp only [encodeFrom, hzero, hrowBytes, he]; rfl⟩
  | @point started ilOffset p rest hle hlt hbound hspan _ ih =>
      intro prev hprev hab
      rw [spans_point] at hab
      have hdelta : (p.ilOffset - ilOffset).toNat = p.ilOffset.toNat - ilOffset.toNat :=
        UInt32.toNat_sub_of_le _ _ hle
      obtain ⟨deltaBytes, hdeltaBytes⟩ :=
        encode_isOk (n := p.ilOffset.toNat - ilOffset.toNat) (by omega)
      -- Either the two ranges meet at this point, or this point is written and they are
      -- still to come.
      by_cases hhere : ∀ c s, prev = some c → p.span = some s → Near c s
      · obtain ⟨spanBytes, hspanBytes, -⟩ :=
          encodeSpan_isOk hspan fun c s hc hs => ⟨hprev c hc, hhere c s hc hs⟩
        have hrest : [a, b] <:+: (p.span.or prev).toList ++ spans rest := by
          cases hs : p.span with
          | none => simpa [hs] using hab
          | some s =>
              cases hp : prev with
              | none => simpa [hs, hp] using hab
              | some c =>
                  have hcons :
                    [a, b] <:+: c :: s :: spans rest := by simpa [hs, hp] using hab
                  rcases List.infix_cons_iff.1 hcons with hprefix | hinfix
                  · obtain ⟨hac, hprefix⟩ := List.cons_prefix_cons.1 hprefix
                    obtain ⟨hbs, -⟩ := List.cons_prefix_cons.1 hprefix
                    exact absurd (hac ▸ hbs ▸ hhere c s hp hs) hfar
                  · exact hinfix
        obtain ⟨e, he⟩ := ih (valid_of_or hprev hspan) hrest
        exact ⟨e, by simp only [encodeFrom, hdelta, hdeltaBytes, hspanBytes,
          nextBase_baseOf, he]; rfl⟩
      · simp only [not_forall] at hhere
        obtain ⟨c, s, hc, hs, hfar⟩ := hhere
        obtain ⟨e, he⟩ := encodeSpan_isError (hprev c hc) (hspan s hs) hfar
        exact ⟨e, by simp only [encodeFrom, hdelta, hdeltaBytes, hc, hs, he]; rfl⟩

theorem encodeBlob_eq {localSignature : UInt32} {signature : List UInt8}
    (hsignature : encode localSignature.toNat = .ok signature) (marks : List Mark) :
    encodeBlob localSignature none marks =
      (encodeFrom 0 none marks).map (signature ++ ·) := by
  simp only [encodeBlob, hsignature]
  cases h : encodeFrom 0 none marks with
  | error e => rfl
  | ok bytes =>
      change Except.ok ((signature ++ []) ++ bytes) = _
      rw [List.append_nil]
      rfl

/-- A valid list has a blob unless two successive visible ranges start too far apart. -/
theorem encodeBlob_isError_iff {localSignature : UInt32} {marks : List Mark}
    (hsignature : localSignature.toNat < 2 ^ 29) (hmarks : Valid marks) :
    (∃ e, encodeBlob localSignature none marks = .error e) ↔
      ∃ a b, [a, b] <:+: spans marks ∧ ¬Near a b := by
  obtain ⟨signature, hsignature⟩ := encode_isOk hsignature
  have hprev : ∀ c, (none : Option Span) = some c → c.Valid := by simp
  rw [encodeBlob_eq hsignature]
  constructor
  · rintro ⟨e, he⟩
    by_contra hnear
    simp only [not_exists, not_and, not_not] at hnear
    obtain ⟨bytes, hbytes, -⟩ := encodeFrom_isOk hmarks.follows hprev (by simpa using hnear)
    rw [baseOf_none] at hbytes
    rw [hbytes] at he
    cases he
  · rintro ⟨a, b, hab, hfar⟩
    obtain ⟨e, he⟩ := encodeFrom_isError hmarks.follows hfar hprev (by simpa using hab)
    rw [baseOf_none] at he
    exact ⟨e, by rw [he]; rfl⟩

/-- What the writer answers for a valid list is read to its end. -/
theorem readAll_of_encodeBlob {localSignature document : UInt32} {marks : List Mark}
    {bytes : List UInt8} (hsignature : localSignature.toNat < 2 ^ 29)
    (hdocument : document ≠ 0) (hmarks : Valid marks)
    (hbytes : encodeBlob localSignature none marks = .ok bytes) :
    Record.readAll document (Cursor.ofBytes bytes.toByteArray) = .ok (records 0 marks)
      ((Cursor.ofBytes bytes.toByteArray).advance bytes.length) := by
  have hnear : ∀ a b, [a, b] <:+: spans marks → Near a b := by
    intro a b hab
    by_contra hfar
    obtain ⟨e, he⟩ := (encodeBlob_isError_iff hsignature hmarks).2 ⟨a, b, hab, hfar⟩
    rw [hbytes] at he
    cases he
  have hprev : ∀ c, (none : Option Span) = some c → c.Valid := by simp
  obtain ⟨signature, hsignature⟩ := encode_isOk hsignature
  obtain ⟨recordBytes, hrecordBytes, hsteps⟩ :=
    encodeFrom_isOk hmarks.follows hprev (by simpa using hnear)
  rw [baseOf_none] at hrecordBytes hsteps
  rw [encodeBlob_eq hsignature, hrecordBytes] at hbytes
  obtain rfl : signature ++ recordBytes = bytes := Except.ok.inj hbytes
  have hall : (Cursor.ofBytes (signature ++ recordBytes).toByteArray).Ahead
      (signature ++ recordBytes) :=
    Cursor.ahead_ofBytes _
  rw [Record.readAll, bind_of_ok (consumes_read hsignature _ hall.left)]
  simp only [hdocument, if_false]
  rw [hsteps.untilEnd hall.right (by simp), Cursor.advance_advance, List.length_append]
  rfl

/-! ### Offsets added up -/

/-- The distance between two offsets leads from the one to the other. -/
theorem resolveFrom_point (method : Nat) {ilOffset : UInt32} {p : SequencePoint}
    (hle : ilOffset ≤ p.ilOffset) (hbound : p.ilOffset.toNat < 0x20000000)
    (read : Array SequencePoint) (rest : List Record) :
    resolveFrom method ilOffset.toNat read
      (.point (p.ilOffset.toNat - ilOffset.toNat) p.span :: rest) =
      resolveFrom method p.ilOffset.toNat (read.push p) rest := by
  have hsum : ilOffset.toNat + (p.ilOffset.toNat - ilOffset.toNat) = p.ilOffset.toNat := by
    have := UInt32.le_iff_toNat_le.1 hle
    omega
  have hword : p.ilOffset.toNat.toUInt32 = p.ilOffset := by simp
  rw [resolveFrom, hsum, hword, if_pos (by rw [lineLimit]; exact hbound)]

/-- Behind the records of the points before them, the points of a list without changes of
document. -/
theorem resolveFrom_points {marks : List Mark} {started : Bool} {ilOffset : UInt32}
    (h : Follows started ilOffset marks) (method : Nat)
    (hdocument : ∀ row, .document row ∉ marks) :
    ∀ read : Array SequencePoint,
      resolveFrom method ilOffset.toNat read (records ilOffset.toNat marks) =
      .ok (read ++ (points marks).toArray) := by
  induction h with
  | nil => simp [records, resolveFrom]
  | @document ilOffset row rest hrow _ ih => exact absurd (by simp) (hdocument row)
  | @point started ilOffset p rest hle hlt hbound hspan _ ih =>
      intro read
      rw [records, resolveFrom_point method hle hbound,
        ih fun row hrow => hdocument row (by simp [hrow])]
      simp

theorem resolve_points {marks : List Mark} (hmarks : Valid marks) (method : Nat)
    (hdocument : ∀ row, .document row ∉ marks) :
    resolve method (records 0 marks) = .ok (points marks) := by
  have hpoints := resolveFrom_points hmarks.follows method hdocument #[]
  change resolveFrom method 0 #[] (records 0 marks) = _ at hpoints
  rw [resolve, hpoints]
  simp [Except.map]

/-- The blob of a valid list without changes of document holds the points of the list. -/
theorem readBlob_of_encodeBlob {localSignature document : UInt32} {marks : List Mark}
    {bytes : List UInt8} (hsignature : localSignature.toNat < 2 ^ 29)
    (hdocument : document ≠ 0) (hmarks : Valid marks) (hstay : ∀ row, .document row ∉ marks)
    (hbytes : encodeBlob localSignature none marks = .ok bytes) (method : Nat) :
    readBlob method document bytes.toByteArray = .ok (points marks) := by
  have hread :=
    run_eq_ok_iff.2 ⟨_, readAll_of_encodeBlob hsignature hdocument hmarks hbytes⟩
  rw [readBlob, hread]
  exact resolve_points hmarks method hstay

/-- Points that change documents are given up, whatever was resolved before. -/
theorem resolveFrom_crossDocument {marks : List Mark} {started : Bool} {ilOffset : UInt32}
    (h : Follows started ilOffset marks) (method : Nat) {row : UInt32}
    (hdocument : .document row ∈ marks) :
    ∀ read : Array SequencePoint,
      resolveFrom method ilOffset.toNat read (records ilOffset.toNat marks) =
      .error (.crossDocumentMethod method) := by
  induction h with
  | nil => simp at hdocument
  | document _ _ _ => intro read; rfl
  | @point started ilOffset p rest hle hlt hbound hspan _ ih =>
      intro read
      rw [records, resolveFrom_point method hle hbound, ih (by simpa using hdocument)]

/-! ### The round trip -/

/-- Writer and reader on valid lists. The writer fails exactly on distances between lines
that have no compressed form. Otherwise the reader gets to the end of the blob, its
records are those of the list, and the offsets of a list that stays in one document add up
to its points. -/
theorem readAll_encodeBlob {localSignature document : UInt32} {marks : List Mark}
    (hsignature : localSignature.toNat < 2 ^ 29) (hdocument : document ≠ 0)
    (hmarks : Valid marks) (method : Nat) :
    ((∃ e, encodeBlob localSignature none marks = .error e) ↔
        ∃ a b, [a, b] <:+: spans marks ∧ ¬Near a b) ∧
      ∀ bytes, encodeBlob localSignature none marks = .ok bytes →
        Record.readAll document (Cursor.ofBytes bytes.toByteArray) =
          .ok (records 0 marks) ((Cursor.ofBytes bytes.toByteArray).advance bytes.length) ∧
        ((∀ row, .document row ∉ marks) →
          resolve method (records 0 marks) = .ok (points marks)) ∧
        ((∃ row, .document row ∈ marks) →
          resolve method (records 0 marks) = .error (.crossDocumentMethod method)) ∧
        ∀ p ∈ points marks, p.span = none → p.range = ⟨0xfeefee, 0, 0xfeefee, 0⟩ := by
  refine ⟨encodeBlob_isError_iff hsignature hmarks, fun bytes hbytes => ⟨?_, ?_, ?_, ?_⟩⟩
  · exact readAll_of_encodeBlob hsignature hdocument hmarks hbytes
  · exact resolve_points hmarks method
  · rintro ⟨row, hmark⟩
    have hcross := resolveFrom_crossDocument hmarks.follows method hmark #[]
    change resolveFrom method 0 #[] (records 0 marks) = _ at hcross
    rw [resolve, hcross]
    rfl
  · intro p _ hhidden
    rw [SequencePoint.range, hhidden]
    rfl

/-- The points of a loop. Its last point is again on the line of its first one, behind a
hidden point and a body of two lines. -/
def loop : List Mark :=
  [.point ⟨0, some ⟨10, 5, 10, 20⟩⟩, .point ⟨3, none⟩, .point ⟨4, some ⟨11, 9, 12, 10⟩⟩,
    .point ⟨300, some ⟨10, 22, 10, 25⟩⟩]

theorem loop_valid : Valid loop where
  first := by simp [loop]
  ascending := by decide
  offset_lt := by decide
  row_lt := by simp [loop]
  span_valid := by
    intro s hs
    simp only [loop, spans_point, spans_nil, Option.toList, List.nil_append,
      List.cons_append, List.mem_cons, List.not_mem_nil, or_false] at hs
    rcases hs with rfl | rfl | rfl <;> constructor <;> decide

theorem readAll_encodeBlob_loop :
    ∃ bytes, encodeBlob 0x11 none loop = .ok bytes ∧
      Record.readAll 1 (Cursor.ofBytes bytes.toByteArray) =
        .ok [.point 0 (some ⟨10, 5, 10, 20⟩), .point 3 none,
            .point 1 (some ⟨11, 9, 12, 10⟩), .point 296 (some ⟨10, 22, 10, 25⟩)]
          ((Cursor.ofBytes bytes.toByteArray).advance bytes.length) ∧
      resolve 7 (records 0 loop) = .ok (points loop) := by
  obtain ⟨hfails, hread⟩ := readAll_encodeBlob (by decide : (0x11 : UInt32).toNat < 2 ^ 29)
    (by decide : (1 : UInt32) ≠ 0) loop_valid 7
  cases hbytes : encodeBlob 0x11 none loop with
  | error e =>
      obtain ⟨a, b, hab, hfar⟩ := hfails.1 ⟨e, hbytes⟩
      have hline : ∀ s ∈ spans loop, s.startLine.toNat < 12 := by decide
      have ha := hline a (hab.subset (by simp))
      have hb := hline b (hab.subset (by simp))
      exact absurd ⟨by omega, by omega⟩ hfar
  | ok bytes =>
      obtain ⟨hall, hresolved, -⟩ := hread bytes hbytes
      exact ⟨bytes, rfl, hall, hresolved (by simp [loop])⟩

end Mark

end PortablePdb.SequencePoint
