import PortablePdb.Proofs.Compression
import PortablePdb.Proofs.SequencePoint.Span
import PortablePdb.SequencePoint.Record

/-!
What is true of the points that any blob resolves to. That their offsets ascend rests on
both passes. The reader takes every record behind the first that is at distance zero for a
change of document, so a point that is not first lies behind the one before it, and
changes of document do not resolve.
-/

namespace PortablePdb.SequencePoint

open Reader

/-- Points within the limits of the format. -/
structure Resolved (points : List SequencePoint) : Prop where
  ascending : points.Pairwise fun p q => p.ilOffset < q.ilOffset
  offset_lt : ∀ p ∈ points, p.ilOffset.toNat < 0x20000000
  span_valid : ∀ p ∈ points, ∀ s, p.span = some s → s.Valid

namespace Record

/-- Records as they can be read, `started` when there was a record before them. -/
inductive Readable : (started : Bool) → List Record → Prop
  | nil {started : Bool} : Readable started []
  | documentChange {document : Nat} {rest : List Record} (hrest : Readable true rest) :
      Readable true (.documentChange document :: rest)
  | point {started : Bool} {ilDelta : Nat} {span : Option Span} {rest : List Record}
      (hdelta : started = true → ilDelta ≠ 0) (hspan : ∀ s, span = some s → s.Valid)
      (hrest : Readable true rest) : Readable started (.point ilDelta span :: rest)

/-- What one record may be, in a context. -/
theorem read_cases {context next : Context} {record : Record} {c d : Cursor}
    (h : read context c = .ok (record, next) d) :
    (∃ document, record = .documentChange document ∧
      context.started = true ∧ next = context) ∨ ∃ ilDelta span,
      record = .point ilDelta span ∧ (context.started = true → ilDelta ≠ 0) ∧
      (∀ s, span = some s → s.Valid) ∧ next.started = true ∧ ilDelta < 2 ^ 29 := by
  obtain ⟨ilDelta, c₁, hread, h⟩ := Outcome.run_bind_eq_ok_iff.1 h
  by_cases hchange : ilDelta = 0 ∧ context.started = true
  · rw [if_pos hchange] at h
    obtain ⟨document, c₂, -, h⟩ := Outcome.run_bind_eq_ok_iff.1 h
    obtain ⟨heq, -⟩ := Outcome.run_pure_eq_ok_iff.1 h
    cases heq
    exact .inl ⟨document, rfl, hchange.2, rfl⟩
  · rw [if_neg hchange] at h
    have hdelta : context.started = true → ilDelta ≠ 0 :=
      fun hstarted hzero => hchange ⟨hzero, hstarted⟩
    have hlt := CompressedInt.read_lt hread
    obtain ⟨lines, c₂, -, h⟩ := Outcome.run_bind_eq_ok_iff.1 h
    obtain ⟨columns, c₃, -, h⟩ := Outcome.run_bind_eq_ok_iff.1 h
    by_cases hhidden : lines = 0 ∧ columns = 0
    · rw [if_pos hhidden] at h
      obtain ⟨heq, -⟩ := Outcome.run_pure_eq_ok_iff.1 h
      cases heq
      exact .inr ⟨ilDelta, none, rfl, hdelta, by simp, rfl, hlt⟩
    · rw [if_neg hhidden] at h
      obtain ⟨⟨line, column⟩, c₄, -, h⟩ := Outcome.run_bind_eq_ok_iff.1 h
      dsimp only at h
      generalize hspan :
        Span.ofInts? line column (line + lines) (column + columns) = span at h
      cases span with
      | none => cases h
      | some s =>
          obtain ⟨heq, -⟩ := Outcome.run_pure_eq_ok_iff.1 h
          cases heq
          refine .inr ⟨ilDelta, some s, rfl, hdelta, ?_, rfl, hlt⟩
          rintro _ ⟨⟩
          exact (Span.ofInts?_eq_some_iff.1 hspan).1

theorem readable_of_answers {context : Context} {records : List Record}
    (h : Answers read context records) : Readable context.started records := by
  induction h with
  | nil => exact .nil
  | @cons context next c d record rest hstep _ ih =>
      rcases read_cases hstep with ⟨document, rfl, hstarted, rfl⟩ | ⟨ilDelta, span, rfl,
        hdelta, hspan, hnext, -⟩
      · rw [hstarted] at ih ⊢
        exact .documentChange ih
      · rw [hnext] at ih
        exact .point hdelta hspan ih

theorem answers_of_readAll {document : UInt32} {records : List Record} {c d : Cursor}
    (h : readAll document c = .ok records d) : Answers read ⟨false, none⟩ records := by
  obtain ⟨signature, c₁, -, h⟩ := Outcome.run_bind_eq_ok_iff.1 h
  split at h
  · obtain ⟨first, c₂, -, h⟩ := Outcome.run_bind_eq_ok_iff.1 h
    exact answers_of_untilEnd h
  · exact answers_of_untilEnd h

/-- The records of any blob. -/
theorem readable_of_readAll {document : UInt32} {records : List Record} {c d : Cursor}
    (h : readAll document c = .ok records d) : Readable false records :=
  readable_of_answers (answers_of_readAll h)

/-- The distance of any point is a compressed integer. -/
theorem ilDelta_lt_of_answers {context : Context} {records : List Record}
    (h : Answers read context records) {ilDelta : Nat} {span : Option Span}
    (hmem : .point ilDelta span ∈ records) : ilDelta < 2 ^ 29 := by
  induction h with
  | nil => cases hmem
  | @cons context next c d record rest hstep _ ih =>
      rcases List.mem_cons.1 hmem with rfl | hmem
      · rcases read_cases hstep with ⟨_, ⟨⟩, -⟩ | ⟨_, _, ⟨⟩, -, -, -, hlt⟩
        exact hlt
      · exact ih hmem

end Record

/-- The points that are resolved behind an offset lie behind it, and properly so unless
they are the first. -/
theorem resolveFrom_cases {method : Nat} {started : Bool} {records : List Record}
    (hrecords : Record.Readable started records) :
    ∀ {ilOffset : Nat} {read result : Array SequencePoint},
      resolveFrom method ilOffset read records = .ok result →
      ∃ points, result = read ++ points.toArray ∧ Resolved points ∧ ∀ p ∈ points,
        ilOffset ≤ p.ilOffset.toNat ∧ (started = true → ilOffset < p.ilOffset.toNat) := by
  induction hrecords with
  | nil =>
      intro ilOffset read result h
      obtain rfl : read = result := Except.ok.inj h
      exact ⟨[], by simp, ⟨.nil, by simp, by simp⟩, by simp⟩
  | documentChange _ _ => intro ilOffset read result h; cases h
  | @point started ilDelta span rest hdelta hspan _ ih =>
      intro ilOffset read result h
      rw [resolveFrom] at h
      split at h
      case isFalse => cases h
      case isTrue hlimit =>
        -- The points behind this one are `started`, so they lie properly behind it.
        obtain ⟨points, rfl, hpoints, hbehind⟩ := ih h
        have hbound : ilOffset + ilDelta < 0x20000000 := by rwa [lineLimit] at hlimit
        have hword : (ilOffset + ilDelta).toUInt32.toNat = ilOffset + ilDelta :=
          toNat_toUInt32 (by omega)
        refine ⟨⟨(ilOffset + ilDelta).toUInt32, span⟩ :: points, by simp, ⟨?_, ?_, ?_⟩, ?_⟩
        · refine .cons (fun q hq => ?_) hpoints.ascending
          rw [UInt32.lt_iff_toNat_lt, hword]
          exact (hbehind q hq).2 rfl
        · intro p hp
          rcases List.mem_cons.1 hp with rfl | hp
          · rw [hword]
            exact hbound
          · exact hpoints.offset_lt p hp
        · intro p hp
          rcases List.mem_cons.1 hp with rfl | hp
          · exact hspan
          · exact hpoints.span_valid p hp
        · intro p hp
          rcases List.mem_cons.1 hp with rfl | hp
          · rw [hword]
            exact ⟨by omega, fun hstarted => by have := hdelta hstarted; omega⟩
          · obtain ⟨hle, hlt⟩ := hbehind p hp
            exact ⟨by omega, fun hstarted => by have := hlt rfl; omega⟩

/-- Whatever blob a method has, its points are within the limits of the format. -/
theorem resolved_of_readBlob {method : Nat} {document : UInt32} {blob : ByteArray}
    {points : List SequencePoint}
    (h : readBlob method document blob = .ok points) : Resolved points := by
  obtain ⟨records, hrecords, h⟩ := Outcome.bind_eq_ok_iff.1 h
  obtain ⟨d, hread⟩ := run_eq_ok_iff.1 hrecords
  rw [resolve] at h
  cases hfrom : resolveFrom method 0 #[] records with
  | error e => rw [hfrom] at h; cases h
  | ok result =>
      rw [hfrom] at h
      obtain ⟨points', rfl, hpoints, -⟩ :=
        resolveFrom_cases (Record.readable_of_readAll hread) hfrom
      obtain rfl := Except.ok.inj h
      simpa using hpoints

end PortablePdb.SequencePoint
