import PortablePdb.Proofs.Document.Rows
import PortablePdb.Proofs.File.Parts
import PortablePdb.Proofs.SequencePoint.Resolution

/-!
The methods of accepted files. Nothing is assumed of the bytes: a method that is listed
was built from a row, its points were resolved from a blob, and the lines that it covers
are taken from these points.
-/

namespace PortablePdb

instance lawfulOrderMax : Std.LawfulOrderMax UInt32 :=
  .of_max_le_iff
    (fun a b c => by
      simp only [Max.max, UInt32.le_iff_toNat_le]
      split <;> omega)
    (fun a b => by
      simp only [Max.max]
      split <;> simp)

/-! ### Points -/

/-- A point as it is shown. Line `0xfeefee` is that of hidden points alone. -/
structure SequencePoint.WellFormed (p : SequencePoint) : Prop where
  offset_lt : p.ilOffset.toNat < 0x20000000
  hidden_iff_startLine : p.isHidden = true ↔ p.range.startLine = 0xfeefee
  hidden_iff_endLine : p.isHidden = true ↔ p.range.endLine = 0xfeefee
  hidden_columns : p.isHidden = true → p.range.startColumn = 0 ∧ p.range.endColumn = 0
  visible_lines : p.isHidden = false → p.range.startLine.toNat < 0x20000000 ∧
    p.range.endLine.toNat < 0x20000000 ∧ p.range.startLine ≤ p.range.endLine
  visible_columns : p.isHidden = false →
    p.range.startColumn.toNat < 0x10000 ∧ p.range.endColumn.toNat < 0x10000 ∧
      (p.range.startLine = p.range.endLine → p.range.startColumn < p.range.endColumn)

theorem SequencePoint.wellFormed_of_span_valid {p : SequencePoint}
    (hoffset : p.ilOffset.toNat < 0x20000000)
    (hspan : ∀ s, p.span = some s → s.Valid) : p.WellFormed := by
  cases h : p.span with
  | none =>
      have hhidden : p.isHidden = true := by simp [isHidden, h]
      have hrange : p.range = ⟨0xfeefee, 0, 0xfeefee, 0⟩ := by
        rw [range, h]
        rfl
      constructor <;> simp [hhidden, hrange, hoffset]
  | some s =>
      have hs := hspan s h
      have hvisible : p.isHidden = false := by simp [isHidden, h]
      have hrange : p.range = s := by simp [range, h]
      refine ⟨hoffset, ?_, ?_, ?_, fun _ => ?_, fun _ => ?_⟩
      · simp [hvisible, hrange, hs.startLine_ne]
      · simp [hvisible, hrange, hs.endLine_ne]
      · simp [hvisible]
      · rw [hrange]
        exact ⟨hs.startLine_lt, hs.endLine_lt, UInt32.le_iff_toNat_le.2 hs.startLine_le⟩
      · rw [hrange]
        refine ⟨hs.startColumn_lt, hs.endColumn_lt, fun hline => ?_⟩
        rcases hs.ordered with hlt | ⟨-, hcolumn⟩
        · rw [hline] at hlt
          exact absurd hlt (UInt32.lt_irrefl _)
        · exact hcolumn

/-! ### Methods -/

namespace Method

structure WellFormed (m : Method) : Prop where
  ascending : m.points.Pairwise fun p q => p.ilOffset < q.ilOffset
  points : ∀ p ∈ m.points, p.WellFormed
  firstLine_eq_none : m.firstLine = none ↔ ∀ p ∈ m.points, p.isHidden = true
  lastLine_eq_none : m.lastLine = none ↔ ∀ p ∈ m.points, p.isHidden = true
  firstLine_eq_some : ∀ line, m.firstLine = some line ↔
    (∃ p ∈ m.points, p.isHidden = false ∧ p.range.startLine = line) ∧
      ∀ p ∈ m.points, p.isHidden = false → line ≤ p.range.startLine
  lastLine_eq_some : ∀ line, m.lastLine = some line ↔
    (∃ p ∈ m.points, p.isHidden = false ∧ p.range.endLine = line) ∧
      ∀ p ∈ m.points, p.isHidden = false → p.range.endLine ≤ line

/-- The ranges of a method are those shown for its visible points. -/
theorem mem_spans_iff {m : Method} {s : Span} :
    s ∈ m.spans ↔ ∃ p ∈ m.points, p.isHidden = false ∧ p.range = s := by
  have hshown (p : SequencePoint) : p.span = some s ↔ p.isHidden = false ∧ p.range = s := by
    cases h : p.span <;> simp [SequencePoint.isHidden, SequencePoint.range, h]
  simp only [spans, List.mem_filterMap, hshown]

theorem spans_eq_nil_iff {m : Method} :
    m.spans = [] ↔ ∀ p ∈ m.points, p.isHidden = true := by
  simp [spans, SequencePoint.isHidden]

theorem wellFormed_of_resolved {m : Method} (hpoints : SequencePoint.Resolved m.points) :
    m.WellFormed where
  ascending := hpoints.ascending
  points p hp := SequencePoint.wellFormed_of_span_valid (hpoints.offset_lt p hp)
    (hpoints.span_valid p hp)
  firstLine_eq_none := by simp [firstLine, spans_eq_nil_iff]
  lastLine_eq_none := by simp [lastLine, spans_eq_nil_iff]
  firstLine_eq_some line := by
    simp only [firstLine, List.min?_eq_some_iff, List.mem_map, mem_spans_iff]
    grind
  lastLine_eq_some line := by
    simp only [lastLine, List.max?_eq_some_iff, List.mem_map, mem_spans_iff]
    grind

theorem resolved_of_build {heaps : Heaps} {scopes : Array (List Scope)} {index : Nat}
    {row : MethodRow} {m : Method} (h : buildShared heaps scopes index row = .ok m) :
    SequencePoint.Resolved m.points := by
  obtain ⟨points, hpoints, rfl⟩ := buildShared_eq_ok_iff.1 h
  rw [pointsOf] at hpoints
  split at hpoints
  case isTrue =>
    obtain rfl := Except.ok.inj hpoints
    exact ⟨.nil, by simp, by simp⟩
  case isFalse =>
    obtain ⟨blob, -, hblob⟩ := Outcome.bind_eq_ok_iff.1 hpoints
    exact SequencePoint.resolved_of_readBlob hblob

end Method

theorem Document.exists_row_of_buildAll {heaps : Heaps} {tables : Tables}
    {documents : List Document} (h : buildAll heaps tables = .ok documents) {d : Document}
    (hd : d ∈ documents) {m : Method} (hm : m ∈ d.methods) :
    ∃ scopes index row, Method.buildShared heaps scopes index row = .ok m := by
  obtain ⟨-, scopes, -, hdocuments⟩ := buildAll_eq_ok_iff.1 h
  obtain ⟨⟨index, row⟩, -, hbuilt⟩ := Outcome.exists_of_forall₂ hdocuments d hd
  obtain ⟨⟨method, methodRow⟩, -, hmethod⟩ := Outcome.exists_of_forall₂ hbuilt.methods m hm
  exact ⟨_, method, methodRow, hmethod⟩

/-! ### Files -/

/-- Every method of every file that is accepted is well formed. -/
theorem File.wellFormed_of_parse {data : ByteArray} {file : File}
    (h : parse data = .ok file) :
    ∀ d ∈ file.documents, ∀ m ∈ d.methods, m.WellFormed := by
  intro d hd m hm
  obtain ⟨heaps, hparsed⟩ := parse_eq_ok_iff.1 h
  obtain ⟨scopes, index, row, hbuild⟩ :=
    Document.exists_row_of_buildAll hparsed.documents (Array.mem_toList_iff.2 hd) hm
  exact Method.wellFormed_of_resolved (Method.resolved_of_build hbuild)

theorem File.wellFormed_of_parse_sample :
    ∃ file, parse sample = .ok file ∧ ∃ d ∈ file.documents, ∃ m ∈ d.methods,
      m.points.map (·.isHidden) = [false, true, false] ∧ m.firstLine = some 8 ∧
      m.lastLine = some 12 ∧ m.WellFormed := by
  have hmethod : ((parse sample).toOption.any fun file => file.documents.any fun d =>
    d.methods.any fun m =>
      m.points.map (·.isHidden) = [false, true, false] ∧ m.firstLine = some 8 ∧
        m.lastLine = some 12) = true := by
    decide +kernel
  obtain ⟨file, hparse, hfile⟩ := Outcome.any_toOption_iff.1 hmethod
  simp only [Array.any_eq_true', List.any_eq_true, decide_eq_true_eq] at hfile
  obtain ⟨d, hd, m, hm, hpoints, hfirst, hlast⟩ := hfile
  exact ⟨file, hparse, d, hd, m, hm, hpoints, hfirst, hlast,
    wellFormed_of_parse hparse d hd m hm⟩

end PortablePdb
