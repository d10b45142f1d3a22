import PortablePdb.Proofs.ByteOrder
import PortablePdb.SequencePoint.Basic

/-!
The ranges of source text that a reader accepts, and the check of four numbers that
produces them. The numbers of an accepted range are those that were checked,
`ofInts?_eq_some_iff`: nothing is lost where they become words.
-/

namespace PortablePdb.Span

structure Valid (s : Span) : Prop where
  startLine_lt : s.startLine.toNat < 0x20000000
  endLine_lt : s.endLine.toNat < 0x20000000
  startLine_ne : s.startLine ≠ 0xfeefee
  endLine_ne : s.endLine ≠ 0xfeefee
  startColumn_lt : s.startColumn.toNat < 0x10000
  endColumn_lt : s.endColumn.toNat < 0x10000
  /-- The end lies behind the start. -/
  ordered : s.startLine < s.endLine ∨ s.startLine = s.endLine ∧ s.startColumn < s.endColumn

theorem isLine_iff {line : Int} :
    isLine line = true ↔ ∃ n : Nat, line = n ∧ n < 0x20000000 ∧ n ≠ 0xfeefee := by
  have hhidden : hiddenLine.toNat = 0xfeefee := rfl
  simp only [isLine, Bool.and_eq_true, decide_eq_true_eq, bne_iff_ne]
  rw [hhidden, lineLimit]
  constructor
  · intro h
    exact ⟨line.toNat, by omega, by omega, by omega⟩
  · rintro ⟨n, rfl, hlt, hne⟩
    omega

theorem isColumn_iff {column : Int} :
    isColumn column = true ↔ ∃ n : Nat, column = n ∧ n < 0x10000 := by
  simp only [isColumn, Bool.and_eq_true, decide_eq_true_eq]
  rw [columnLimit]
  constructor
  · intro h
    exact ⟨column.toNat, by omega, by omega⟩
  · rintro ⟨n, rfl, hlt⟩
    omega

theorem Valid.isLine_start {s : Span} (hs : s.Valid) : isLine s.startLine.toNat = true :=
  isLine_iff.2 ⟨_, rfl, hs.startLine_lt, fun h => hs.startLine_ne (UInt32.toNat_inj.1 h)⟩

theorem Valid.isLine_end {s : Span} (hs : s.Valid) : isLine s.endLine.toNat = true :=
  isLine_iff.2 ⟨_, rfl, hs.endLine_lt, fun h => hs.endLine_ne (UInt32.toNat_inj.1 h)⟩

theorem Valid.startLine_le {s : Span} (hs : s.Valid) :
    s.startLine.toNat ≤ s.endLine.toNat := by
  have hordered := hs.ordered
  rw [UInt32.lt_iff_toNat_lt, ← UInt32.toNat_inj] at hordered
  omega

theorem Valid.toNat_lines {s : Span} (hs : s.Valid) :
    (s.endLine - s.startLine).toNat = s.endLine.toNat - s.startLine.toNat :=
  UInt32.toNat_sub_of_le _ _ (UInt32.le_iff_toNat_le.2 hs.startLine_le)

theorem Valid.lines_lt {s : Span} (hs : s.Valid) :
    (s.endLine - s.startLine).toNat < 2 ^ 29 := by
  have hend := hs.endLine_lt
  rw [hs.toNat_lines]
  omega

/-- The check accepts the numbers of a valid range, and no others. -/
theorem ofInts?_eq_some_iff {startLine startColumn endLine endColumn : Int} {s : Span} :
    ofInts? startLine startColumn endLine endColumn = some s ↔
      s.Valid ∧ startLine = s.startLine.toNat ∧ startColumn = s.startColumn.toNat ∧
        endLine = s.endLine.toNat ∧ endColumn = s.endColumn.toNat := by
  constructor
  · intro h
    unfold ofInts? at h
    split at h
    case isFalse => cases h
    case isTrue hcheck =>
      obtain ⟨hstart, hend, hstartColumn, hendColumn, hordered⟩ := hcheck
      obtain ⟨a, rfl, ha, hane⟩ := isLine_iff.1 hstart
      obtain ⟨b, rfl, hb, hbne⟩ := isLine_iff.1 hend
      obtain ⟨c, rfl, hc⟩ := isColumn_iff.1 hstartColumn
      obtain ⟨d, rfl, hd⟩ := isColumn_iff.1 hendColumn
      obtain rfl := Option.some.inj h
      have word {n : Nat} (hn : n < 0x20000000) : n.toUInt32.toNat = n :=
        toNat_toUInt32 (by omega)
      refine ⟨⟨?_, ?_, ?_, ?_, ?_, ?_, ?_⟩, ?_, ?_, ?_, ?_⟩ <;>
        simp only [Int.toNat_natCast, word ha, word hb,
          word (Nat.lt_trans hc (by decide)), word (Nat.lt_trans hd (by decide)), ne_eq,
          ← UInt32.toNat_inj, UInt32.lt_iff_toNat_lt] <;> first | assumption | omega
  · rintro ⟨hs, rfl, rfl, rfl, rfl⟩
    have hordered := hs.ordered
    rw [UInt32.lt_iff_toNat_lt, UInt32.lt_iff_toNat_lt, ← UInt32.toNat_inj] at hordered
    unfold ofInts?
    rw [if_pos ⟨hs.isLine_start, hs.isLine_end, isColumn_iff.2 ⟨_, rfl, hs.startColumn_lt⟩,
      isColumn_iff.2 ⟨_, rfl, hs.endColumn_lt⟩, by omega⟩]
    simp

instance (s : Span) : Decidable s.Valid :=
  decidable_of_iff (ofInts? s.startLine.toNat s.startColumn.toNat s.endLine.toNat
    s.endColumn.toNat = some s) (by simp [ofInts?_eq_some_iff])

end PortablePdb.Span
