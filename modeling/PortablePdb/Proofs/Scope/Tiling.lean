import PortablePdb.Scope
import Mathlib

/-!
The rows that a list of scopes owns in another table. Each call of `RowRange.owned` sees
the row where a list begins and the row where the next one does. If no call fails, then
the lists begin one behind another and within the table (`owned_all_iff`), and their
ranges cover the table from the first list on, every row once (`InOrder.tiling`).
-/

namespace PortablePdb.RowRange

/-- The ranges of the lists that begin at these rows of a table of `size` rows. Each goes
on until the next list begins, and the last one until the end of the table. -/
def between (size : Nat) : List Nat → List RowRange
  | [] => []
  | first :: rest => ⟨first, rest.head?.getD (size + 1)⟩ :: between size rest

theorem getElem?_between (size : Nat) (firsts : List Nat) (i : Nat) :
    (between size firsts)[i]? = firsts[i]?.map fun first =>
      ⟨first, firsts[i + 1]?.getD (size + 1)⟩ := by
  induction firsts generalizing i with
  | nil => simp [between]
  | cons first rest ih =>
      cases i with
      | zero => simp [between, List.head?_eq_getElem?]
      | succ i => simpa [between] using ih i

/-- Lists that begin one behind another, at the rows of a table of `size` rows or behind
the last of them. -/
structure InOrder (size : Nat) (firsts : List Nat) : Prop where
  ascending : firsts.Pairwise (· ≤ ·)
  within : ∀ first ∈ firsts, 1 ≤ first ∧ first ≤ size + 1

/-- It is enough to compare each list with the next one, and the last one with the end of
the table. -/
theorem inOrder_cons_iff {size first : Nat} {rest : List Nat} :
    InOrder size (first :: rest) ↔
      (1 ≤ first ∧ first ≤ rest.head?.getD (size + 1)) ∧ InOrder size rest := by
  constructor
  · rintro ⟨hascending, hwithin⟩
    obtain ⟨hle, hrest⟩ := List.pairwise_cons.1 hascending
    obtain ⟨⟨hpos, hsize⟩, hmore⟩ := List.forall_mem_cons.1 hwithin
    refine ⟨⟨hpos, ?_⟩, hrest, hmore⟩
    cases rest with
    | nil => exact hsize
    | cons next _ => exact hle next (by simp)
  · rintro ⟨⟨hpos, hnext⟩, hrest⟩
    have hle : ∀ other ∈ rest, first ≤ other := by
      intro other hother
      cases rest with
      | nil => simp at hother
      | cons next more =>
          rcases List.mem_cons.1 hother with rfl | hmore
          · exact hnext
          · exact Nat.le_trans hnext ((List.pairwise_cons.1 hrest.ascending).1 other hmore)
    have hsize : first ≤ size + 1 := by
      cases rest with
      | nil => exact hnext
      | cons next _ => exact Nat.le_trans hnext (hrest.within next (by simp)).2
    exact ⟨.cons hle hrest.ascending, List.forall_mem_cons.2 ⟨⟨hpos, hsize⟩, hrest.within⟩⟩

/-! ### Checks -/

/-- The range of a list, when the next one begins within the table. Only then does the
minimum in `owned` drop out, and only then is a list at row zero refused. -/
theorem owned_eq_ok_iff {table : TableKind} {size first : Nat} {next : Option Nat}
    {range : RowRange} (hnext : ∀ n ∈ next, 1 ≤ n ∧ n ≤ size + 1) :
    owned table size first next = .ok range ↔ (1 ≤ first ∧ first ≤ next.getD (size + 1)) ∧
      range = ⟨first, next.getD (size + 1)⟩ := by
  have hstop : owned table size first next =
      (if next.getD (size + 1) < first then
        .error (.inconsistentRange table first (next.getD (size + 1)))
      else if first = 0 ∧ 0 < next.getD (size + 1) then .error (.invalidRowIndex table 0)
      else .ok ⟨first, next.getD (size + 1)⟩) := by
    cases next with
    | none => rfl
    | some n => simp only [owned, Option.getD_some, Nat.min_eq_right (hnext n rfl).2]
  have hpos : 1 ≤ next.getD (size + 1) := by
    cases next with
    | none => simp
    | some n => exact (hnext n rfl).1
  rw [hstop]
  split
  case isTrue hlt => simp [Nat.not_le.2 hlt]
  case isFalse hle =>
    split
    case isTrue hzero => simp [hzero.1]
    case isFalse hne =>
      have hfirst : 1 ≤ first := by omega
      simp [hfirst, Nat.not_lt.1 hle, eq_comm]

/-- All lists get a range exactly if they are in order. A single check lets row zero and
lists behind the table pass, so the induction goes from the last list to the first. -/
theorem owned_all_iff (table : TableKind) {size : Nat} {firsts : List Nat} :
    (∀ i first, firsts[i]? = some first →
      ∃ range, owned table size first firsts[i + 1]? = .ok range) ↔
      InOrder size firsts := by
  induction firsts with
  | nil => exact ⟨fun _ => ⟨.nil, by simp⟩, fun _ => by simp⟩
  | cons first rest ih =>
      rw [inOrder_cons_iff, ← ih]
      constructor
      · intro hall
        have hrest : ∀ i next, rest[i]? = some next →
            ∃ range, owned table size next rest[i + 1]? = .ok range :=
          fun i next hi => hall (i + 1) next (by simpa using hi)
        have hnext : ∀ n ∈ rest.head?, 1 ≤ n ∧ n ≤ size + 1 := fun n hn =>
          (ih.1 hrest).within n (List.mem_of_mem_head? hn)
        obtain ⟨range, hrange⟩ := hall 0 first (by simp)
        rw [List.getElem?_cons_succ, ← List.head?_eq_getElem?,
          owned_eq_ok_iff hnext] at hrange
        exact ⟨hrange.1, hrest⟩
      · rintro ⟨hfirst, hrest⟩ i other hi
        cases i with
        | zero =>
            obtain rfl : first = other := by simpa using hi
            have hnext : ∀ n ∈ rest.head?, 1 ≤ n ∧ n ≤ size + 1 := fun n hn =>
              (ih.1 hrest).within n (List.mem_of_mem_head? hn)
            rw [List.getElem?_cons_succ, ← List.head?_eq_getElem?]
            exact ⟨_, (owned_eq_ok_iff hnext).2 ⟨hfirst, rfl⟩⟩
        | succ i => exact hrest i other (by simpa using hi)

/-- The range that a check answers is the one between two lists. -/
theorem InOrder.getElem?_eq_of_owned {table : TableKind} {size : Nat} {firsts : List Nat}
    (h : InOrder size firsts)
    {i first : Nat} {range : RowRange} (hi : firsts[i]? = some first)
    (hrange : owned table size first firsts[i + 1]? = .ok range) :
    (between size firsts)[i]? = some range := by
  have hnext : ∀ n ∈ firsts[i + 1]?, 1 ≤ n ∧ n ≤ size + 1 :=
    fun n hn => h.within n (List.mem_of_getElem? hn)
  rw [getElem?_between, hi, ((owned_eq_ok_iff hnext).1 hrange).2]
  rfl

/-! ### Tiling -/

theorem mem_rows_iff {range : RowRange} {row : Nat} :
    row ∈ range.rows ↔ range.first ≤ row ∧ row < range.stop := by
  rw [rows, List.mem_range'_1]
  omega

/-- Ranges that lie one behind another and leave out no row from the first list on. -/
structure Tiling (size : Nat) (firsts : List Nat) (ranges : List RowRange) : Prop where
  range : ∀ i, ranges[i]? = firsts[i]?.map fun first =>
    RowRange.mk first (firsts[i + 1]?.getD (size + 1))
  first_le_stop : ∀ range ∈ ranges, 1 ≤ range.first ∧ range.first ≤ range.stop ∧
    range.stop ≤ size + 1
  adjacent : ranges.IsChain fun r s => r.stop = s.first
  ordered : ranges.Pairwise fun r s => r.stop ≤ s.first
  disjoint : ranges.Pairwise fun r s => r.rows.Disjoint s.rows
  owned_once : ∀ first ∈ firsts.head?, ∀ row, first ≤ row → row ≤ size →
    ∃! i : Nat, ∃ range : RowRange, ranges[i]? = some range ∧ row ∈ range.rows
  not_owned : ∀ first ∈ firsts.head?, ∀ row < first, ∀ range ∈ ranges, row ∉ range.rows

theorem first_mem_of_mem_between {size : Nat} {firsts : List Nat} {range : RowRange}
    (h : range ∈ between size firsts) : range.first ∈ firsts := by
  induction firsts with
  | nil => simp [between] at h
  | cons first rest ih =>
      rcases List.mem_cons.1 h with rfl | hrest
      · exact List.mem_cons_self
      · exact List.mem_cons_of_mem _ (ih hrest)

namespace InOrder

variable {size first : Nat} {rest firsts : List Nat}

theorem first_le (h : InOrder size (first :: rest)) {range : RowRange}
    (hrange : range ∈ between size (first :: rest)) :
    first ≤ range.first := by
  rcases List.mem_cons.1 (first_mem_of_mem_between hrange) with heq | hmem
  · exact Nat.le_of_eq heq.symm
  · exact (List.pairwise_cons.1 h.ascending).1 _ hmem

/-- One behind another, the rows of all ranges are those from the first list on. -/
theorem flatMap_rows (h : InOrder size (first :: rest)) :
    (between size (first :: rest)).flatMap rows = List.range' first (size + 1 - first) := by
  induction rest generalizing first with
  | nil => simp [between, rows]
  | cons next rest ih =>
      obtain ⟨⟨-, hnext⟩, hrest⟩ := inOrder_cons_iff.1 h
      have hsize := (hrest.within next (by simp)).2
      simp only [List.head?_cons, Option.getD_some] at hnext
      rw [between, List.flatMap_cons, ih hrest, rows]
      simp only [List.head?_cons, Option.getD_some]
      have hstart : first + (next - first) = next := by omega
      have hcount : size + 1 - first = (next - first) + (size + 1 - next) := by omega
      calc
        List.range' first (next - first) ++ List.range' next (size + 1 - next) =
            List.range' first (next - first) ++
              List.range' (first + (next - first)) (size + 1 - next) := by rw [hstart]
        _ = List.range' first (next - first + (size + 1 - next)) := List.range'_append_1
        _ = List.range' first (size + 1 - first) := by rw [hcount]

theorem first_le_stop (h : InOrder size firsts) {range : RowRange}
    (hrange : range ∈ between size firsts) :
    1 ≤ range.first ∧ range.first ≤ range.stop ∧ range.stop ≤ size + 1 := by
  induction firsts with
  | nil => simp [between] at hrange
  | cons first rest ih =>
      obtain ⟨⟨hpos, hnext⟩, hrest⟩ := inOrder_cons_iff.1 h
      rcases List.mem_cons.1 hrange with rfl | hmem
      · refine ⟨hpos, hnext, ?_⟩
        cases rest with
        | nil => exact Nat.le_refl _
        | cons next _ => exact (hrest.within next (by simp)).2
      · exact ih hrest hmem

theorem adjacent (h : InOrder size firsts) :
    (between size firsts).IsChain fun r s => r.stop = s.first := by
  induction firsts with
  | nil => exact .nil
  | cons first rest ih =>
      have hrest := ih (inOrder_cons_iff.1 h).2
      cases rest with
      | nil => exact .singleton _
      | cons next more => exact .cons_cons rfl hrest

theorem ordered (h : InOrder size firsts) :
    (between size firsts).Pairwise fun r s => r.stop ≤ s.first := by
  induction firsts with
  | nil => exact .nil
  | cons first rest ih =>
      have hrest := (inOrder_cons_iff.1 h).2
      refine .cons (fun s hs => ?_) (ih hrest)
      cases rest with
      | nil => simp [between] at hs
      | cons next more => exact hrest.first_le hs

theorem disjoint (h : InOrder size firsts) :
    (between size firsts).Pairwise fun r s => r.rows.Disjoint s.rows := by
  refine h.ordered.imp fun {r s} hle row hr hs => ?_
  have := (mem_rows_iff.1 hr).2
  have := (mem_rows_iff.1 hs).1
  omega

/-- A row from the first list on is in the range of one list alone. -/
theorem owned_once (h : InOrder size (first :: rest)) {row : Nat} (hfirst : first ≤ row)
    (hrow : row ≤ size) :
    ∃! i : Nat, ∃ range : RowRange, (between size (first :: rest))[i]? = some range ∧
      row ∈ range.rows := by
  have hmem : row ∈ (between size (first :: rest)).flatMap rows := by
    rw [h.flatMap_rows, List.mem_range'_1]
    omega
  obtain ⟨range, hrange, hin⟩ := List.mem_flatMap.1 hmem
  obtain ⟨i, hi⟩ := List.mem_iff_getElem?.1 hrange
  refine ⟨i, ⟨range, hi, hin⟩, ?_⟩
  rintro j ⟨other, hj, hother⟩
  obtain ⟨hlti, rfl⟩ := List.getElem?_eq_some_iff.1 hi
  obtain ⟨hltj, rfl⟩ := List.getElem?_eq_some_iff.1 hj
  have hdisjoint := List.pairwise_iff_getElem.1 h.disjoint
  rcases Nat.lt_trichotomy j i with hlt | heq | hlt
  · exact absurd hin (hdisjoint j i hltj hlti hlt hother)
  · exact heq
  · exact absurd hother (hdisjoint i j hlti hltj hlt hin)

theorem tiling (h : InOrder size firsts) : Tiling size firsts (between size firsts) where
  range := getElem?_between size firsts
  first_le_stop _ := h.first_le_stop
  adjacent := h.adjacent
  ordered := h.ordered
  disjoint := h.disjoint
  owned_once first hfirst row := by
    obtain ⟨rest, rfl⟩ := List.head?_eq_some_iff.1 hfirst
    exact h.owned_once
  not_owned first hfirst row hrow range hrange hmem := by
    obtain ⟨rest, rfl⟩ := List.head?_eq_some_iff.1 hfirst
    have := h.first_le hrange
    have := (mem_rows_iff.1 hmem).1
    omega

end InOrder

end PortablePdb.RowRange
