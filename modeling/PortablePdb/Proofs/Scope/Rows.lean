import PortablePdb.Proofs.Outcome
import PortablePdb.Proofs.Scope.Tiling

/-!
Scopes and the rows that they were built from. `Scope.Built` says all that an accepted row
shows, and a scope table is accepted row by row. Variables and constants are handed out
alike, so what is said of them is said of a `ScopeList`.
-/

namespace PortablePdb

/-- The two lists of rows that a scope owns. -/
inductive ScopeList
  | localVariables
  | localConstants
  deriving DecidableEq

namespace ScopeList

def table : ScopeList → TableKind
  | localVariables => .localVariable
  | localConstants => .localConstant

def size (tables : Tables) : ScopeList → Nat
  | localVariables => tables.localVariables.size
  | localConstants => tables.localConstants.size

def first (row : ScopeRow) : ScopeList → Nat
  | localVariables => row.variableList.toNat
  | localConstants => row.constantList.toNat

def range (scope : Scope) : ScopeList → RowRange
  | localVariables => scope.variableRows
  | localConstants => scope.constantRows

/-- The check of the list of one row, which is followed by another row or is the last
one. -/
def owned (list : ScopeList) (tables : Tables) (row : ScopeRow) (next : Option ScopeRow) :
    Except FormatError RowRange :=
  RowRange.owned list.table (list.size tables) (list.first row) (next.map list.first)

def firsts (list : ScopeList) (tables : Tables) : List Nat :=
  tables.scopes.rows.toList.map list.first

theorem getElem?_firsts (list : ScopeList) (tables : Tables) (i : Nat) :
    (list.firsts tables)[i]? = (tables.scopes.get? (i + 1)).map list.first := by
  simp [firsts]

/-- All rows pass their checks exactly if the lists begin in order. -/
theorem owned_iff_inOrder (list : ScopeList) (tables : Tables) :
    (∀ index row, tables.scopes.get? index = some row →
        ∃ range, list.owned tables row (tables.scopes.get? (index + 1)) = .ok range) ↔
      RowRange.InOrder (list.size tables) (list.firsts tables) := by
  rw [← RowRange.owned_all_iff list.table]
  simp only [getElem?_firsts, Option.map_eq_some_iff]
  constructor
  · rintro hall i first ⟨row, hrow, rfl⟩
    exact hall (i + 1) row hrow
  · intro hall index row hrow
    cases index with
    | zero => simp at hrow
    | succ i => exact hall i _ ⟨row, hrow, rfl⟩

end ScopeList

namespace Scope

structure Built (heaps : Heaps) (tables : Tables) (index : Nat) (row : ScopeRow)
    (next : Option ScopeRow) (scope : Scope) : Prop where
  method_ne : row.method ≠ 0
  index_eq : scope.index = index
  startOffset_eq : scope.startOffset = row.startOffset
  length_eq : scope.length = row.length
  owned : ∀ list : ScopeList, list.owned tables row next = .ok (list.range scope)
  localVariables :
    List.Forall₂ (fun r v => variableAt heaps tables r = .ok v) scope.variableRows.rows
      scope.localVariables
  localConstants :
    List.Forall₂ (fun r c => constantAt heaps tables r = .ok c) scope.constantRows.rows
      scope.localConstants

variable {heaps : Heaps} {tables : Tables}

theorem build_eq_ok_iff {index : Nat} {row : ScopeRow} {next : Option ScopeRow}
    {scope : Scope} :
    build heaps tables index row next = .ok scope ↔
      Built heaps tables index row next scope := by
  unfold build
  constructor
  · intro h
    split at h
    case isTrue => cases h
    case isFalse hne =>
      simp only [Outcome.bind_eq_ok_iff, Outcome.mapM_eq_ok_iff] at h
      obtain ⟨variableRows, hvariableRows, constantRows, hconstantRows, localVariables,
        hvariables, localConstants, hconstants, h⟩ := h
      cases h
      refine ⟨hne, rfl, rfl, rfl, fun list => ?_, hvariables, hconstants⟩
      cases list with
      | localVariables => exact hvariableRows
      | localConstants => exact hconstantRows
  · rintro ⟨hne, rfl, hstart, hlength, howned, hvariables, hconstants⟩
    simp only [if_neg hne, Outcome.bind_eq_ok_iff, Outcome.mapM_eq_ok_iff]
    refine ⟨_, howned .localVariables, _, howned .localConstants, _, hvariables, _,
      hconstants, ?_⟩
    rw [← hstart, ← hlength]
    rfl

/-- A scope table is accepted exactly if every row of it is. -/
theorem buildAll_eq_ok_iff {scopes : List (Nat × Scope)} :
    buildAll heaps tables = .ok scopes ↔
      List.Forall₂ (fun entry s => s.1 = entry.2.method.toNat ∧
          Built heaps tables entry.1 entry.2 (tables.scopes.get? (entry.1 + 1)) s.2)
        tables.scopes.entries scopes := by
  have hrow (entry : Nat × ScopeRow) (s : Nat × Scope) : (do return (entry.2.method.toNat,
      ← build heaps tables entry.1 entry.2 (tables.scopes.get? (entry.1 + 1)))) = .ok s ↔
      s.1 = entry.2.method.toNat ∧
        Built heaps tables entry.1 entry.2 (tables.scopes.get? (entry.1 + 1)) s.2 := by
    rw [Outcome.bind_eq_ok_iff]
    constructor
    · rintro ⟨scope, hscope, h⟩
      cases h
      exact ⟨rfl, build_eq_ok_iff.1 hscope⟩
    · rintro ⟨hmethod, hscope⟩
      exact ⟨s.2, build_eq_ok_iff.2 hscope, by rw [← hmethod]; rfl⟩
  simp only [buildAll, Outcome.mapM_eq_ok_iff, hrow]

section BuildAll

variable {scopes : List (Nat × Scope)} (h : buildAll heaps tables = .ok scopes)
include h

theorem inOrder_of_buildAll (list : ScopeList) :
    RowRange.InOrder (list.size tables) (list.firsts tables) := by
  refine (list.owned_iff_inOrder tables).1 fun index row hrow => ?_
  obtain ⟨s, -, -, hbuilt⟩ := Outcome.exists_of_forall₂
    (buildAll_eq_ok_iff.1 h).flip _ (Table.mem_entries_iff.2 hrow)
  exact ⟨_, hbuilt.owned list⟩

theorem rel_of_buildAll (i : Nat) :
    Option.Rel (fun row s => s.1 = row.method.toNat ∧
        Built heaps tables (i + 1) row (tables.scopes.get? (i + 2)) s.2)
      (tables.scopes.get? (i + 1)) scopes[i]? := by
  have hrel := Outcome.rel_getElem?_of_forall₂ (buildAll_eq_ok_iff.1 h) i
  rw [Table.getElem?_entries] at hrel
  generalize tables.scopes.get? (i + 1) = r at hrel ⊢
  generalize scopes[i]? = s at hrel ⊢
  cases r with
  | none => cases hrel; exact .none
  | some row => cases hrel with | some hs => exact .some hs

/-- The ranges of the scopes are those between their lists. -/
theorem map_range_of_buildAll (list : ScopeList) :
    scopes.map (fun s => list.range s.2) =
      RowRange.between (list.size tables) (list.firsts tables) := by
  have horder := inOrder_of_buildAll h list
  refine List.ext_getElem? fun i => ?_
  have hrel := rel_of_buildAll h i
  generalize hscope : scopes[i]? = s at hrel
  generalize hrow : tables.scopes.get? (i + 1) = r at hrel
  rw [List.getElem?_map, hscope]
  cases hrel with
  | none => simp only [RowRange.getElem?_between, ScopeList.getElem?_firsts, hrow,
    Option.map_none]
  | @some row s hs =>
      have hfirst : (list.firsts tables)[i]? = some (list.first row) := by
        rw [ScopeList.getElem?_firsts, hrow]
        rfl
      have howned : RowRange.owned list.table (list.size tables) (list.first row)
          (list.firsts tables)[i + 1]? = .ok (list.range s.2) := by
        rw [ScopeList.getElem?_firsts]
        exact hs.2.owned list
      exact (horder.getElem?_eq_of_owned hfirst howned).symm

end BuildAll

end Scope

end PortablePdb
