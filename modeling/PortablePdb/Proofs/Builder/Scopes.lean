import PortablePdb.Proofs.Builder.Run

/-!
The scopes of a built file. A row tells only where the variables and constants of its
scope begin, and a reader ends them where those of the next scope begin. The induction is
on what is left of the edits: the scopes, variables and constants that these describe are
the rows from here to the ends of their tables.
-/

namespace PortablePdb.Builder

theorem mapM_get_range {ρ α : Type} [TableRow ρ] {table : Table ρ}
    {read : ρ → Except FormatError α} {own : List α} :
    ∀ {first : Nat} {as : List α},
      List.Forall₂ (fun a row => read row = .ok a) as (table.rows.toList.drop first) →
      own <+: as →
      (List.range' (first + 1) own.length).mapM (fun row => do read (← table.get row)) =
        .ok own := by
  induction own with
  | nil => intros; rfl
  | cons a own ih =>
      intro first as h hown
      obtain ⟨more, rfl⟩ := hown
      rw [List.cons_append, List.forall₂_cons_left_iff] at h
      obtain ⟨row, rest, hread, hrest, hdrop⟩ := h
      have hget : table.get (first + 1) = .ok row := by
        have hrow : table.rows.toList[first]? = some row := by
          rw [← List.head?_drop, hdrop]
          rfl
        rw [Array.getElem?_toList] at hrow
        rw [Table.get, Table.get?_succ, hrow]
      have htail : table.rows.toList.drop (first + 1) = rest := by
        rw [← List.drop_drop, hdrop]
        rfl
      have hown := ih (htail ▸ hrest) (List.prefix_append own more)
      rw [List.length_cons, List.range'_succ, List.mapM_cons, hget]
      simp only [bind, Except.bind, hread] at hown ⊢
      rw [hown]
      rfl

/-- The next scope is the first one of the rest, and comes behind the variables and
constants before it. -/
theorem scopesFrom_cases (rest : List Edit) :
    ∀ row variableRow constantRow : Nat, (Edit.untilScope rest = rest ∧
      Edit.scopesFrom row variableRow constantRow rest = []) ∨ ∃ next more,
      Edit.scopesFrom row variableRow constantRow rest = next :: more ∧
      next.2.variableRows.first =
        variableRow + ((Edit.untilScope rest).filterMap Edit.addedVariable?).length ∧
      next.2.constantRows.first =
        constantRow + ((Edit.untilScope rest).filterMap Edit.addedConstant?).length := by
  induction rest with
  | nil => intros; exact .inl ⟨rfl, rfl⟩
  | cons edit rest ih =>
      intro row variableRow constantRow
      cases edit with
      | scope owner startOffset length => exact .inr ⟨_, _, rfl, rfl, rfl⟩
      | localVariable name slot attributes =>
          rw [Edit.untilScope_cons rfl]
          rcases ih row (variableRow + 1)
            constantRow with ⟨hall, hnone⟩ | ⟨next, more, hnext, hvariables, hconstants⟩
          · exact .inl ⟨by rw [hall], hnone⟩
          · refine .inr ⟨next, more, hnext, ?_, hconstants⟩
            simp only [List.filterMap_cons, Edit.addedVariable?, List.length_cons,
              hvariables]
            omega
      | localConstant name =>
          rw [Edit.untilScope_cons rfl]
          rcases ih row variableRow (constantRow + 1) with ⟨hall, hnone⟩ | ⟨next, more,
            hnext, hvariables, hconstants⟩
          · exact .inl ⟨by rw [hall], hnone⟩
          · refine .inr ⟨next, more, hnext, hvariables, ?_⟩
            simp only [List.filterMap_cons, Edit.addedConstant?, List.length_cons,
              hconstants]
            omega
      | _ =>
          rw [Edit.untilScope_cons rfl]
          rcases ih row variableRow constantRow with ⟨hall, hnone⟩ | hnext
          · exact .inl ⟨by rw [hall], hnone⟩
          · exact .inr hnext

/-! ### What is left of the edits and of the tables -/

def variableOf (heaps : Heaps) (row : VariableRow) : Except FormatError LocalVariable :=
  return { name := ← heaps.strings.get row.name, slot := row.slot, hidden := row.isHidden }

def constantOf (heaps : Heaps) (row : ConstantRow) : Except FormatError LocalConstant :=
  return { name := ← heaps.strings.get row.name }

/-- The rows behind the first `row` scopes, `variableRow` variables and `constantRow`
constants are those that the rest of the edits describes. -/
structure Remaining (heaps : Heaps) (tables : Tables) (row variableRow constantRow : Nat)
    (rest : List Edit) : Prop where
  scopes : tables.scopes.rows.toList.drop row =
    (Edit.scopesFrom (row + 1) (variableRow + 1) (constantRow + 1) rest).map rowOfScope
  localVariables : List.Forall₂ (fun v r => variableOf heaps r = .ok v)
    (rest.filterMap Edit.addedVariable?)
    (tables.localVariables.rows.toList.drop variableRow)
  localConstants : List.Forall₂ (fun c r => constantOf heaps r = .ok c)
    (rest.filterMap Edit.addedConstant?)
    (tables.localConstants.rows.toList.drop constantRow)
  variables_size : variableRow + (rest.filterMap Edit.addedVariable?).length =
    tables.localVariables.size
  constants_size : constantRow + (rest.filterMap Edit.addedConstant?).length =
    tables.localConstants.size

/-- The rows of a list that ends where the next one begins, or at the end of the table if
there is none. -/
theorem owned_eq {α : Type} (table : TableKind) (list : ScopeRow → UInt32)
    {size first : Nat} {rest : List Edit}
    {added : Edit → Option α} {next : Option ScopeRow} (hsize : size + 1 < 2 ^ 32)
    (hrest : first + (rest.filterMap added).length = size)
    (hnext : (Edit.untilScope rest = rest ∧ next = none) ∨ ∃ row, next = some row ∧
      list row = (first + 1 + ((Edit.untilScope rest).filterMap added).length).toUInt32) :
    RowRange.owned table size (first + 1) (next.map fun row => (list row).toNat) =
      .ok ⟨first + 1, first + 1 + ((Edit.untilScope rest).filterMap added).length⟩ := by
  have hown := ((Edit.untilScope_prefix rest).filterMap added).length_le
  generalize hcount : ((Edit.untilScope rest).filterMap added).length =
    count at hown hnext ⊢
  have hle : ¬first + 1 + count < first + 1 := by omega
  have hfirst : first + 1 ≠ 0 := by omega
  rcases hnext with ⟨hall, rfl⟩ | ⟨row, rfl, hlist⟩
  · rw [hall] at hcount
    have hstop : size + 1 = first + 1 + count := by omega
    simp only [RowRange.owned, Option.map_none, hstop, hle, hfirst, false_and, if_false]
  · have hword : (first + 1 + count).toUInt32.toNat = first + 1 + count :=
      toNat_toUInt32 (by omega)
    have hmin : min (size + 1) (first + 1 + count) = first + 1 + count := by omega
    simp only [RowRange.owned, Option.map_some, hlist, hword, hmin, hle, hfirst,
      false_and, if_false]

theorem mapM_range_rows {ρ α : Type} [TableRow ρ] {table : Table ρ}
    {read : ρ → Except FormatError α} {first : Nat} {as own : List α}
    (h : List.Forall₂ (fun a row => read row = .ok a) as (table.rows.toList.drop first))
    (hown : own <+: as) :
    (RowRange.rows ⟨first + 1, first + 1 + own.length⟩).mapM
      (fun row => do read (← table.get row)) = .ok own := by
  rw [RowRange.rows, Nat.add_sub_cancel_left]
  exact mapM_get_range h hown

section Build

variable {heaps : Heaps} {tables : Tables} {row variableRow constantRow : Nat}
  {rest : List Edit}

/-- The row of the next scope is the first one of the rest, and tells where the lists
before it end. -/
theorem Remaining.next_cases (h : Remaining heaps tables row variableRow constantRow rest) :
    (Edit.untilScope rest = rest ∧ tables.scopes.get? (row + 1) = none) ∨
      ∃ next, tables.scopes.get? (row + 1) = some next ∧ next.variableList =
        (variableRow + 1 +
          ((Edit.untilScope rest).filterMap Edit.addedVariable?).length).toUInt32 ∧
        next.constantList = (constantRow + 1 +
          ((Edit.untilScope rest).filterMap Edit.addedConstant?).length).toUInt32 := by
  rw [Table.get?_succ, ← Array.getElem?_toList, ← List.head?_drop, h.scopes]
  rcases scopesFrom_cases rest (row + 1) (variableRow + 1) (constantRow + 1) with
    ⟨hall, hnone⟩ | ⟨next, more, hnext, hvariables, hconstants⟩
  · exact .inl ⟨hall, by rw [hnone]; rfl⟩
  · refine .inr ⟨rowOfScope next, ?_, congrArg Nat.toUInt32 hvariables,
      congrArg Nat.toUInt32 hconstants⟩
    rw [hnext]
    rfl

theorem Remaining.scope {owner startOffset length : UInt32} (h : Remaining heaps tables
    row variableRow constantRow (.scope owner startOffset length :: rest)) :
    Remaining heaps tables (row + 1) variableRow constantRow rest where
  scopes := by
    rw [← List.drop_drop, h.scopes]
    rfl
  localVariables := h.localVariables
  localConstants := h.localConstants
  variables_size := h.variables_size
  constants_size := h.constants_size

theorem Remaining.localVariable {name : ByteArray} {slot attributes : UInt16}
    (h : Remaining heaps tables row variableRow constantRow
      (.localVariable name slot attributes :: rest)) :
    Remaining heaps tables row (variableRow + 1) constantRow rest where
  scopes := h.scopes
  localVariables := by
    obtain ⟨r, rows, -, hrows, hdrop⟩ := List.forall₂_cons_left_iff.1 h.localVariables
    rwa [← List.drop_drop, hdrop]
  localConstants := h.localConstants
  variables_size := by
    rw [← h.variables_size, Nat.add_right_comm]
    rfl
  constants_size := h.constants_size

theorem Remaining.localConstant {name : String}
    (h : Remaining heaps tables row variableRow constantRow (.localConstant name :: rest)) :
    Remaining heaps tables row variableRow (constantRow + 1) rest where
  scopes := h.scopes
  localVariables := h.localVariables
  localConstants := by
    obtain ⟨r, rows, -, hrows, hdrop⟩ := List.forall₂_cons_left_iff.1 h.localConstants
    rwa [← List.drop_drop, hdrop]
  variables_size := h.variables_size
  constants_size := by
    rw [← h.constants_size, Nat.add_right_comm]
    rfl

variable (hvariables : tables.localVariables.size + 1 < 2 ^ 32)
  (hconstants : tables.localConstants.size + 1 < 2 ^ 32)
include hvariables hconstants

/-- A scope is built from its row and the row of the next scope. -/
theorem Remaining.build_eq {owner startOffset length : UInt32} {scope : Nat × Scope}
    {more : List (Nat × Scope)}
    (hrest : Remaining heaps tables (row + 1) variableRow constantRow rest)
    (howner : owner ≠ 0) (hscope : Edit.scopesFrom (row + 1) (variableRow + 1)
      (constantRow + 1) (.scope owner startOffset length :: rest) = scope :: more) :
    Scope.build heaps tables (row + 1) (rowOfScope scope) (tables.scopes.get? (row + 2)) =
      .ok scope.2 := by
  obtain ⟨rfl, -⟩ := List.cons.inj hscope
  have hownVariables := (Edit.untilScope_prefix rest).filterMap Edit.addedVariable?
  have hownConstants := (Edit.untilScope_prefix rest).filterMap Edit.addedConstant?
  have hvariablesSize := hrest.variables_size
  have hconstantsSize := hrest.constants_size
  have hvariableFirst : (variableRow + 1).toUInt32.toNat = variableRow + 1 :=
    toNat_toUInt32 (by omega)
  have hconstantFirst : (constantRow + 1).toUInt32.toNat = constantRow + 1 :=
    toNat_toUInt32 (by omega)
  have hvariableRead := mapM_range_rows hrest.localVariables hownVariables
  have hconstantRead := mapM_range_rows hrest.localConstants hownConstants
  have hmethod : owner.toNat.toUInt32 ≠ 0 := by simpa using howner
  have hvariableRows :=
    owned_eq .localVariable (·.variableList) hvariables hrest.variables_size <|
      hrest.next_cases.imp_right fun ⟨next, hnext, hfirst, _⟩ => ⟨next, hnext, hfirst⟩
  have hconstantRows :=
    owned_eq .localConstant (·.constantList) hconstants hrest.constants_size <|
      hrest.next_cases.imp_right fun ⟨next, hnext, _, hfirst⟩ => ⟨next, hnext, hfirst⟩
  simp only [Scope.build, rowOfScope, if_neg hmethod, hvariableFirst, hconstantFirst,
    Outcome.bind_eq_ok_iff]
  exact ⟨_, hvariableRows, _, hconstantRows, _, hvariableRead, _, hconstantRead, rfl⟩

/-- The rows of scopes that are left are built into the scopes that are described. -/
theorem Remaining.buildAll (hedits : ∀ edit ∈ rest, edit.Describable)
    (h : Remaining heaps tables row variableRow constantRow rest) :
    (((tables.scopes.rows.toList.drop row).zipIdx (row + 1)).map Prod.swap).mapM
      (fun (index, r) =>
      return (r.method.toNat,
        ← Scope.build heaps tables index r (tables.scopes.get? (index + 1)))) =
        .ok (Edit.scopesFrom (row + 1) (variableRow + 1) (constantRow + 1) rest) := by
  -- What remains behind an edit is told by `Remaining` again. Only a scope has a row to
  -- be built.
  induction rest generalizing row variableRow constantRow with
  | nil =>
      rw [h.scopes]
      rfl
  | cons edit rest ih =>
      have hrest : ∀ e ∈ rest, e.Describable :=
        fun e he => hedits e (List.mem_cons_of_mem _ he)
      cases edit with
      | scope owner startOffset length =>
          have howner : owner ≠ 0 := hedits _ List.mem_cons_self
          have hmore := ih hrest h.scope
          rw [← List.drop_drop, h.scopes] at hmore
          rw [h.scopes]
          refine Outcome.mapM_eq_ok_iff.2 (.cons ?_ (Outcome.mapM_eq_ok_iff.1 hmore))
          refine Outcome.bind_eq_ok_iff.2
            ⟨_, h.scope.build_eq hvariables hconstants howner rfl, ?_⟩
          simp [rowOfScope, pure, Except.pure]
      | localVariable name slot attributes => exact ih hrest h.localVariable
      | localConstant name => exact ih hrest h.localConstant
      | _ => exact ih hrest ⟨h.scopes, h.localVariables, h.localConstants,
        h.variables_size, h.constants_size⟩

end Build

end PortablePdb.Builder
