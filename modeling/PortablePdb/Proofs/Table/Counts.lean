import PortablePdb.Table.Stream
import PortablePdb.Proofs.Outcome

/-!
The tables of a stream have the sizes that its header counts, so the number of a row fits
into a word.
-/

namespace PortablePdb

namespace Tables

structure Counted (tables : Tables) : Prop where
  documents : tables.documents.size = (tables.header.rowsOf .document).toNat
  methods : tables.methods.size = (tables.header.rowsOf .methodDebugInformation).toNat
  scopes : tables.scopes.size = (tables.header.rowsOf .localScope).toNat
  localVariables : tables.localVariables.size = (tables.header.rowsOf .localVariable).toNat
  localConstants : tables.localConstants.size = (tables.header.rowsOf .localConstant).toNat

section Read

variable {ρ : Type} [StoredRow ρ] {header : TableHeader} {widths : IndexWidths}

theorem size_of_readRows {count : Nat} {rows result : Array ρ} {c d : Cursor}
    (h : readRows widths count rows c = .ok result d) :
    result.size = rows.size + count := by
  induction count generalizing rows c with
  | zero =>
      obtain ⟨rfl, -⟩ := Outcome.run_pure_eq_ok_iff.1 h
      rfl
  | succ count ih =>
      obtain ⟨row, c', -, h⟩ := Outcome.run_bind_eq_ok_iff.1 h
      rw [ih h, Array.size_push]
      omega

theorem size_of_readTable {table : Table ρ} {c d : Cursor}
    (h : readTable ρ header widths c = .ok table d) :
    table.size = (header.rowsOf (TableRow.kind ρ)).toNat := by
  obtain ⟨rows, c', hrows, h⟩ := Outcome.run_bind_eq_ok_iff.1 h
  obtain ⟨rfl, -⟩ := Outcome.run_pure_eq_ok_iff.1 h
  simpa [Table.size] using size_of_readRows hrows

end Read

theorem counted_of_read {referenced : RowCounts} {tables : Tables} {c d : Cursor}
    (h : read referenced c = .ok tables d) : tables.Counted := by
  obtain ⟨header, c₁, -, h⟩ := Outcome.run_bind_eq_ok_iff.1 h
  cases hunsupported : header.unsupported? with
  | some id =>
      simp only [hunsupported] at h
      cases h
  | none =>
      simp only [hunsupported] at h
      obtain ⟨documents, c₂, hdocuments, h⟩ := Outcome.run_bind_eq_ok_iff.1 h
      obtain ⟨methods, c₃, hmethods, h⟩ := Outcome.run_bind_eq_ok_iff.1 h
      obtain ⟨scopes, c₄, hscopes, h⟩ := Outcome.run_bind_eq_ok_iff.1 h
      obtain ⟨localVariables, c₅, hvariables, h⟩ := Outcome.run_bind_eq_ok_iff.1 h
      obtain ⟨localConstants, c₆, hconstants, h⟩ := Outcome.run_bind_eq_ok_iff.1 h
      obtain ⟨rfl, -⟩ := Outcome.run_pure_eq_ok_iff.1 h
      exact ⟨size_of_readTable hdocuments, size_of_readTable hmethods,
        size_of_readTable hscopes,
        size_of_readTable hvariables, size_of_readTable hconstants⟩

theorem Counted.methods_lt {tables : Tables} (h : tables.Counted) :
    tables.methods.size < 2 ^ 32 := by
  rw [h.methods]
  exact UInt32.toNat_lt _

end Tables

end PortablePdb
