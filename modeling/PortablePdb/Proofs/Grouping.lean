import PortablePdb.Grouping
import PortablePdb.Table.Basic
import Mathlib

/-!
Groups of lists that are related member by member.
-/

namespace PortablePdb

namespace Grouping

variable {α β : Type} {R : α → β → Prop}

theorem mem_itemsOf_iff {number : Nat} {items : List (Nat × α)} {a : α} :
    a ∈ itemsOf number items ↔ (number, a) ∈ items := by
  simp [itemsOf, and_comm]

/-- Items that are numbered by one of their parts. -/
theorem itemsOf_map (number : Nat) (numberOf : α → Nat) (as : List α) :
    itemsOf number (as.map fun a => (numberOf a, a)) = as.filter fun a =>
      numberOf a = number := by
  simp [itemsOf, List.filter_map, Function.comp_def]

/-- A list of all groups in their order is zipped with these without a loss. -/
theorem zip_toList_byNumber (table : Table α) (items : List (Nat × β)) :
    table.entries.zip (byNumber table.size items).toList =
      table.entries.map fun entry => (entry, itemsOf entry.1 items) := by
  refine List.ext_getElem (by simp [Table.length_entries]) fun i hi hi' => ?_
  simp [Table.entries, getElem_byNumber, Nat.add_comm]

/-- Lists that agree item by item agree group by group. Items of number zero are in no
group. -/
theorem forall₂_itemsOf {number : Nat} (hnumber : number ≠ 0) {xs : List (Nat × α)}
    {ys : List (Nat × β)}
    (h : List.Forall₂ (fun x y => x.1 = y.1 ∧ (x.1 ≠ 0 → R x.2 y.2)) xs ys) :
    List.Forall₂ R (itemsOf number xs) (itemsOf number ys) := by
  induction h with
  | nil => exact .nil
  | @cons x y xs ys hxy _ ih =>
      obtain ⟨hsame, hR⟩ := hxy
      by_cases hx : x.1 = number
      · have hy : y.1 = number := hsame ▸ hx
        simp only [itemsOf, List.filter_cons, hx, hy, decide_true, if_true, List.map_cons]
        exact .cons (hR (hx ▸ hnumber)) ih
      · have hy : y.1 ≠ number := hsame ▸ hx
        simp only [itemsOf, List.filter_cons, hx, hy, decide_false,
          Bool.false_eq_true, if_false]
        exact ih

theorem forall₂_zipIdx {as : List α} {bs : List β} (h : List.Forall₂ R as bs) :
    ∀ n : Nat, List.Forall₂ (fun x y => R x.1 y.1 ∧ x.2 = y.2 ∧ n ≤ x.2 ∧
      x.2 < n + as.length) (as.zipIdx n) (bs.zipIdx n) := by
  induction h with
  | nil => intro n; exact .nil
  | cons hab _ ih =>
      intro n
      refine .cons ⟨hab, rfl, Nat.le_refl _, by simp⟩ ((ih (n + 1)).imp ?_)
      rintro x y ⟨hxy, hsame, hle, hlt⟩
      refine ⟨hxy, hsame, Nat.le_of_succ_le hle, ?_⟩
      rw [List.length_cons]
      omega

end Grouping

end PortablePdb
