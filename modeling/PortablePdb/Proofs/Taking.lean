import PortablePdb.Grouping
import PortablePdb.Proofs.Outcome

/-!
Actions that take groups out one by one. An action finds a group as long as nobody has
taken that group before, and so actions that take different groups answer as if every
group could be had any number of times: `Takes` compares an action with one that leaves
the groups alone.
-/

namespace PortablePdb.Grouping

variable {ε α β γ δ : Type} {groups : Array (List α)}

/-- The action takes groups of the given numbers at most. Where these are still the ones
in `groups`, it answers what `y` does. -/
def Takes (groups : Array (List α)) (numbers : List Nat)
    (x : StateT (Array (List α)) (Except ε) β) (y : Except ε β) : Prop :=
  ∀ left, (∀ i ∈ numbers, group i left = group i groups) →
    ∃ after, x.run left = y.map (·, after) ∧ ∀ j ∉ numbers, group j after = group j left

theorem Takes.pure (b : β) : Takes groups [] (pure b : StateT _ (Except ε) β) (pure b) :=
  fun left _ => ⟨left, rfl, fun _ _ => rfl⟩

theorem Takes.lift (y : Except ε β) : Takes groups [] (liftM y) y := by
  intro left _
  refine ⟨left, ?_, fun _ _ => rfl⟩
  cases y <;> rfl

theorem Takes.take (number : Nat) :
    Takes groups [number] (modifyGet (take number) : StateT _ (Except ε) _)
      (Pure.pure (group number groups)) := by
  intro left hleft
  refine ⟨(Grouping.take number left).2, ?_,
    fun j hj => group_take_of_ne (by simpa using hj) left⟩
  rw [← hleft number (List.mem_singleton_self number)]
  rfl

/-- One action leaves the groups of the next one alone. -/
theorem Takes.bind {is js : List Nat} {x : StateT (Array (List α)) (Except ε) β}
    {y : Except ε β} {f : β → StateT (Array (List α)) (Except ε) γ} {g : β → Except ε γ}
    (hx : Takes groups is x y)
    (hf : ∀ b, Takes groups js (f b) (g b)) (hdisjoint : is.Disjoint js) :
    Takes groups (is ++ js) (x >>= f) (y >>= g) := by
  intro left hleft
  obtain ⟨mid, hrun, hmid⟩ := hx left fun i hi => hleft i (List.mem_append_left js hi)
  cases y with
  | error e =>
      refine ⟨left, ?_, fun _ _ => rfl⟩
      rw [StateT.run_bind, hrun]
      rfl
  | ok b =>
      obtain ⟨after, hrun', hafter⟩ := hf b mid fun j hj =>
        (hmid j fun hi => hdisjoint hi hj).trans (hleft j (List.mem_append_right is hj))
      refine ⟨after, ?_, fun j hj => ?_⟩
      · rw [StateT.run_bind, hrun]
        exact hrun'
      · rw [List.mem_append, not_or] at hj
        exact (hafter j hj.2).trans (hmid j hj.1)

theorem Takes.lift_bind {js : List Nat} {y : Except ε β}
    {f : β → StateT (Array (List α)) (Except ε) γ} {g : β → Except ε γ}
    (hf : ∀ b, Takes groups js (f b) (g b)) : Takes groups js (liftM y >>= f) (y >>= g) :=
  (Takes.lift y).bind hf (List.disjoint_nil_left js)

theorem Takes.bind_pure {is : List Nat} {x : StateT (Array (List α)) (Except ε) β}
    {y : Except ε β} (hx : Takes groups is x y) (f : β → γ) :
    Takes groups is (do return f (← x)) (do return f (← y)) := by
  simpa using hx.bind (fun b => Takes.pure (f b)) (List.disjoint_nil_right is)

/-- A list of actions, each with groups of its own. -/
theorem Takes.mapM {numbersOf : δ → List Nat}
    {f : δ → StateT (Array (List α)) (Except ε) β} {g : δ → Except ε β}
    {ds : List δ} (h : ∀ d ∈ ds, Takes groups (numbersOf d) (f d) (g d))
    (hnodup : (ds.flatMap numbersOf).Nodup) :
    Takes groups (ds.flatMap numbersOf) (ds.mapM f) (ds.mapM g) := by
  induction ds with
  | nil => simpa using Takes.pure ([] : List β)
  | cons d ds ih =>
      obtain ⟨hfirst, hrest⟩ := List.forall_mem_cons.1 h
      rw [List.flatMap_cons, List.nodup_append'] at hnodup
      obtain ⟨-, hnodup, hdisjoint⟩ := hnodup
      rw [List.mapM_cons, List.mapM_cons, List.flatMap_cons]
      exact hfirst.bind (fun b => (ih hrest hnodup).bind_pure (b :: ·)) hdisjoint

/-- On its own groups the action cannot be told from the other one. -/
theorem Takes.run'_eq {numbers : List Nat} {x : StateT (Array (List α)) (Except ε) β}
    {y : Except ε β} (h : Takes groups numbers x y) : x.run' groups = y := by
  obtain ⟨after, hrun, -⟩ := h groups fun _ _ => rfl
  rw [StateT.run'_eq, hrun]
  cases y <;> rfl

end PortablePdb.Grouping
