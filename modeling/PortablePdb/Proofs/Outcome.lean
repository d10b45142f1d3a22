import PortablePdb.Reader.Basic
import Mathlib

/-!
Computations that may fail, taken apart. A sequence succeeds exactly when its steps do,
and a list is worked through exactly when every one of its members is. `Reader.Answers`
keeps what the steps of a repetition have answered.
-/

namespace PortablePdb

namespace Outcome

variable {ε σ α β : Type}

theorem bind_eq_ok_iff {x : Except ε α} {f : α → Except ε β} {b : β} :
    x >>= f = .ok b ↔ ∃ a, x = .ok a ∧ f a = .ok b := by
  cases x with
  | error e => simp [bind, Except.bind]
  | ok a => simp [bind, Except.bind]

theorem bind_eq_error_iff {x : Except ε α} {f : α → Except ε β} {e : ε} :
    x >>= f = .error e ↔ x = .error e ∨ ∃ a, x = .ok a ∧ f a = .error e := by
  cases x with
  | error e => simp [bind, Except.bind]
  | ok a => simp [bind, Except.bind]

theorem bind_congr {x : Except ε α} {f g : α → Except ε β}
    (h : ∀ a, x = .ok a → f a = g a) : x >>= f = x >>= g := by
  cases x with
  | error e => rfl
  | ok a => exact h a rfl

theorem run_bind_eq_ok_iff {x : EStateM ε σ α} {f : α → EStateM ε σ β} {s t : σ} {b : β} :
    (x >>= f) s = .ok b t ↔ ∃ a s', x s = .ok a s' ∧ f a s' = .ok b t := by
  cases h : x s with
  | error e s' => simp [bind, EStateM.bind, h]
  | ok a s' => simp [bind, EStateM.bind, h]

theorem run_bind_eq_error_iff {x : EStateM ε σ α} {f : α → EStateM ε σ β} {s t : σ}
    {e : ε} :
    (x >>= f) s = .error e t ↔
      x s = .error e t ∨ ∃ a s', x s = .ok a s' ∧ f a s' = .error e t := by
  cases h : x s with
  | error e s' => simp [bind, EStateM.bind, h]
  | ok a s' => simp [bind, EStateM.bind, h]

theorem run_get_bind {f : σ → EStateM ε σ β} {s : σ} : (get >>= f) s = f s s := rfl

theorem run_map_eq_ok_iff {x : EStateM ε σ α} {f : α → β} {s t : σ} {b : β} :
    (f <$> x) s = .ok b t ↔ ∃ a, x s = .ok a t ∧ f a = b := by
  cases h : x s with
  | error e s' => simp [Functor.map, EStateM.map, h]
  | ok a s' => simp [Functor.map, EStateM.map, h, and_comm]

theorem run_pure_eq_ok_iff {a b : α} {s t : σ} :
    (pure a : EStateM ε σ α) s = .ok b t ↔ a = b ∧ s = t := by
  simp [pure, EStateM.pure]

theorem run_ofExcept_eq_ok_iff {x : Except ε α} {a : α} {s t : σ} :
    (MonadExcept.ofExcept x : EStateM ε σ α) s = .ok a t ↔ x = .ok a ∧ s = t := by
  cases x with
  | error e =>
    simp [MonadExcept.ofExcept, throw, throwThe, MonadExceptOf.throw, EStateM.throw]
  | ok b => simp [MonadExcept.ofExcept, pure, EStateM.pure]

theorem isOk_iff {x : Except ε α} : x.isOk = true ↔ ∃ a, x = .ok a := by
  cases x <;> simp [Except.isOk, Except.toBool]

theorem any_toOption_iff {x : Except ε α} {p : α → Bool} :
    x.toOption.any p = true ↔ ∃ a, x = .ok a ∧ p a = true := by
  cases x <;> simp [Except.toOption]

theorem mapM_eq_ok_iff {f : α → Except ε β} {as : List α} {bs : List β} :
    as.mapM f = .ok bs ↔ List.Forall₂ (fun a b => f a = .ok b) as bs := by
  induction as generalizing bs with
  | nil => simp [pure, Except.pure, eq_comm]
  | cons a as ih =>
      rw [List.mapM_cons, List.forall₂_cons_left_iff, bind_eq_ok_iff]
      constructor
      · rintro ⟨b, hb, htail⟩
        obtain ⟨rest, hrest, heq⟩ := bind_eq_ok_iff.1 htail
        cases heq
        exact ⟨b, rest, hb, ih.1 hrest, rfl⟩
      · rintro ⟨b, rest, hb, hrest, rfl⟩
        exact ⟨b, hb, bind_eq_ok_iff.2 ⟨rest, ih.2 hrest, rfl⟩⟩

/-- A list fails with the first of its members that fails. -/
theorem mapM_eq_error_iff {f : α → Except ε β} {as : List α} {e : ε} :
    as.mapM f = .error e ↔
      ∃ (i : Nat) (a : α), as[i]? = some a ∧ f a = .error e ∧ ∀ j < i, ∀ a',
        as[j]? = some a' → ∃ b, f a' = .ok b := by
  induction as with
  | nil => simp [pure, Except.pure]
  | cons a as ih =>
      have hbind : (a :: as).mapM f = .error e ↔
          f a = .error e ∨ (∃ b, f a = .ok b) ∧ as.mapM f = .error e := by
        rw [List.mapM_cons, bind_eq_error_iff]
        simp only [bind_eq_error_iff, pure, Except.pure, reduceCtorEq, and_false,
          exists_false, or_false, exists_and_right]
      rw [hbind, ih]
      constructor
      · rintro (hfail | ⟨hfirst, i, a', ha', hfail, hbefore⟩)
        · exact ⟨0, a, rfl, hfail, nofun⟩
        · refine ⟨i + 1, a', ha', hfail, fun j hj b hb => ?_⟩
          cases j with
          | zero => exact Option.some.inj hb ▸ hfirst
          | succ j => exact hbefore j (Nat.lt_of_succ_lt_succ hj) b hb
      · rintro ⟨i, a', ha', hfail, hbefore⟩
        cases i with
        | zero => exact .inl (Option.some.inj ha' ▸ hfail)
        | succ i =>
            exact .inr ⟨hbefore 0 (Nat.succ_pos i) a rfl, i, a', ha', hfail,
              fun j hj => hbefore (j + 1) (Nat.succ_lt_succ hj)⟩

theorem exists_of_forall₂ {R : α → β → Prop} {as : List α} {bs : List β}
    (h : List.Forall₂ R as bs) : ∀ b ∈ bs, ∃ a ∈ as, R a b := by
  induction h with
  | nil => simp
  | @cons a b as bs hab _ ih =>
      intro b' hb'
      rcases List.mem_cons.1 hb' with rfl | hmem
      · exact ⟨a, by simp, hab⟩
      · obtain ⟨a', ha', hR⟩ := ih b' hmem
        exact ⟨a', by simp [ha'], hR⟩

/-- Lists that are related member by member are related place by place. -/
theorem rel_getElem?_of_forall₂ {R : α → β → Prop} {as : List α} {bs : List β}
    (h : List.Forall₂ R as bs) (i : Nat) : Option.Rel R as[i]? bs[i]? := by
  induction h generalizing i with
  | nil => exact .none
  | cons hab _ ih =>
      cases i with
      | zero => exact .some hab
      | succ i => simpa using ih i

theorem map_eq_of_forall₂ {γ : Type} {f : α → γ} {g : β → γ} {as : List α} {bs : List β}
    (h : List.Forall₂ (fun a b => g b = f a) as bs) : bs.map g = as.map f := by
  induction h with
  | nil => rfl
  | cons hab _ ih => rw [List.map_cons, List.map_cons, hab, ih]

/-- What relates two lists may be changed where the members of the first one allow it. -/
theorem forall₂_of_mem {R S : α → β → Prop} {as : List α} {bs : List β}
    (h : List.Forall₂ R as bs)
    (himp : ∀ a ∈ as, ∀ b, R a b → S a b) : List.Forall₂ S as bs := by
  induction h with
  | nil => exact .nil
  | cons hab _ ih =>
      obtain ⟨hfirst, hrest⟩ := List.forall_mem_cons.1 himp
      exact .cons (hfirst _ hab) (ih hrest)

end Outcome

namespace Reader

variable {α β σ : Type}

theorem run_eq_ok_iff {r : Reader α} {data : ByteArray} {a : α} :
    r.run data = .ok a ↔ ∃ d, r (Cursor.ofBytes data) = .ok a d := by
  cases h : r (Cursor.ofBytes data) with
  | error e d => simp [run, h]
  | ok a' d => simp [run, h]

inductive Answers (step : σ → Reader (α × σ)) : σ → List α → Prop
  | nil (s : σ) : Answers step s []
  | cons {s next : σ} {c d : Cursor} {a : α} {as : List α}
      (hstep : step s c = .ok (a, next) d)
      (hrest : Answers step next as) : Answers step s (a :: as)

theorem answers_of_manyFrom {step : σ → Reader (α × σ)} {result : Array α} {d : Cursor} :
    ∀ {fuel : Nat} {s : σ} {read : Array α} {c : Cursor},
      manyFrom step fuel s read c = .ok result d →
      ∃ as, Answers step s as ∧ result = read ++ as.toArray := by
  intro fuel
  induction fuel with
  | zero =>
      intro s read c h
      obtain ⟨rfl, -⟩ := Outcome.run_pure_eq_ok_iff.1 h
      exact ⟨[], .nil s, by simp⟩
  | succ fuel ih =>
      intro s read c h
      obtain ⟨more, c', -, h⟩ := Outcome.run_bind_eq_ok_iff.1 h
      cases more with
      | false =>
          obtain ⟨rfl, -⟩ := Outcome.run_pure_eq_ok_iff.1 h
          exact ⟨[], .nil s, by simp⟩
      | true =>
          obtain ⟨⟨a, next⟩, c'', hstep, h⟩ := Outcome.run_bind_eq_ok_iff.1 h
          obtain ⟨as, hrest, rfl⟩ := ih h
          exact ⟨a :: as, .cons hstep hrest, by simp⟩

theorem answers_of_untilEnd {step : σ → Reader (α × σ)} {s : σ} {as : List α} {c d : Cursor}
    (h : untilEnd step s c = .ok as d) : Answers step s as := by
  obtain ⟨count, c', -, h⟩ := Outcome.run_bind_eq_ok_iff.1 h
  obtain ⟨read, c'', hmany, h⟩ := Outcome.run_bind_eq_ok_iff.1 h
  obtain ⟨rfl, -⟩ := Outcome.run_pure_eq_ok_iff.1 h
  obtain ⟨as, has, rfl⟩ := answers_of_manyFrom hmany
  simpa using has

end Reader

end PortablePdb
