import PortablePdb.Proofs.Composition
import PortablePdb.Proofs.Consumption
import PortablePdb.Proofs.Outcome

/-!
Readers on unknown bytes. `Consumes` of `Proofs.Consumption` says what a reader makes of
given bytes. `Reader.Exact` goes the other way: from any answer to the bytes that it was
read from. Together they show that the answer depends on these bytes alone, since in
another buffer they are consumed all the same.
-/

namespace PortablePdb

namespace Cursor

/-- The position is not behind the limit, nor the limit behind the buffer. -/
structure Inside (c : Cursor) : Prop where
  pos_le : c.pos ≤ c.stop
  stop_le : c.stop ≤ c.data.size

theorem inside_ofBytes (data : ByteArray) : (ofBytes data).Inside :=
  ⟨Nat.zero_le _, Nat.le_refl _⟩

theorem Inside.advance {c : Cursor} (h : c.Inside) {bs : List UInt8} (hbs : c.Ahead bs) :
    (c.advance bs.length).Inside :=
  ⟨hbs.within, h.stop_le⟩

theorem Ahead.append {c : Cursor} {bs cs : List UInt8} (hbs : c.Ahead bs)
    (hcs : (c.advance bs.length).Ahead cs) : c.Ahead (bs ++ cs) where
  within := by
    have := hcs.within
    rw [stop_advance, pos_advance] at this
    rw [List.length_append]
    omega
  stored := by
    obtain ⟨rest, hrest⟩ := hbs.stored
    obtain ⟨rest', hrest'⟩ := hcs.stored
    refine ⟨rest', ?_⟩
    rw [data_advance, pos_advance, ← List.drop_drop, ← hrest, List.drop_left] at hrest'
    rw [List.append_assoc, hrest', hrest]

/-- Whatever comes before the limit are bytes. -/
theorem Inside.exists_ahead {c : Cursor} (h : c.Inside) {n : Nat}
    (hn : c.pos + n ≤ c.stop) : ∃ bs, bs.length = n ∧ c.Ahead bs := by
  have hlength : ((c.data.data.toList.drop c.pos).take n).length = n := by
    have : c.data.data.toList.length = c.data.size := rfl
    have := h.stop_le
    rw [List.length_take, List.length_drop]
    omega
  exact ⟨_, hlength, by rwa [hlength], List.take_prefix _ _⟩

/-- Where a zero is found, a text without zeros comes before it. -/
theorem text_of_zeroFrom? {data : ByteArray} {count : Nat} :
    ∀ {pos last : Nat}, zeroFrom? data pos count = some last → ∃ text,
      0 ∉ text ∧ text.length < count ∧ text ++ [0] <+: data.data.toList.drop pos := by
  induction count with
  | zero => intro pos last h; cases h
  | succ count ih =>
      intro pos last h
      rw [zeroFrom?] at h
      split at h
      case isTrue hzero =>
        rw [getElem?_eq_toList] at hzero
        obtain ⟨hpos, hget⟩ := List.getElem?_eq_some_iff.1 hzero
        refine ⟨[], by simp, by simp, data.data.toList.drop (pos + 1), ?_⟩
        rw [List.drop_eq_getElem_cons hpos, hget]
        rfl
      case isFalse hne =>
        obtain ⟨text, htext, hlength, hprefix⟩ := ih h
        have hpos : pos < data.data.toList.length := by
          have := hprefix.length_le
          simp only [List.length_append, List.length_singleton, List.length_drop] at this
          omega
        rw [getElem?_eq_toList, List.getElem?_eq_getElem hpos] at hne
        refine ⟨data.data.toList[pos] :: text, ?_, by simpa using hlength, ?_⟩
        · rw [List.mem_cons, not_or]
          exact ⟨fun hzero => hne (congrArg some hzero.symm), htext⟩
        · rw [List.drop_eq_getElem_cons hpos, List.cons_append, List.cons_prefix_cons]
          exact ⟨rfl, hprefix⟩

end Cursor

namespace Reader

variable {α β : Type}

/-- Every answer was read from bytes that the reader consumes wherever they come next. -/
def Exact (r : Reader α) : Prop :=
  ∀ ⦃c d : Cursor⦄ ⦃a : α⦄, c.Inside → r c = .ok a d → ∃ bs, c.Ahead bs ∧ Consumes r bs a

/-- A reader that consumes some bytes has no other answer where they come next. -/
theorem Consumes.eq_of_ok {r : Reader α} {bs : List UInt8} {a b : α} {c d : Cursor}
    (hr : Consumes r bs a)
    (hc : c.Ahead bs) (h : r c = .ok b d) : b = a ∧ d = c.advance bs.length := by
  rw [hr c hc] at h
  cases h
  exact ⟨rfl, rfl⟩

theorem Exact.pure (a : α) : Exact (pure a) := by
  intro c d b hc h
  obtain ⟨rfl, -⟩ := Outcome.run_pure_eq_ok_iff.1 h
  exact ⟨[], .nil hc.pos_le, .pure a⟩

theorem Exact.throw (e : FormatError) : Exact (throw e : Reader α) := by
  intro c d a _ h
  cases h

theorem Exact.bind {r : Reader α} {f : α → Reader β} (hr : Exact r)
    (hf : ∀ a, Exact (f a)) : Exact (r >>= f) := by
  intro c d b hc h
  obtain ⟨a, c', hstep, h⟩ := Outcome.run_bind_eq_ok_iff.1 h
  obtain ⟨bs, hbs, hconsumes⟩ := hr hc hstep
  obtain ⟨-, rfl⟩ := hconsumes.eq_of_ok hbs hstep
  obtain ⟨cs, hcs, hrest⟩ := hf a (hc.advance hbs) h
  exact ⟨bs ++ cs, hbs.append hcs, hconsumes.bind hrest⟩

theorem Exact.map {r : Reader α} (hr : Exact r) (f : α → β) : Exact (do return f (← r)) :=
  hr.bind fun _ => .pure _

theorem Exact.bytes (n : Nat) : Exact (bytes n) := by
  intro c d a hc h
  by_cases hn : c.pos + n ≤ c.stop
  · obtain ⟨bs, rfl, hbs⟩ := hc.exists_ahead hn
    obtain ⟨rfl, -⟩ := (Consumes.bytes bs).eq_of_ok hbs h
    exact ⟨bs, hbs, .bytes bs⟩
  · rw [bytes_of_lt (Nat.not_le.1 hn)] at h
    cases h

/-- The search for the zero sees nothing behind it. -/
theorem Exact.nullTerminated : Exact nullTerminated := by
  intro c d a hc h
  cases hfound : Cursor.zeroFrom? c.data c.pos c.remaining with
  | none =>
      rw [Reader.nullTerminated, if_pos hc.pos_le, hfound] at h
      cases h
  | some last =>
      obtain ⟨text, htext, hlength, hstored⟩ := Cursor.text_of_zeroFrom? hfound
      have hahead : c.Ahead (text ++ [0]) := by
        refine ⟨?_, hstored⟩
        rw [Cursor.remaining] at hlength
        rw [List.length_append, List.length_singleton]
        omega
      obtain ⟨rfl, -⟩ := (Consumes.nullTerminated htext).eq_of_ok hahead h
      exact ⟨_, hahead, .nullTerminated htext⟩

theorem compositional_exact : Compositional (fun _ => True) @Exact where
  pure := .pure
  throw _ := .throw _
  bind := .bind
  bytes := .bytes
  nullTerminated := .nullTerminated

end Reader

theorem RootHeader.exact_read : Reader.Exact read :=
  Reader.compositional_exact.rootHeader fun _ => trivial

theorem StreamHeader.exact_read : Reader.Exact read :=
  Reader.compositional_exact.streamHeader fun _ => trivial

end PortablePdb
