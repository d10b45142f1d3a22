import PortablePdb.Proofs.Composition
import PortablePdb.Proofs.Consumption
import PortablePdb.Proofs.Outcome

/-!
Readers on the first bytes of a buffer. A reader that answers on the whole buffer and sets
no limits answers the same on its first bytes, or it runs out of bounds there:
`Reader.Cuttable`. Checks of what was read are no obstacle, since they see the same values
in the same order, and nothing else can fail before the bytes run out.
-/

namespace PortablePdb

namespace Cursor

def cut (size : Nat) (c : Cursor) : Cursor :=
  { c with data := c.data.extract 0 size }

@[simp] theorem pos_cut (size : Nat) (c : Cursor) : (c.cut size).pos = c.pos := rfl

@[simp] theorem cut_ofBytes (size : Nat) (data : ByteArray) :
    (ofBytes data).cut size = ofBytes (data.extract 0 size) := rfl

/-- No limit was set, and the cursor is still among the first `size` bytes of its
buffer. -/
structure Within (size : Nat) (c : Cursor) : Prop where
  limits_eq : c.limits = []
  pos_le : c.pos ≤ size
  size_le : size ≤ c.data.size

theorem Within.stop_eq {size : Nat} {c : Cursor} (h : c.Within size) :
    c.stop = c.data.size := by
  rw [stop, h.limits_eq]
  rfl

theorem Within.size_cut {size : Nat} {c : Cursor} (h : c.Within size) :
    (c.cut size).data.size = size := by
  have := h.size_le
  simp only [cut, ByteArray.size_extract]
  omega

theorem Within.stop_cut {size : Nat} {c : Cursor} (h : c.Within size) :
    (c.cut size).stop = size := by
  rw [stop, show (c.cut size).limits = [] from h.limits_eq]
  exact h.size_cut

theorem Within.advance {size n : Nat} {c : Cursor} (h : c.Within size)
    (hn : c.pos + n ≤ size) : (c.advance n).Within size :=
  ⟨h.limits_eq, hn, h.size_le⟩

theorem getElem?_cut {data : ByteArray} {size i : Nat} (hi : i < size) :
    (data.extract 0 size)[i]? = data[i]? := by
  rw [getElem?_eq_toList, getElem?_eq_toList]
  simp [ByteArray.data_extract, List.extract_eq_take_drop, hi]

theorem extract_cut {data : ByteArray} {size first last : Nat} (hlast : last ≤ size) :
    (data.extract 0 size).extract first last = data.extract first last := by
  rw [ByteArray.extract_extract]
  simp [Nat.min_eq_left hlast]

/-- Among the first bytes the same zero is found, or none. -/
theorem zeroFrom?_cut (data : ByteArray) (size : Nat) :
    ∀ {fewer count pos last : Nat}, fewer ≤ count → pos + fewer ≤ size →
      zeroFrom? data pos count = some last →
      (last < pos + fewer ∧ zeroFrom? (data.extract 0 size) pos fewer = some last) ∨
        zeroFrom? (data.extract 0 size) pos fewer = none := by
  intro fewer
  induction fewer with
  | zero => intros; exact .inr rfl
  | succ fewer ih =>
      intro count pos last hcount hsize hfound
      obtain ⟨count, rfl⟩ : ∃ n, count = n + 1 := ⟨count - 1, by omega⟩
      simp only [zeroFrom?] at hfound ⊢
      rw [getElem?_cut (by omega)]
      split at hfound
      case isTrue hzero =>
        obtain rfl := Option.some.inj hfound
        rw [if_pos hzero]
        exact .inl ⟨by omega, rfl⟩
      case isFalse hzero =>
        rw [if_neg hzero]
        rcases ih (by omega) (by omega) hfound with ⟨hlast, heq⟩ | hnone
        · exact .inl ⟨by omega, heq⟩
        · exact .inr hnone

end Cursor

namespace Reader

variable {α β : Type}

def OutOfBounds (r : Reader α) (c : Cursor) : Prop :=
  ∃ offset length after, r c = .error (.outOfBounds offset length) after

/-- Where the reader answers on a whole buffer, it answers the same on the first bytes of
the buffer or runs out of bounds there. -/
def Cuttable (r : Reader α) : Prop :=
  ∀ ⦃size : Nat⦄ ⦃c d : Cursor⦄ ⦃a : α⦄, c.Within size → r c = .ok a d →
    (d.Within size ∧ r (c.cut size) = .ok a (d.cut size)) ∨ OutOfBounds r (c.cut size)

theorem OutOfBounds.bind {r : Reader α} {c : Cursor} (h : OutOfBounds r c)
    (f : α → Reader β) : OutOfBounds (r >>= f) c := by
  obtain ⟨offset, length, after, h⟩ := h
  exact ⟨offset, length, after, bind_of_error h⟩

theorem Cuttable.pure (a : α) : Cuttable (pure a) := by
  intro size c d b hc h
  obtain ⟨rfl, rfl⟩ := Outcome.run_pure_eq_ok_iff.1 h
  exact .inl ⟨hc, rfl⟩

theorem Cuttable.throw (e : FormatError) : Cuttable (throw e : Reader α) := by
  intro size c d a _ h
  cases h

theorem Cuttable.bind {r : Reader α} {f : α → Reader β} (hr : Cuttable r)
    (hf : ∀ a, Cuttable (f a)) : Cuttable (r >>= f) := by
  intro size c d b hc h
  obtain ⟨a, c', hstep, h⟩ := Outcome.run_bind_eq_ok_iff.1 h
  rcases hr hc hstep with ⟨hc', hstep⟩ | hout
  · rcases hf a hc' h with ⟨hd, h⟩ | ⟨offset, length, after, h⟩
    · exact .inl ⟨hd, by rw [bind_of_ok hstep, h]⟩
    · exact .inr ⟨offset, length, after, by rw [bind_of_ok hstep, h]⟩
  · exact .inr (hout.bind f)

theorem Cuttable.bytes (n : Nat) : Cuttable (bytes n) := by
  intro size c d a hc h
  by_cases hstop : c.pos + n ≤ c.stop
  · rw [bytes_of_le hstop] at h
    cases h
    by_cases hsize : c.pos + n ≤ size
    · refine .inl ⟨hc.advance hsize, ?_⟩
      rw [bytes_of_le (by rw [hc.stop_cut]; exact hsize)]
      simp only [Cursor.cut, Cursor.extract_cut hsize]
    · exact .inr ⟨c.pos, n, _, bytes_of_lt (by rw [hc.stop_cut]; exact Nat.not_le.1 hsize)⟩
  · rw [bytes_of_lt (Nat.not_le.1 hstop)] at h
    cases h

theorem Cuttable.nullTerminated : Cuttable nullTerminated := by
  intro size c d a hc h
  have hpos := hc.pos_le
  have hsize := hc.size_le
  have hremaining :
    (c.cut size).remaining = size - c.pos := by rw [Cursor.remaining, hc.stop_cut]; rfl
  rw [Reader.nullTerminated, if_pos (by rw [hc.stop_eq]; omega)] at h
  simp only [OutOfBounds, Reader.nullTerminated,
      if_pos (show (c.cut size).pos ≤ (c.cut size).stop by
    rw [hc.stop_cut]; exact hpos), hremaining]
  cases hfound : Cursor.zeroFrom? c.data c.pos c.remaining with
  | none => simp [hfound] at h
  | some last =>
      simp only [hfound] at h
      cases h
      have hfewer :
        size - c.pos ≤ c.remaining := by rw [Cursor.remaining, hc.stop_eq]; omega
      -- A text that begins before the cut may end behind it.
      rcases Cursor.zeroFrom?_cut c.data size hfewer
        (by omega) hfound with ⟨hlast, heq⟩ | hnone
      · refine .inl ⟨⟨hc.limits_eq, by change last + 1 ≤ size; omega, hc.size_le⟩, ?_⟩
        simp only [Cursor.cut, heq, Cursor.extract_cut (show last ≤ size by omega)]
      · refine .inr ⟨c.pos, size - c.pos + 1, c.cut size, ?_⟩
        simp only [Cursor.cut, hnone]

theorem compositional_cuttable : Compositional (fun _ => True) @Cuttable where
  pure := .pure
  throw _ := .throw _
  bind := .bind
  bytes := .bytes
  nullTerminated := .nullTerminated

end Reader

end PortablePdb
