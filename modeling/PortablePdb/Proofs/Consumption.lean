import PortablePdb.Proofs.ByteOrder

/-!
Readers on known bytes. `Cursor.Ahead` says which bytes come next, and
`Reader.Consumes r bs a` that wherever the bytes `bs` come next, `r` reads exactly these
bytes and answers `a`. The judgment composes along `bind`, so the round trip of a record
is put together from those of its fields, and it does not mention what stands around them.

Two readers ask how much is left before the limit, `untilEnd` and the body of a blob. They
have rules of their own.
-/

namespace PortablePdb

namespace Cursor

def advance (c : Cursor) (n : Nat) : Cursor :=
  { c with pos := c.pos + n }

@[simp] theorem advance_zero (c : Cursor) : c.advance 0 = c := rfl

@[simp] theorem data_advance (c : Cursor) (n : Nat) : (c.advance n).data = c.data := rfl

@[simp] theorem pos_advance (c : Cursor) (n : Nat) : (c.advance n).pos = c.pos + n := rfl

@[simp] theorem limits_advance (c : Cursor) (n : Nat) :
    (c.advance n).limits = c.limits := rfl

@[simp] theorem stop_advance (c : Cursor) (n : Nat) : (c.advance n).stop = c.stop := rfl

@[simp] theorem remaining_advance (c : Cursor) (n : Nat) :
    (c.advance n).remaining = c.remaining - n := by
  simp only [remaining, stop_advance, pos_advance]
  omega

theorem advance_advance (c : Cursor) (m n : Nat) :
    (c.advance m).advance n = c.advance (m + n) := by
  simp [advance, Nat.add_assoc]

/-- The bytes `bs` come next, and the limit is not before their end. -/
structure Ahead (c : Cursor) (bs : List UInt8) : Prop where
  within : c.pos + bs.length ≤ c.stop
  stored : bs <+: c.data.data.toList.drop c.pos

theorem Ahead.left {c : Cursor} {bs cs : List UInt8} (h : c.Ahead (bs ++ cs)) :
    c.Ahead bs where
  within := by
    have := h.within
    simp only [List.length_append] at this
    omega
  stored := (List.prefix_append bs cs).trans h.stored

theorem Ahead.right {c : Cursor} {bs cs : List UInt8} (h : c.Ahead (bs ++ cs)) :
    (c.advance bs.length).Ahead cs where
  within := by
    have := h.within
    simp only [List.length_append] at this
    simp only [pos_advance, stop_advance]
    omega
  stored := by
    obtain ⟨rest, hrest⟩ := h.stored
    refine ⟨rest, ?_⟩
    rw [data_advance, pos_advance, ← List.drop_drop, ← hrest, List.append_assoc,
      List.drop_left]

theorem Ahead.nil {c : Cursor} (h : c.pos ≤ c.stop) : c.Ahead [] where
  within := by simpa using h
  stored := List.nil_prefix

@[simp] theorem pos_ofBytes (data : ByteArray) : (ofBytes data).pos = 0 := rfl

@[simp] theorem remaining_ofBytes (data : ByteArray) :
    (ofBytes data).remaining = data.size := rfl

/-- At the start of a buffer all its bytes come next. -/
theorem ahead_ofBytes (bs : List UInt8) : (ofBytes bs.toByteArray).Ahead bs where
  within := by simp [ofBytes, stop]
  stored := by simp [ofBytes]

theorem Ahead.extract {c : Cursor} {bs : List UInt8} (h : c.Ahead bs) :
    c.data.extract c.pos (c.pos + bs.length) = bs.toByteArray := by
  apply ByteArray.ext
  apply Array.toList_inj.1
  obtain ⟨rest, hrest⟩ := h.stored
  simp [ByteArray.data_extract, List.extract_eq_take_drop, ← hrest]

theorem getElem?_eq_toList (data : ByteArray) (i : Nat) :
    data[i]? = data.data.toList[i]? := by
  rw [getElem?_def, getElem?_def]
  rfl

theorem toByteArray_toList (data : ByteArray) : data.data.toList.toByteArray = data := by
  apply ByteArray.ext
  simp

/-- The search for a zero stops at the first one. -/
theorem zeroFrom?_of_drop {data : ByteArray} {text rest : List UInt8} (htext : 0 ∉ text) :
    ∀ {pos count : Nat}, data.data.toList.drop pos = text ++ 0 :: rest →
      text.length < count → zeroFrom? data pos count = some (pos + text.length) := by
  induction text with
  | nil =>
      intro pos count hdrop hcount
      obtain ⟨n, rfl⟩ : ∃ n, count = n + 1 := ⟨count - 1, by simp at hcount; omega⟩
      have hzero : data[pos]? = some 0 := by
        rw [getElem?_eq_toList, ← List.head?_drop, hdrop]
        rfl
      simp [zeroFrom?, hzero]
  | cons b text ih =>
      intro pos count hdrop hcount
      obtain ⟨n, rfl⟩ : ∃ n, count = n + 1 := ⟨count - 1, by simp at hcount; omega⟩
      have hb : data[pos]? = some b := by
        rw [getElem?_eq_toList, ← List.head?_drop, hdrop]
        rfl
      have hne : b ≠ 0 := fun h => htext (by simp [h])
      have htail : data.data.toList.drop (pos + 1) = text ++ 0 :: rest := by
        rw [← List.drop_drop, hdrop]
        rfl
      rw [zeroFrom?, hb]
      simp only [Option.some.injEq, hne, if_false]
      rw [ih (fun h => htext (by simp [h])) htail (by simpa using hcount)]
      simp only [List.length_cons, Option.some.injEq]
      omega

end Cursor

namespace Reader

variable {α β σ : Type}

/-! ### The judgment and its composition -/

/-- Wherever the bytes `bs` come next, the reader reads exactly these and answers `a`. -/
def Consumes (r : Reader α) (bs : List UInt8) (a : α) : Prop :=
  ∀ c : Cursor, c.Ahead bs → r c = .ok a (c.advance bs.length)

theorem bind_of_ok {r : Reader α} {f : α → Reader β} {c d : Cursor} {a : α}
    (h : r c = .ok a d) : (r >>= f) c = f a d := by
  simp only [bind, EStateM.bind, h]

theorem bind_of_error {r : Reader α} {f : α → Reader β} {c d : Cursor} {e : FormatError}
    (h : r c = .error e d) : (r >>= f) c = .error e d := by
  simp only [bind, EStateM.bind, h]

theorem get_of_cursor (c : Cursor) : (get : Reader Cursor) c = .ok c c := rfl

theorem ofExcept_of_ok {x : Except FormatError α} {a : α} (h : x = .ok a) (c : Cursor) :
    (MonadExcept.ofExcept x : Reader α) c = .ok a c := by
  subst h
  rfl

theorem ofExcept_of_error {x : Except FormatError α} {e : FormatError} (h : x = .error e)
    (c : Cursor) : (MonadExcept.ofExcept x : Reader α) c = .error e c := by
  subst h
  rfl

theorem Consumes.pure (a : α) : Consumes (pure a) [] a := fun _ _ => rfl

theorem Consumes.bind {r : Reader α} {f : α → Reader β} {bs cs : List UInt8} {a : α}
    {b : β} (hr : Consumes r bs a) (hf : Consumes (f a) cs b) :
    Consumes (r >>= f) (bs ++ cs) b := by
  intro c hc
  rw [bind_of_ok (hr c hc.left), hf _ hc.right, Cursor.advance_advance, List.length_append]

/-- What follows the last field reads nothing. -/
theorem Consumes.last {r : Reader α} {f : α → Reader β} {bs : List UInt8} {a : α} {b : β}
    (hr : Consumes r bs a) (hf : Consumes (f a) [] b) : Consumes (r >>= f) bs b := by
  simpa using hr.bind hf

theorem Consumes.map {r : Reader α} {bs : List UInt8} {a : α} (hr : Consumes r bs a)
    (f : α → β) : Consumes (do return f (← r)) bs (f a) :=
  hr.last (Consumes.pure (f a))

theorem Consumes.utf8 {text : ByteArray} {s : String}
    (htext : String.fromUTF8? text = some s) (e : FormatError) :
    Consumes (Reader.utf8 text e) [] s := by
  rw [Reader.utf8, htext]
  exact .pure s

theorem Consumes.ofExcept {x : Except FormatError α} {a : α} (hx : x = .ok a) :
    Consumes (MonadExcept.ofExcept x) [] a := by
  subst hx
  exact .pure a

/-- The offset of the cursor may be asked for when the answer does not depend on it. -/
theorem Consumes.position {f : Nat → Reader β} {bs : List UInt8} {b : β}
    (hf : ∀ pos, Consumes (f pos) bs b) :
    Consumes (Reader.position >>= f) bs b := fun c hc => hf c.pos c hc

/-- A reader that consumes the first bytes of a buffer answers on the buffer. -/
theorem Consumes.run {r : Reader α} {bs : List UInt8} {a : α} (hr : Consumes r bs a)
    {data : ByteArray} (hdata : bs <+: data.data.toList) : r.run data = .ok a := by
  have hlength : bs.length ≤ data.size := hdata.length_le
  have hc : (Cursor.ofBytes data).Ahead bs := by
    refine ⟨?_, hdata⟩
    change 0 + bs.length ≤ data.size
    omega
  simp only [Reader.run, hr _ hc]

/-- The bytes from an offset on come next there. -/
theorem exists_seek {pre bs : List UInt8} {data : ByteArray}
    (hdata : pre ++ bs <+: data.data.toList) {offset : Nat}
    (hoffset : offset = pre.length) :
    ∃ c : Cursor, seek offset (Cursor.ofBytes data) = .ok () c ∧ c.Ahead bs := by
  subst hoffset
  have hlength : (pre ++ bs).length ≤ data.size := hdata.length_le
  rw [List.length_append] at hlength
  obtain ⟨rest, hrest⟩ := hdata
  refine ⟨{ Cursor.ofBytes data with pos := pre.length }, seek_of_le ?_, hlength, rest, ?_⟩
  · change pre.length ≤ data.size
    omega
  · change bs ++ rest = data.data.toList.drop pre.length
    rw [← hrest, List.append_assoc, List.drop_left]

/-- A reader that consumes the bytes from an offset on answers there. -/
theorem Consumes.run_seek {r : Reader α} {pre bs : List UInt8} {a : α}
    (hr : Consumes r bs a) {data : ByteArray} (hdata : pre ++ bs <+: data.data.toList)
    {offset : Nat} (hoffset : offset = pre.length) :
    Reader.run (do seek offset; r) data = .ok a := by
  obtain ⟨c, hseek, hc⟩ := exists_seek hdata hoffset
  simp only [Reader.run, bind_of_ok hseek, hr _ hc]

/-! ### Fields of known width -/

theorem Consumes.bytes (bs : List UInt8) :
    Consumes (Reader.bytes bs.length) bs bs.toByteArray := by
  intro c hc
  rw [bytes_of_le hc.within, hc.extract]
  rfl

theorem Consumes.skip (bs : List UInt8) : Consumes (Reader.skip bs.length) bs () := by
  intro c hc
  rw [Reader.skip, bind_of_ok (Consumes.bytes bs c hc)]
  rfl

theorem Consumes.word (width n : Nat) :
    Consumes (Reader.word width) (leBytes width n) (n % 256 ^ width) := by
  have h := (Consumes.bytes (leBytes width n)).map fun read => leNat read.data.toList
  rwa [length_leBytes, List.data_toByteArray, leNat_leBytes] at h

theorem Consumes.word_of_lt (width : Nat) {n : Nat} (hn : n < 256 ^ width) :
    Consumes (Reader.word width) (leBytes width n) n := by
  have h := Consumes.word width n
  rwa [Nat.mod_eq_of_lt hn] at h

theorem Consumes.u8 (b : UInt8) : Consumes Reader.u8 [b] b := by
  have hword : leBytes 1 b.toNat = [b] := by simp [leBytes]
  have h := (Consumes.word_of_lt 1 b.toNat_lt).map Nat.toUInt8
  rwa [hword, show b.toNat.toUInt8 = b by simp] at h

theorem Consumes.u16 (n : UInt16) : Consumes Reader.u16 (leBytes 2 n.toNat) n := by
  have h := (Consumes.word_of_lt 2 n.toNat_lt).map Nat.toUInt16
  rwa [show n.toNat.toUInt16 = n by simp] at h

theorem Consumes.u32 (n : UInt32) : Consumes Reader.u32 (leBytes 4 n.toNat) n := by
  have h := (Consumes.word_of_lt 4 n.toNat_lt).map Nat.toUInt32
  rwa [show n.toNat.toUInt32 = n by simp] at h

theorem Consumes.u64 (n : UInt64) : Consumes Reader.u64 (leBytes 8 n.toNat) n := by
  have h := (Consumes.word_of_lt 8 n.toNat_lt).map Nat.toUInt64
  rwa [show n.toNat.toUInt64 = n by simp] at h

/-! ### Fields that end with a zero or with the limit -/

theorem Consumes.nullTerminated {text : List UInt8} (htext : 0 ∉ text) :
    Consumes Reader.nullTerminated (text ++ [0]) text.toByteArray := by
  intro c hc
  obtain ⟨rest, hrest⟩ := hc.stored
  have hwithin := hc.within
  simp only [List.length_append, List.length_singleton] at hwithin
  have hdrop : c.data.data.toList.drop c.pos = text ++ 0 :: rest := by
    rw [← hrest, List.append_assoc, List.singleton_append]
  have hfound : Cursor.zeroFrom? c.data c.pos c.remaining = some (c.pos + text.length) := by
    apply Cursor.zeroFrom?_of_drop htext hdrop
    rw [Cursor.remaining]
    omega
  rw [Reader.nullTerminated, if_pos (by omega), hfound]
  simp only [hc.left.extract, List.length_append, List.length_singleton]
  rfl

/-- A body that reads up to its limit gets all the bytes that the limit was set for. -/
theorem Consumes.withLimit_remaining (bs : List UInt8) {n : Nat} (hn : bs.length = n) :
    Consumes (withLimit n do Reader.bytes (← remaining)) bs bs.toByteArray := by
  subst hn
  intro c hc
  let inner : Cursor := { c with limits := (c.pos + bs.length) :: c.limits }
  have hremaining : remaining inner = .ok bs.length inner := by
    change EStateM.Result.ok (c.pos + bs.length - c.pos) inner = _
    rw [Nat.add_sub_cancel_left]
  have hinner : inner.Ahead bs := ⟨Nat.le_refl _, hc.stored⟩
  have hbody : (do Reader.bytes (← remaining) : Reader ByteArray) inner =
      .ok bs.toByteArray (inner.advance bs.length) := by
    rw [bind_of_ok hremaining, Consumes.bytes bs inner hinner]
  rw [withLimit, pushLimit_of_le hc.within]
  simp only [inner] at hbody
  simp only [hbody]
  congr 1
  exact Cursor.truncate_cons (c.advance bs.length) (c.pos + bs.length)

/-! ### Repetition up to the limit -/

/-- The answers `as` of a step that is repeated from a state, each with bytes of its
own. -/
inductive Steps (step : σ → Reader (α × σ)) : σ → List UInt8 → List α → Prop
  | nil (s : σ) : Steps step s [] []
  | cons {s next : σ} {bs rest : List UInt8} {a : α} {as : List α}
      (hstep : Consumes (step s) bs (a, next)) (hbs : bs ≠ [])
      (hrest : Steps step next rest as) : Steps step s (bs ++ rest) (a :: as)

/-- Every step takes at least one byte, so as many steps as there are bytes are enough. -/
theorem Steps.manyFrom {step : σ → Reader (α × σ)} {s : σ} {bs : List UInt8} {as : List α}
    (h : Steps step s bs as) :
    ∀ {c : Cursor} {fuel : Nat} {read : Array α}, c.Ahead bs → c.remaining = bs.length →
      bs.length ≤ fuel →
      manyFrom step fuel s read c = .ok (read ++ as.toArray) (c.advance bs.length) := by
  induction h with
  | nil s =>
      intro c fuel read _ hremaining _
      have hend : hasMore c = .ok false c := by
        change EStateM.Result.ok (decide (c.pos < c.stop)) c = _
        rw [Cursor.remaining] at hremaining
        rw [decide_eq_false (by simp at hremaining; omega)]
      cases fuel with
      | zero => simp [Reader.manyFrom, Pure.pure, EStateM.pure]
      | succ fuel =>
          rw [Reader.manyFrom, bind_of_ok hend]
          simp [Pure.pure, EStateM.pure]
  | @cons s next bs rest a as hstep hbs hrest ih =>
      intro c fuel read hc hremaining hfuel
      rw [List.length_append] at hremaining hfuel
      have hpos : 0 < bs.length := List.length_pos_iff.2 hbs
      obtain ⟨fuel, rfl⟩ : ∃ n, fuel = n + 1 := ⟨fuel - 1, by omega⟩
      have hmore : hasMore c = .ok true c := by
        change EStateM.Result.ok (decide (c.pos < c.stop)) c = _
        rw [Cursor.remaining] at hremaining
        rw [decide_eq_true (by omega)]
      rw [Reader.manyFrom, bind_of_ok hmore]
      simp only [if_true]
      rw [bind_of_ok (hstep c hc.left),
        ih hc.right (by rw [Cursor.remaining_advance]; omega) (by omega),
        Cursor.advance_advance, List.length_append]
      simp

/-- The bytes of all steps are read when they end where the limit is. -/
theorem Steps.untilEnd {step : σ → Reader (α × σ)} {s : σ} {bs : List UInt8} {as : List α}
    (h : Steps step s bs as) {c : Cursor} (hc : c.Ahead bs)
    (hremaining : c.remaining = bs.length) :
    untilEnd step s c = .ok as (c.advance bs.length) := by
  have hall : remaining c = .ok c.remaining c := rfl
  rw [Reader.untilEnd, bind_of_ok hall, bind_of_ok (h.manyFrom hc hremaining (by omega))]
  simp [Pure.pure, EStateM.pure]

end Reader

end PortablePdb
