import PortablePdb.Proofs.CompressedForm

/-!
Sequences of compressed integers. A reader has to be told which values have a sign, and
nothing else: it finds the end of each value by itself, and so it gets back what was
written, with and without signs in any order and whatever stands around the bytes.
-/

namespace PortablePdb

/-- Bytes that stand between others come next where those before them end. -/
theorem Cursor.ahead_between (before bs behind : List UInt8) :
    ({ ofBytes (before ++ bs ++ behind).toByteArray with pos :=
      before.length } : Cursor).Ahead bs where
  within := by
    simp [ofBytes, stop]
  stored := by
    simp [ofBytes]

namespace CompressedInt

open Reader

inductive Signedness
  | unsigned
  | signed
  deriving DecidableEq

namespace Value

def signedness : Value → Signedness
  | unsigned _ => .unsigned
  | signed _ => .signed

def number : Value → Int
  | unsigned n => n
  | signed n => n

/-- There are 29 bits for a value, and one of them is the sign if it has one. -/
def InRange : Value → Prop
  | unsigned n => n < 2 ^ 29
  | signed n => -2 ^ 28 ≤ n ∧ n < 2 ^ 28

theorem encode_of_inRange {v : Value} (h : v.InRange) : ∃ bytes, v.encode = .ok bytes := by
  cases v with
  | unsigned n => exact CompressedInt.encode_isOk h
  | signed n => exact encodeSigned_isOk h.1 h.2

theorem encode_of_not_inRange {v : Value} (h : ¬v.InRange) :
    v.encode = .error ⟨v.number⟩ := by
  cases v with
  | unsigned n =>
      have hnone : Packing.ofNat? n = none := by
        rw [← Option.not_isSome_iff_eq_none, ofNat?_isSome_iff]
        exact h
      rw [encode, CompressedInt.encode, hnone, number]
  | signed n => exact encodeSigned_eq_error h

end Value

def Signedness.read : Signedness → Reader Value
  | unsigned => return .unsigned (← CompressedInt.read)
  | signed => return .signed (← readSigned)

def readSequence (kinds : List Signedness) : Reader (List Value) :=
  kinds.mapM Signedness.read

theorem encodeAll_of_inRange {values : List Value} (h : ∀ v ∈ values, v.InRange) :
    ∃ bytes, encodeAll values = .ok bytes := by
  induction values with
  | nil => exact ⟨[], rfl⟩
  | cons v rest ih =>
      obtain ⟨hfirst, hrest⟩ := List.forall_mem_cons.1 h
      obtain ⟨form, hform⟩ := Value.encode_of_inRange hfirst
      obtain ⟨bytes, hbytes⟩ := ih hrest
      exact ⟨form ++ bytes, by rw [encodeAll, hform, hbytes]; rfl⟩

theorem consumes_readValue {v : Value} {bytes : List UInt8} (h : v.encode = .ok bytes) :
    Consumes v.signedness.read bytes v := by
  cases v with
  | unsigned n => exact (consumes_read h).map Value.unsigned
  | signed n => exact (consumes_readSigned h).map Value.signed

/-- Value by value, each where the one before it ends. -/
theorem consumes_readSequence {values : List Value} :
    ∀ {bytes : List UInt8}, encodeAll values = .ok bytes →
      Consumes (readSequence (values.map Value.signedness)) bytes values := by
  induction values with
  | nil =>
      intro bytes h
      obtain rfl := Except.ok.inj h
      exact .pure []
  | cons v rest ih =>
      intro bytes h
      obtain ⟨form, hform, h⟩ := Outcome.bind_eq_ok_iff.1 h
      obtain ⟨more, hmore, h⟩ := Outcome.bind_eq_ok_iff.1 h
      obtain rfl := Except.ok.inj h
      rw [readSequence, List.map_cons, List.mapM_cons]
      exact (consumes_readValue hform).bind ((ih hmore).map (v :: ·))

/-- Values of 29 bits are written, and read back from between any other bytes, in the same
order and up to the first byte behind them. Any other value is refused. -/
theorem readSequence_encodeAll :
    (∀ values : List Value, (∀ v ∈ values, v.InRange) →
      ∃ bytes, encodeAll values = .ok bytes ∧ ∀ before behind : List UInt8,
        readSequence (values.map Value.signedness)
          { Cursor.ofBytes (before ++ bytes ++ behind).toByteArray with
            pos := before.length } =
          .ok values
            { Cursor.ofBytes (before ++ bytes ++ behind).toByteArray with
              pos := before.length + bytes.length }) ∧
      ∀ v : Value, ¬v.InRange → v.encode = .error ⟨v.number⟩ := by
  refine ⟨fun values h => ?_, fun v => Value.encode_of_not_inRange⟩
  obtain ⟨bytes, hbytes⟩ := encodeAll_of_inRange h
  exact ⟨bytes, hbytes, fun before behind =>
    consumes_readSequence hbytes _ (Cursor.ahead_between before bytes behind)⟩

/-- Values at the edges of the packings, which are not the same with a sign and without
one. -/
def edges : List Value :=
  [.unsigned 0x7F, .signed (-0x40), .signed (-0x41), .unsigned 0x80, .signed 0x1FFF,
    .signed 0x2000, .unsigned 0x3FFF,
    .unsigned 0x4000, .signed (-0x10000000), .unsigned 0x1FFFFFFF]

theorem readSequence_encodeAll_edges :
    (∃ bytes, encodeAll edges = .ok bytes ∧ bytes.length = 26 ∧ ∀ behind : List UInt8,
      readSequence (edges.map Value.signedness)
          (Cursor.ofBytes (bytes ++ behind).toByteArray) =
        .ok edges { Cursor.ofBytes (bytes ++ behind).toByteArray with pos := 26 }) ∧
      (Value.unsigned 0x20000000).encode = .error ⟨0x20000000⟩ ∧
      (Value.signed (-0x10000001)).encode = .error ⟨-0x10000001⟩ := by
  have hrange : ∀ v ∈ edges, v.InRange := by
    simp [edges, Value.InRange]
  obtain ⟨bytes, hbytes, hread⟩ := readSequence_encodeAll.1 edges hrange
  have hlength : bytes.length = 26 := by
    have hform : (encodeAll edges).map List.length = .ok 26 := by decide +kernel
    rw [hbytes] at hform
    exact Except.ok.inj hform
  refine ⟨⟨bytes, hbytes, hlength, fun behind => ?_⟩, ?_, ?_⟩
  · have hread := hread [] behind
    rw [hlength] at hread
    exact hread
  · exact readSequence_encodeAll.2 (.unsigned 0x20000000) (by simp [Value.InRange])
  · exact readSequence_encodeAll.2 (.signed (-0x10000001)) (by simp [Value.InRange])

end CompressedInt

end PortablePdb
