import PortablePdb.Proofs.SequencePoint.Span
import PortablePdb.SequencePoint.Record

/-!
The points of a blob, read in machine words. Offsets, distances, lines and columns are
words of fixed width here, and each operation on them is looked at before its result is
used. `Operation.Exact` says when the result is the number that it stands for, and how
small the numbers have to stay. At the first operation that is not exact, reading stops.
-/

namespace PortablePdb.SequencePoint.Words

/-! ### Operations -/

/-- The range of the last visible point of records, given the last one first. -/
def lastSpan (records : List Record) : Option Span :=
  records.findSome? fun
    | .point _ span => span
    | .documentChange _ => none

def lowWord (n : Int64) : UInt32 :=
  n.toUInt64.toUInt32

inductive Operation
  /-- A sum of two lines or of two columns. -/
  | sum (a b : Int64)
  /-- The subtraction by which a compressed integer becomes negative. -/
  | difference (magnitude half : Int32)
  /-- A line or a column becomes a word without sign. -/
  | conversion (n : Int64)
  /-- The start that the next distances are taken from is kept, behind these records. -/
  | base (start : Option (UInt32 × UInt32)) (records : List Record)
  /-- A distance is added to an offset. -/
  | advance (ilOffset ilDelta : UInt32)
  deriving DecidableEq

namespace Operation

/-- The result is the one in integers, and it is within the bounds for its kind. A base is
the start of the last visible range, and that range is valid. -/
def Exact : Operation → Prop
  | sum a b => -2 ^ 31 < a.toInt + b.toInt ∧ a.toInt + b.toInt < 2 ^ 31
  | difference magnitude half =>
    -2 ^ 31 ≤ magnitude.toInt - half.toInt ∧ magnitude.toInt - half.toInt < 2 ^ 31
  | conversion n => 0 ≤ n.toInt ∧ (lowWord n).toNat = n.toInt
  | base start records =>
    start = (lastSpan records).map (fun s => (s.startLine, s.startColumn)) ∧
      ∀ s ∈ lastSpan records, s.Valid
  | advance ilOffset ilDelta => ilOffset.toNat + ilDelta.toNat < 2 ^ 30

instance : DecidablePred Exact
  | sum a b =>
    inferInstanceAs (Decidable (-2 ^ 31 < a.toInt + b.toInt ∧ a.toInt + b.toInt < 2 ^ 31))
  | difference magnitude half =>
    inferInstanceAs (Decidable (-2 ^ 31 ≤ magnitude.toInt - half.toInt ∧
      magnitude.toInt - half.toInt < 2 ^ 31))
  | conversion n => inferInstanceAs (Decidable (0 ≤ n.toInt ∧ (lowWord n).toNat = n.toInt))
  | base start records =>
    inferInstanceAs
      (Decidable (start = (lastSpan records).map (fun s => (s.startLine, s.startColumn)) ∧
        ∀ s ∈ lastSpan records, s.Valid))
  | advance ilOffset ilDelta =>
    inferInstanceAs (Decidable (ilOffset.toNat + ilDelta.toNat < 2 ^ 30))

end Operation

inductive Stop
  | refused (e : FormatError)
  | inexact (operation : Operation)
  deriving DecidableEq

def Operation.check (operation : Operation) : Except Stop Unit :=
  if operation.Exact then .ok () else .error (.inexact operation)

theorem Operation.check_of_exact {operation : Operation} (h : operation.Exact) :
    operation.check = .ok () :=
  if_pos h

abbrev WordReader := EStateM Stop Cursor

variable {α : Type}

def ofReader (r : Reader α) : WordReader α := fun c =>
  match r c with
  | .ok a d => .ok a d
  | .error e d => .error (.refused e) d

def perform (operation : Operation) : WordReader Unit :=
  MonadExcept.ofExcept operation.check

theorem perform_bind {operation : Operation} (h : operation.Exact)
    (f : Unit → WordReader α) : perform operation >>= f = f () := by
  rw [perform, Operation.check_of_exact h]
  rfl

/-! ### Integers -/

def wide (w : UInt32) : Int64 :=
  w.toUInt64.toInt64

@[simp] theorem toInt_wide (w : UInt32) : (wide w).toInt = w.toNat := by
  have hlt := w.toNat_lt
  have hword : w.toUInt64.toNat = w.toNat := UInt32.toNat_toUInt64 w
  rw [← hword]
  exact BitVec.toInt_eq_toNat_of_lt (show 2 * w.toUInt64.toNat < 2 ^ 64 by omega)

def add (a b : Int64) : WordReader Int64 := do
  perform (.sum a b)
  return a + b

theorem exists_add {a b : Int64} (hlow : -2 ^ 31 < a.toInt + b.toInt)
    (hhigh : a.toInt + b.toInt < 2 ^ 31) :
    ∃ n, add a b = pure n ∧ n.toInt = a.toInt + b.toInt := by
  have hexact : (Operation.sum a b).Exact := ⟨hlow, hhigh⟩
  refine ⟨a + b, perform_bind hexact _, ?_⟩
  rw [Int64.toInt_add, Int.bmod_eq_of_le] <;> omega

def narrow (n : Int64) : WordReader UInt32 := do
  perform (.conversion n)
  return lowWord n

theorem lowWord_eq {n : Int64} {w : UInt32} (h : n.toInt = w.toNat) : lowWord n = w := by
  rw [← UInt32.toNat_inj, ← toInt_wide, Int64.toInt_inj] at *
  subst h
  simp [lowWord, wide]

/-- A number that is a word is converted to that word. -/
theorem narrow_eq {n : Int64} {w : UInt32} (h : n.toInt = w.toNat) : narrow n = pure w := by
  have hlow := lowWord_eq h
  have hexact : (Operation.conversion n).Exact := ⟨by omega, by rw [hlow, h]⟩
  rw [narrow, perform_bind hexact, hlow]

def unsigned : WordReader UInt32 :=
  return (← ofReader CompressedInt.read).toUInt32

/-- The number of signed values on either side of zero, all value bits but one. -/
def half : CompressedInt.Packing → Int32
  | .one => (1 : Int32) <<< 6
  | .two => (1 : Int32) <<< 13
  | .four => (1 : Int32) <<< 28

@[simp] theorem toInt_half (p : CompressedInt.Packing) : (half p).toInt = p.half := by
  cases p <;> decide

def signed : WordReader Int32 := do
  let (p, raw) ← ofReader CompressedInt.readPacked
  let magnitude := (raw.toUInt32 >>> 1).toInt32
  if raw.toUInt32 &&& 1 = 0 then
    return magnitude
  else
    perform (.difference magnitude (half p))
    return magnitude - half p

/-! ### Ranges -/

def isLine (line : Int64) : Bool :=
  0 ≤ line && line < 0x20000000 && line != 0xfeefee

def isColumn (column : Int64) : Bool :=
  0 ≤ column && column < 0x10000

theorem isLine_eq (line : Int64) : isLine line = Span.isLine line.toInt := by
  simp only [isLine, Span.isLine, Int64.le_iff_toInt_le, Int64.lt_iff_toInt_lt, bne,
    BEq.beq, ← Int64.toInt_inj]
  rfl

theorem isColumn_eq (column : Int64) : isColumn column = Span.isColumn column.toInt := by
  simp only [isColumn, Span.isColumn, Int64.le_iff_toInt_le, Int64.lt_iff_toInt_lt]
  rfl

def toSpan (startLine startColumn endLine endColumn : Int64) : WordReader Span := do
  if isLine startLine ∧ isLine endLine ∧ isColumn startColumn ∧ isColumn endColumn ∧
      (startLine < endLine ∨ startLine = endLine ∧ startColumn < endColumn) then
    let startLine ← narrow startLine
    let startColumn ← narrow startColumn
    let endLine ← narrow endLine
    let endColumn ← narrow endColumn
    return { startLine, startColumn, endLine, endColumn }
  else
    throw (.refused .invalidSequencePoint)

/-- No conversion changes a number that has passed the check. -/
theorem toSpan_eq (startLine startColumn endLine endColumn : Int64) :
    toSpan startLine startColumn endLine endColumn =
      (Span.ofInts? startLine.toInt startColumn.toInt endLine.toInt endColumn.toInt).elim
        (throw (.refused .invalidSequencePoint)) pure := by
  cases hspan :
    Span.ofInts? startLine.toInt startColumn.toInt endLine.toInt endColumn.toInt with
  | none =>
      rw [Span.ofInts?] at hspan
      split at hspan
      case isTrue => cases hspan
      case isFalse hcheck =>
        simp only [← isLine_eq, ← isColumn_eq, ← Int64.lt_iff_toInt_lt,
          Int64.toInt_inj] at hcheck
        exact if_neg hcheck
  | some s =>
      obtain ⟨-, hstartLine, hstartColumn, hendLine, hendColumn⟩ :=
        Span.ofInts?_eq_some_iff.1 hspan
      rw [Span.ofInts?] at hspan
      split at hspan
      case isFalse => cases hspan
      case isTrue hcheck =>
        simp only [← isLine_eq, ← isColumn_eq, ← Int64.lt_iff_toInt_lt,
          Int64.toInt_inj] at hcheck
        rw [toSpan, if_pos hcheck, narrow_eq hstartLine, narrow_eq hstartColumn,
          narrow_eq hendLine, narrow_eq hendColumn]
        rfl

def spanFrom (line column : Int64) (lines : UInt32) (columns : Int64) :
    WordReader Span := do
  let endLine ← add line (wide lines)
  let endColumn ← add column columns
  toSpan line column endLine endColumn

/-! ### Records -/

structure State where
  /-- The records so far, the last one first. -/
  records : List Record
  /-- Start line and start column of the last visible point. -/
  base : Option (UInt32 × UInt32)

def readStart : Option (UInt32 × UInt32) → WordReader (Int64 × Int64)
  | none => do
    let line ← unsigned
    let column ← unsigned
    return (wide line, wide column)
  | some (baseLine, baseColumn) => do
    let lineDelta ← signed
    let line ← add (wide baseLine) lineDelta.toInt64
    let columnDelta ← signed
    let column ← add (wide baseColumn) columnDelta.toInt64
    return (line, column)

def readColumns (lines : UInt32) : WordReader Int64 := do
  if lines = 0 then
    return wide (← unsigned)
  else
    return (← signed).toInt64

def State.next (s : State) (record : Record) (base : Option (UInt32 × UInt32)) :
    WordReader State := do
  perform (.base base (record :: s.records))
  return ⟨record :: s.records, base⟩

/-- One record. Neither a change of document nor a hidden point moves the base. -/
def read (s : State) : WordReader State := do
  let ilDelta ← unsigned
  if ilDelta = 0 ∧ s.records ≠ [] then
    let document ← unsigned
    s.next (.documentChange document.toNat) s.base
  else
    let lines ← unsigned
    let columns ← readColumns lines
    if lines = 0 ∧ columns = 0 then
      s.next (.point ilDelta.toNat none) s.base
    else
      let (line, column) ← readStart s.base
      let span ← spanFrom line column lines columns
      let baseLine ← narrow line
      let baseColumn ← narrow column
      s.next (.point ilDelta.toNat (some span)) (some (baseLine, baseColumn))

def readFrom : Nat → State → WordReader State
  | 0, s => return s
  | fuel + 1, s => do
    if ← ofReader Reader.hasMore then
      readFrom fuel (← read s)
    else
      return s

def readAll (document : UInt32) : WordReader (List Record) := do
  let _ ← unsigned
  if document = 0 then
    let _ ← unsigned
  let s ← readFrom (← ofReader Reader.remaining) ⟨[], none⟩
  return s.records.reverse

/-! ### Points -/

/-- A distance was a word when it was read, and is that word again here. -/
def resolveFrom (method : Nat) : (ilOffset : UInt32) → Array SequencePoint → List Record →
    Except Stop (Array SequencePoint)
  | _, points, [] => .ok points
  | _, _, .documentChange _ :: _ => .error (.refused (.crossDocumentMethod method))
  | ilOffset, points, .point ilDelta span :: rest => do
    Operation.check (.advance ilOffset ilDelta.toUInt32)
    if ilOffset + ilDelta.toUInt32 < 0x20000000 then
      resolveFrom method (ilOffset + ilDelta.toUInt32)
        (points.push ⟨ilOffset + ilDelta.toUInt32, span⟩) rest
    else
      .error (.refused .invalidSequencePoint)

def resolve (method : Nat) (records : List Record) : Except Stop (List SequencePoint) :=
  (resolveFrom method 0 #[] records).map Array.toList

def readBlob (method : Nat) (document : UInt32) (blob : ByteArray) :
    Except Stop (List SequencePoint) :=
  match readAll document (Cursor.ofBytes blob) with
  | .ok records _ => resolve method records
  | .error stop _ => .error stop

end PortablePdb.SequencePoint.Words
