import PortablePdb.CompressedInt

/-!
Sequences of cursor operations as data. `Op.run` is the reader of one operation,
`Op.runAll` runs a list up to its first failure, and `Op.trace` goes on after failures and
records what every operation answered and the cursor that it left behind.
-/

namespace PortablePdb.Reader

inductive Op
  | seek (offset : Nat)
  | skip (n : Nat)
  | pushLimit (n : Nat)
  | popLimit
  | bytes (n : Nat)
  | u8
  | u16
  | u32
  | u64
  | index (width : Nat)
  | nullTerminated
  | compressed
  | compressedSigned
  | withLimit (n : Nat) (body : List Op)
  deriving Inhabited

inductive Reading
  | nothing
  | bytes (read : ByteArray)
  | number (n : Int)

mutual

def Op.run : Op → Reader Reading
  | .seek offset => do Reader.seek offset; return .nothing
  | .skip n => do Reader.skip n; return .nothing
  | .pushLimit n => do Reader.pushLimit n; return .nothing
  | .popLimit => do Reader.popLimit; return .nothing
  | .bytes n => return .bytes (← Reader.bytes n)
  | .u8 => return .number (← Reader.u8).toNat
  | .u16 => return .number (← Reader.u16).toNat
  | .u32 => return .number (← Reader.u32).toNat
  | .u64 => return .number (← Reader.u64).toNat
  | .index width => return .number (← Reader.index width).toNat
  | .nullTerminated => return .bytes (← Reader.nullTerminated)
  | .compressed => return .number (← CompressedInt.read)
  | .compressedSigned => return .number (← CompressedInt.readSigned)
  | .withLimit n body => do Reader.withLimit n (Op.runAll body); return .nothing

def Op.runAll : List Op → Reader Unit
  | [] => pure ()
  | op :: rest => do
    let _ ← Op.run op
    Op.runAll rest

end

/-- What one operation of a run answered, the cursor behind it, and the same of the
operations inside it. -/
structure Entry where
  answer : Except FormatError Reading
  after : Cursor
  nested : List Entry

def Entry.ofResult (nested : List Entry) : EStateM.Result FormatError Cursor Reading → Entry
  | .ok reading after => ⟨.ok reading, after, nested⟩
  | .error e after => ⟨.error e, after, nested⟩

def Entry.failed (entry : Entry) : Bool :=
  match entry.answer with
  | .ok _ => false
  | .error _ => true

def untilFailure : List Entry → List Entry
  | [] => []
  | entry :: rest => if entry.failed then [entry] else entry :: untilFailure rest

mutual

/-- What the operations inside an operation did, up to the first one that failed. -/
def Op.nested : Op → Cursor → List Entry
  | .withLimit n body, c =>
    match Reader.pushLimit n c with
    | .ok () inner => untilFailure (Op.trace body inner)
    | .error _ _ => []
  | _, _ => []

/-- Every operation starts where the one before it ended, even if that one failed. -/
def Op.trace : List Op → Cursor → List Entry
  | [], _ => []
  | op :: rest, c =>
    let entry := Entry.ofResult (Op.nested op c) (Op.run op c)
    entry :: Op.trace rest entry.after

end

theorem Op.length_trace (ops : List Op) (c : Cursor) :
    (Op.trace ops c).length = ops.length := by
  induction ops generalizing c with
  | nil => rfl
  | cons op rest ih => simp [Op.trace, ih]

end PortablePdb.Reader
