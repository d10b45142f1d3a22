import PortablePdb.ByteOrder
import PortablePdb.Cursor
import PortablePdb.FormatError

/-!
Actions on a cursor that may fail. No reader gets bytes from behind the innermost limit. A
failing reader leaves a cursor behind: `withLimit` and `untilEnd` the one that the failure
inside them left, with the limits put back, and every other reader of this module the one
that it started with.
-/

namespace PortablePdb

abbrev Reader := EStateM FormatError Cursor

namespace Reader

/-- The answer of a reader that starts at the first byte of a buffer, without limits. -/
def run {α : Type} (reader : Reader α) (data : ByteArray) : Except FormatError α :=
  match reader (Cursor.ofBytes data) with
  | .ok a _ => .ok a
  | .error e _ => .error e

def position : Reader Nat :=
  return (← get).pos

def remaining : Reader Nat :=
  return (← get).remaining

def hasMore : Reader Bool :=
  return (← get).hasMore

/-- Moves to an offset of the buffer or to its end, whatever the limits are. -/
def seek (offset : Nat) : Reader Unit := fun c =>
  if offset ≤ c.data.size then .ok () { c with pos := offset }
  else .error (.outOfBounds offset 0) c

def bytes (n : Nat) : Reader ByteArray := fun c =>
  if c.pos + n ≤ c.stop then
    .ok (c.data.extract c.pos (c.pos + n)) { c with pos := c.pos + n }
  else .error (.outOfBounds c.pos n) c

theorem seek_of_le {offset : Nat} {c : Cursor} (h : offset ≤ c.data.size) :
    seek offset c = .ok () { c with pos := offset } := by
  simp [seek, h]

theorem bytes_of_le {n : Nat} {c : Cursor} (h : c.pos + n ≤ c.stop) :
    bytes n c = .ok (c.data.extract c.pos (c.pos + n)) { c with pos := c.pos + n } := by
  simp [bytes, h]

theorem bytes_of_lt {n : Nat} {c : Cursor} (h : c.stop < c.pos + n) :
    bytes n c = .error (.outOfBounds c.pos n) c := by
  simp [bytes, Nat.not_le.2 h]

def skip (n : Nat) : Reader Unit := do
  let _ ← bytes n

/-- Ends all further reads `n` bytes from here, which may not lie behind the limit that
holds now. -/
def pushLimit (n : Nat) : Reader Unit := fun c =>
  if c.pos + n ≤ c.stop then .ok () { c with limits := (c.pos + n) :: c.limits }
  else .error (.outOfBounds c.pos n) c

theorem pushLimit_of_le {n : Nat} {c : Cursor} (h : c.pos + n ≤ c.stop) :
    pushLimit n c = .ok () { c with limits := (c.pos + n) :: c.limits } := by
  simp [pushLimit, h]

theorem pushLimit_of_lt {n : Nat} {c : Cursor} (h : c.stop < c.pos + n) :
    pushLimit n c = .error (.outOfBounds c.pos n) c := by
  simp [pushLimit, Nat.not_le.2 h]

/-- Goes back to the limit before the last one, if there is one. -/
def popLimit : Reader Unit :=
  modify fun c => { c with limits := c.limits.tail }

/-- Runs the body on the next `n` bytes only, and takes away the limits that it leaves
behind on success and failure alike. -/
def withLimit {α : Type} (n : Nat) (body : Reader α) : Reader α := fun c =>
  match pushLimit n c with
  | .error e c => .error e c
  | .ok () inner =>
    match body inner with
    | .ok a after => .ok a (after.truncate c.limits.length)
    | .error e after => .error e (after.truncate c.limits.length)

/-- A limit that does not fit is an error, and the body does not run. -/
theorem withLimit_of_lt {α : Type} {n : Nat} {body : Reader α} {c : Cursor}
    (h : c.stop < c.pos + n) : withLimit n body c = .error (.outOfBounds c.pos n) c := by
  simp [withLimit, pushLimit_of_lt h]

def word (width : Nat) : Reader Nat :=
  return leNat (← bytes width).data.toList

def u8 : Reader UInt8 :=
  return (← word 1).toUInt8

def u16 : Reader UInt16 :=
  return (← word 2).toUInt16

def u32 : Reader UInt32 :=
  return (← word 4).toUInt32

def u64 : Reader UInt64 :=
  return (← word 8).toUInt64

def index (width : Nat) : Reader UInt32 :=
  match width with
  | 2 => return (← u16).toUInt32
  | 4 => u32
  | _ => throw (.invalidIndexWidth width)

/-- The bytes before the next zero; the zero is read too. -/
def nullTerminated : Reader ByteArray := fun c =>
  if c.pos ≤ c.stop then
    match Cursor.zeroFrom? c.data c.pos c.remaining with
    | some last => .ok (c.data.extract c.pos last) { c with pos := last + 1 }
    | none => .error (.outOfBounds c.pos (c.remaining + 1)) c
  else .error (.outOfBounds c.pos 1) c

def utf8 (text : ByteArray) (error : FormatError) : Reader String :=
  match String.fromUTF8? text with
  | some s => pure s
  | none => throw error

/-- At most `fuel` answers of `step`, until nothing remains before the limit. -/
def manyFrom {α σ : Type} (step : σ → Reader (α × σ)) : Nat → σ → Array α → Reader (Array α)
  | 0, _, read => pure read
  | fuel + 1, s, read => do
    if ← hasMore then
      let (a, next) ← step s
      manyFrom step fuel next (read.push a)
    else
      pure read

/-- Repeats a step until nothing remains before the limit. A step that succeeds has to
read at least one byte, so that no more steps than bytes are needed. -/
def untilEnd {α σ : Type} (step : σ → Reader (α × σ)) (s : σ) : Reader (List α) := do
  return (← manyFrom step (← remaining) s #[]).toList

end Reader

end PortablePdb
