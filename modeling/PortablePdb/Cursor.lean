/-!
A position in a buffer together with the limits that reads may not cross. Limits nest, and
only the innermost one counts; without a limit the buffer ends reads. The position may lie
behind a limit, and then nothing remains.
-/

namespace PortablePdb

structure Cursor where
  data : ByteArray
  pos : Nat
  /-- The offsets at which nested reads end, innermost first. -/
  limits : List Nat

namespace Cursor

def ofBytes (data : ByteArray) : Cursor :=
  ⟨data, 0, []⟩

/-- The offset that reads may not cross. -/
def stop (c : Cursor) : Nat :=
  c.limits.headD c.data.size

def remaining (c : Cursor) : Nat :=
  c.stop - c.pos

def hasMore (c : Cursor) : Bool :=
  c.pos < c.stop

def truncate (depth : Nat) (c : Cursor) : Cursor :=
  { c with limits := c.limits.drop (c.limits.length - depth) }

/-- The offset of the first zero among the `count` bytes from `pos` on. -/
def zeroFrom? (data : ByteArray) : (pos count : Nat) → Option Nat
  | _, 0 => none
  | pos, count + 1 =>
    if data[pos]? = some 0 then some pos else zeroFrom? data (pos + 1) count

@[simp] theorem stop_ofBytes (data : ByteArray) : (ofBytes data).stop = data.size := rfl

@[simp] theorem truncate_cons (c : Cursor) (limit : Nat) :
    ({ c with limits := limit :: c.limits } : Cursor).truncate c.limits.length = c := by
  simp [truncate]

theorem hasMore_iff (c : Cursor) : c.hasMore = true ↔ 0 < c.remaining := by
  simp only [hasMore, remaining, decide_eq_true_eq]
  omega

end Cursor

end PortablePdb
