import PortablePdb.CompressedInt
import PortablePdb.Directory

/-!
Properties that readers get from the readers they are composed of. Words and the headers
of a directory read bytes and texts and do nothing else, so `Reader.Compositional` needs a
rule for each of these and one for sequences. A property may be one of readers that fail
in certain ways only; `thrown` then says which errors they may throw themselves.
-/

namespace PortablePdb

namespace Reader

structure Compositional (thrown : FormatError → Prop)
    (P : {α : Type} → Reader α → Prop) : Prop where
  pure {α : Type} (a : α) : P (pure a)
  throw {α : Type} {e : FormatError} (he : thrown e) : P (throw e : Reader α)
  bind {α β : Type} {r : Reader α} {f : α → Reader β} (hr : P r)
    (hf : ∀ a, P (f a)) : P (r >>= f)
  bytes (n : Nat) : P (bytes n)
  nullTerminated : P nullTerminated

namespace Compositional

variable {thrown : FormatError → Prop} {P : {α : Type} → Reader α → Prop}
  (h : Compositional thrown P)
include h

/-- What comes behind a check is read if the check passes. -/
theorem check {α : Type} {p : Prop} [Decidable p] {e : FormatError}
    {rest : PUnit → Reader α} (he : thrown e) (hrest : ∀ u, P (rest u)) :
    P (if p then MonadExcept.throw e >>= rest else rest ⟨⟩) := by
  split
  · exact h.bind (h.throw he) hrest
  · exact hrest ⟨⟩

theorem skip (n : Nat) : P (Reader.skip n) :=
  h.bind (h.bytes n) fun _ => h.pure ()

theorem word (width : Nat) : P (Reader.word width) :=
  h.bind (h.bytes width) fun _ => h.pure _

theorem u8 : P Reader.u8 :=
  h.bind (h.word 1) fun _ => h.pure _

theorem u16 : P Reader.u16 :=
  h.bind (h.word 2) fun _ => h.pure _

theorem u32 : P Reader.u32 :=
  h.bind (h.word 4) fun _ => h.pure _

theorem u64 : P Reader.u64 :=
  h.bind (h.word 8) fun _ => h.pure _

theorem index {width : Nat} (hwidth : thrown (.invalidIndexWidth width)) :
    P (Reader.index width) := by
  unfold Reader.index
  split
  · exact h.bind h.u16 fun _ => h.pure _
  · exact h.u32
  · exact h.throw hwidth

theorem utf8 (text : ByteArray) {error : FormatError} (herror : thrown error) :
    P (Reader.utf8 text error) := by
  unfold Reader.utf8
  split
  · exact h.pure _
  · exact h.throw herror

theorem ofFnM {α : Type} {n : Nat} {f : Fin n → Reader α} (hf : ∀ i, P (f i)) :
    P (Vector.ofFnM f) := by
  induction n with
  | zero =>
      rw [Vector.ofFnM_zero]
      exact h.pure _
  | succ n ih =>
      rw [Vector.ofFnM_succ]
      exact h.bind (ih fun i => hf i.castSucc) fun _ =>
        h.bind (hf (Fin.last n)) fun _ => h.pure _

section CompressedInt

-- Compressed integers also ask for the offset that they begin at.
variable (hposition : P Reader.position)
  (hinvalid : ∀ offset, thrown (.invalidCompressedInteger offset))
include hposition hinvalid

theorem readPacked : P CompressedInt.readPacked := by
  refine h.bind hposition fun _ => h.bind h.u8 fun _ => ?_
  split
  · exact h.pure _
  · split
    · exact h.bind h.u8 fun _ => h.pure _
    · split
      · exact h.bind (h.bytes 3) fun _ => h.pure _
      · exact h.throw (hinvalid _)

theorem compressed : P CompressedInt.read :=
  h.bind (h.readPacked hposition hinvalid) fun _ => h.pure _

theorem compressedSigned : P CompressedInt.readSigned :=
  h.bind (h.readPacked hposition hinvalid) fun _ => h.pure _

end CompressedInt

section Headers

variable (hfault : ∀ fault, thrown (.malformedHeader fault))
include hfault

theorem rootHeader : P RootHeader.read :=
  h.bind h.u32 fun _ => h.check (hfault _) fun _ => h.bind h.u16 fun _ =>
      h.bind h.u16 fun _ => h.bind h.u32 fun _ =>
    h.bind h.u32 fun _ => h.bind (h.bytes _) fun _ =>
      h.bind (h.utf8 _ (hfault _)) fun _ => h.bind h.u16 fun _ =>
    h.bind h.u16 fun _ => h.pure _

theorem streamHeader : P StreamHeader.read :=
  h.bind h.u32 fun _ => h.bind h.u32 fun _ => h.bind h.nullTerminated fun _ =>
      h.check (hfault _) fun _ =>
    h.bind (h.utf8 _ (hfault _)) fun _ => h.bind (h.skip _) fun _ => h.pure _

end Headers

end Compositional

end Reader

end PortablePdb
