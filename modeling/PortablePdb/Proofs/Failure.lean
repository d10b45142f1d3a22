import PortablePdb.Heap.DocumentName
import PortablePdb.Proofs.Composition
import PortablePdb.Proofs.Cursor.Bounds
import PortablePdb.Proofs.Table.Layout
import PortablePdb.SequencePoint.Record

/-!
What can go wrong. `FailsWith P` says of a computation or of a reader that any error of it
satisfies `P`, and it is put together along their steps. What lies in heaps and blobs is
found wrong by its content alone (`FormatError.OfContent`), never by headers, tables or
rows.
-/

namespace PortablePdb

/-- Bytes that are not there, or that do not say what they should. -/
inductive FormatError.OfContent : FormatError → Prop
  | outOfBounds (offset length : Nat) : OfContent (.outOfBounds offset length)
  | invalidCompressedInteger (offset : Nat) : OfContent (.invalidCompressedInteger offset)
  | invalidGuidIndex (index : UInt32) : OfContent (.invalidGuidIndex index)
  | inconsistentRange (table : TableKind) (first stop : Nat) :
      OfContent (.inconsistentRange table first stop)
  | crossDocumentMethod (method : Nat) : OfContent (.crossDocumentMethod method)
  | invalidSequencePoint : OfContent .invalidSequencePoint
  | invalidStringData : OfContent .invalidStringData

inductive FormatError.OfDirectory : FormatError → Prop
  | content {e : FormatError} (h : OfContent e) : OfDirectory e
  | malformedHeader (fault : HeaderFault) : OfDirectory (.malformedHeader fault)

/-- The tables of debug files are never unsupported. -/
inductive FormatError.OfTables : FormatError → Prop
  | content {e : FormatError} (h : OfContent e) : OfTables e
  | unsupportedTable {id : Fin 64} (hid : TableKind.isDebugTable id = false) :
      OfTables (.unsupportedTable id)

open FormatError

/-! ### Computations -/

namespace Outcome

variable {α β : Type} {P Q : FormatError → Prop}

def FailsWith (P : FormatError → Prop) (x : Except FormatError α) : Prop :=
  ∀ e, x = .error e → P e

namespace FailsWith

theorem ok (a : α) : FailsWith P (.ok a) :=
  nofun

theorem error {e : FormatError} (he : P e) :
    FailsWith P (.error e : Except FormatError α) := by
  rintro _ ⟨⟩
  exact he

theorem mono {x : Except FormatError α} (h : FailsWith P x) (himp : ∀ e, P e → Q e) :
    FailsWith Q x :=
  fun e he => himp e (h e he)

theorem bind {x : Except FormatError α} {f : α → Except FormatError β} (hx : FailsWith P x)
    (hf : ∀ a, x = .ok a → FailsWith P (f a)) : FailsWith P (x >>= f) := by
  intro e he
  rcases bind_eq_error_iff.1 he with he | ⟨a, ha, he⟩
  · exact hx e he
  · exact hf a ha e he

theorem map {x : Except FormatError α} (hx : FailsWith P x) (f : α → β) :
    FailsWith P (do return f (← x)) :=
  hx.bind fun _ _ => ok _

theorem mapM {f : α → Except FormatError β} {as : List α}
    (hf : ∀ a ∈ as, FailsWith P (f a)) : FailsWith P (as.mapM f) := by
  intro e he
  obtain ⟨i, a, ha, he, -⟩ := mapM_eq_error_iff.1 he
  exact hf a (List.mem_of_getElem? ha) e he

end FailsWith

end Outcome

open Outcome

/-! ### Readers -/

namespace Reader

variable {α β σ : Type} {P : FormatError → Prop}

/-- Any error of the reader is one of these, wherever it starts. -/
def FailsWith (P : FormatError → Prop) (r : Reader α) : Prop :=
  ∀ (c : Cursor) (e : FormatError) (d : Cursor), r c = .error e d → P e

namespace FailsWith

theorem run {r : Reader α} (hr : FailsWith P r) (data : ByteArray) :
    Outcome.FailsWith P (r.run data) := by
  intro e he
  rw [Reader.run] at he
  split at he
  · cases he
  · rename_i error d heq
    cases he
    exact hr _ _ _ heq

theorem pure (a : α) : FailsWith P (pure a) :=
  fun _ _ _ h => nomatch h

theorem throw {e : FormatError} (he : P e) : FailsWith P (throw e : Reader α) := by
  rintro c _ d ⟨⟩
  exact he

theorem bind {r : Reader α} {f : α → Reader β} (hr : FailsWith P r)
    (hf : ∀ a, FailsWith P (f a)) : FailsWith P (r >>= f) := by
  intro c e d h
  rcases Outcome.run_bind_eq_error_iff.1 h with h | ⟨a, c', -, h⟩
  · exact hr c e d h
  · exact hf a c' e d h

theorem ofExcept {x : Except FormatError α} (hx : Outcome.FailsWith P x) :
    FailsWith P (MonadExcept.ofExcept x : Reader α) := by
  cases x with
  | ok a => exact .pure a
  | error e => exact .throw (hx e rfl)

theorem get : FailsWith P (get : Reader Cursor) :=
  fun _ _ _ h => nomatch h

theorem position : FailsWith P position :=
  fun _ _ _ h => nomatch h

theorem remaining : FailsWith P remaining :=
  fun _ _ _ h => nomatch h

theorem hasMore : FailsWith P hasMore :=
  fun _ _ _ h => nomatch h

/-- Steps that are repeated fail like one of them. -/
theorem untilEnd {step : σ → Reader (α × σ)} (hstep : ∀ s, FailsWith P (step s)) (s : σ) :
    FailsWith P (untilEnd step s) := by
  have hmany (fuel : Nat) :
      ∀ (s : σ) (read : Array α), FailsWith P (manyFrom step fuel s read) := by
    induction fuel with
    | zero => exact fun _ _ => .pure _
    | succ fuel ih =>
        intro s read
        refine bind hasMore fun more => ?_
        split
        · exact bind (hstep s) fun _ => ih _ _
        · exact .pure _
  exact bind remaining fun _ => bind (hmany _ _ _) fun _ => .pure _

section OutOfBounds

variable (hbounds : ∀ offset length, P (.outOfBounds offset length))
include hbounds

theorem seek (offset : Nat) : FailsWith P (seek offset) := by
  intro c e d h
  rw [Reader.seek] at h
  split at h
  · cases h
  · cases h
    exact hbounds _ _

theorem bytes (n : Nat) : FailsWith P (bytes n) := by
  intro c e d h
  obtain ⟨-, rfl, -⟩ := bytes_eq_error_iff.1 h
  exact hbounds _ _

theorem nullTerminated : FailsWith P nullTerminated := by
  intro c e d h
  obtain ⟨-, length, rfl, -⟩ := nullTerminated_eq_error h
  exact hbounds _ _

theorem withLimit (n : Nat) {body : Reader α} (hbody : FailsWith P body) :
    FailsWith P (withLimit n body) := by
  intro c e d h
  by_cases hn : c.pos + n ≤ c.stop
  · rw [Reader.withLimit, pushLimit_of_le hn] at h
    dsimp only at h
    split at h
    · cases h
    · rename_i error after heq
      cases h
      exact hbody _ _ _ heq
  · rw [withLimit_of_lt (Nat.not_le.1 hn)] at h
    cases h
    exact hbounds _ _

theorem compositional : Compositional P (FailsWith P) where
  pure := .pure
  throw := .throw
  bind := .bind
  bytes := bytes hbounds
  nullTerminated := nullTerminated hbounds

end OutOfBounds

theorem compositionalOfContent : Compositional OfContent (FailsWith OfContent) :=
  compositional .outOfBounds

theorem compressed : FailsWith OfContent CompressedInt.read :=
  compositionalOfContent.compressed position .invalidCompressedInteger

theorem compressedSigned : FailsWith OfContent CompressedInt.readSigned :=
  compositionalOfContent.compressedSigned position .invalidCompressedInteger

end FailsWith

end Reader

open Reader

/-! ### Heaps -/

theorem StringHeap.failsWith_get (heap : StringHeap) (offset : UInt32) :
    Outcome.FailsWith OfContent (heap.get offset) :=
  Reader.FailsWith.run
      (.bind (.seek .outOfBounds _) fun _ => .bind (.nullTerminated .outOfBounds) fun _ =>
    Reader.FailsWith.compositionalOfContent.utf8 _ .invalidStringData) _

theorem GuidHeap.failsWith_get (heap : GuidHeap) (index : UInt32) :
    Outcome.FailsWith OfContent (heap.get index) := by
  rw [get]
  split
  · exact .ok _
  · exact .error (.invalidGuidIndex _)

/-- What an identifier stands for, where zero stands for none. -/
theorem GuidHeap.failsWith_known {α : Type} (heap : GuidHeap) (index : UInt32)
    (unknown : α) (ofGuid : Guid → α) :
    Outcome.FailsWith OfContent
      (if index = 0 then .ok unknown else return ofGuid (← heap.get index)) := by
  split
  · exact .ok _
  · exact (heap.failsWith_get index).map _

namespace BlobHeap

theorem failsWith_get (heap : BlobHeap) (offset : UInt32) :
    Outcome.FailsWith OfContent (heap.get offset) :=
  Reader.FailsWith.run (.bind (.seek .outOfBounds _) fun _ => .bind .compressed fun _ =>
    .withLimit .outOfBounds _ (.bind .remaining fun _ => .bytes .outOfBounds _)) _

theorem failsWith_separatorText (separator : UInt8) :
    Outcome.FailsWith OfContent (separatorText separator) := by
  rw [separatorText]
  split
  · exact .ok _
  · split
    · exact .ok _
    · exact .error .invalidStringData

theorem failsWith_namePart (heap : BlobHeap) (part : Nat) :
    Outcome.FailsWith OfContent (heap.namePart part) := by
  rw [namePart]
  split
  · exact .ok _
  · refine (heap.failsWith_get _).bind fun blob _ => ?_
    split
    · exact .ok _
    · exact .error .invalidStringData

theorem failsWith_documentName (heap : BlobHeap) (offset : UInt32) :
    Outcome.FailsWith OfContent (heap.documentName offset) := by
  refine (heap.failsWith_get offset).bind fun name _ => Reader.FailsWith.run ?_ name
  refine .bind Reader.FailsWith.compositionalOfContent.u8 fun separator => ?_
  refine .bind (.ofExcept (failsWith_separatorText separator)) fun _ => ?_
  refine .bind (.untilEnd (fun _ => ?_) _) fun _ => .pure _
  exact .bind .compressed fun part =>
    .bind (.ofExcept (heap.failsWith_namePart part)) fun _ => .pure _

end BlobHeap

/-! ### Sequence points -/

namespace SequencePoint

theorem Record.failsWith_read (context : Context) :
    Reader.FailsWith OfContent (read context) := by
  refine .bind .compressed fun ilDelta => ?_
  split
  · exact .bind .compressed fun _ => .pure _
  · refine .bind .compressed fun lines => .bind ?_ fun columns => ?_
    · rw [readColumns]
      split
      · exact .bind .compressed fun _ => .pure _
      · exact .compressedSigned
    · split
      · exact .pure _
      · refine .bind ?_ fun start => ?_
        · rw [readStart.eq_def]
          split
          · exact .bind .compressed fun _ => .bind .compressed fun _ => .pure _
          · exact .bind .compressedSigned fun _ => .bind .compressedSigned fun _ => .pure _
        · dsimp only
          split
          · exact .pure _
          · exact .throw .invalidSequencePoint

theorem Record.failsWith_readAll (document : UInt32) :
    Reader.FailsWith OfContent (readAll document) := by
  refine .bind .compressed fun _ => ?_
  split
  · exact .bind .compressed fun _ => .untilEnd failsWith_read _
  · exact .untilEnd failsWith_read _

theorem failsWith_resolveFrom (method : Nat) (records : List Record) :
    ∀ ilOffset points,
      Outcome.FailsWith OfContent (resolveFrom method ilOffset points records) := by
  induction records with
  | nil => exact fun _ _ => .ok _
  | cons record rest ih =>
      intro ilOffset points
      cases record with
      | documentChange document => exact .error (.crossDocumentMethod method)
      | point ilDelta span =>
          rw [resolveFrom]
          split
          · exact ih _ _
          · exact .error .invalidSequencePoint

theorem failsWith_readBlob (method : Nat) (document : UInt32) (blob : ByteArray) :
    Outcome.FailsWith OfContent (readBlob method document blob) := by
  refine Outcome.FailsWith.bind ((Record.failsWith_readAll document).run blob)
    fun records _ => ?_
  intro e he
  rw [resolve] at he
  cases hresolved : resolveFrom method 0 #[] records with
  | ok points =>
      rw [hresolved] at he
      cases he
  | error error =>
      rw [hresolved] at he
      cases he
      exact failsWith_resolveFrom method records _ _ _ hresolved

end SequencePoint

/-! ### Streams -/

theorem Directory.failsWith_read : Reader.FailsWith OfDirectory read := by
  have hcomp : Compositional OfDirectory (Reader.FailsWith OfDirectory) :=
    Reader.FailsWith.compositional fun _ _ => .content (.outOfBounds _ _)
  have hstreams (count : Nat) :
      ∀ streams, Reader.FailsWith OfDirectory (readStreams count streams) := by
    induction count with
    | zero => exact fun _ => .pure _
    | succ count ih =>
        intro streams
        refine .bind (hcomp.streamHeader .malformedHeader) fun header =>
          .bind .get fun c => ?_
        refine .bind (.ofExcept ?_) fun _ => hcomp.check (.malformedHeader _) fun _ => ih _
        rw [StreamHeader.checkWithin]
        split
        · exact .ok _
        · exact .error (.content (.outOfBounds _ _))
  exact .bind (hcomp.rootHeader .malformedHeader) fun root =>
    .bind (hstreams _ _) fun _ => .pure _

theorem PdbStream.failsWith_read : Reader.FailsWith OfContent read := by
  have hcomp := Reader.FailsWith.compositionalOfContent
  have hcounts (mask : UInt64) : Reader.FailsWith OfContent (RowCounts.read mask) := by
    refine hcomp.ofFnM fun id => ?_
    split
    · exact hcomp.u32
    · exact .pure _
  exact .bind (hcomp.bytes _) fun _ => .bind hcomp.u32 fun _ => .bind hcomp.u64 fun _ =>
      .bind (hcounts _) fun _ =>
    .pure _

open Layout in
/-- Columns have widths that can be read, and the only tables that are refused are those
of no debug file. -/
theorem Tables.failsWith_read (s : ByteArray) (referenced : RowCounts) :
    Outcome.FailsWith OfTables ((read referenced).run s) := by
  intro e he
  rw [run] at he
  by_cases hshort : s.size < headerSize s
  · obtain ⟨offset, length, d, herror⟩ := (readsAt_header s).outOfBounds (by omega)
    have hread : read referenced (Cursor.ofBytes s) =
      .error (.outOfBounds offset length) d := bind_of_error herror
    rw [hread] at he
    cases he
    exact .content (.outOfBounds _ _)
  · cases hforeign : foreign? s with
    | some id =>
        rw [show read referenced (Cursor.ofBytes s) =
          _ from read_of_foreign (by omega) hforeign] at he
        cases he
        rw [foreign?] at hforeign
        have hid := List.find?_some hforeign
        rw [decide_eq_true_eq] at hid
        refine .unsupportedTable ?_
        rw [TableKind.isDebugTable, Bool.and_eq_false_iff, decide_eq_false_iff_not,
          decide_eq_false_iff_not]
        omega
    | none =>
        have hread := readsAt_read referenced hforeign
        by_cases hend : s.size < stop s (widths s referenced)
        · obtain ⟨offset, length, d, herror⟩ := hread.outOfBounds (by omega)
          rw [show read referenced (Cursor.ofBytes s) = _ from herror] at he
          cases he
          exact .content (.outOfBounds _ _)
        · rw [show read referenced (Cursor.ofBytes s) = _ from hread.ok (by omega)] at he
          cases he

end PortablePdb
