import PortablePdb.Proofs.File.Parts
import PortablePdb.Proofs.Truncation

/-!
Truncated files. What a directory declares lies within `File.extent`, and a file that
loses a byte of that runs out of bounds while its directory is read: either a field of the
directory is cut, or a stream that it declares does not fit.
-/

namespace PortablePdb

open Reader

theorem RootHeader.cuttable_read : Cuttable read :=
  compositional_cuttable.rootHeader fun _ => trivial

theorem StreamHeader.cuttable_read : Cuttable read :=
  compositional_cuttable.streamHeader fun _ => trivial

namespace Directory

/-- The streams of a directory lie among the first bytes of a file, or the directory
cannot be read from these. -/
theorem readStreams_cut {size : Nat} :
    ∀ {count : Nat} {streams result : Array StreamHeader} {c d : Cursor}, c.Within size →
      (∀ s ∈ streams, s.stop ≤ size) → readStreams count streams c = .ok result d →
      (d.Within size ∧ (∀ s ∈ result, s.stop ≤ size) ∧
          readStreams count streams (c.cut size) = .ok result (d.cut size)) ∨
        OutOfBounds (readStreams count streams) (c.cut size) := by
  intro count
  induction count with
  | zero =>
      intro streams result c d hc hstreams h
      obtain ⟨rfl, rfl⟩ := Outcome.run_pure_eq_ok_iff.1 h
      exact .inl ⟨hc, hstreams, rfl⟩
  | succ count ih =>
      intro streams result c d hc hstreams h
      obtain ⟨header, c', hheader, h⟩ := Outcome.run_bind_eq_ok_iff.1 h
      rcases StreamHeader.cuttable_read hc hheader with ⟨hc', hcut⟩ | hout
      case inr => exact .inr (hout.bind _)
      rw [bind_of_ok (get_of_cursor c')] at h
      by_cases hstop : header.stop ≤ size
      case neg =>
        -- The header is whole and its stream is not.
        have hcheck : header.checkWithin (c'.cut size).data.size =
          .error (.outOfBounds header.start header.size.toNat) :=
          if_neg (by rw [hc'.size_cut]; exact hstop)
        refine .inr ⟨header.start, header.size.toNat, c'.cut size, ?_⟩
        rw [readStreams, bind_of_ok hcut, bind_of_ok (get_of_cursor _),
          bind_of_error (ofExcept_of_error hcheck _)]
      case pos =>
        have hfull : header.checkWithin c'.data.size = .ok () :=
          if_pos (Nat.le_trans hstop hc'.size_le)
        have hcheck : header.checkWithin (c'.cut size).data.size = .ok () :=
          if_pos (by rw [hc'.size_cut]; exact hstop)
        rw [bind_of_ok (ofExcept_of_ok hfull c')] at h
        simp only [readStreams, OutOfBounds, bind_of_ok hcut, bind_of_ok (get_of_cursor _),
          bind_of_ok (ofExcept_of_ok hcheck _)]
        split at h
        case isTrue => cases h
        case isFalse hnew =>
          rw [if_neg hnew]
          refine ih hc' (fun s hs => ?_) h
          rcases Array.mem_push.1 hs with hs | rfl
          · exact hstreams s hs
          · exact hstop

theorem read_cut {size : Nat} {c d : Cursor} {directory : Directory} (hc : c.Within size)
    (h : read c = .ok directory d) :
    (d.Within size ∧ (∀ s ∈ directory.streams, s.stop ≤ size) ∧
      read (c.cut size) = .ok directory (d.cut size)) ∨
      OutOfBounds read (c.cut size) := by
  obtain ⟨root, c', hroot, h⟩ := Outcome.run_bind_eq_ok_iff.1 h
  obtain ⟨streams, c'', hstreams, h⟩ := Outcome.run_bind_eq_ok_iff.1 h
  obtain ⟨rfl, rfl⟩ := Outcome.run_pure_eq_ok_iff.1 h
  rcases RootHeader.cuttable_read hc hroot with ⟨hc', hcut⟩ | hout
  case inr => exact .inr (hout.bind _)
  rcases readStreams_cut hc'
    (by simp) hstreams with ⟨hd, hstop, hread⟩ | ⟨offset, length, after, herror⟩
  · exact .inl ⟨hd, hstop, by rw [read, bind_of_ok hcut, bind_of_ok hread]; rfl⟩
  · exact .inr ⟨offset, length, after, by rw [read, bind_of_ok hcut, bind_of_error herror]⟩

/-- What a directory declares lies within its file. -/
theorem stop_le_of_read {data : ByteArray} {directory : Directory} {after : Cursor}
    (h : read (Cursor.ofBytes data) = .ok directory after) :
    after.pos ≤ data.size ∧ ∀ s ∈ directory.streams, s.stop ≤ data.size := by
  have hwhole : (Cursor.ofBytes data).Within data.size :=
    ⟨rfl, Nat.zero_le _, Nat.le_refl _⟩
  rcases read_cut hwhole h with ⟨hafter, hstreams, -⟩ | ⟨offset, length, d, herror⟩
  · exact ⟨hafter.pos_le, hstreams⟩
  · rw [Cursor.cut_ofBytes, ByteArray.extract_zero_size, h] at herror
    cases herror

end Directory

namespace File

/-- The end of what a file declares: that of its directory, or of the stream that ends
last. -/
def extent (data : ByteArray) : Nat :=
  match Directory.read (Cursor.ofBytes data) with
  | .ok directory after =>
    directory.streams.toList.foldl (fun stop s => max stop s.stop) after.pos
  | .error _ _ => 0

theorem foldl_max_stop_le {streams : List StreamHeader} {size : Nat}
    (hstreams : ∀ s ∈ streams, s.stop ≤ size) :
    ∀ {stop : Nat}, stop ≤ size →
      streams.foldl (fun stop s => max stop s.stop) stop ≤ size := by
  induction streams with
  | nil => intro stop hstop; exact hstop
  | cons s rest ih =>
      intro stop hstop
      have hs := hstreams s (by simp)
      exact ih (fun s hs => hstreams s (by simp [hs])) (Nat.max_le.2 ⟨hstop, hs⟩)

/-- What can be read is declared. -/
theorem extent_le {data : ByteArray} {size : Nat} {directory : Directory} {after : Cursor}
    (h : Directory.read (Cursor.ofBytes data) = .ok directory after)
    (hafter : after.pos ≤ size)
    (hstreams : ∀ s ∈ directory.streams, s.stop ≤ size) : extent data ≤ size := by
  simp only [extent, h]
  exact foldl_max_stop_le (fun s hs => hstreams s (Array.mem_toList_iff.1 hs)) hafter

/-- The directory of a truncated file cannot be read. -/
theorem directory_outOfBounds {data : ByteArray} {directory : Directory}
    (h : Directory.read.run data = .ok directory)
    {size : Nat} (hsize : size < extent data) :
    OutOfBounds Directory.read (Cursor.ofBytes (data.extract 0 size)) := by
  obtain ⟨after, hread⟩ := run_eq_ok_iff.1 h
  obtain ⟨hpos, hstop⟩ := Directory.stop_le_of_read hread
  have hextent : extent data ≤ data.size := extent_le hread hpos hstop
  have hpart : (Cursor.ofBytes data).Within size :=
    ⟨rfl, Nat.zero_le _, by change size ≤ data.size; omega⟩
  rcases Directory.read_cut hpart hread with ⟨hafter, hstreams, -⟩ | hout
  · have := extent_le hread hafter.pos_le hstreams
    omega
  · exact hout

/-- A file that loses a byte of what it declares runs out of bounds. -/
theorem parse_truncated {data : ByteArray} {file : File} (h : parse data = .ok file)
    {size : Nat} (hsize : size < extent data) :
    ∃ offset length, parse (data.extract 0 size) =
      .error (.outOfBounds offset length) := by
  obtain ⟨heaps, hparsed⟩ := parse_eq_ok_iff.1 h
  obtain ⟨offset, length, after, herror⟩ := directory_outOfBounds hparsed.directory hsize
  refine ⟨offset, length, ?_⟩
  have hrun :
      Directory.read.run (data.extract 0 size) = .error (.outOfBounds offset length) := by
    simp only [run, herror]
  rw [parse, hrun]
  rfl

theorem parse_truncated_sample :
    (∃ file, parse sample = .ok file) ∧ 251 < extent sample ∧ ∃ offset length,
      parse (sample.extract 0 251) = .error (.outOfBounds offset length) := by
  have hextent : 251 < extent sample := by decide +kernel
  obtain ⟨file, hparse⟩ := parse_sample
  exact ⟨⟨file, hparse⟩, hextent, parse_truncated hparse hextent⟩

end File

end PortablePdb
