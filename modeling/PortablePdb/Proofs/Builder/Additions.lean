import PortablePdb.Builder.Edit
import PortablePdb.Proofs.Heap.Lasting
import PortablePdb.Proofs.Outcome
import PortablePdb.Proofs.SequencePoint.RoundTrip

/-!
What an addition does to a builder: which fields it changes, and what can be read from the
heaps for good once it is made. Names of documents are the only additions that look at
what was there before, since they share the blobs of their parts. `Sound` says that the
shared blobs are those of the parts.
-/

namespace PortablePdb.Builder

/-- The heaps of a builder that was made by additions. -/
structure Sound (b : Builder) : Prop where
  blobs_first : [0] <+: b.blobs.data.toList
  guids_whole : b.guids.size % Guid.size = 0
  nameParts : ∀ {part offset}, (part, offset) ∈ b.nameParts →
    Lasting (fun later => BlobHeap.namePart ⟨later⟩ offset.toNat = .ok part) b.blobs

/-- The heaps of the one builder are beginnings of the heaps of the other. -/
structure Grows (b after : Builder) : Prop where
  strings : b.strings.data.toList <+: after.strings.data.toList
  blobs : b.blobs.data.toList <+: after.blobs.data.toList
  guids : b.guids.data.toList <+: after.guids.data.toList

theorem sound_empty : Sound empty where
  blobs_first := by simp [empty]
  guids_whole := rfl
  nameParts := by simp [empty]

theorem Sound.blobs_ne {b : Builder} (hb : b.Sound) : b.blobs.size ≠ 0 := by
  have hle : 1 ≤ b.blobs.size := hb.blobs_first.length_le
  omega

/-- Nothing else of a builder matters. -/
theorem Sound.congr {b after : Builder} (hb : b.Sound) (hblobs : after.blobs = b.blobs)
    (hguids : after.guids = b.guids) (hparts : after.nameParts = b.nameParts) :
    after.Sound where
  blobs_first := hblobs ▸ hb.blobs_first
  guids_whole := hguids ▸ hb.guids_whole
  nameParts h := hblobs ▸ hb.nameParts (hparts ▸ h)

theorem Grows.of_eq {b after : Builder} (hstrings : after.strings = b.strings)
    (hblobs : after.blobs = b.blobs) (hguids : after.guids = b.guids) : Grows b after :=
  ⟨hstrings ▸ List.prefix_rfl, hblobs ▸ List.prefix_rfl, hguids ▸ List.prefix_rfl⟩

theorem Grows.trans {a b c : Builder} (hab : Grows a b) (hbc : Grows b c) : Grows a c :=
  ⟨hab.strings.trans hbc.strings, hab.blobs.trans hbc.blobs, hab.guids.trans hbc.guids⟩

theorem prefix_append_append (heap first second : ByteArray) :
    heap.data.toList <+: (heap ++ first ++ second).data.toList := by
  simp

/-! ### Strings and identifiers -/

theorem addString_eq (text : ByteArray) (b : Builder) :
    addString text b = .ok b.strings.size.toUInt32
      { b with strings := b.strings ++ text ++ [0].toByteArray } := rfl

structure AddsGuids (b after : Builder) : Prop where
  frame : after = { b with guids := after.guids }
  grows : Grows b after
  sound : after.Sound

theorem AddsGuids.exists_guids {b after : Builder} (h : AddsGuids b after) :
    ∃ guids, after = { b with guids := guids } :=
  ⟨_, h.frame⟩

theorem size_append_guid (guids : ByteArray) (guid : Guid) :
    (guids ++ guid.bytes.toByteArray).size = guids.size + Guid.size := by
  simp

theorem addGuid_spec {b after : Builder} {guid : Guid} {index : UInt32} (hb : b.Sound)
    (h : addGuid guid b = .ok index after) :
    AddsGuids b after ∧
      Lasting (fun later => GuidHeap.get ⟨later⟩ index = .ok guid) after.guids := by
  obtain ⟨rfl, rfl⟩ := EStateM.Result.ok.inj h
  have hgrows :
    b.guids.data.toList <+: (b.guids ++ guid.bytes.toByteArray).data.toList := by simp
  refine ⟨⟨rfl, ⟨List.prefix_rfl, List.prefix_rfl, hgrows⟩, hb.blobs_first, ?_,
    hb.nameParts⟩, ?_⟩
  · rw [size_append_guid, Nat.add_mod_right]
    exact hb.guids_whole
  · have hread := GuidHeap.lasting_get guid hb.guids_whole
    rwa [← size_append_guid] at hread

/-! ### Blobs -/

theorem encoded_eq_ok_iff {x : Except CompressedInt.TooLarge (List UInt8)}
    {bytes : List UInt8} {b after : Builder} :
    encoded x b = .ok bytes after ↔ x = .ok bytes ∧ after = b := by
  rw [encoded, Outcome.run_ofExcept_eq_ok_iff, eq_comm (a := b)]

structure AddsBlobs (b after : Builder) : Prop where
  frame : after = { b with blobs := after.blobs, nameParts := after.nameParts }
  blobs : b.blobs.data.toList <+: after.blobs.data.toList
  sound : after.Sound

theorem AddsBlobs.exists_blobs {b after : Builder} (h : AddsBlobs b after) :
    ∃ blobs nameParts, after = { b with blobs := blobs, nameParts := nameParts } :=
  ⟨_, _, h.frame⟩

theorem AddsBlobs.refl {b : Builder} (hb : b.Sound) : AddsBlobs b b :=
  ⟨rfl, List.prefix_rfl, hb⟩

theorem AddsBlobs.trans {a b c : Builder} (hab : AddsBlobs a b) (hbc : AddsBlobs b c) :
    AddsBlobs a c := by
  refine ⟨?_, hab.blobs.trans hbc.blobs, hbc.sound⟩
  rw [hbc.frame, hab.frame]

theorem AddsBlobs.grows {b after : Builder} (h : AddsBlobs b after) : Grows b after := by
  have hstrings : after.strings = b.strings := by rw [h.frame]
  have hguids : after.guids = b.guids := by rw [h.frame]
  exact ⟨hstrings ▸ List.prefix_rfl, h.blobs, hguids ▸ List.prefix_rfl⟩

/-- A blob is put behind the others, with its length in front of it. -/
theorem exists_of_addBlob {b after : Builder} {content : ByteArray} {offset : UInt32}
    (h : addBlob content b = .ok offset after) :
    ∃ length, CompressedInt.encode content.size.toUInt32.toNat = .ok length ∧
      offset = b.blobs.size.toUInt32 ∧
      after = { b with blobs := b.blobs ++ length.toByteArray ++ content } := by
  rw [addBlob, Outcome.run_get_bind] at h
  obtain ⟨length, b', hencoded, hmodified⟩ := Outcome.run_bind_eq_ok_iff.1 h
  obtain ⟨hlength, rfl⟩ := encoded_eq_ok_iff.1 hencoded
  obtain ⟨rfl, rfl⟩ := EStateM.Result.ok.inj hmodified
  exact ⟨length, hlength, rfl, rfl⟩

theorem addBlob_spec {b after : Builder} {content : ByteArray} {offset : UInt32}
    (hb : b.Sound) (h : addBlob content b = .ok offset after) :
    AddsBlobs b after ∧ Lasting (fun later => offset ≠ 0 ∧
      BlobHeap.get ⟨later⟩ offset = .ok content) after.blobs := by
  obtain ⟨length, hlength, rfl, rfl⟩ := exists_of_addBlob h
  have hgrows := prefix_append_append b.blobs length.toByteArray content
  refine ⟨⟨rfl, hgrows, ?_⟩, BlobHeap.lasting_get hb.blobs_ne hlength⟩
  exact ⟨hb.blobs_first.trans hgrows, hb.guids_whole,
    fun hpart => (hb.nameParts hpart).mono hgrows⟩

/-! ### Names of documents -/

theorem mem_of_lookup {part : String} {offset : UInt32} {parts : List (String × UInt32)}
    (h : parts.lookup part = some offset) : (part, offset) ∈ parts := by
  obtain ⟨before, rest, rfl, -⟩ := List.lookup_eq_some_iff.1 h
  simp

theorem addNamePart_spec {b after : Builder} {part : String} {offset : UInt32}
    (hb : b.Sound) (h : addNamePart part b = .ok offset after) :
    AddsBlobs b after ∧ Lasting
      (fun later => BlobHeap.namePart ⟨later⟩ offset.toNat = .ok part) after.blobs := by
  rw [addNamePart] at h
  split at h
  case isTrue hempty =>
    obtain ⟨rfl, rfl⟩ := Outcome.run_pure_eq_ok_iff.1 h
    obtain rfl := String.isEmpty_iff.1 hempty
    exact ⟨.refl hb, fun later _ _ => rfl⟩
  case isFalse =>
    rw [Outcome.run_get_bind] at h
    cases hlookup : b.nameParts.lookup part with
    | some found =>
        rw [hlookup] at h
        obtain ⟨rfl, rfl⟩ := Outcome.run_pure_eq_ok_iff.1 h
        exact ⟨.refl hb, hb.nameParts (mem_of_lookup hlookup)⟩
    | none =>
        rw [hlookup] at h
        obtain ⟨offset', b', hblob, h⟩ := Outcome.run_bind_eq_ok_iff.1 h
        obtain ⟨hadds, hstored⟩ := addBlob_spec hb hblob
        obtain ⟨rfl, rfl⟩ := EStateM.Result.ok.inj h
        have hpart := BlobHeap.lasting_namePart hstored
        refine ⟨⟨?_, hadds.blobs, ⟨hadds.sound.blobs_first, hadds.sound.guids_whole, ?_⟩⟩,
          hpart⟩
        · rw [hadds.frame]
        · intro other offset hmem
          rcases List.mem_cons.1 hmem with heq | hmem
          · obtain ⟨rfl, rfl⟩ := Prod.mk.inj heq
            exact hpart
          · exact hadds.sound.nameParts hmem

theorem addNameParts_spec {parts : List String} :
    ∀ {b after : Builder} {bytes : List UInt8}, b.Sound →
      addNameParts parts b = .ok bytes after → AddsBlobs b after ∧ Lasting (fun later =>
        Reader.Steps (BlobHeap.readNamePart ⟨later⟩) () bytes parts) after.blobs := by
  induction parts with
  | nil =>
      intro b after bytes hb h
      obtain ⟨rfl, rfl⟩ := Outcome.run_pure_eq_ok_iff.1 h
      exact ⟨.refl hb, fun later _ _ => .nil _⟩
  | cons part rest ih =>
      intro b after bytes hb h
      rw [addNameParts] at h
      obtain ⟨offset, b₁, hpart, htail⟩ := Outcome.run_bind_eq_ok_iff.1 h
      obtain ⟨first, b₂, hencoded, hlast⟩ := Outcome.run_bind_eq_ok_iff.1 htail
      obtain ⟨more, b₃, hmore, hbytes⟩ := Outcome.run_bind_eq_ok_iff.1 hlast
      obtain ⟨hfirst, rfl⟩ := encoded_eq_ok_iff.1 hencoded
      obtain ⟨rfl, rfl⟩ := Outcome.run_pure_eq_ok_iff.1 hbytes
      obtain ⟨hadds, hstored⟩ := addNamePart_spec hb hpart
      obtain ⟨hrest, hsteps⟩ := ih hadds.sound hmore
      refine ⟨hadds.trans hrest, fun later hlater hsize => ?_⟩
      exact .cons (BlobHeap.consumes_readNamePart (CompressedInt.consumes_read hfirst)
          (hstored.mono hrest.blobs later hlater hsize))
        (CompressedInt.encode_ne_nil hfirst) (hsteps later hlater hsize)

/-- The parts of a path, joined again. -/
theorem intercalate_pathParts (path : String) (separator : UInt8) :
    (BlobHeap.between separator).intercalate (pathParts path separator) = path := by
  rw [BlobHeap.between, pathParts]
  by_cases hzero : separator = 0
  · rw [if_pos hzero, if_pos hzero, String.intercalate_singleton]
  · rw [if_neg hzero, if_neg hzero]
    apply String.toList_inj.1
    simp [String.toList_intercalate, Function.comp_def, Text.join_split]

theorem addDocumentNameWith_spec {b after : Builder} {path : String}
    {separator : UInt8} {offset : UInt32}
    (hb : b.Sound) (h : addDocumentNameWith path separator b = .ok offset after) :
    AddsBlobs b after ∧ Lasting (fun later => BlobHeap.documentName ⟨later⟩ offset =
      if separator < 0x80 then .ok path else .error .invalidStringData) after.blobs := by
  obtain ⟨bytes, b', hparts, h⟩ := Outcome.run_bind_eq_ok_iff.1 h
  obtain ⟨hadds, hsteps⟩ := addNameParts_spec hb hparts
  obtain ⟨hblob, hstored⟩ := addBlob_spec hadds.sound h
  refine ⟨hadds.trans hblob, fun later hlater hsize => ?_⟩
  change BlobHeap.documentName ⟨later⟩ offset = _
  rw [BlobHeap.documentName_eq (hstored later hlater hsize).2
    (hsteps.mono hblob.blobs later hlater hsize), intercalate_pathParts]

theorem addDocumentName_spec {b after : Builder} {path : String} {offset : UInt32}
    (hb : b.Sound) (h : addDocumentName path b = .ok offset after) :
    AddsBlobs b after ∧ Lasting
      (fun later => BlobHeap.documentName ⟨later⟩ offset = .ok path) after.blobs := by
  rw [addDocumentName] at h
  split at h
  · exact addDocumentNameWith_spec hb h
  · exact addDocumentNameWith_spec hb h

end PortablePdb.Builder
