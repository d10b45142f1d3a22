import PortablePdb.Proofs.Builder.Retrieval

/-!
Names of documents, read from the built file. Names share the blobs of their parts,
whatever separators they were cut at: the builder remembers where it has put a part, and
what it remembers stays true (`Sound`), so that a part that is found is as good as one
that is added.
-/

namespace PortablePdb.Builder

/-- What the name that an edit adds is read as. Any byte can be put in front of the parts,
but only one of ASCII is text. -/
def Edit.nameRead? : Edit → Option (Except FormatError String)
  | documentName path => some (.ok path)
  | documentNameWith path separator =>
    some (if separator < 0x80 then .ok path else .error .invalidStringData)
  | _ => none

theorem documentName_of_apply {b after : Builder} {edit : Edit} {answer : Option UInt32}
    {read : Except FormatError String} (hb : b.Sound) (hread : edit.nameRead? = some read)
    (h : edit.apply b = .ok answer after) :
    ∃ offset, answer = some offset ∧
      Lasting (fun later => BlobHeap.documentName ⟨later⟩ offset = read) after.blobs := by
  cases edit with
  | documentName path =>
      obtain rfl := Option.some.inj hread
      obtain ⟨offset, hname, rfl⟩ := Outcome.run_map_eq_ok_iff.1 h
      exact ⟨offset, rfl, (addDocumentName_spec hb hname).2⟩
  | documentNameWith path separator =>
      obtain rfl := Option.some.inj hread
      obtain ⟨offset, hname, rfl⟩ := Outcome.run_map_eq_ok_iff.1 h
      exact ⟨offset, rfl, (addDocumentNameWith_spec hb hname).2⟩
  | _ => cases hread

theorem documentName_of_applyAll {edits : List Edit} {b : Builder}
    (hrun : Edit.applyAll edits empty = .ok () b) {i : Nat}
    {edit : Edit} {read : Except FormatError String} (hi : edits[i]? = some edit)
    (hread : edit.nameRead? = some read) :
    ∃ offset, (Edit.trace edits empty)[i]? = some (.ok (some offset)) ∧
      Lasting (fun later => BlobHeap.documentName ⟨later⟩ offset = read) b.blobs := by
  obtain ⟨before, answer, after, htake, happly, hdrop, htrace⟩ :=
    Edit.apply_of_applyAll hrun hi
  have hsound := Edit.sound_of_applyAll htake sound_empty
  obtain ⟨offset, rfl, hnamed⟩ := documentName_of_apply hsound hread happly
  exact ⟨offset, htrace, hnamed.mono (Edit.grows_of_applyAll hdrop).blobs⟩

/-- The names that were added to a builder are read from the file that is built. -/
theorem documentNames_of_parse {edits : List Edit} {b : Builder} {file : File}
    (hrun : Edit.run edits empty = .ok b) (homit : ∀ name, Edit.omitStream name ∉ edits)
    (hrename : ∀ name newName, Edit.renameStream name newName ∉ edits)
    (hsize : b.build.size < 2 ^ 32) (hparse : File.parse b.build = .ok file) :
    ∀ (i : Nat) (edit : Edit) (read : Except FormatError String), edits[i]? = some edit →
      edit.nameRead? = some read →
      ∃ offset, (Edit.trace edits empty)[i]? = some (.ok (some offset)) ∧
        file.getDocumentName offset = read := by
  intro i edit read hi hread
  obtain ⟨hfile, hpadded⟩ := parsed_of_run hrun homit hrename hsize hparse
  obtain ⟨offset, htrace, hnamed⟩ :=
    documentName_of_applyAll (Edit.run_eq_ok_iff.1 hrun) hi hread
  refine ⟨offset, htrace, ?_⟩
  rw [hfile.getDocumentName_eq]
  exact hnamed _ (prefix_paddedStream b.blobs) (hpadded .blobs)

/-- Names with parts in common and with empty ones, cut at several separators, at none,
and at one outside ASCII. -/
def sharedNames : List Edit :=
  [.documentNameWith "src/ä/b" 0x2f, .documentName "\\src\\\\b\\", .blob "src".toUTF8,
    .documentNameWith "b.src.ä" 0x2e, .documentNameWith "src/ä" 0,
    .document "src/b" Language.csharpGuid, .documentNameWith "srcäb" 0xe4,
    .documentNameWith "" 0x2f, .documentName "", .documentName "//src/ä/",
    .documentNameWith "" 0xff]

theorem documentNames_of_parse_shared :
    ∃ b file, Edit.run sharedNames empty = .ok b ∧ File.parse b.build = .ok file ∧
      ∀ (i : Nat) (edit : Edit) (read : Except FormatError String),
        sharedNames[i]? = some edit → edit.nameRead? = some read →
        ∃ offset, (Edit.trace sharedNames empty)[i]? = some (.ok (some offset)) ∧
          file.getDocumentName offset = read := by
  obtain ⟨b, file, hrun, hsize, hparse⟩ :=
    File.exists_parse_built sharedNames (by decide +kernel)
      (by decide +kernel) (by decide +kernel)
  exact ⟨b, file, hrun, hparse, documentNames_of_parse hrun (by simp [sharedNames])
    (by simp [sharedNames]) hsize hparse⟩

end PortablePdb.Builder
