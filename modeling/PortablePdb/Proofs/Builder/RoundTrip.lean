import PortablePdb.Proofs.Builder.Acceptance

/-!
Built files, read back. Whatever the order of the edits, a file that was built by them is
accepted, and lists the documents that they describe (`parse_build`).
-/

namespace PortablePdb.Builder

/-- A file that was built is accepted, and its documents are those that its edits
describe. -/
theorem parse_build {edits : List Edit} {b : Builder}
    (hrun : Edit.run edits empty = .ok b) (hedits : ∀ edit ∈ edits, edit.Describable)
    (howners : ∀ owner marks, Edit.method owner marks ∈ edits →
      owner.toNat ≤ (edits.filterMap Edit.addedDocument?).length)
    (hfits : b.Fits) (hsize : b.build.size < 2 ^ 32) :
    ∃ file, File.parse b.build = .ok file ∧
      file.documents.toList = Edit.described edits := by
  obtain ⟨file, hfile, -, hdocuments⟩ :=
    (holds_of_run hedits hrun).parse_of_fits hedits howners hfits hsize
  exact ⟨file, hfile, by rw [hdocuments]⟩

/-- Two documents. Their methods and scopes come between each other, and variables and
constants of the first scope between the documents. -/
def interleaved : List Edit :=
  [.document "src/main.cs" Language.csharpGuid,
    .method 1 SequencePoint.Mark.loop, .scope 1 0 300,
    .localVariable "i".toUTF8 0 0, .referencedRows TableKind.methodDef.id 70000,
    .documentWithHash "lib\\part.vb" Language.visualBasicGuid HashAlgorithm.sha1Guid
      [1, 2, 3].toByteArray, .localConstant "limit", .localVariable "sum".toUTF8 1 1,
    .method 2 [.point ⟨0, none⟩], .method 0 [], .scope 2 0 1,
    .method 1 [], .scope 1 4 296, .localVariable "square".toUTF8 2 0]

theorem describable_interleaved : ∀ edit ∈ interleaved, edit.Describable := by
  have hhidden : SequencePoint.Mark.Valid [.point ⟨0, none⟩] := by
    constructor <;> simp [SequencePoint.Mark.points, SequencePoint.Mark.spans]
  have hnone : SequencePoint.Mark.Valid [] := by
    constructor <;> simp [SequencePoint.Mark.points, SequencePoint.Mark.spans]
  have hfirst : (1 : UInt32) ≠ 0 := by decide
  have hsecond : (2 : UInt32) ≠ 0 := by decide
  have hname : ∀ name ∈ ["i", "limit", "sum", "square"],
    0 ∉ name.toUTF8.data.toList := by decide +kernel
  simp only [interleaved, List.forall_mem_cons]
  exact ⟨trivial,
    ⟨SequencePoint.Mark.loop_valid, by simp [SequencePoint.Mark.loop]⟩, hfirst,
    ⟨String.isValidUTF8 _, hname _ (by simp)⟩, trivial, trivial, hname "limit" (by simp),
    ⟨String.isValidUTF8 _, hname _ (by simp)⟩, ⟨hhidden, by simp⟩, ⟨hnone, by simp⟩,
    hsecond, ⟨hnone, by simp⟩, hfirst, ⟨String.isValidUTF8 _, hname _ (by simp)⟩, by simp⟩

/-- The interleaved edits, read back: the methods of both documents, and the variables of
their scopes. -/
theorem parse_build_interleaved :
    ∃ b file, Edit.run interleaved empty = .ok b ∧ File.parse b.build = .ok file ∧
      file.documents.toList = Edit.described interleaved ∧
      file.documents.toList.map (fun d => (d.path, d.methods.map fun m =>
        (m.methodDef, m.scopes.map fun scope => scope.localVariables.map (·.name)))) =
          [("src/main.cs", [(1, [["i", "sum"], ["square"]]), (4, [])]),
            ("lib\\part.vb", [(2, [[]])])] := by
  have hbuilt : ((Edit.run interleaved empty).toOption.any fun b => b.Fits ∧
      b.build.size < 2 ^ 32) = true := by
    decide +kernel
  have howners : ∀ m ∈ interleaved.filterMap Edit.addedMethod?,
      m.1.toNat ≤ (interleaved.filterMap Edit.addedDocument?).length := by
    decide +kernel
  obtain ⟨b, hrun, hb⟩ := Outcome.any_toOption_iff.1 hbuilt
  obtain ⟨hfits, hsize⟩ := of_decide_eq_true hb
  obtain ⟨file, hfile, hdocuments⟩ := parse_build hrun describable_interleaved
    (fun owner marks hmem => howners _ (Edit.mem_filterMap_addedMethod?.2 hmem)) hfits hsize
  refine ⟨b, file, hrun, hfile, hdocuments, ?_⟩
  rw [hdocuments]
  decide +kernel

end PortablePdb.Builder
