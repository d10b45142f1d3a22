import PortablePdb.Proofs.File.Tokens

/-!
Methods by number. A lookup goes from the row of the method to its document and searches
the methods that are listed there. What it finds is the method that is listed with this
number anywhere in the file, and it finds one if the row names a document at all
(`Parsed.findMethod?_eq_some_iff`).
-/

namespace PortablePdb

namespace File

section Parsed

variable {data : ByteArray} {file : File} {heaps : Heaps} (h : Parsed data file heaps)
include h

/-- What is found is what is listed. -/
theorem Parsed.findMethod?_eq_some_iff {methodDef : UInt32} {d : Document} {m : Method} :
    file.findMethod? methodDef = some (d, m) ↔
      d ∈ file.documents ∧ m ∈ d.methods ∧ m.methodDef = methodDef := by
  constructor
  · intro hfound
    have hdef := methodDef_of_findMethod? hfound
    simp only [findMethod?, Option.bind_eq_bind, Option.bind_eq_some_iff] at hfound
    obtain ⟨row, -, document, hdocument, method, hfind, heq⟩ := hfound
    cases heq
    exact ⟨Array.mem_of_getElem? (document?_eq_some_iff.1 hdocument).2,
      List.mem_of_find?_eq_some hfind, hdef⟩
  · rintro ⟨hd, hm, rfl⟩
    exact h.findMethod?_methodDef hd hm

theorem Parsed.isSome_findMethod?_iff {methodDef : UInt32} :
    (file.findMethod? methodDef).isSome ↔
      ∃ row, file.tables.methods.get? methodDef.toNat = some row ∧ row.document ≠ 0 := by
  constructor
  · intro hsome
    obtain ⟨⟨d, m⟩, hfound⟩ := Option.isSome_iff_exists.1 hsome
    obtain ⟨hd, hm, rfl⟩ := h.findMethod?_eq_some_iff.1 hfound
    obtain ⟨row, hrow, -⟩ := (h.mem_methodDefs_iff hd).1 (List.mem_map_of_mem hm)
    have hlisted :=
      List.mem_map_of_mem (f := (·.methodDef.toNat)) (mem_methods_iff.2 ⟨d, hd, hm⟩)
    exact ⟨row, hrow, (h.mem_all_methodDefs_iff hrow).1 hlisted⟩
  · rintro ⟨row, hrow, hdocument⟩
    obtain ⟨m, hm, hnumber⟩ := List.mem_map.1 ((h.mem_all_methodDefs_iff hrow).2 hdocument)
    obtain ⟨d, hd, hm⟩ := mem_methods_iff.1 hm
    exact Option.isSome_iff_exists.2
      ⟨_, h.findMethod?_eq_some_iff.2 ⟨hd, hm, UInt32.toNat_inj.1 hnumber⟩⟩

/-- A method is the only one with its number. -/
theorem Parsed.filter_methods {m : Method} (hm : m ∈ file.methods) :
    file.methods.filter (·.methodDef = m.methodDef) = [m] := by
  classical
  have hnodup : file.methods.Nodup := .of_map _ h.nodup_methodDefs
  have hsame : ∀ other ∈ file.methods, decide (other.methodDef = m.methodDef) =
      decide (other = m) := by
    intro other hother
    refine decide_eq_decide.2 ⟨fun hdef => ?_, fun heq => heq ▸ rfl⟩
    exact List.inj_on_of_nodup_map h.nodup_methodDefs hother hm (congrArg UInt32.toNat hdef)
  rw [List.filter_congr hsame, List.filter_eq, List.count_eq_one_of_mem hnodup hm,
    List.replicate_one]

end Parsed

/-- A number finds a method exactly if its row names a document. Then it finds the one
method of the file that has this number, and the document that the row names. A token
finds what its three lower bytes find if it has the kind of a method. -/
theorem findMethod_of_parse {data : ByteArray} {file : File} (h : parse data = .ok file) :
    (∀ methodDef, (file.findMethod? methodDef).isSome ↔
      1 ≤ methodDef.toNat ∧ methodDef.toNat ≤ file.tables.methods.size ∧
        ∃ row, file.tables.methods.get? methodDef.toNat = some row ∧ row.document ≠ 0) ∧
      (∀ methodDef d m, file.findMethod? methodDef = some (d, m) → (∃ row,
        file.tables.methods.get? methodDef.toNat = some row ∧ 1 ≤ row.document.toNat ∧
        file.documents[row.document.toNat - 1]? = some d) ∧ m ∈ d.methods ∧
        m.methodDef = methodDef ∧ file.methods.filter (·.methodDef = methodDef) = [m]) ∧
      ∀ token, file.findMethodByToken? token =
        if token.toNat / 2 ^ 24 = 6 then file.findMethod? (token.toNat % 2 ^ 24).toUInt32
        else none := by
  obtain ⟨heaps, hparsed⟩ := parse_eq_ok_iff.1 h
  refine ⟨fun methodDef => ?_, fun methodDef d m hfound => ?_, file.findMethodByToken?_eq⟩
  · rw [hparsed.isSome_findMethod?_iff]
    constructor
    · rintro ⟨row, hrow, hdocument⟩
      refine ⟨Nat.pos_of_ne_zero fun hzero => ?_, Table.le_size_of_get? hrow, row, hrow,
        hdocument⟩
      rw [hzero, Table.get?_zero] at hrow
      cases hrow
    · rintro ⟨-, -, hrow⟩
      exact hrow
  · obtain ⟨hd, hm, rfl⟩ := hparsed.findMethod?_eq_some_iff.1 hfound
    refine ⟨?_, hm, rfl, hparsed.filter_methods (mem_methods_iff.2 ⟨d, hd, hm⟩)⟩
    obtain ⟨row, hrow, howner⟩ := (hparsed.mem_methodDefs_iff hd).1 (List.mem_map_of_mem hm)
    have hdocument := hparsed.document?_index hd
    rw [← howner, document?_eq_some_iff] at hdocument
    exact ⟨row, hrow, Nat.pos_of_ne_zero hdocument.1, hdocument.2⟩

/-- Of three methods the second one is in no document. -/
theorem findMethod_of_parse_sample :
    ∃ file d m, parse scopedSample = .ok file ∧ file.findMethod? 1 = some (d, m) ∧
      file.documents[1]? = some d ∧
      file.methods.filter (·.methodDef = 1) = [m] ∧ file.findMethod? 2 = none ∧
      file.findMethodByToken? 0x06000001 = some (d, m) ∧
      file.findMethodByToken? 0x06000002 = none ∧
      file.findMethodByToken? 0x02000001 = none := by
  obtain ⟨file, hparse, hrows, -⟩ := parse_scopedSample
  obtain ⟨hsome, hfound, htoken⟩ := findMethod_of_parse hparse
  have hget (i : Nat) :
      (file.tables.methods.get? (i + 1)).map (·.document) = [2, 0, 1][i]? := by
    rw [← hrows]
    simp
  obtain ⟨row, hrow, hdocument⟩ := Option.map_eq_some_iff.1 (hget 0)
  obtain ⟨⟨d, m⟩, hfirst⟩ := Option.isSome_iff_exists.1 ((hsome 1).2
    ⟨by decide, Table.le_size_of_get? hrow, row, hrow, by rw [hdocument]; decide⟩)
  obtain ⟨⟨other, hother, -, hd⟩, -, -, hone⟩ := hfound 1 d m hfirst
  obtain rfl := Option.some.inj (hrow.symm.trans hother)
  rw [hdocument] at hd
  have hsecond : file.findMethod? 2 = none := by
    rw [← Option.not_isSome_iff_eq_none, hsome 2]
    rintro ⟨-, -, row, hrow, hne⟩
    have hzero := hget 1
    rw [show file.tables.methods.get? (1 + 1) = some row from hrow] at hzero
    exact hne (Option.some.inj hzero)
  refine ⟨file, d, m, hparse, hfirst, hd, hone, hsecond, ?_, ?_, ?_⟩
  · rw [htoken]
    exact hfirst
  · rw [htoken]
    exact hsecond
  · rw [htoken]
    rfl

end File

end PortablePdb
