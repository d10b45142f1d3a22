import PortablePdb.Proofs.Builder.Acceptance
import PortablePdb.Proofs.Builder.Changes
import PortablePdb.Proofs.File.Documents

/-!
Methods and their tokens. A token has the kind of a method in its highest byte, and the
number of a row has bits there too if there are `2 ^ 24` rows or more. No file is rejected
for that.
-/

namespace PortablePdb

/-- The highest byte of a word, where it is. -/
theorem toNat_and_highest (word : UInt32) :
    (word &&& 0xff000000).toNat = 2 ^ 24 * (word.toNat / 2 ^ 24) := by
  change word.toNat &&& 2 ^ 24 * (2 ^ 8 - 1) = _
  apply Nat.eq_of_testBit_eq
  intro i
  rw [Nat.testBit_and, Nat.testBit_two_pow_mul, Nat.testBit_two_pow_mul,
    Nat.testBit_two_pow_sub_one, Nat.testBit_div_two_pow]
  by_cases hlow : 24 ≤ i
  · rw [Nat.sub_add_cancel hlow]
    by_cases hi : i < 32
    · simp [hlow, show i - 24 < 8 by omega]
    · have hbit : word.toNat.testBit i = false :=
        Nat.testBit_lt_two_pow
          (Nat.lt_of_lt_of_le word.toNat_lt (Nat.pow_le_pow_right (by decide) (by omega)))
      simp [hbit]
  · simp [hlow]

namespace Method

theorem toNat_methodTokenKind : methodTokenKind.toNat = 2 ^ 25 * 3 := rfl

/-- The first row that has a bit in common with the kind has no others. -/
theorem toNat_token {m : Method} (h : m.methodDef.toNat ≤ 2 ^ 25) :
    m.token.toNat = methodTokenKind.toNat + m.methodDef.toNat % 2 ^ 25 := by
  rw [token, UInt32.toNat_or]
  rcases Nat.lt_or_eq_of_le h with hlt | heq
  · rw [Nat.mod_eq_of_lt hlt, toNat_methodTokenKind, Nat.two_pow_add_eq_or_of_lt hlt]
  · rw [heq]
    rfl

/-- Rows that differ only in the bits of the kind share a token. -/
theorem token_eq_token_iff (m n : Method) :
    m.token = n.token ↔
      m.methodDef &&& ~~~methodTokenKind = n.methodDef &&& ~~~methodTokenKind := by
  have hbits (a b kind : BitVec 32) : kind ||| a = kind ||| b ↔
      a &&& ~~~kind = b &&& ~~~kind := by
    rw [BitVec.eq_of_getElem_eq_iff, BitVec.eq_of_getElem_eq_iff]
    refine forall₂_congr fun i hi => ?_
    cases hbit : kind[i] <;> simp [hbit]
  rw [← UInt32.toBitVec_inj, ← UInt32.toBitVec_inj]
  exact hbits _ _ _

/-- The lower bytes of a token. -/
theorem toNat_token_and (m : Method) :
    (m.token &&& 0x00ffffff).toNat = m.methodDef.toNat % 2 ^ 24 := by
  change (0x06000000 ||| m.methodDef.toNat) &&& (2 ^ 24 - 1) = _
  rw [Nat.and_two_pow_sub_one_eq_mod, Nat.or_mod_two_pow]
  simp

/-- In a list without two methods of one number, a method is found if it is there. -/
theorem find?_eq_some_iff {methods : List Method}
    (h : (methods.map (·.methodDef.toNat)).Nodup) {methodDef : UInt32} {m : Method} :
    methods.find? (·.methodDef = methodDef) = some m ↔
      m ∈ methods ∧ m.methodDef = methodDef := by
  constructor
  · intro hfind
    exact ⟨List.mem_of_find?_eq_some hfind, by simpa using List.find?_some hfind⟩
  · rintro ⟨hm, rfl⟩
    cases hfound : methods.find? (·.methodDef = m.methodDef) with
    | none => exact absurd (by simp) (List.find?_eq_none.1 hfound m hm)
    | some other =>
        have hother : other.methodDef = m.methodDef := by simpa using List.find?_some hfound
        rw [List.inj_on_of_nodup_map h (List.mem_of_find?_eq_some hfound) hm
          (congrArg UInt32.toNat hother)]

end Method

namespace File

theorem findMethodByToken?_eq (file : File) (token : UInt32) :
    file.findMethodByToken? token =
      if token.toNat / 2 ^ 24 = 6 then file.findMethod? (token.toNat % 2 ^ 24).toUInt32
        else none := by
  have hkind : token &&& 0xff000000 = methodTokenKind ↔ token.toNat / 2 ^ 24 = 6 := by
    rw [← UInt32.toNat_inj, toNat_and_highest, Method.toNat_methodTokenKind]
    omega
  have hrow : token &&& 0x00ffffff = (token.toNat % 2 ^ 24).toUInt32 := by
    apply UInt32.toNat_inj.1
    rw [toNat_toUInt32 (by omega)]
    exact Nat.and_two_pow_sub_one_eq_mod token.toNat 24
  rw [findMethodByToken?, hrow]
  exact if_congr hkind rfl rfl

theorem findMethodByToken?_token {file : File} {m : Method}
    (h : m.methodDef.toNat < 2 ^ 24) :
    file.findMethodByToken? m.token = file.findMethod? m.methodDef := by
  have htoken := Method.toNat_token (Nat.le_trans (Nat.le_of_lt h) (by decide))
  rw [Method.toNat_methodTokenKind] at htoken
  have hrow : m.token.toNat % 2 ^ 24 = m.methodDef.toNat := by omega
  rw [findMethodByToken?_eq, if_pos (by omega), hrow]
  simp

/-- A method that is found has the number that was looked for. -/
theorem methodDef_of_findMethod? {file : File} {methodDef : UInt32}
    {d : Document} {m : Method}
    (h : file.findMethod? methodDef = some (d, m)) : m.methodDef = methodDef := by
  simp only [findMethod?, Option.bind_eq_bind, Option.bind_eq_some_iff] at h
  obtain ⟨row, -, document, -, method, hfind, heq⟩ := h
  cases heq
  simpa using List.find?_some hfind

section Parsed

variable {data : ByteArray} {file : File} {heaps : Heaps} (h : Parsed data file heaps)
include h

theorem Parsed.methodDef_pos {m : Method} (hm : m ∈ file.methods) :
    0 < m.methodDef.toNat := by
  obtain ⟨d, hd, hm⟩ := mem_methods_iff.1 hm
  obtain ⟨row, hrow, -⟩ := (h.mem_methodDefs_iff hd).1 (List.mem_map_of_mem hm)
  refine Nat.pos_of_ne_zero fun hzero => ?_
  rw [hzero, Table.get?_zero] at hrow
  cases hrow

/-- Every method that is listed is found by the number of its row. -/
theorem Parsed.findMethod?_methodDef {d : Document} (hd : d ∈ file.documents) {m : Method}
    (hm : m ∈ d.methods) : file.findMethod? m.methodDef = some (d, m) := by
  obtain ⟨row, hrow, howner⟩ := (h.mem_methodDefs_iff hd).1 (List.mem_map_of_mem hm)
  have hnodup : (d.methods.map (·.methodDef.toNat)).Nodup :=
    (h.ascending hd).imp Nat.ne_of_lt
  have hfind := (Method.find?_eq_some_iff hnodup).2 ⟨hm, rfl⟩
  simp only [findMethod?, hrow, howner, h.document?_index hd, hfind, Option.bind_eq_bind,
    Option.bind_some]
  rfl

end Parsed

/-- A method is found by its token exactly if its row is below `2 ^ 24`, and then in the
document that lists it. Methods share a token exactly if their rows differ only in the
bits of the kind, and no two do if their rows are no more than `2 ^ 25`. -/
theorem findMethodByToken_of_parse {data : ByteArray} {file : File}
    (h : parse data = .ok file) :
    (∀ d ∈ file.documents, ∀ m ∈ d.methods,
      file.findMethodByToken? m.token = some (d, m) ↔ m.methodDef.toNat < 2 ^ 24) ∧
      (∀ m ∈ file.methods, ∀ n ∈ file.methods, m.token = n.token ↔
        m.methodDef &&& ~~~methodTokenKind = n.methodDef &&& ~~~methodTokenKind) ∧
      ∀ m ∈ file.methods, ∀ n ∈ file.methods, m.methodDef.toNat ≤ 2 ^ 25 →
        n.methodDef.toNat ≤ 2 ^ 25 → m.token = n.token → m = n := by
  obtain ⟨heaps, hparsed⟩ := parse_eq_ok_iff.1 h
  refine ⟨?_, fun m _ n _ => m.token_eq_token_iff n, ?_⟩
  · intro d hd m hm
    constructor
    · intro hfind
      rw [findMethodByToken?] at hfind
      split at hfind
      case isTrue =>
        -- What is looked up is a number below the bound, and what is found has that
        -- number.
        rw [methodDef_of_findMethod? hfind, m.toNat_token_and]
        exact Nat.mod_lt _ (by decide)
      case isFalse => cases hfind
    · intro hlt
      rw [findMethodByToken?_token hlt]
      exact hparsed.findMethod?_methodDef hd hm
  · intro m hm n hn hmle hnle htoken
    have hmpos := hparsed.methodDef_pos hm
    have hnpos := hparsed.methodDef_pos hn
    have hsum := congrArg UInt32.toNat htoken
    rw [Method.toNat_token hmle, Method.toNat_token hnle] at hsum
    have hrow : m.methodDef.toNat = n.methodDef.toNat := by omega
    exact List.inj_on_of_nodup_map hparsed.nodup_methodDefs hm hn hrow

theorem findMethodByToken_of_parse_sample :
    ∃ file, parse scopedSample = .ok file ∧
      ∃ d ∈ file.documents, ∃ m ∈ d.methods, m.methodDef = 3 ∧ m.token = 0x06000003 ∧
        file.findMethodByToken? m.token = some (d, m) ∧
        ∀ n ∈ file.methods, n.methodDef.toNat ≤ 2 ^ 25 → n.token = 0x06000003 → n = m := by
  obtain ⟨file, hparse, -, -, hmethods⟩ := parse_scopedSample
  have hlisted : [(3, [2])] ∈ file.documents.toList.map fun d => d.methods.map fun m =>
      (m.methodDef, m.scopes.map (·.index)) := by
    rw [hmethods]
    simp
  obtain ⟨d, hd, hlist⟩ := List.mem_map.1 hlisted
  have hmember :
      (3, [2]) ∈ d.methods.map fun m => (m.methodDef, m.scopes.map (·.index)) := by
    rw [hlist]
    simp
  obtain ⟨m, hm, heq⟩ := List.mem_map.1 hmember
  obtain ⟨hdef, -⟩ := Prod.mk.inj heq
  have hd := Array.mem_toList_iff.1 hd
  have htoken : m.token = 0x06000003 := by
    rw [Method.token, hdef]
    rfl
  obtain ⟨hfind, -, hown⟩ := findMethodByToken_of_parse hparse
  refine ⟨file, hparse, d, hd, m, hm, hdef, htoken,
    (hfind d hd m hm).2 (by rw [hdef]; decide), fun n hn hle hsame => ?_⟩
  exact hown n hn m (mem_methods_iff.2 ⟨d, hd, hm⟩) hle (by rw [hdef]; decide)
    (hsame.trans htoken.symm)

end File

/-! ### Crowded files -/

namespace Builder

def crowd (count : Nat) : List Edit :=
  .document "a.cs" Guid.nil :: List.replicate count (.method 1 [])

theorem describable_crowd (count : Nat) : ∀ edit ∈ crowd count, edit.Describable := by
  have hnone : SequencePoint.Mark.Valid [] := by
    constructor <;> simp [SequencePoint.Mark.points, SequencePoint.Mark.spans]
  intro edit hedit
  rcases List.mem_cons.1 hedit with rfl | hmethod
  · trivial
  · rw [List.eq_of_mem_replicate hmethod]
    exact ⟨hnone, by simp⟩

theorem run_crowd (count : Nat) :
    ∃ b, Edit.run (crowd count) empty = .ok b ∧ b.methods = Array.replicate count ⟨1, 0⟩ ∧
      b.documents = #[⟨6, 0, 0, 1⟩] ∧ b.scopes = #[] ∧ b.localVariables = #[] ∧
      b.localConstants = #[] ∧ b.strings.size + b.blobs.size + b.guids.size ≤ 100 := by
  have hdocument : ((Edit.run [.document "a.cs" Guid.nil] empty).toOption.any fun b =>
      b.methods = #[] ∧ b.documents = #[⟨6, 0, 0, 1⟩] ∧ b.scopes = #[] ∧
        b.localVariables = #[] ∧ b.localConstants = #[] ∧
        b.strings.size + b.blobs.size + b.guids.size ≤ 100) = true := by
    decide +kernel
  obtain ⟨b, hrun, hb⟩ := Outcome.any_toOption_iff.1 hdocument
  obtain ⟨hmethods, hrest⟩ := of_decide_eq_true hb
  have hmethod : ∀ n after, after = { b with methods := Array.replicate n ⟨1, 0⟩ } →
      ∃ answer last, Edit.apply (.method 1 []) after = .ok answer last ∧
        last = { b with methods := Array.replicate (n + 1) ⟨1, 0⟩ } := by
    rintro n after rfl
    exact ⟨_, _, rfl, by rw [Array.replicate_succ]⟩
  obtain ⟨last, hlast, rfl⟩ := Edit.applyAll_replicate hmethod count (n := 0) (b := b)
    (by rw [Array.replicate_zero, ← hmethods])
  have hcrowd := (Edit.applyAll_append (Edit.run_eq_ok_iff.1 hrun)).trans hlast
  exact ⟨_, Edit.run_eq_ok_iff.2 hcrowd, by rw [Nat.zero_add], hrest⟩

/-- A crowd that is not too large for a file is accepted, and all its methods are
listed. -/
theorem parse_crowd {count : Nat} (hcount : count < 2 ^ 28) :
    ∃ file, File.parse (File.built (crowd count)) = .ok file ∧
      ∀ i < count, ∃ d ∈ file.documents, ∃ m ∈ d.methods, m.methodDef.toNat = i + 1 := by
  obtain ⟨b, hrun, hmethods, hdocuments, hscopes, hvariables, hconstants, hheaps⟩ :=
    run_crowd count
  have hb := holds_of_run (describable_crowd count) hrun
  have hbuilt : File.built (crowd count) = b.build := by rw [File.built, hrun]
  have hfits : b.Fits := by
    refine ⟨?_, ?_, by simp [hscopes], by simp [hvariables], by simp [hconstants]⟩
    · rw [hdocuments]
      simp [FitsColumn]
    · rw [hmethods]
      simp [FitsColumn]
  have hsize : b.build.size < 2 ^ 32 := by
    have hle := size_build_le hb.omitted hb.renamed
    have hwide : b.wideSize = 16 + 8 * count := by
      simp [wideSize, hmethods, hdocuments, hscopes, hvariables, hconstants]
    omega
  have howners (owner : UInt32) (marks : List SequencePoint.Mark)
      (hmem : Edit.method owner marks ∈ crowd count) :
      owner.toNat ≤ ((crowd count).filterMap Edit.addedDocument?).length := by
    obtain ⟨-, rfl, -⟩ : count ≠ 0 ∧ owner = 1 ∧ marks = [] := by simpa [crowd] using hmem
    simp [crowd, Edit.addedDocument?]
  obtain ⟨file, hparse, htables, -⟩ :=
    hb.parse_of_fits (describable_crowd count) howners hfits hsize
  rw [hbuilt]
  obtain ⟨heaps, hparsed⟩ := File.parse_eq_ok_iff.1 hparse
  refine ⟨file, hparse, fun i hi => ?_⟩
  have hrow : file.tables.methods.get? (i + 1) = some ⟨1, 0⟩ := by
    rw [htables, storedTables_eq hfits, Table.get?_succ]
    simp [hmethods, hi]
  have hlisted := (hparsed.mem_all_methodDefs_iff hrow).2 (by decide)
  obtain ⟨m, hm, hdef⟩ := List.mem_map.1 hlisted
  obtain ⟨d, hd, hm⟩ := File.mem_methods_iff.1 hm
  exact ⟨d, hd, m, hm, hdef⟩

end Builder

namespace File

/-- Without a bound on the number of rows there are methods that are not found by their
tokens, and methods that share one. -/
theorem tokens_of_crowd :
    (∃ file, parse (built (Builder.crowd (2 ^ 24))) = .ok file ∧ ∃ d ∈ file.documents,
      ∃ m ∈ d.methods, m.methodDef = 0x1000000 ∧ file.findMethodByToken? m.token = none) ∧
      ∃ file, parse (built (Builder.crowd (2 ^ 25 + 1))) = .ok file ∧
        ∃ m ∈ file.methods, ∃ n ∈ file.methods,
          m.methodDef = 1 ∧ n.methodDef = 0x2000001 ∧ m.token = n.token := by
  constructor
  · obtain ⟨file, hparse, hlisted⟩ := Builder.parse_crowd (show 2 ^ 24 < 2 ^ 28 by decide)
    obtain ⟨d, hd, m, hm, hdef⟩ := hlisted 0xffffff (by decide)
    have hdef : m.methodDef = 0x1000000 := UInt32.toNat_inj.1 hdef
    refine ⟨file, hparse, d, hd, m, hm, hdef, ?_⟩
    rw [findMethodByToken?, if_neg (by rw [Method.token, hdef]; decide)]
  · obtain ⟨file, hparse, hlisted⟩ :=
      Builder.parse_crowd (show 2 ^ 25 + 1 < 2 ^ 28 by decide)
    obtain ⟨d, hd, m, hm, hfirst⟩ := hlisted 0 (by decide)
    obtain ⟨e, he, n, hn, hlast⟩ := hlisted 0x2000000 (by decide)
    have hfirst : m.methodDef = 1 := UInt32.toNat_inj.1 hfirst
    have hlast : n.methodDef = 0x2000001 := UInt32.toNat_inj.1 hlast
    refine ⟨file, hparse, m, mem_methods_iff.2 ⟨d, hd, hm⟩, n,
      mem_methods_iff.2 ⟨e, he, hn⟩, hfirst, hlast, ?_⟩
    rw [Method.token, Method.token, hfirst, hlast]
    decide

end File

end PortablePdb
