import PortablePdb.Command.Basic
import PortablePdb.Proofs.File.Methods
import PortablePdb.Proofs.File.Scopes
import PortablePdb.Proofs.File.Tokens
import PortablePdb.Proofs.Text.Numeral

/-!
Lookups. The offsets of a method's points ascend, so an offset splits them in one place,
and the point in front of that place is the last one that is not behind the offset. A
lookup in an accepted file tells where this point is and what the scopes around the offset
show (`run_lookup`).
-/

namespace PortablePdb

/-! ### Points -/

namespace SequencePoint

variable {points : List SequencePoint} {ilOffset : UInt32} {i j : Nat}

/-- The points up to an offset are the first `i`, and the others lie behind it. -/
structure SplitsAt (points : List SequencePoint) (ilOffset : UInt32) (i : Nat) : Prop where
  le_length : i ≤ points.length
  le_iff_lt : ∀ j p, points[j]? = some p → (p.ilOffset ≤ ilOffset ↔ j < i)

/-- Of the points up to an offset, the one at `i` has the largest. -/
structure LastUpTo (points : List SequencePoint) (ilOffset : UInt32) (i : Nat)
    (p : SequencePoint) : Prop where
  get_eq : points[i]? = some p
  le : p.ilOffset ≤ ilOffset
  greatest : ∀ q ∈ points, q.ilOffset ≤ ilOffset → q.ilOffset ≤ p.ilOffset

/-- There is a split if the offsets ascend. -/
theorem splitsAt_of_ascending (h : points.Pairwise fun p q => p.ilOffset < q.ilOffset)
    (ilOffset : UInt32) :
    SplitsAt points ilOffset
      (points.takeWhile fun p => p.ilOffset ≤ ilOffset).length := by
  refine ⟨(List.takeWhile_sublist _).length_le, ?_⟩
  induction points with
  | nil => simp
  | cons p rest ih =>
      obtain ⟨hfirst, hrest⟩ := List.pairwise_cons.1 h
      intro j q hq
      by_cases hp : p.ilOffset ≤ ilOffset
      case pos =>
        cases j with
        | zero => simp_all
        | succ j => simpa [List.takeWhile_cons, hp] using ih hrest j q hq
      case neg =>
        -- Nothing is up to the offset when the first point is not.
        have hq : p.ilOffset ≤ q.ilOffset := by
          rcases List.mem_cons.1 (List.mem_of_getElem? hq) with rfl | hmem
          · exact UInt32.le_refl _
          · exact UInt32.le_of_lt (hfirst q hmem)
        have hbehind : ¬q.ilOffset ≤ ilOffset := fun hle => hp (UInt32.le_trans hq hle)
        simp [hp, hbehind]

namespace SplitsAt

variable (h : SplitsAt points ilOffset i)
include h

theorem unique (hj : SplitsAt points ilOffset j) : i = j := by
  have hle {a b : Nat} (ha : SplitsAt points ilOffset a)
      (hb : SplitsAt points ilOffset b) : a ≤ b := by
    by_contra hlt
    have hlength := ha.le_length
    have hpoint := List.getElem?_eq_getElem (l := points) (i := b) (by omega)
    have := (ha.le_iff_lt b _ hpoint).symm.trans (hb.le_iff_lt b _ hpoint)
    omega
  exact Nat.le_antisymm (hle h hj) (hle hj h)

/-- The point in front of the split has the largest offset, and no other point has it. -/
theorem lastUpTo_iff (hascending : points.Pairwise fun p q => p.ilOffset < q.ilOffset)
    {p : SequencePoint} :
    LastUpTo points ilOffset j p ↔ i = j + 1 ∧ points[j]? = some p := by
  have hlt {a b : Nat} {q r : SequencePoint} (hq : points[a]? = some q)
      (hr : points[b]? = some r) (hab : a < b) : q.ilOffset < r.ilOffset := by
    obtain ⟨ha, rfl⟩ := List.getElem?_eq_some_iff.1 hq
    obtain ⟨hb, rfl⟩ := List.getElem?_eq_some_iff.1 hr
    exact List.pairwise_iff_getElem.1 hascending a b ha hb hab
  constructor
  · rintro ⟨hp, hle, hgreatest⟩
    refine ⟨?_, hp⟩
    have hji := (h.le_iff_lt j p hp).1 hle
    by_contra hne
    -- A point between this one and the split would have a larger offset.
    have hlength := h.le_length
    have hnext := List.getElem?_eq_getElem (l := points) (i := j + 1) (by omega)
    have hnextLe := (h.le_iff_lt _ _ hnext).2 (by omega)
    have hback := hgreatest _ (List.mem_of_getElem? hnext) hnextLe
    exact absurd (hlt hp hnext (by omega)) (UInt32.not_lt.2 hback)
  · rintro ⟨rfl, hp⟩
    refine ⟨hp, (h.le_iff_lt j p hp).2 (by omega), fun q hq hle => ?_⟩
    obtain ⟨k, hk⟩ := List.mem_iff_getElem?.1 hq
    have hkj := (h.le_iff_lt k q hk).1 hle
    rcases Nat.lt_or_eq_of_le (Nat.le_of_lt_succ hkj) with hless | rfl
    · exact UInt32.le_of_lt (hlt hk hp hless)
    · rw [Option.some.inj (hk.symm.trans hp)]
      exact UInt32.le_refl _

end SplitsAt

end SequencePoint

/-- Wherever the points of a method are split, the point in front is what is found. -/
theorem Method.pointAt?_of_splitsAt {m : Method} {ilOffset : UInt32} {i : Nat}
    (h : SequencePoint.SplitsAt m.points ilOffset i) :
    m.pointAt? ilOffset = if i = 0 then none else m.points[i - 1]? := by
  have hupTo : ∀ p ∈ m.points.take i, p.ilOffset ≤ ilOffset := by
    intro p hp
    obtain ⟨j, hj, rfl⟩ := List.mem_take_iff_getElem.1 hp
    exact (h.le_iff_lt j _ (List.getElem?_eq_getElem (by omega))).2 (by omega)
  have htake : (m.points.takeWhile fun p => p.ilOffset ≤ ilOffset) = m.points.take i := by
    conv_lhs => rw [← List.take_append_drop i m.points]
    rw [List.takeWhile_append_of_pos (by simpa using hupTo)]
    cases hrest : m.points.drop i with
    | nil => simp
    | cons p rest =>
        have hp : m.points[i]? = some p := by rw [← List.head?_drop, hrest, List.head?_cons]
        have hbehind : ¬p.ilOffset ≤ ilOffset :=
          fun hle => absurd ((h.le_iff_lt i p hp).1 hle) (Nat.lt_irrefl i)
        simp [hbehind]
  rw [Method.pointAt?, htake, List.getLast?_take]
  split
  case isTrue => rfl
  case isFalse hpos =>
    have hlength := h.le_length
    rw [List.getElem?_eq_getElem (by omega), Option.some_or]

namespace Method

variable {m : Method} {ilOffset : UInt32}

theorem WellFormed.splitsAt (h : m.WellFormed) (ilOffset : UInt32) :
    ∃! i, SequencePoint.SplitsAt m.points ilOffset i :=
  ⟨_, SequencePoint.splitsAt_of_ascending h.ascending ilOffset, fun _ hi =>
    hi.unique (SequencePoint.splitsAt_of_ascending h.ascending ilOffset)⟩

theorem WellFormed.pointAt?_eq_some_iff (h : m.WellFormed) {p : SequencePoint} :
    m.pointAt? ilOffset = some p ↔ ∃ i, SequencePoint.LastUpTo m.points ilOffset i p := by
  obtain ⟨i, hi, -⟩ := h.splitsAt ilOffset
  simp only [pointAt?_of_splitsAt hi, hi.lastUpTo_iff h.ascending]
  cases i with
  | zero => simp
  | succ i => simp

theorem WellFormed.pointAt?_eq_none_iff (h : m.WellFormed) :
    m.pointAt? ilOffset = none ↔ ∀ p ∈ m.points, ilOffset < p.ilOffset := by
  cases hfound : m.pointAt? ilOffset with
  | some p =>
      obtain ⟨i, hlast⟩ := h.pointAt?_eq_some_iff.1 hfound
      have hmem := List.mem_of_getElem? hlast.get_eq
      simp only [reduceCtorEq, false_iff]
      exact fun hall => absurd hlast.le (UInt32.not_le.2 (hall p hmem))
  | none =>
      obtain ⟨i, hi, -⟩ := h.splitsAt ilOffset
      refine iff_of_true rfl fun p hp => ?_
      obtain ⟨j, hj⟩ := List.mem_iff_getElem?.1 hp
      have hlength := hi.le_length
      rw [pointAt?_of_splitsAt hi] at hfound
      split at hfound
      case isTrue hzero =>
        exact UInt32.not_le.1 fun hle => by have := (hi.le_iff_lt j p hj).1 hle; omega
      case isFalse hpos => simp only [List.getElem?_eq_none_iff] at hfound; omega

/-- No two points are last. -/
theorem WellFormed.existsUnique_lastUpTo (h : m.WellFormed)
    (hpoint : ∃ p ∈ m.points, p.ilOffset ≤ ilOffset) :
    ∃! i, ∃ p, SequencePoint.LastUpTo m.points ilOffset i p := by
  obtain ⟨i, hi, -⟩ := h.splitsAt ilOffset
  obtain ⟨p, hp, hle⟩ := hpoint
  obtain ⟨j, hj⟩ := List.mem_iff_getElem?.1 hp
  have hji := (hi.le_iff_lt j p hj).1 hle
  have hlength := hi.le_length
  simp only [hi.lastUpTo_iff h.ascending]
  refine ⟨i - 1, ⟨_, by omega, List.getElem?_eq_getElem (by omega)⟩, ?_⟩
  rintro k ⟨q, hk, -⟩
  omega

end Method

namespace Lookup

/-! ### Queries -/

/-- A token and an offset may be written in any way, with a colon between them. -/
theorem Query.parse_of_writes {token ilOffset : UInt32} {first second : String}
    (hfirst : Text.Numeral.Writes token first)
    (hsecond : Text.Numeral.Writes ilOffset second) :
    Query.parse (first ++ ":" ++ second) = .ok ⟨token, ilOffset⟩ := by
  have hlist : (first ++ ":" ++ second).toList = first.toList ++ ':' :: second.toList := by
    simp [String.toList_append]
  have hnotColon : ∀ c ∈ first.toList, decide (c ≠ ':') = true := by
    intro c hc
    simp only [ne_eq, decide_not, Bool.not_eq_true', decide_eq_false_iff_not]
    rintro rfl
    exact Text.Numeral.colon_not_mem_of_writes hfirst hc
  have htoken : numeral first.toList = .ok token := by
    rw [numeral, Text.Numeral.parse_of_writes hfirst]
    rfl
  have hoffset : numeral second.toList = .ok ilOffset := by
    rw [numeral, Text.Numeral.parse_of_writes hsecond]
    rfl
  rw [Query.parse, hlist, if_pos (by simp), List.takeWhile_append_of_pos hnotColon,
    List.dropWhile_append_of_pos hnotColon]
  simp [htoken, hoffset, pure, Except.pure, bind, Except.bind]

/-! ### Answers -/

/-- What a lookup tells about an offset in a method of a document: the place of the last
point up to the offset, and what the scopes around the offset show. -/
structure Tells (file : File) (d : Document) (m : Method) (ilOffset : UInt32)
    (place : String) (visible : List String) : Prop where
  split : ∃! i, SequencePoint.SplitsAt m.points ilOffset i
  found : ∀ i, SequencePoint.SplitsAt m.points ilOffset i →
    m.pointAt? ilOffset = if i = 0 then none else m.points[i - 1]?
  unique : (∃ p ∈ m.points, p.ilOffset ≤ ilOffset) →
    ∃! i, ∃ p, SequencePoint.LastUpTo m.points ilOffset i p
  visiblePoint : ∀ i p s, SequencePoint.LastUpTo m.points ilOffset i p → p.span = some s →
    place = s!"{d.path}:{s.startLine}:{s.startColumn} ({d.language.name})"
  hiddenPoint : ∀ i p, SequencePoint.LastUpTo m.points ilOffset i p → p.span = none →
    place = s!"{d.path} (hidden)"
  noPoint : place = "No match :(" ↔ ∀ p ∈ m.points, ilOffset < p.ilOffset
  scopes : ∃ scopes, List.Forall₂ (fun entry s => file.ShowsScope entry.1 entry.2 s)
      ((Scope.rowsOf file.tables m.methodDef).filter fun entry =>
        entry.2.startOffset.toNat ≤ ilOffset.toNat ∧
          ilOffset.toNat < entry.2.startOffset.toNat + entry.2.length.toNat) scopes ∧
    visible = scopes.flatMap fun s =>
      ((s.localVariables.filter (!·.hidden)).map fun v =>
        s!"  local {v.name} (slot {v.slot})") ++
        s.localConstants.map fun c => s!"  const {c.name}"

theorem scopeLines_eq (scope : Scope) :
    scopeLines scope =
      ((scope.localVariables.filter (!·.hidden)).map fun v =>
        s!"  local {v.name} (slot {v.slot})") ++
        scope.localConstants.map fun c => s!"  const {c.name}" := by
  have hlocal : "  " ++ toString "local " = toString "  local " := by rfl
  have hconst : "  " ++ toString "const " = toString "  const " := by rfl
  simp only [scopeLines, LocalVariable.label, LocalConstant.label, ← String.append_assoc,
    hlocal, hconst]

/-- The line for a point ends in another character than the line for none. -/
theorem placeLine_eq_noMatch_iff (d : Document) (p : Option SequencePoint) :
    placeLine d p = "No match :(" ↔ p = none := by
  have hlast (text closing : String) (hclosing : closing.toList.getLast? = some ')') :
      text ++ closing ≠ "No match :(" := by
    intro heq
    have hchar := congrArg (fun t => t.toList.getLast?) heq
    simp [List.getLast?_append, hclosing] at hchar
  cases p with
  | none => exact iff_of_true rfl rfl
  | some p =>
      refine iff_of_false ?_ (by simp)
      cases hspan : p.span with
      | none =>
          rw [placeLine]
          simp only [hspan]
          exact hlast _ " (hidden)" (by decide)
      | some s =>
          rw [placeLine]
          simp only [hspan]
          exact hlast _ ")" (by decide)

theorem contains_iff (scope : Scope) (ilOffset : UInt32) :
    scope.contains ilOffset = true ↔ scope.startOffset.toNat ≤ ilOffset.toNat ∧
      ilOffset.toNat < scope.startOffset.toNat + scope.length.toNat := by
  rw [Scope.contains, Bool.and_eq_true, decide_eq_true_eq, decide_eq_true_eq,
    UInt32.le_iff_toNat_le, Scope.endOffset]

end Lookup

namespace File

variable {data : ByteArray} {file : File} {heaps : Heaps} (h : Parsed data file heaps)
include h

theorem Parsed.tells {d : Document} (hd : d ∈ file.documents) {m : Method}
    (hm : m ∈ d.methods) (hwellFormed : m.WellFormed) (ilOffset : UInt32) :
    Lookup.Tells file d m ilOffset (Lookup.placeLine d (m.pointAt? ilOffset))
      ((m.scopesAt ilOffset).flatMap Lookup.scopeLines) where
  split := hwellFormed.splitsAt ilOffset
  found _ hi := Method.pointAt?_of_splitsAt hi
  unique := hwellFormed.existsUnique_lastUpTo
  visiblePoint i p s hlast hspan := by
    rw [hwellFormed.pointAt?_eq_some_iff.2 ⟨i, hlast⟩, Lookup.placeLine]
    simp only [hspan]
  hiddenPoint i p hlast hspan := by
    rw [hwellFormed.pointAt?_eq_some_iff.2 ⟨i, hlast⟩, Lookup.placeLine]
    simp only [hspan]
  noPoint := (Lookup.placeLine_eq_noMatch_iff d _).trans hwellFormed.pointAt?_eq_none_iff
  scopes := by
    refine ⟨m.scopesAt ilOffset, ?_, ?_⟩
    · refine List.rel_filter (fun entry s hshows => ?_)
        (h.forall₂_scopes (mem_methods_iff.2 ⟨d, hd, hm⟩))
      simp only [decide_eq_true_eq, Lookup.contains_iff, hshows.startOffset_eq,
        hshows.length_eq]
    · exact List.flatMap_congr fun s _ => Lookup.scopeLines_eq s

/-- A token with the kind and the row of a method that is listed finds that method. -/
theorem Parsed.findMethodByToken?_of_row {d : Document} (hd : d ∈ file.documents)
    {m : Method} (hm : m ∈ d.methods) {token : UInt32} (hkind : token.toNat / 2 ^ 24 = 0x06)
    (hrow : token.toNat % 2 ^ 24 = m.methodDef.toNat) :
    file.findMethodByToken? token = some (d, m) := by
  rw [findMethodByToken?_eq, if_pos hkind, hrow,
    show m.methodDef.toNat.toUInt32 = m.methodDef by simp]
  exact h.findMethod?_methodDef hd hm

end File

namespace Command

/-- Whatever else a request asks for, its lookup is answered. -/
theorem run_of_lines {data : ByteArray} {file : File} (h : File.parse data = .ok file)
    {request : Request} {query : String} (hlookup : request.lookup = some query)
    {token ilOffset : UInt32} (hquery : Lookup.Query.parse query = .ok ⟨token, ilOffset⟩)
    {d : Document} {m : Method} (hfind : file.findMethodByToken? token = some (d, m)) :
    run (some data) request = .ofLines (Lookup.placeLine d (m.pointAt? ilOffset) ::
      (m.scopesAt ilOffset).flatMap Lookup.scopeLines) := by
  have hfile : file.lookup query = .ok (Lookup.placeLine d (m.pointAt? ilOffset) ::
      (m.scopesAt ilOffset).flatMap Lookup.scopeLines) := by
    refine Outcome.bind_eq_ok_iff.2 ⟨_, hquery, ?_⟩
    rw [Lookup.lines, hfind]
  rw [run, File.load, h]
  simp only [answer, hlookup, hfile]

/-- A lookup of an offset in a method of an accepted file, by a token that has the kind of
a method and its row, tells the place of the last point up to the offset and what is
visible there. Both numbers may be in decimal or in hexadecimal. -/
theorem run_lookup {data : ByteArray} {file : File} (h : File.parse data = .ok file)
    {d : Document} (hd : d ∈ file.documents) {m : Method} (hm : m ∈ d.methods)
    {token : UInt32} (hkind : token.toNat / 2 ^ 24 = 0x06)
    (hrow : token.toNat % 2 ^ 24 = m.methodDef.toNat) (ilOffset : UInt32) :
    (∀ first second, Text.Numeral.Writes token first →
      Text.Numeral.Writes ilOffset second →
      Lookup.Query.parse (first ++ ":" ++ second) = .ok ⟨token, ilOffset⟩) ∧
      ∃ place visible, Lookup.Tells file d m ilOffset place visible ∧
        ∀ (request : Request) (query : String), request.lookup = some query →
          Lookup.Query.parse query = .ok ⟨token, ilOffset⟩ →
          run (some data) request = .ofLines (place :: visible) := by
  obtain ⟨heaps, hparsed⟩ := File.parse_eq_ok_iff.1 h
  have hwellFormed : m.WellFormed := by
    obtain ⟨scopes, index, row, hbuild⟩ :=
      Document.exists_row_of_buildAll hparsed.documents (Array.mem_toList_iff.2 hd) hm
    exact Method.wellFormed_of_resolved (Method.resolved_of_build hbuild)
  refine ⟨fun first second hfirst hsecond => Lookup.Query.parse_of_writes hfirst hsecond,
    _, _, hparsed.tells hd hm hwellFormed ilOffset, fun request query hlookup hquery => ?_⟩
  exact run_of_lines h hlookup hquery (hparsed.findMethodByToken?_of_row hd hm hkind hrow)

/-- The first method at an offset that two of its scopes contain. -/
theorem run_lookup_nested :
    ∃ file, File.parse File.scopedSample = .ok file ∧
      ∃ d ∈ file.documents, ∃ m ∈ d.methods, m.methodDef = 1 ∧
        (∃ place visible, Lookup.Tells file d m 3 place visible ∧
          run (some File.scopedSample) ⟨none, true, false, some "0x06000001:3"⟩ =
            .ofLines (place :: visible)) ∧
        run (some File.scopedSample) ⟨none, true, false, some "0x06000001:3"⟩ = .ofLines
          ["b.cs:10:5 (unknown)", "  local x (slot 0)", "  const K",
            "  local z (slot 2)"] := by
  obtain ⟨file, hparse, -, -, hmethods⟩ := File.parse_scopedSample
  have hlisted : [(1, [1, 3])] ∈ file.documents.toList.map fun d => d.methods.map fun m =>
      (m.methodDef, m.scopes.map (·.index)) := by
    rw [hmethods]
    simp
  obtain ⟨d, hd, hlist⟩ := List.mem_map.1 hlisted
  have hmember :
      (1, [1, 3]) ∈ d.methods.map fun m => (m.methodDef, m.scopes.map (·.index)) := by
    rw [hlist]
    simp
  obtain ⟨m, hm, heq⟩ := List.mem_map.1 hmember
  obtain ⟨hdef, -⟩ := Prod.mk.inj heq
  have hd := Array.mem_toList_iff.1 hd
  obtain ⟨-, place, visible, htells, hrun⟩ :=
    run_lookup hparse hd hm (show (0x06000001 : UInt32).toNat / 2 ^ 24 = 0x06 by decide)
      (by rw [hdef]; rfl) 3
  exact ⟨file, hparse, d, hd, m, hm, hdef,
    ⟨place, visible, htells, hrun _ _ rfl (by decide +kernel)⟩, by decide +kernel⟩

end Command

end PortablePdb
