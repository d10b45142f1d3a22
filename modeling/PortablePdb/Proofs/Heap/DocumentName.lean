import PortablePdb.Proofs.CompressedForm
import PortablePdb.Proofs.Heap.Lasting

/-!
Names of documents on heaps of any contents. A name is read exactly if its blob is a
separator and forms of numbers that stand for texts, wherever these numbers point:
`Spells`. A path that is put together while the texts are read, with the separators in
front of them or behind them, is the same path: `Joiner`.
-/

namespace PortablePdb.BlobHeap

open Reader CompressedInt

variable {heap : BlobHeap} {offset : UInt32}

/-! ### Parts -/

/-- What the number of a part stands for: zero for the empty text, and any other number
for a blob that is a text by itself. -/
def PartSpells (heap : BlobHeap) (part : Nat) (text : String) : Prop :=
  if part = 0 then text = "" else heap.get part.toUInt32 = .ok text.toUTF8

theorem namePart_eq_ok_iff {part : Nat} {text : String} :
    heap.namePart part = .ok text ↔ heap.PartSpells part text := by
  rw [namePart, PartSpells]
  by_cases hzero : part = 0
  · simp [hzero, eq_comm]
  · rw [if_neg hzero, if_neg hzero, Outcome.bind_eq_ok_iff]
    constructor
    · rintro ⟨content, hget, htext⟩
      split at htext
      · next s hs =>
          cases htext
          rw [hget, fromUTF8?_eq_some_iff.1 hs]
      · cases htext
    · intro hget
      refine ⟨_, hget, ?_⟩
      rw [fromUTF8?_toUTF8]

/-! ### The blob of a name -/

/-- The blob at an offset is a separator of ASCII, and behind it forms of numbers, each of
which stands for a text. -/
structure Spells (heap : BlobHeap) (offset : UInt32) (separator : UInt8)
    (parts : List Nat) (texts : List String) : Prop where
  separator_lt : separator < 0x80
  blob : ∃ forms, List.Forall₂ Value.HasForm (parts.map .unsigned) forms ∧
    heap.get offset = .ok (separator :: forms.flatten).toByteArray
  texts : List.Forall₂ heap.PartSpells parts texts

/-- What has been read of a name: its texts, and numbers that stand for them. -/
def Read (heap : BlobHeap) (texts : List String) (values : List Value) : Prop :=
  ∃ parts, values = parts.map .unsigned ∧ List.Forall₂ heap.PartSpells parts texts

theorem read_cons {texts : List String} {values : List Value} {part : Nat} {text : String}
    (hpart : heap.PartSpells part text) (h : heap.Read texts values) :
    heap.Read (text :: texts) ([.unsigned part] ++ values) := by
  obtain ⟨parts, rfl, hparts⟩ := h
  exact ⟨part :: parts, rfl, .cons hpart hparts⟩

theorem passes_readNamePart {c d : Cursor} {text : String} {next : Unit} (hc : c.Inside)
    (h : heap.readNamePart () c = .ok (text, next) d) :
    ∃ part, heap.PartSpells part text ∧ c.Passes [.unsigned part] d := by
  obtain ⟨part, c₁, hread, h⟩ := Outcome.run_bind_eq_ok_iff.1 h
  obtain ⟨_, c₂, hmeans, h⟩ := Outcome.run_bind_eq_ok_iff.1 h
  obtain ⟨hpart, rfl⟩ := Outcome.run_ofExcept_eq_ok_iff.1 hmeans
  obtain ⟨heq, rfl⟩ := Outcome.run_pure_eq_ok_iff.1 h
  cases heq
  exact ⟨part, namePart_eq_ok_iff.1 hpart, passes_read hc hread⟩

theorem steps_of_spells {parts : List Nat} {texts : List String}
    (htexts : List.Forall₂ heap.PartSpells parts texts) :
    ∀ {forms}, List.Forall₂ Value.HasForm (parts.map .unsigned) forms →
      Steps heap.readNamePart () forms.flatten texts := by
  induction htexts with
  | nil =>
      rintro _ ⟨⟩
      exact .nil ()
  | cons hpart _ ih =>
      rintro _ (_ | ⟨hform, hforms⟩)
      exact .cons (consumes_readNamePart (consumes_of_hasForm hform)
        (namePart_eq_ok_iff.2 hpart)) hform.ne_nil (ih hforms)

theorem documentName_of_spells {separator : UInt8} {parts : List Nat} {texts : List String}
    (h : heap.Spells offset separator parts texts) :
    heap.documentName offset = .ok ((between separator).intercalate texts) := by
  obtain ⟨forms, hforms, hblob⟩ := h.blob
  rw [documentName_eq hblob (steps_of_spells h.texts hforms), if_pos h.separator_lt]

theorem exists_spells {path : String} (h : heap.documentName offset = .ok path) :
    ∃ separator parts texts, heap.Spells offset separator parts texts ∧
      path = (between separator).intercalate texts := by
  obtain ⟨blob, hblob, h⟩ := Outcome.bind_eq_ok_iff.1 h
  obtain ⟨d, h⟩ := run_eq_ok_iff.1 h
  obtain ⟨separator, c₁, hseparator, h⟩ := Outcome.run_bind_eq_ok_iff.1 h
  obtain ⟨text, c₂, htext, h⟩ := Outcome.run_bind_eq_ok_iff.1 h
  obtain ⟨htext, rfl⟩ := Outcome.run_ofExcept_eq_ok_iff.1 htext
  obtain ⟨texts, c₃, hparts, h⟩ := Outcome.run_bind_eq_ok_iff.1 h
  obtain ⟨rfl, rfl⟩ := Outcome.run_pure_eq_ok_iff.1 h
  have hinside := Cursor.inside_ofBytes blob
  obtain ⟨hfirst, rfl⟩ := ahead_of_u8 hinside hseparator
  -- The texts tell which numbers the bytes behind the separator are forms of, and no byte
  -- is left over.
  obtain ⟨_, ⟨parts, rfl, htexts⟩, ⟨forms, hforms, hrest, rfl⟩, hend⟩ :=
    passes_untilEnd (R := fun _ => heap.Read) (fun _ => ⟨[], rfl, .nil⟩)
      (fun hc hstep => by
        obtain ⟨part, hpart, hpasses⟩ := passes_readNamePart hc hstep
        exact ⟨_, by simp, hpasses, fun _ _ => read_cons hpart⟩)
      (hinside.advance hfirst) hparts
  rw [Cursor.advance_advance] at hend
  have hall :=
    (hfirst.append hrest).eq_of_remaining (by rw [List.length_append]; exact hend)
  rw [separatorText_eq] at htext
  split at htext
  case isFalse => cases htext
  case isTrue hlt =>
    cases htext
    exact ⟨separator, parts, texts,
      ⟨hlt, ⟨forms, hforms, by rw [hblob, hall]; rfl⟩, htexts⟩, rfl⟩

/-! ### Putting a path together -/

/-- A way to put a path together from texts that come one by one. -/
structure Joiner (σ : Type) where
  start : σ
  push : String → σ → String → σ
  finish : String → σ → String
  joins (separator : String) (texts : List String) :
    finish separator (texts.foldl (push separator) start) = separator.intercalate texts

def textThenSeparator (separator path text : String) : String :=
  path ++ text ++ separator

theorem foldl_textThenSeparator (separator text : String) (texts : List String) :
    ∀ path, (text :: texts).foldl (textThenSeparator separator) path =
      path ++ separator.intercalate (text :: texts) ++ separator := by
  induction texts generalizing text with
  | nil =>
      intro path
      simp [textThenSeparator]
  | cons next rest ih =>
      intro path
      rw [List.foldl_cons, ih next, textThenSeparator, String.intercalate_cons_cons]
      simp only [String.append_assoc]

/-- A separator behind every text. The last one is dropped when no more texts come. -/
def separatorLast : Joiner String where
  start := ""
  push := textThenSeparator
  finish separator path := String.ofList (path.toList.rdrop separator.length)
  joins separator texts := by
    cases texts with
    | nil => simp
    | cons text texts =>
        rw [foldl_textThenSeparator, String.empty_append, String.toList_append,
          List.rdrop, List.length_append, String.length_toList, String.length_toList,
          Nat.add_sub_cancel, ← String.length_toList, List.take_left,
          String.ofList_toList]

def separatorThenText (separator : String) (path : String × Bool) (text : String) :
    String × Bool :=
  (if path.2 then path.1 ++ text else path.1 ++ separator ++ text, false)

theorem foldl_separatorThenText (separator path : String) (texts : List String) :
    ∀ text, texts.foldl (separatorThenText separator) (path ++ text, false) =
      (path ++ separator.intercalate (text :: texts), false) := by
  induction texts generalizing path with
  | nil => simp
  | cons next rest ih =>
      intro text
      rw [List.foldl_cons, String.intercalate_cons_cons, ← String.append_assoc, ← ih]
      simp [separatorThenText, String.append_assoc]

/-- A separator in front of every text but the first one. -/
def separatorFirst : Joiner (String × Bool) where
  start := ("", true)
  push := separatorThenText
  finish _ path := path.1
  joins separator texts := by
    cases texts with
    | nil => simp
    | cons text texts =>
        rw [List.foldl_cons, separatorThenText, if_pos rfl, foldl_separatorThenText,
          String.empty_append]

/-- Numbers of parts until the end, and a path that grows with the text of each. A number
is one byte or more, so the bytes that remain are fuel enough. -/
def foldParts {σ : Type} (heap : BlobHeap) (push : σ → String → σ) : Nat → σ → Reader σ
  | 0, path => return path
  | fuel + 1, path => do
    if ← hasMore then
      let part ← CompressedInt.read
      foldParts heap push fuel (push path (← ofExcept (heap.namePart part)))
    else
      return path

def joinedName {σ : Type} (heap : BlobHeap) (joiner : Joiner σ) (offset : UInt32) :
    Except FormatError String := do
  let name ← heap.get offset
  Reader.run (do
    let separator ← ofExcept (separatorText (← u8))
    return joiner.finish separator
      (← heap.foldParts (joiner.push separator) (← remaining) joiner.start)) name

/-- What is put together so far is what the texts so far make. -/
theorem foldParts_eq {σ : Type} (heap : BlobHeap) (push : σ → String → σ)
    (start : σ) (fuel : Nat) :
    ∀ texts : Array String, heap.foldParts push fuel (texts.toList.foldl push start) =
      (fun texts => texts.toList.foldl push start) <$>
        manyFrom heap.readNamePart fuel () texts := by
  induction fuel with
  | zero =>
      intro texts
      rw [foldParts, manyFrom, map_pure]
  | succ fuel ih =>
      intro texts
      have hpush (text : String) : push (texts.toList.foldl push start) text =
          (texts.push text).toList.foldl push start := by
        rw [Array.toList_push, List.foldl_concat]
      rw [foldParts, manyFrom, map_bind]
      refine bind_congr fun more => ?_
      cases more with
      | false => rfl
      | true =>
          simp only [if_true, readNamePart, map_bind, bind_assoc, pure_bind, hpush, ih]

theorem joinedName_eq {σ : Type} (heap : BlobHeap) (joiner : Joiner σ) (offset : UInt32) :
    heap.joinedName joiner offset = heap.documentName offset := by
  rw [joinedName, documentName]
  refine bind_congr fun name =>
    congrArg (Reader.run · name) (bind_congr fun first => bind_congr fun separator => ?_)
  simp only [untilEnd, bind_assoc, pure_bind]
  refine bind_congr fun fuel => ?_
  have hfold : heap.foldParts (joiner.push separator) fuel joiner.start = _ :=
    foldParts_eq heap (joiner.push separator) joiner.start fuel #[]
  rw [hfold, bind_map_left]
  simp only [joiner.joins]

theorem count_intercalate (c : Char) (separator : String) (texts : List String) :
    (separator.intercalate texts).toList.count c = (texts.map fun text =>
      text.toList.count c).sum + (texts.length - 1) * separator.toList.count c := by
  induction texts with
  | nil => simp
  | cons text texts ih =>
      cases texts with
      | nil => simp
      | cons next rest =>
          rw [String.intercalate_cons_cons, String.toList_append, String.toList_append,
            List.count_append, List.count_append, ih]
          simp only [List.map_cons, List.sum_cons, List.length_cons, Nat.add_sub_cancel,
            Nat.add_mul, Nat.one_mul]
          omega

/-- A name is read in one way, with the separators in front of the texts or behind them,
and it is read exactly if its blob spells it. -/
theorem documentName_spelled (heap : BlobHeap) (offset : UInt32) :
    heap.documentName offset = heap.joinedName separatorLast offset ∧
    heap.documentName offset = heap.joinedName separatorFirst offset ∧
    ∀ path, heap.documentName offset = .ok path ↔
      ∃ separator parts texts, heap.Spells offset separator parts texts ∧
        path = (between separator).intercalate texts ∧
        ∀ c, path.toList.count c = (texts.map fun text => text.toList.count c).sum +
          (parts.length - 1) * (between separator).toList.count c := by
  refine ⟨(joinedName_eq heap separatorLast offset).symm,
    (joinedName_eq heap separatorFirst offset).symm, fun path => ⟨fun h => ?_, ?_⟩⟩
  · obtain ⟨separator, parts, texts, hspells, rfl⟩ := exists_spells h
    refine ⟨separator, parts, texts, hspells, rfl, fun c => ?_⟩
    rw [count_intercalate, hspells.texts.length_eq]
  · rintro ⟨separator, parts, texts, hspells, rfl, -⟩
    exact documentName_of_spells hspells

-- The blob at offset one is a text as well, and the first and the last part of the name
-- that it spells.
example : documentName ⟨[0, 4, 0x2f, 1, 0, 1].toByteArray⟩ 1 =
    .ok "/\x01\x00\x01///\x01\x00\x01" := by
  decide +kernel

end PortablePdb.BlobHeap
