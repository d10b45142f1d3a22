import PortablePdb.Proofs.Builder.Additions

/-!
Edits of every kind. What an edit does to heaps and tables is a sequence of changes, and
nothing else but its setting is touched by it (`changes_of_apply`), whatever its arguments
are. So what is kept by each `Change` is kept by every edit, and from one edit to the next
by a whole list of them. What is remembered of the parts of names is another matter, since
it stays right only together with the blobs (`KeepsSound`).
-/

namespace PortablePdb.Builder

inductive Change : Builder → Builder → Prop
  | strings (b : Builder) (text : ByteArray) :
      Change b { b with strings := b.strings ++ text ++ [0].toByteArray }
  | blobs (b : Builder) (length : List UInt8) (content : ByteArray) :
      Change b { b with blobs := b.blobs ++ length.toByteArray ++ content }
  | guids (b : Builder) (guid : Guid) :
      Change b { b with guids := b.guids ++ guid.bytes.toByteArray }
  | nameParts (b : Builder) (nameParts : List (String × UInt32)) :
      Change b { b with nameParts := nameParts }
  | documents (b : Builder) (row : DocumentRow) :
      Change b { b with documents := b.documents.push row }
  | methods (b : Builder) (row : MethodRow) :
      Change b { b with methods := b.methods.push row }
  | scopes (b : Builder) (row : ScopeRow) : Change b { b with scopes := b.scopes.push row }
  | localVariables (b : Builder) (row : VariableRow) :
      Change b { b with localVariables := b.localVariables.push row }
  | localConstants (b : Builder) (row : ConstantRow) :
      Change b { b with localConstants := b.localConstants.push row }

abbrev Changes : Builder → Builder → Prop := Relation.ReflTransGen Change

section Kept

variable {b after : Builder}

theorem Change.grows (h : Change b after) : Grows b after := by
  cases h with
  | strings text => exact ⟨prefix_append_append _ _ _, List.prefix_rfl, List.prefix_rfl⟩
  | blobs length content =>
    exact ⟨List.prefix_rfl, prefix_append_append _ _ _, List.prefix_rfl⟩
  | guids guid => exact ⟨List.prefix_rfl, List.prefix_rfl, by simp⟩
  | _ => exact .of_eq rfl rfl rfl

theorem Change.guids_whole (h : Change b after) (hb : b.guids.size % Guid.size = 0) :
    after.guids.size % Guid.size = 0 := by
  cases h with
  | guids guid => simpa using hb
  | _ => exact hb

/-- Blobs that are shared stay where they are. -/
theorem Change.sound (h : Change b after) (hparts : after.nameParts = b.nameParts)
    (hb : b.Sound) : after.Sound where
  blobs_first := hb.blobs_first.trans h.grows.blobs
  guids_whole := h.guids_whole hb.guids_whole
  nameParts hmem := (hb.nameParts (hparts ▸ hmem)).mono h.grows.blobs

theorem Change.frame (h : Change b after) :
    after = { b with strings := after.strings, blobs := after.blobs, guids := after.guids,
                     nameParts := after.nameParts, documents := after.documents,
                     methods := after.methods,
                     scopes := after.scopes, localVariables := after.localVariables,
                     localConstants := after.localConstants } := by
  cases h <;> rfl

theorem Changes.grows (h : Changes b after) : Grows b after := by
  induction h with
  | refl => exact .of_eq rfl rfl rfl
  | tail _ hlast ih => exact ih.trans hlast.grows

theorem Changes.guids_whole (h : Changes b after) (hb : b.guids.size % Guid.size = 0) :
    after.guids.size % Guid.size = 0 := by
  induction h with
  | refl => exact hb
  | tail _ hlast ih => exact hlast.guids_whole ih

theorem Changes.frame (h : Changes b after) :
    after = { b with strings := after.strings, blobs := after.blobs, guids := after.guids,
                     nameParts := after.nameParts, documents := after.documents,
                     methods := after.methods,
                     scopes := after.scopes, localVariables := after.localVariables,
                     localConstants := after.localConstants } := by
  induction h with
  | refl => rfl
  | tail _ hlast ih => rw [hlast.frame, ih]

end Kept

/-! ### Additions -/

/-- Properties that additions get from the additions they are composed of. A change of
what is remembered of the parts of names is none of these: that is made by `addNamePart`
alone. -/
structure Addition.Compositional (P : {α : Type} → Addition α → Prop) : Prop where
  pure {α : Type} (a : α) : P (pure a)
  bind {α β : Type} {x : Addition α} {f : α → Addition β} (hx : P x)
    (hf : ∀ a, P (f a)) : P (x >>= f)
  get : P (get : Addition Builder)
  encoded (x : Except CompressedInt.TooLarge (List UInt8)) : P (encoded x)
  change {f : Builder → Builder} (hf : ∀ b, Change b (f b))
    (hparts : ∀ b, (f b).nameParts = b.nameParts) : P (modify f : Addition PUnit)

namespace Addition.Compositional

variable {α β : Type} {P : {α : Type} → Addition α → Prop} (h : Compositional P)
include h

theorem map {x : Addition α} (hx : P x) (f : α → β) : P (f <$> x) := by
  rw [map_eq_pure_bind]
  exact h.bind hx fun a => h.pure (f a)

theorem addString (text : ByteArray) : P (addString text) :=
  h.bind h.get fun _ =>
    h.bind (h.change (fun b => .strings b text) fun _ => rfl) fun _ => h.pure _

theorem addBlob (content : ByteArray) : P (addBlob content) :=
  h.bind h.get fun _ => h.bind (h.encoded _) fun length =>
    h.bind (h.change (fun b => .blobs b length content) fun _ => rfl) fun _ => h.pure _

theorem addGuid (guid : Guid) : P (addGuid guid) :=
  h.bind (h.change (fun b => .guids b guid) fun _ => rfl) fun _ =>
    h.bind h.get fun _ => h.pure _

theorem addDocumentRow (row : DocumentRow) : P (addDocumentRow row) :=
  h.bind (h.change (fun b => .documents b row) fun _ => rfl) fun _ =>
    h.bind h.get fun _ => h.pure _

theorem addMethodRow (row : MethodRow) : P (addMethodRow row) :=
  h.bind (h.change (fun b => .methods b row) fun _ => rfl) fun _ =>
    h.bind h.get fun _ => h.pure _

theorem addMethod (document : UInt32) (marks : List SequencePoint.Mark) :
    P (addMethod document marks) := by
  unfold Builder.addMethod
  split
  · exact h.addMethodRow _
  · exact h.bind (h.encoded _) fun _ => h.bind (h.addBlob _) fun _ => h.addMethodRow _

theorem addScopeRow (row : ScopeRow) : P (addScopeRow row) :=
  h.bind (h.change (fun b => .scopes b row) fun _ => rfl) fun _ =>
    h.bind h.get fun _ => h.pure _

theorem addScope (method startOffset length : UInt32) :
    P (addScope method startOffset length) :=
  h.bind h.get fun _ => h.addScopeRow _

theorem addVariable (name : ByteArray) (slot attributes : UInt16) :
    P (addVariable name slot attributes) :=
  h.bind (h.addString name) fun _ =>
      h.bind (h.change (fun b => .localVariables b _) fun _ => rfl) fun _ =>
    h.bind h.get fun _ => h.pure _

theorem addConstant (name : String) : P (addConstant name) :=
  h.bind (h.addString _) fun _ => h.bind (h.addBlob _) fun _ =>
    h.bind (h.change (fun b => .localConstants b _) fun _ => rfl) fun _ =>
      h.bind h.get fun _ => h.pure _

section Names

variable (hpart : ∀ part, P (addNamePart part))
include hpart

theorem addNameParts (parts : List String) : P (addNameParts parts) := by
  induction parts with
  | nil => exact h.pure []
  | cons part rest ih =>
      exact h.bind (hpart part) fun _ => h.bind (h.encoded _) fun _ =>
        h.bind ih fun _ => h.pure _

theorem addDocumentNameWith (path : String) (separator : UInt8) :
    P (addDocumentNameWith path separator) :=
  h.bind (h.addNameParts hpart _) fun _ => h.addBlob _

theorem addDocumentName (path : String) : P (addDocumentName path) :=
  h.addDocumentNameWith hpart path _

theorem addDocument (path : String) (language : Guid) : P (addDocument path language) :=
  h.bind (h.addDocumentName hpart path) fun _ => h.bind (h.addGuid language) fun _ =>
    h.addDocumentRow _

theorem addDocumentWithHash (path : String) (language hashAlgorithm : Guid)
    (hash : ByteArray) : P (addDocumentWithHash path language hashAlgorithm hash) :=
  h.bind (h.addDocumentName hpart path) fun _ => h.bind (h.addGuid hashAlgorithm) fun _ =>
    h.bind (h.addBlob hash) fun _ => h.bind (h.addGuid language) fun _ => h.addDocumentRow _

end Names

end Addition.Compositional

structure Makes {α : Type} (x : Addition α) : Prop where
  changes : ∀ {b after : Builder} {a : α}, x b = .ok a after → Changes b after

namespace Makes

variable {α β : Type}

theorem pure (a : α) : Makes (pure a) where
  changes h := by
    rw [(Outcome.run_pure_eq_ok_iff.1 h).2]

theorem bind {x : Addition α} {f : α → Addition β} (hx : Makes x)
    (hf : ∀ a, Makes (f a)) : Makes (x >>= f) where
  changes h := by
    obtain ⟨a, b', hfirst, hrest⟩ := Outcome.run_bind_eq_ok_iff.1 h
    exact (hx.changes hfirst).trans ((hf a).changes hrest)

theorem get : Makes (get : Addition Builder) where
  changes h := by
    obtain ⟨-, rfl⟩ := EStateM.Result.ok.inj h
    exact .refl

theorem modify {f : Builder → Builder} (hf : ∀ b, Change b (f b)) :
    Makes (modify f : Addition PUnit) where
  changes h := by
    obtain ⟨-, rfl⟩ := EStateM.Result.ok.inj h
    exact .single (hf _)

theorem encoded (x : Except CompressedInt.TooLarge (List UInt8)) : Makes (encoded x) where
  changes h := by
    rw [(encoded_eq_ok_iff.1 h).2]

theorem compositional : Addition.Compositional @Makes where
  pure := pure
  bind := bind
  get := get
  encoded := encoded
  change hf _ := modify hf

theorem addNamePart (part : String) : Makes (addNamePart part) := by
  unfold Builder.addNamePart
  split
  · exact pure 0
  · refine get.bind fun b => ?_
    split
    · exact pure _
    · exact (compositional.addBlob _).bind fun _ =>
        bind (modify fun b => .nameParts b _) fun _ => pure _

theorem addNameParts (parts : List String) : Makes (addNameParts parts) :=
  compositional.addNameParts addNamePart parts

end Makes

structure KeepsSound {α : Type} (x : Addition α) : Prop where
  sound : ∀ {b after : Builder} {a : α}, b.Sound → x b = .ok a after → after.Sound

namespace KeepsSound

theorem compositional : Addition.Compositional @KeepsSound where
  pure _ := ⟨fun hb h => (Outcome.run_pure_eq_ok_iff.1 h).2 ▸ hb⟩
  bind hx hf := ⟨fun hb h => by
    obtain ⟨a, b', hfirst, hrest⟩ := Outcome.run_bind_eq_ok_iff.1 h
    exact (hf a).sound (hx.sound hb hfirst) hrest⟩
  get := ⟨fun hb h => by
    obtain ⟨-, rfl⟩ := EStateM.Result.ok.inj h
    exact hb⟩
  encoded _ := ⟨fun hb h => (encoded_eq_ok_iff.1 h).2 ▸ hb⟩
  change hf hparts := ⟨fun hb h => by
    obtain ⟨-, rfl⟩ := EStateM.Result.ok.inj h
    exact (hf _).sound (hparts _) hb⟩

theorem addNamePart (part : String) : KeepsSound (addNamePart part) where
  sound hb h := (addNamePart_spec hb h).1.sound

end KeepsSound

/-! ### Edits -/

namespace Edit

/-- A builder with the setting of an edit. Edits that add something set nothing. -/
def adjust (edit : Edit) (b : Builder) : Builder :=
  match edit with
  | pdbId _ | entryPoint _ | referencedRows _ _ | declaredRows _ _ | omitStream
      _ | renameStream _ _ | wideHeaps =>
    match edit.apply b with
    | .ok _ after => after
    | .error _ _ => b
  | _ => b

variable {b after : Builder} {edit : Edit} {answer : Option UInt32}

/-- An edit adds something or sets something. -/
theorem apply_cases {P : {α : Type} → Addition α → Prop} (h : Addition.Compositional P)
    (hpart : ∀ part, P (addNamePart part)) (edit : Edit) :
    (P edit.apply ∧ ∀ b, edit.adjust b = b) ∨
      ∀ b, edit.apply b = .ok none (edit.adjust b) := by
  cases edit with
  | string text => exact .inl ⟨h.map (h.addString text) _, fun _ => rfl⟩
  | blob content => exact .inl ⟨h.map (h.addBlob content) _, fun _ => rfl⟩
  | guid guid => exact .inl ⟨h.map (h.addGuid guid) _, fun _ => rfl⟩
  | documentName path => exact .inl ⟨h.map (h.addDocumentName hpart path) _, fun _ => rfl⟩
  | documentNameWith path separator =>
    exact .inl ⟨h.map (h.addDocumentNameWith hpart path separator) _, fun _ => rfl⟩
  | documentRow row => exact .inl ⟨h.map (h.addDocumentRow row) _, fun _ => rfl⟩
  | document path language =>
    exact .inl ⟨h.map (h.addDocument hpart path language) _, fun _ => rfl⟩
  | documentWithHash path language hashAlgorithm hash =>
      exact .inl ⟨h.map (h.addDocumentWithHash hpart path language hashAlgorithm hash) _,
        fun _ => rfl⟩
  | methodRow row => exact .inl ⟨h.map (h.addMethodRow row) _, fun _ => rfl⟩
  | method owner marks => exact .inl ⟨h.map (h.addMethod owner marks) _, fun _ => rfl⟩
  | scopeRow row => exact .inl ⟨h.map (h.addScopeRow row) _, fun _ => rfl⟩
  | scope owner startOffset length =>
    exact .inl ⟨h.map (h.addScope owner startOffset length) _, fun _ => rfl⟩
  | localVariable name slot attributes =>
    exact .inl ⟨h.map (h.addVariable name slot attributes) _, fun _ => rfl⟩
  | localConstant name => exact .inl ⟨h.map (h.addConstant name) _, fun _ => rfl⟩
  | _ => exact .inr fun _ => rfl

theorem changes_of_apply (h : edit.apply b = .ok answer after) :
    Changes (edit.adjust b) after := by
  rcases apply_cases Makes.compositional Makes.addNamePart
    edit with ⟨hmakes, hadjust⟩ | hsetting
  · rw [hadjust]
    exact hmakes.changes h
  · rw [hsetting] at h
    obtain ⟨-, rfl⟩ := EStateM.Result.ok.inj h
    exact .refl

theorem sound_of_apply (h : edit.apply b = .ok answer after) (hb : b.Sound) :
    after.Sound := by
  rcases apply_cases KeepsSound.compositional KeepsSound.addNamePart
    edit with ⟨hkeeps, -⟩ | hsetting
  · exact hkeeps.sound hb h
  · rw [hsetting] at h
    obtain ⟨-, rfl⟩ := EStateM.Result.ok.inj h
    cases edit <;> exact hb.congr rfl rfl rfl

theorem grows_of_apply (h : edit.apply b = .ok answer after) : Grows b after := by
  have hadjust : Grows b (edit.adjust b) := by cases edit <;> exact .of_eq rfl rfl rfl
  exact hadjust.trans (changes_of_apply h).grows

theorem guids_whole_of_apply (h : edit.apply b = .ok answer after)
    (hb : b.guids.size % Guid.size = 0) : after.guids.size % Guid.size = 0 := by
  have hadjust : (edit.adjust b).guids = b.guids := by cases edit <;> rfl
  exact (changes_of_apply h).guids_whole (hadjust ▸ hb)

/-! ### Lists of edits -/

/-- What every edit of a list keeps is kept by the list. -/
theorem kept_of_applyAll {P : Builder → Prop} {edits : List Edit}
    (hstep : ∀ edit ∈ edits, ∀ b answer after, P b → edit.apply b = .ok answer after →
      P after) :
    ∀ {b after : Builder}, P b → applyAll edits b = .ok () after → P after := by
  induction edits with
  | nil =>
      intro b after hb h
      obtain ⟨-, rfl⟩ := Outcome.run_pure_eq_ok_iff.1 h
      exact hb
  | cons edit rest ih =>
      intro b after hb h
      obtain ⟨answer, b₁, hedit, hrest⟩ := Outcome.run_bind_eq_ok_iff.1 h
      exact ih (fun e he => hstep e (by simp [he]))
        (hstep edit (by simp) b answer b₁ hb hedit) hrest

/-- Streams are left out and renamed by edits of their own. -/
theorem streams_kept_of_applyAll {edits : List Edit}
    (homit : ∀ name, omitStream name ∉ edits)
    (hrename : ∀ name newName, renameStream name newName ∉ edits)
    (h : applyAll edits b = .ok () after) :
    after.omitted = b.omitted ∧ after.renamed = b.renamed := by
  refine kept_of_applyAll
    (P := fun last => last.omitted = b.omitted ∧ last.renamed = b.renamed) ?_ ⟨rfl, rfl⟩ h
  rintro edit hmem before answer last ⟨homitted, hrenamed⟩ hedit
  have hadjust : (edit.adjust before).omitted = before.omitted ∧
      (edit.adjust before).renamed = before.renamed := by
    cases edit with
    | omitStream name => exact absurd hmem (homit name)
    | renameStream name newName => exact absurd hmem (hrename name newName)
    | _ => exact ⟨rfl, rfl⟩
  have hframe := (changes_of_apply hedit).frame
  exact ⟨(congrArg Builder.omitted hframe).trans (hadjust.1.trans homitted),
    (congrArg Builder.renamed hframe).trans (hadjust.2.trans hrenamed)⟩

theorem guids_whole_of_applyAll {edits : List Edit} (h : applyAll edits b = .ok () after)
    (hb : b.guids.size % Guid.size = 0) : after.guids.size % Guid.size = 0 :=
  kept_of_applyAll (P := fun last => last.guids.size % Guid.size = 0)
    (fun _ _ _ _ _ hwhole hedit => guids_whole_of_apply hedit hwhole) hb h

theorem sound_of_applyAll {edits : List Edit} (h : applyAll edits b = .ok () after)
    (hb : b.Sound) : after.Sound :=
  kept_of_applyAll (P := Sound)
    (fun _ _ _ _ _ hsound hedit => sound_of_apply hedit hsound) hb h

theorem grows_of_applyAll {edits : List Edit} (h : applyAll edits b = .ok () after) :
    Grows b after :=
  kept_of_applyAll (P := Grows b) (fun _ _ _ _ _ hgrows hedit =>
    hgrows.trans (grows_of_apply hedit)) (.of_eq rfl rfl rfl) h

theorem applyAll_append {edits more : List Edit} :
    ∀ {b after : Builder}, applyAll edits b = .ok () after →
      applyAll (edits ++ more) b = applyAll more after := by
  induction edits with
  | nil =>
      intro b after h
      obtain ⟨-, rfl⟩ := Outcome.run_pure_eq_ok_iff.1 h
      rfl
  | cons edit rest ih =>
      intro b after h
      obtain ⟨answer, b₁, hedit, hrest⟩ := Outcome.run_bind_eq_ok_iff.1 h
      rw [← ih hrest]
      simp only [List.cons_append, applyAll, bind, EStateM.bind, hedit]

/-- An edit that is repeated, with a property of builders that counts the repetitions. -/
theorem applyAll_replicate {P : Nat → Builder → Prop} (hstep : ∀ n b, P n b →
    ∃ answer after, edit.apply b = .ok answer after ∧ P (n + 1) after) (count : Nat) :
    ∀ {n : Nat} {b : Builder}, P n b → ∃ after,
      applyAll (List.replicate count edit) b = .ok () after ∧ P (n + count) after := by
  induction count with
  | zero => exact fun hb => ⟨_, rfl, hb⟩
  | succ count ih =>
      intro n b hb
      obtain ⟨answer, b₁, hedit, hnext⟩ := hstep n b hb
      obtain ⟨after, hrest, hlast⟩ := ih hnext
      refine ⟨after, ?_, by rwa [Nat.add_assoc, Nat.add_comm 1] at hlast⟩
      exact Outcome.run_bind_eq_ok_iff.2 ⟨answer, b₁, hedit, hrest⟩

/-- An edit of a list, with the edits before and behind it. -/
theorem apply_of_applyAll {edits : List Edit} {i : Nat} :
    ∀ {b last : Builder}, applyAll edits b = .ok () last → edits[i]? = some edit →
      ∃ before answer after,
        applyAll (edits.take i) b = .ok () before ∧ edit.apply before = .ok answer after ∧
        applyAll (edits.drop (i + 1)) after = .ok () last ∧
        (trace edits b)[i]? = some (.ok answer) := by
  induction edits generalizing i with
  | nil => simp
  | cons first rest ih =>
      intro b last h hi
      obtain ⟨answer, b₁, hfirst, hrest⟩ := Outcome.run_bind_eq_ok_iff.1 h
      cases i with
      | zero =>
          obtain rfl : first = edit := by simpa using hi
          exact ⟨b, answer, b₁, rfl, hfirst, hrest, by simp [trace, hfirst]⟩
      | succ i =>
          obtain ⟨before, answer', after, htake, hedit, hdrop, htrace⟩ :=
            ih hrest (by simpa using hi)
          refine ⟨before, answer', after, ?_, hedit,
            hdrop, by simpa [trace, hfirst] using htrace⟩
          exact Outcome.run_bind_eq_ok_iff.2 ⟨answer, b₁, hfirst, htake⟩

/-- The heaps behind an edit of a list are beginnings of those before a later edit. -/
theorem grows_between {edits : List Edit} {i j : Nat} {edit : Edit}
    {answer : Option UInt32}
    {b before after later : Builder} (hi : edits[i]? = some edit) (hij : i < j)
    (hbefore : applyAll (edits.take i) b = .ok () before)
    (hedit : edit.apply before = .ok answer after)
    (hlater : applyAll (edits.take j) b = .ok () later) : Grows after later := by
  have hlast : applyAll [edit] before = .ok () after := by
    simp only [applyAll, bind, EStateM.bind, hedit]
    rfl
  have htake : edits.take (i + 1) = edits.take i ++ [edit] := by
    rw [List.take_add_one, hi, Option.toList_some]
  have hsplit :
      edits.take j = edits.take (i + 1) ++ (edits.drop (i + 1)).take (j - (i + 1)) := by
    rw [← List.take_add, Nat.add_sub_cancel' hij]
  have hupTo : applyAll (edits.take (i + 1)) b = .ok () after := by
    rw [htake, applyAll_append hbefore, hlast]
  rw [hsplit, applyAll_append hupTo] at hlater
  exact grows_of_applyAll hlater

end Edit

end PortablePdb.Builder
