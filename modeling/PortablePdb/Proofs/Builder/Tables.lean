import PortablePdb.Builder.Image
import PortablePdb.Proofs.Table.RowCounts
import PortablePdb.Table.Stream

/-!
The streams of tables and row counts, read back. The reader works out the width of a
column from the row counts that it has just read, and the writer from those that it is
about to write. The widths agree on both sides of `0xFFFF`, so every row is read as it was
added, up to what does not fit into its columns: `storedTables`.
-/

namespace PortablePdb.Builder

open Reader

/-! ### Columns -/

def narrow (wide : Bool) (n : UInt32) : UInt32 :=
  if wide then n else n.toUInt16.toUInt32

def FitsColumn (wide : Bool) (n : UInt32) : Prop :=
  wide = true ∨ n.toNat ≤ 0xFFFF

instance (wide : Bool) (n : UInt32) : Decidable (FitsColumn wide n) :=
  inferInstanceAs (Decidable (_ ∨ _))

theorem narrow_eq_self {wide : Bool} {n : UInt32} (h : FitsColumn wide n) :
    narrow wide n = n := by
  cases wide with
  | true => rfl
  | false =>
      have hn : n.toNat ≤ 0xFFFF := by simpa [FitsColumn] using h
      apply UInt32.toNat_inj.1
      simp only [narrow, Bool.false_eq_true, if_false, UInt16.toNat_toUInt32,
        UInt32.toNat_toUInt16]
      omega

theorem consumes_index (wide : Bool) (n : UInt32) :
    Consumes (index (IndexWidths.ofWide wide)) (column wide n) (narrow wide n) := by
  cases wide with
  | true => exact .u32 n
  | false => exact (Consumes.u16 n.toUInt16).map UInt16.toUInt32

def wideTable (b : Builder) (kind : TableKind) : Bool :=
  0xFFFF < b.rowCounts.get kind.id || 0xFFFF < b.referencedRows.get kind.id

theorem isWide_max (m n : UInt32) :
    IndexWidths.isWide (max m n) = (decide (0xFFFF < m) || decide (0xFFFF < n)) := by
  rw [IndexWidths.isWide, ← Bool.decide_or]
  apply decide_eq_decide.2
  simp only [Max.max, UInt32.le_iff_toNat_le, UInt32.lt_iff_toNat_lt]
  split <;> omega

def widths (b : Builder) : IndexWidths where
  strings := IndexWidths.ofWide b.wideHeaps
  guids := IndexWidths.ofWide b.wideHeaps
  blobs := IndexWidths.ofWide b.wideHeaps
  documents := IndexWidths.ofWide (b.wideTable .document)
  methods := IndexWidths.ofWide (b.wideTable .methodDef)
  imports := IndexWidths.ofWide (b.wideTable .importScope)
  localVariables := IndexWidths.ofWide (b.wideTable .localVariable)
  localConstants := IndexWidths.ofWide (b.wideTable .localConstant)

/-- The reader finds the widths that the builder writes with. -/
theorem ofCounts_eq_widths (b : Builder) :
    IndexWidths.ofCounts
      (if b.wideHeaps then 0x07 else 0x00) b.rowCounts b.referencedRows = b.widths := by
  have hheap : ∀ bit < 3, (if b.wideHeaps then 0x07 else 0x00 : UInt8).toNat.testBit bit =
      b.wideHeaps := by
    cases b.wideHeaps <;> decide
  simp only [IndexWidths.ofCounts, hheap 0 (by decide), hheap 1 (by decide),
    hheap 2 (by decide), isWide_max]
  rfl

/-! ### Rows -/

def storedDocument (b : Builder) (row : DocumentRow) : DocumentRow where
  name := narrow b.wideHeaps row.name
  hashAlgorithm := narrow b.wideHeaps row.hashAlgorithm
  hash := narrow b.wideHeaps row.hash
  language := narrow b.wideHeaps row.language

def storedMethod (b : Builder) (row : MethodRow) : MethodRow where
  document := narrow (b.wideTable .document) row.document
  sequencePoints := narrow b.wideHeaps row.sequencePoints

def storedScope (b : Builder) (row : ScopeRow) : ScopeRow where
  method := narrow (b.wideTable .methodDef) row.method
  importScope := narrow (b.wideTable .importScope) row.importScope
  variableList := narrow (b.wideTable .localVariable) row.variableList
  constantList := narrow (b.wideTable .localConstant) row.constantList
  startOffset := row.startOffset
  length := row.length

def storedVariable (b : Builder) (row : VariableRow) : VariableRow where
  attributes := row.attributes
  slot := row.slot
  name := narrow b.wideHeaps row.name

def storedConstant (b : Builder) (row : ConstantRow) : ConstantRow where
  name := narrow b.wideHeaps row.name
  signature := narrow b.wideHeaps row.signature

/-- No number is cut off by its column. -/
def Fits (b : Builder) : Prop :=
  (∀ row ∈ b.documents, FitsColumn b.wideHeaps row.name ∧
    FitsColumn b.wideHeaps row.hashAlgorithm ∧
    FitsColumn b.wideHeaps row.hash ∧ FitsColumn b.wideHeaps row.language) ∧
    (∀ row ∈ b.methods, FitsColumn (b.wideTable .document) row.document ∧
      FitsColumn b.wideHeaps row.sequencePoints) ∧
    (∀ row ∈ b.scopes, FitsColumn (b.wideTable .methodDef) row.method ∧
      FitsColumn (b.wideTable .importScope) row.importScope ∧
      FitsColumn (b.wideTable .localVariable) row.variableList ∧
      FitsColumn (b.wideTable .localConstant) row.constantList) ∧
    (∀ row ∈ b.localVariables, FitsColumn b.wideHeaps row.name) ∧
    ∀ row ∈ b.localConstants, FitsColumn b.wideHeaps row.name ∧
      FitsColumn b.wideHeaps row.signature

instance (b : Builder) : Decidable b.Fits :=
  inferInstanceAs (Decidable (_ ∧ _))

theorem consumes_documentRow (b : Builder) (row : DocumentRow) :
    Consumes (StoredRow.read b.widths) (b.documentRow row) (b.storedDocument row) := by
  simp only [documentRow, heapColumn, List.append_assoc]
  exact (consumes_index _ _).bind
    ((consumes_index _ _).bind ((consumes_index _ _).bind ((consumes_index _ _).map _)))

theorem consumes_methodRow (b : Builder) (row : MethodRow) :
    Consumes (StoredRow.read b.widths) (b.methodRow row) (b.storedMethod row) :=
  (consumes_index _ _).bind ((consumes_index _ _).map _)

theorem consumes_scopeRow (b : Builder) (row : ScopeRow) :
    Consumes (StoredRow.read b.widths) (b.scopeRow row) (b.storedScope row) := by
  simp only [scopeRow, tableColumn, List.append_assoc]
  exact (consumes_index _ _).bind
    ((consumes_index _ _).bind ((consumes_index _ _).bind ((consumes_index _ _).bind
      ((Consumes.u32 _).bind ((Consumes.u32 _).map _)))))

theorem consumes_variableRow (b : Builder) (row : VariableRow) :
    Consumes (StoredRow.read b.widths) (b.variableRow row) (b.storedVariable row) := by
  simp only [variableRow, heapColumn, List.append_assoc]
  exact (Consumes.u16 _).bind ((Consumes.u16 _).bind ((consumes_index _ _).map _))

theorem consumes_constantRow (b : Builder) (row : ConstantRow) :
    Consumes (StoredRow.read b.widths) (b.constantRow row) (b.storedConstant row) :=
  (consumes_index _ _).bind ((consumes_index _ _).map _)

theorem consumes_readRows {ρ : Type} [StoredRow ρ] {widths : IndexWidths}
    {bytes : ρ → List UInt8} {stored : ρ → ρ}
    (h : ∀ row, Consumes (StoredRow.read widths) (bytes row) (stored row)) (rows : List ρ) :
    ∀ read : Array ρ, Consumes (Tables.readRows widths rows.length read)
      (rows.flatMap bytes) (read ++ (rows.map stored).toArray) := by
  induction rows with
  | nil =>
      intro read
      simp only [List.map_nil, Array.append_empty]
      exact .pure read
  | cons row rest ih =>
      intro read
      have hrest := ih (read.push (stored row))
      have heq : read.push (stored row) ++ (rest.map stored).toArray =
          read ++ ((row :: rest).map stored).toArray := by simp
      rw [heq] at hrest
      exact (h row).bind hrest

/-! ### Headers -/

def writtenTables : List TableKind :=
  [.document, .methodDebugInformation, .localScope, .localVariable, .localConstant]

/-- A row count that is declared for a table without rows. Only tables that a reader
counts and does not read may have one that is not zero. -/
def Declarable (declared : Fin 64 × UInt32) : Prop :=
  (∀ kind ∈ writtenTables, declared.1 ≠ kind.id) ∧
    (TableKind.isDebugTable declared.1 = true ∨ declared.2 = 0)

theorem addedRows_eq_zero {b : Builder} {id : Fin 64}
    (h : ∀ kind ∈ writtenTables, id ≠ kind.id) : b.addedRows id = 0 := by
  simp only [writtenTables, List.forall_mem_cons] at h
  simp [addedRows, h]

theorem get_foldl_set (declared : List (Fin 64 × UInt32)) (id : Fin 64) :
    ∀ counts : RowCounts,
      (declared.foldl (fun counts d => counts.set d.1 d.2 d.1.isLt) counts).get id =
        (declared.reverse.lookup id).getD (counts.get id) := by
  induction declared with
  | nil => intro counts; rfl
  | cons d rest ih =>
      intro counts
      obtain ⟨other, rows⟩ := d
      rw [List.foldl_cons, ih, List.reverse_cons, List.lookup_append, RowCounts.get_set]
      -- The count of the first table stands unless one of the rest replaces it.
      cases rest.reverse.lookup id with
      | some later => rfl
      | none =>
          by_cases hother : other = id
          · simp [hother]
          · simp [hother, List.lookup_cons, beq_eq_false_iff_ne.2 (Ne.symm hother)]

/-- The count that is written for a table is the last one that was declared, or else that
of its rows. -/
theorem get_rowCounts (b : Builder) (id : Fin 64) :
    b.rowCounts.get id = (b.declaredRows.reverse.lookup id).getD (b.addedRows id) := by
  rw [rowCounts, get_foldl_set, RowCounts.get_ofFn]

theorem rowCounts_cases (b : Builder) (id : Fin 64) :
    b.rowCounts.get id = b.addedRows id ∨
      ∃ d ∈ b.declaredRows, d.1 = id ∧ b.rowCounts.get id = d.2 := by
  rw [get_rowCounts]
  cases hdeclared : b.declaredRows.reverse.lookup id with
  | none => exact .inl rfl
  | some rows =>
      obtain ⟨before, rest, hreverse, -⟩ := List.lookup_eq_some_iff.1 hdeclared
      have hmem : (id, rows) ∈ b.declaredRows := List.mem_reverse.1 (by simp [hreverse])
      exact .inr ⟨_, hmem, rfl, rfl⟩

section Declared

variable {b : Builder} (hdeclared : ∀ d ∈ b.declaredRows, Declarable d)
include hdeclared

theorem rowCounts_of_written {kind : TableKind} (hkind : kind ∈ writtenTables) :
    b.rowCounts.get kind.id = b.addedRows kind.id := by
  rcases rowCounts_cases b kind.id with h | ⟨d, hd, hid, -⟩
  · exact h
  · exact absurd hid ((hdeclared d hd).1 kind hkind)

/-- Only tables of debug files have rows. -/
theorem isDebugTable_of_rowCounts {id : Fin 64} (hrows : b.rowCounts.get id ≠ 0) :
    TableKind.isDebugTable id = true := by
  rcases rowCounts_cases b id with h | ⟨d, hd, rfl, h⟩
  · cases hdebug : TableKind.isDebugTable id with
    | true => rfl
    | false =>
        refine absurd (h.trans (addedRows_eq_zero ?_)) hrows
        rintro kind hkind rfl
        revert hkind hdebug
        cases kind <;> decide
  · rcases (hdeclared d hd).2 with hdebug | hzero
    · exact hdebug
    · exact absurd (h.trans hzero) hrows

end Declared

/-- A table whose count is not written has none. -/
theorem rowCounts_of_not_isCounted {b : Builder} {id : Fin 64}
    (h : b.isCounted id = false) : b.rowCounts.get id = 0 := by
  simp only [isCounted, isDeclared, Bool.or_eq_false_iff, bne_eq_false_iff_eq,
    List.any_eq_false, decide_eq_true_eq] at h
  rcases rowCounts_cases b id with hadded | ⟨d, hd, hid, -⟩
  · rw [hadded, h.1]
  · exact absurd hid (h.2 d hd)

def storedHeader (b : Builder) : TableHeader where
  majorVersion := 2
  minorVersion := 0
  heapSizes := if b.wideHeaps then 0x07 else 0x00
  valid := RowCounts.maskOf b.isCounted
  sorted := 0
  rows := b.rowCounts

theorem consumes_tablesHeader (b : Builder) :
    Consumes TableHeader.read b.tablesHeader b.storedHeader := by
  simp only [tablesHeader, List.append_assoc]
  have hrows := RowCounts.consumes_read fun id (h : b.isCounted id = false) =>
    rowCounts_of_not_isCounted h
  exact (Consumes.u32 0).bind ((Consumes.u8 2).bind
    ((Consumes.u8 0).bind ((Consumes.u8 _).bind ((Consumes.u8 1).bind
      ((Consumes.u64 _).bind ((Consumes.u64 0).bind (hrows.map _)))))))

theorem unsupported?_storedHeader {b : Builder}
    (hdeclared : ∀ d ∈ b.declaredRows, Declarable d) :
    b.storedHeader.unsupported? = none := by
  simp only [TableHeader.unsupported?, List.find?_eq_none]
  intro id _ h
  simp only [Bool.and_eq_true, bne_iff_ne, Bool.not_eq_true'] at h
  rw [isDebugTable_of_rowCounts hdeclared h.1] at h
  exact absurd h.2 (by decide)

/-! ### Streams -/

/-- Every row has a number, and so has the row behind the last one. -/
structure Countable (b : Builder) : Prop where
  documents : b.documents.size + 1 < 2 ^ 32
  methods : b.methods.size + 1 < 2 ^ 32
  scopes : b.scopes.size + 1 < 2 ^ 32
  localVariables : b.localVariables.size + 1 < 2 ^ 32
  localConstants : b.localConstants.size + 1 < 2 ^ 32

/-- Every row has a number, which is a word. -/
structure Numbered (b : Builder) : Prop where
  documents : b.documents.size < 2 ^ 32
  methods : b.methods.size < 2 ^ 32
  scopes : b.scopes.size < 2 ^ 32
  localVariables : b.localVariables.size < 2 ^ 32
  localConstants : b.localConstants.size < 2 ^ 32

theorem Countable.numbered {b : Builder} (h : b.Countable) : b.Numbered where
  documents := Nat.lt_of_succ_lt h.documents
  methods := Nat.lt_of_succ_lt h.methods
  scopes := Nat.lt_of_succ_lt h.scopes
  localVariables := Nat.lt_of_succ_lt h.localVariables
  localConstants := Nat.lt_of_succ_lt h.localConstants

theorem two_le_length_column (wide : Bool) (n : UInt32) : 2 ≤ (column wide n).length := by
  cases wide <;> simp [column, word16, word32]

theorem two_mul_length_le {ρ : Type} {bytes : ρ → List UInt8}
    (h : ∀ row, 2 ≤ (bytes row).length) (rows : List ρ) :
    2 * rows.length ≤ (rows.flatMap bytes).length := by
  induction rows with
  | nil => exact Nat.le_refl _
  | cons row rest ih =>
      have hrow := h row
      rw [List.flatMap_cons, List.length_append, List.length_cons]
      omega

/-- Every row takes two bytes or more, so a stream of less than `2 ^ 32` bytes has few
enough of them. -/
theorem countable_of_length_lt {b : Builder} (h : b.tablesStream.length < 2 ^ 32) :
    b.Countable := by
  have hheap := two_le_length_column b.wideHeaps
  have hdocument (row : DocumentRow) : 2 ≤ (b.documentRow row).length := by
    have hname := hheap row.name
    simp only [documentRow, heapColumn, List.length_append]
    omega
  have hmethod (row : MethodRow) : 2 ≤ (b.methodRow row).length := by
    have hpoints := hheap row.sequencePoints
    simp only [methodRow, heapColumn, List.length_append]
    omega
  have hscope (row : ScopeRow) : 2 ≤ (b.scopeRow row).length := by
    simp [scopeRow, word32]
    omega
  have hvariable (row : VariableRow) : 2 ≤ (b.variableRow row).length := by
    simp [variableRow, word16]
  have hconstant (row : ConstantRow) : 2 ≤ (b.constantRow row).length := by
    have hname := hheap row.name
    simp only [constantRow, heapColumn, List.length_append]
    omega
  have hdocuments := two_mul_length_le hdocument b.documents.toList
  have hmethods := two_mul_length_le hmethod b.methods.toList
  have hscopes := two_mul_length_le hscope b.scopes.toList
  have hvariables := two_mul_length_le hvariable b.localVariables.toList
  have hconstants := two_mul_length_le hconstant b.localConstants.toList
  simp only [tablesStream, List.length_append] at h
  simp only [Array.length_toList] at hdocuments hmethods hscopes hvariables hconstants
  constructor <;> omega

def storedTables (b : Builder) : Tables where
  header := b.storedHeader
  documents := ⟨b.documents.map b.storedDocument⟩
  methods := ⟨b.methods.map b.storedMethod⟩
  scopes := ⟨b.scopes.map b.storedScope⟩
  localVariables := ⟨b.localVariables.map b.storedVariable⟩
  localConstants := ⟨b.localConstants.map b.storedConstant⟩

theorem map_eq_self {ρ : Type} {rows : Array ρ} {stored : ρ → ρ}
    (h : ∀ row ∈ rows, stored row = row) : rows.map stored = rows := by
  rw [Array.map_congr_left h, Array.map_id']

/-- Without numbers that are cut off, the rows are read as they were added. -/
theorem storedTables_eq {b : Builder} (hb : b.Fits) :
    b.storedTables =
      { header := b.storedHeader, documents := ⟨b.documents⟩, methods := ⟨b.methods⟩,
        scopes := ⟨b.scopes⟩,
        localVariables := ⟨b.localVariables⟩, localConstants := ⟨b.localConstants⟩ } := by
  obtain ⟨hdocuments, hmethods, hscopes, hvariables, hconstants⟩ := hb
  have hdocuments : b.documents.map b.storedDocument = b.documents :=
      map_eq_self fun row hrow => by
    obtain ⟨hname, hhashAlgorithm, hhash, hlanguage⟩ := hdocuments row hrow
    simp only [storedDocument, narrow_eq_self, hname, hhashAlgorithm, hhash, hlanguage]
  have hmethods : b.methods.map b.storedMethod = b.methods := map_eq_self fun row hrow => by
    obtain ⟨hdocument, hpoints⟩ := hmethods row hrow
    simp only [storedMethod, narrow_eq_self, hdocument, hpoints]
  have hscopes : b.scopes.map b.storedScope = b.scopes := map_eq_self fun row hrow => by
    obtain ⟨hmethod, himports, hvariables, hconstants⟩ := hscopes row hrow
    simp only [storedScope, narrow_eq_self, hmethod, himports, hvariables, hconstants]
  have hvariables : b.localVariables.map b.storedVariable = b.localVariables :=
      map_eq_self fun row hrow => by
    simp only [storedVariable, narrow_eq_self (hvariables row hrow)]
  have hconstants : b.localConstants.map b.storedConstant = b.localConstants :=
      map_eq_self fun row hrow => by
    obtain ⟨hname, hsignature⟩ := hconstants row hrow
    simp only [storedConstant, narrow_eq_self, hname, hsignature]
  simp only [storedTables, hdocuments, hmethods, hscopes, hvariables, hconstants]

theorem consumes_readTable {ρ : Type} [StoredRow ρ] {b : Builder} {bytes : ρ → List UInt8}
    {stored : ρ → ρ} (hdeclared : ∀ d ∈ b.declaredRows, Declarable d)
    (hwritten : TableRow.kind ρ ∈ writtenTables) {rows : Array ρ}
    (hadded : b.addedRows (TableRow.kind ρ).id = rows.size.toUInt32)
    (hsize : rows.size < 2 ^ 32)
    (h : ∀ row, Consumes (StoredRow.read b.widths) (bytes row) (stored row)) :
    Consumes (Tables.readTable ρ b.storedHeader b.widths) (rows.toList.flatMap bytes)
      ⟨rows.map stored⟩ := by
  have hcount : (b.storedHeader.rowsOf (TableRow.kind ρ)).toNat = rows.toList.length := by
    change (b.rowCounts.get _).toNat = _
    rw [rowCounts_of_written hdeclared hwritten, hadded]
    exact toNat_toUInt32 hsize
  have hrows := consumes_readRows h rows.toList #[]
  have hmap : #[] ++ (rows.toList.map stored).toArray = rows.map stored := by
    apply Array.toList_inj.1
    simp
  rw [hmap, ← hcount] at hrows
  exact hrows.map Table.mk

/-- The stream of tables is read as the rows that were added, as far as their columns hold
them. -/
theorem consumes_tablesStream {b : Builder}
    (hdeclared : ∀ d ∈ b.declaredRows, Declarable d) (hb : b.Numbered) :
    Consumes (Tables.read b.referencedRows) b.tablesStream b.storedTables := by
  simp only [tablesStream, List.append_assoc]
  apply b.consumes_tablesHeader.bind
  have hwidths : IndexWidths.ofCounts b.storedHeader.heapSizes b.storedHeader.rows
      b.referencedRows = b.widths :=
    ofCounts_eq_widths b
  simp only [unsupported?_storedHeader hdeclared, hwidths]
  apply (consumes_readTable hdeclared
    (by decide) rfl hb.documents b.consumes_documentRow).bind
  apply (consumes_readTable hdeclared (by decide) rfl hb.methods b.consumes_methodRow).bind
  apply (consumes_readTable hdeclared (by decide) rfl hb.scopes b.consumes_scopeRow).bind
  apply (consumes_readTable hdeclared
    (by decide) rfl hb.localVariables b.consumes_variableRow).bind
  exact (consumes_readTable hdeclared
    (by decide) rfl hb.localConstants b.consumes_constantRow).map _

def storedPdb (b : Builder) : PdbStream where
  id := b.pdbId
  entryPoint := b.entryPoint
  referencedTables := RowCounts.maskOf fun id => b.referencedRows.get id != 0
  referencedRows := b.referencedRows

theorem consumes_pdbStream (b : Builder) :
    Consumes PdbStream.read b.pdbStream b.storedPdb := by
  simp only [pdbStream, List.append_assoc]
  have hrows := RowCounts.consumes_read
    fun id (h : (b.referencedRows.get id != 0) = false) => bne_eq_false_iff_eq.1 h
  have hid := Consumes.bytes b.pdbId.bytes
  rw [show b.pdbId.bytes.length = PdbId.size by simp [PdbId.bytes, PdbId.size]] at hid
  refine hid.bind ((Consumes.u32 _).bind ((Consumes.u64 _).bind (hrows.last ?_)))
  rw [List.data_toByteArray, PdbId.ofBytes_bytes]
  exact .pure _

end PortablePdb.Builder
