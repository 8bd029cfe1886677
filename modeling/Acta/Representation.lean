import Acta.Write.Progress

/-!
# What the bytes of a block depend on

A block is encoded from its logical rows alone (`buildDataFrame_eq_of_logical`).  How the rows are
cut into chunks, what stands behind a null, and whether a column without nulls carries a validity
bitmap leave no trace in the frame.

The encoder reads the buffered arrays in three places: the validity bits, the dense values and the
primary values.  Each is a function of `BlockRows.logical`, and everything after them works from
what they return.  The checks of the buffered parts cannot tell two blocks of one schema apart
except by their row counts (`validateColumnParts_eq`).
-/

namespace Acta

open Machine Wire

/-- The logical rows of one column of a block. -/
def BlockRows.logical (rows : BlockRows) (index : ℕ) : List (Option ScalarValue) :=
  (rows.column index).map fun (array, row) ↦ array.valueAt row

/-- A batch of a schema, in the representations the schema declares.  An append checks both. -/
structure RecordBatch.Declares (schema : Schema) (batch : RecordBatch) : Prop where
  schema_eq : batch.schema = schema
  types : List.Forall₂ (fun column array ↦ array.type = column.logicalType.arrayType) schema.columns
    batch.columns

/-- A block whose chunks are batches of the schema. -/
def BlockRows.Of (schema : Schema) (rows : BlockRows) : Prop :=
  ∀ chunk ∈ rows.chunks, chunk.Declares schema

/-! ### Chunks -/

namespace RecordBatch

variable {schema : Schema} {batch : RecordBatch}

/-- The array of a batch that stands for a column of its schema. -/
theorem Declares.column_eq_some (h : batch.Declares schema) {column : Column} {index : ℕ}
    (hcolumn : schema.columns[index]? = some column) :
    ∃ array, batch.column index = some array ∧ array.type = column.logicalType.arrayType ∧
      Fits column batch.rowCount array := by
  obtain ⟨hindex, rfl⟩ := List.getElem?_eq_some_iff.mp hcolumn
  have hlength := h.types.length_eq
  have hfits : List.Forall₂ (Fits · batch.rowCount) schema.columns batch.columns := by
    rw [← h.schema_eq]
    exact batch.fits
  refine ⟨batch.columns[index], List.getElem?_eq_getElem _, ?_, ?_⟩
  · exact h.types.get hindex (by omega)
  · exact hfits.get hindex (by omega)

/-- A chunk of a batch of the schema is one. -/
theorem Declares.slice (h : batch.Declares schema) (start stop : ℕ) :
    (batch.slice start stop).Declares schema := by
  refine ⟨h.schema_eq, ?_⟩
  show List.Forall₂ _ schema.columns (batch.columns.map (·.slice start stop))
  rw [List.forall₂_map_right_iff]
  exact h.types

end RecordBatch

namespace BlockRows

variable {schema : Schema} {rows : BlockRows}

theorem column_cons (chunk : RecordBatch) (chunks : List RecordBatch) (rowCount index : ℕ)
    {array : LogicalArray} (h : chunk.column index = some array) :
    ({ chunks := chunk :: chunks, rowCount } : BlockRows).column index =
      (List.range array.len).map (fun row ↦ (array, row)) ++
        ({ chunks, rowCount } : BlockRows).column index := by
  simp only [column, List.filterMap_cons, h, List.flatMap_cons]

/-- Every row of a column lies in the array that holds it. -/
theorem lt_len_of_mem_column {index row : ℕ} {array : LogicalArray}
    (h : (array, row) ∈ rows.column index) : row < array.len := by
  obtain ⟨held, -, hmem⟩ := List.mem_flatMap.mp h
  obtain ⟨position, hposition, heq⟩ := List.mem_map.mp hmem
  cases heq
  exact List.mem_range.mp hposition

/-- A block of the schema has as many rows in each column as its chunks have together. -/
theorem Of.length_logical (h : rows.Of schema) {column : Column} {index : ℕ}
    (hcolumn : schema.columns[index]? = some column) :
    (rows.logical index).length = (rows.chunks.map RecordBatch.rowCount).sum := by
  obtain ⟨chunks, rowCount⟩ := rows
  rw [logical, List.length_map]
  induction chunks with
  | nil => rfl
  | cons chunk chunks ih =>
    obtain ⟨hchunk, hrest⟩ := List.forall_mem_cons.mp h
    obtain ⟨array, harray, -, hfits⟩ := hchunk.column_eq_some hcolumn
    rw [column_cons chunk chunks rowCount index harray, List.length_append, List.length_map,
      List.length_range, ih hrest, hfits.len]
    simp

end BlockRows

namespace Write

variable {schema : Schema} {rows rows' : BlockRows} {column : Column} {index : ℕ}

/-! ### The checks of the buffered parts -/

theorem validateArray_of_fits {array : LogicalArray} {rowCount : ℕ}
    (htype : array.type = column.logicalType.arrayType) (hfits : Fits column rowCount array) :
    validateArray column array rowCount = .ok () := by
  have hlen := hfits.len
  rw [validateArray, declaredValidity, failIf_neg (by simp [htype]), ok_bind, pure_eq_ok, ok_bind,
    failIf_neg (by simp [hlen]), ok_bind]
  cases hbits : array.validity with
  | none => rfl
  | some bits =>
    obtain ⟨hlength, hnullable⟩ := hfits.validity bits hbits
    show (failIf (bits.length ≠ rowCount) _ >>= fun _ ↦ failIf (¬column.nullable) _) = .ok ()
    rw [failIf_neg (by simp [hlength]), ok_bind, failIf_neg (by simp [hnullable])]

theorem foldlM_validatePart (hcolumn : schema.columns[index]? = some column)
    (chunks : List RecordBatch) (h : ∀ chunk ∈ chunks, chunk.Declares schema) (counted : ℕ) :
    chunks.foldlM (validatePart column index) counted =
      .ok (counted + (chunks.map RecordBatch.rowCount).sum) := by
  induction chunks generalizing counted with
  | nil => rfl
  | cons chunk chunks ih =>
    obtain ⟨hchunk, hrest⟩ := List.forall_mem_cons.mp h
    obtain ⟨array, harray, htype, hfits⟩ := hchunk.column_eq_some hcolumn
    have hpart : validatePart column index counted chunk = .ok (counted + chunk.rowCount) := by
      rw [validatePart, harray]
      show (validateArray column array chunk.rowCount >>= fun _ ↦ _) = _
      rw [validateArray_of_fits htype hfits]
      rfl
    rw [List.foldlM_cons, hpart, ok_bind, ih hrest, List.map_cons, List.sum_cons, Nat.add_assoc]

/-- **The parts of a block of the schema are only checked for their row count.** -/
theorem validateColumnParts_eq (h : rows.Of schema)
    (hcolumn : schema.columns[index]? = some column) :
    validateColumnParts column rows index = failIf ((rows.logical index).length ≠ rows.rowCount)
      (internal "the buffered parts do not add up to the block row count") := by
  rw [validateColumnParts, foldlM_validatePart hcolumn rows.chunks h, ok_bind, Nat.zero_add,
    h.length_logical hcolumn]

/-! ### The values of a column -/

/-- A row inside an array is null exactly when it has no value. -/
theorem not_isNull_eq_isSome {array : LogicalArray} {row : ℕ} (h : row < array.len) :
    (!array.isNull row) = (array.valueAt row).isSome := by
  unfold LogicalArray.valueAt
  cases hnull : array.isNull row with
  | true => rfl
  | false =>
    have hvalue : array.values[row]? = some array.values[row] := List.getElem?_eq_getElem h
    simp [hvalue]

/-- A row is valid when it has a value. -/
theorem validityBits_eq (rows : BlockRows) (index : ℕ) :
    validityBits rows index = (rows.logical index).map Option.isSome := by
  rw [validityBits, BlockRows.logical, List.map_map]
  refine List.map_congr_left fun entry hentry ↦ ?_
  exact not_isNull_eq_isSome (BlockRows.lt_len_of_mem_column hentry)

/-- The dense values are read from the logical rows. -/
theorem denseValues_eq (column : Column) (rows : BlockRows) (index : ℕ) (validBits : List Bool) :
    denseValues column rows index validBits =
      (((rows.logical index).zip validBits).filter (·.2)).map fun (value, _) ↦
        okOr value (invalidBatch s!"column {column.name} has a missing valid value") := by
  rw [denseValues, BlockRows.logical, List.zip_map_left, List.filter_map, List.map_map]
  rfl

/-- The primary values are read from the logical rows. -/
theorem mapM_primaryValue_eq (column : Column) (rows : BlockRows) (index : ℕ) :
    (rows.column index).mapM (fun (array, row) ↦ primaryValue column array row) =
      (rows.logical index).mapM fun value ↦
        match value with
        | none => .error (invalidBatch "the primary column contains a null")
        | some value =>
          match column.logicalType, value with
          | .timestamp _ _, ⟨.timestamp _ _, value⟩ => .ok value.val
          | .date32, ⟨.date32, value⟩ => .ok value.val
          | _, _ => .error (invalidBatch "the primary column has the wrong logical type") := by
  rw [BlockRows.logical, List.mapM_map]
  rfl

/-! ### The encoder -/

section Encoder

variable (zstd : Zstd)

theorem generateStatistics_congr (h : rows.logical index = rows'.logical index)
    (validBits : List Bool) (policy : WriterStatistics) (isPrimary : Bool) :
    generateStatistics column rows index validBits policy isPrimary =
      generateStatistics column rows' index validBits policy isPrimary := by
  have hdense : denseValues column rows index validBits =
      denseValues column rows' index validBits := by
    rw [denseValues_eq, denseValues_eq, h]
  unfold generateStatistics
  rw [hdense]

theorem rawColumnCandidate_congr (h : rows.logical index = rows'.logical index)
    (validBits : List Bool) (codec : WriterCodec) (zstdLevel : ℤ) :
    rawColumnCandidate zstd column rows index validBits codec zstdLevel =
      rawColumnCandidate zstd column rows' index validBits codec zstdLevel := by
  have hdense : encodeDenseValues column rows index validBits =
      encodeDenseValues column rows' index validBits := by
    rw [encodeDenseValues, encodeDenseValues, denseValues_eq, denseValues_eq, h]
  have hvalues : rawValueStreams column rows index validBits =
      rawValueStreams column rows' index validBits := by
    rw [rawValueStreams, rawValueStreams, hdense]
  rw [rawColumnCandidate, rawColumnCandidate, hvalues]

/-- **The encoding chosen for a column depends on its logical rows alone.** -/
theorem selectColumn_congr (h : rows.logical index = rows'.logical index) (validBits : List Bool)
    (options : WriterOptions) :
    selectColumn zstd column rows index validBits options =
      selectColumn zstd column rows' index validBits options := by
  have hdense : denseValues column rows index validBits =
      denseValues column rows' index validBits := by
    rw [denseValues_eq, denseValues_eq, h]
  have hraw : rawColumnCandidate zstd column rows index validBits options.codec options.zstdLevel =
      rawColumnCandidate zstd column rows' index validBits options.codec options.zstdLevel :=
    rawColumnCandidate_congr zstd h validBits options.codec options.zstdLevel
  unfold selectColumn
  cases options.encoding with
  | raw => exact hraw
  | adaptive =>
    show adaptiveColumnCandidate zstd column rows index validBits options.codec options.zstdLevel =
      _
    rw [adaptiveColumnCandidate, adaptiveColumnCandidate, hdense, hraw]
  | fixed transform =>
    show fixedColumnCandidate zstd column rows index validBits transform options.codec
      options.zstdLevel = _
    unfold fixedColumnCandidate
    rw [hdense, hraw]

theorem encodeColumn_congr (hrows : rows.Of schema) (hrows' : rows'.Of schema)
    (hcount : rows.rowCount = rows'.rowCount) (hcolumn : schema.columns[index]? = some column)
    (h : rows.logical index = rows'.logical index) (firstStream : ℕ) (options : WriterOptions)
    (isPrimary : Bool) :
    encodeColumn zstd column rows index firstStream options isPrimary =
      encodeColumn zstd column rows' index firstStream options isPrimary := by
  rw [encodeColumn, encodeColumn, validateColumnParts_eq hrows hcolumn,
    validateColumnParts_eq hrows' hcolumn, validityBits_eq, validityBits_eq, h, hcount]
  dsimp only
  rw [generateStatistics_congr h, selectColumn_congr zstd h]

/-- A column of the column table stands in the schema at its own position. -/
theorem getElem?_of_mem_sortedColumns {entry : Column × ℕ} (h : entry ∈ sortedColumns schema) :
    schema.columns[entry.2]? = some entry.1 := by
  rw [sortedColumns, List.mem_mergeSort] at h
  obtain ⟨hindex, heq⟩ := List.mem_zipIdx' h
  rw [heq]
  exact List.getElem?_eq_getElem hindex

theorem foldlM_assembleColumn_congr (hrows : rows.Of schema) (hrows' : rows'.Of schema)
    (hcount : rows.rowCount = rows'.rowCount)
    (h : ∀ index < schema.columns.length, rows.logical index = rows'.logical index)
    (options : WriterOptions) (entries : List (Column × ℕ))
    (hentries : ∀ entry ∈ entries, schema.columns[entry.2]? = some entry.1)
    (assembly : BlockAssembly) :
    entries.foldlM (assembleColumn zstd schema rows options) assembly =
      entries.foldlM (assembleColumn zstd schema rows' options) assembly := by
  induction entries generalizing assembly with
  | nil => rfl
  | cons entry entries ih =>
    obtain ⟨hentry, hrest⟩ := List.forall_mem_cons.mp hentries
    obtain ⟨hindex, -⟩ := List.getElem?_eq_some_iff.mp hentry
    have hcolumn : assembleColumn zstd schema rows options assembly entry =
        assembleColumn zstd schema rows' options assembly entry := by
      rw [assembleColumn, assembleColumn,
        encodeColumn_congr zstd hrows hrows' hcount hentry (h entry.2 hindex)]
    rw [List.foldlM_cons, List.foldlM_cons, hcolumn]
    exact bind_congr_ok rfl fun _ _ ↦ ih hrest _

theorem primaryMetadata_congr
    (h : ∀ index < schema.columns.length, rows.logical index = rows'.logical index) :
    primaryMetadata schema rows = primaryMetadata schema rows' := by
  unfold primaryMetadata
  cases schema.primaryColumnId with
  | none => rfl
  | some primaryId =>
    refine bind_congr_ok rfl fun entry hentry ↦ ?_
    obtain ⟨column, index⟩ := entry
    have hmem := List.mem_of_find?_eq_some (okOr_eq_ok.mp hentry)
    obtain ⟨hindex, -⟩ := List.mem_zipIdx' hmem
    simp only [mapM_primaryValue_eq, h index hindex]

/-- **The bytes of a block depend only on its logical rows.**  Two blocks of one schema that show
the same value in every row of every column become the same frame, or are refused with the same
error, however their rows are cut into chunks and whatever their arrays hold where no value
shows. -/
theorem buildDataFrame_eq_of_logical (hrows : rows.Of schema) (hrows' : rows'.Of schema)
    (hcount : rows.rowCount = rows'.rowCount)
    (h : ∀ index < schema.columns.length, rows.logical index = rows'.logical index)
    (options : WriterOptions) (baseRowId sequence : ℕ) :
    buildDataFrameWithStatistics zstd schema rows options baseRowId sequence =
      buildDataFrameWithStatistics zstd schema rows' options baseRowId sequence := by
  have hassembly := foldlM_assembleColumn_congr zstd hrows hrows' hcount h options
    (sortedColumns schema) (fun _ ↦ getElem?_of_mem_sortedColumns) {}
  rw [buildDataFrameWithStatistics, buildDataFrameWithStatistics, hassembly, hcount,
    primaryMetadata_congr h]

end Encoder

/-! ### One block in two representations -/

def noteSchema : Schema where
  schemaId := 1
  columns := [{ id := 1, name := "n", logicalType := .int64, nullable := true }]
  primaryColumnId := none

/-- A batch of one column, which says of each row whether it is there. -/
def notes (values : List IntType.int64.Value) (present : Option (List Bool))
    (h : ∀ bits ∈ present, bits.length = values.length) : RecordBatch where
  schema := noteSchema
  columns := [{ type := .integer .int64, values, validity := present }]
  rowCount := values.length
  fits := .cons ⟨rfl, rfl, fun bits hbits ↦ ⟨h bits hbits, rfl⟩⟩ .nil

theorem notes_declares (values : List IntType.int64.Value) (present : Option (List Bool))
    (h : ∀ bits ∈ present, bits.length = values.length) :
    (notes values present h).Declares noteSchema :=
  ⟨rfl, .cons rfl .nil⟩

/-- A value and a null, in one chunk. -/
def oneChunk : BlockRows where
  chunks := [notes [⟨6, by decide⟩, ⟨7, by decide⟩] (some [true, false]) (by decide)]
  rowCount := 2

/-- The same rows in two chunks, the first without a validity bitmap. -/
def twoChunks : BlockRows where
  chunks := [notes [⟨6, by decide⟩] none (by decide),
    notes [⟨0, by decide⟩] (some [false]) (by decide)]
  rowCount := 2

/-- The two representations become one frame. -/
theorem buildDataFrame_oneChunk_eq_twoChunks :
    buildDataFrameWithStatistics storingZstd noteSchema oneChunk {} 0 1 =
      buildDataFrameWithStatistics storingZstd noteSchema twoChunks {} 0 1 := by
  have hone : oneChunk.Of noteSchema := List.forall_mem_singleton.mpr (notes_declares _ _ _)
  have htwo : twoChunks.Of noteSchema := List.forall_mem_cons.mpr
    ⟨notes_declares _ _ _, List.forall_mem_singleton.mpr (notes_declares _ _ _)⟩
  have hlogical : ∀ index < noteSchema.columns.length,
      oneChunk.logical index = twoChunks.logical index := by decide
  exact buildDataFrame_eq_of_logical storingZstd hone htwo rfl hlogical {} 0 1

end Write

end Acta
