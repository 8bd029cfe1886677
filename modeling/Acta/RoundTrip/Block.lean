import Acta.Read.Selection
import Acta.RoundTrip.Column

/-!
# Reading a block back

A decoder that stands on a built block decodes any selection of its columns into the rows they were
encoded from, and confirms the bounds of the block (`DecoderOf.block_decodes`).  It asks for
`BlockLayout.selectionCost` decoded bytes, so it succeeds exactly within such an allowance.
-/

namespace Acta

open Machine Wire Candidates Write

/-! ### The primary column -/

/-- What the writer takes for a primary value, the reader does. -/
theorem primaryValue_of_encoded {column : Column} {value : Option ScalarValue} {primary : ℤ}
    (h : (match value with
      | none => .error (invalidBatch "the primary column contains a null")
      | some value =>
        match column.logicalType, value with
        | .timestamp _ _, ⟨.timestamp _ _, value⟩ => .ok value.val
        | .date32, ⟨.date32, value⟩ => .ok value.val
        | _, _ => .error (invalidBatch "the primary column has the wrong logical type") :
          Result ℤ) = .ok primary) :
    BlockDecoder.primaryValue value = .ok primary := by
  split at h
  · cases h
  · split at h
    · exact h
    · exact h
    · cases h

section Primary

variable {schema : Schema} {rows : BlockRows} {primary : ℤ × ℤ × Bool} {index : ℕ}

/-- **The reader finds the primary values that the writer took the bounds of.** -/
theorem exists_primaryValues (hvalid : SchemaValid schema)
    (hbounds : primaryMetadata schema rows = .ok primary) (h : primaryIndex schema = some index) :
    ∃ values, (rows.logical index).mapM BlockDecoder.primaryValue = .ok values ∧
      PrimaryOf values primary := by
  obtain ⟨column, id, hid, hcolumn, hcolumnId⟩ := getElem?_primaryIndex h
  obtain ⟨found, position, values, hfind, hvalues, hprimary⟩ :=
    (primaryMetadata_eq_ok hbounds).2 id hid
  obtain ⟨-, hdistinct, -⟩ := columns_of_validateColumns hvalid.columns
  have hfoundId : found.id = id := by simpa using List.find?_some hfind
  have hfound := List.mem_zipIdx_iff_getElem?.mp (List.mem_of_find?_eq_some hfind)
  -- Column IDs are distinct, so both have found the same column.
  have hsame : position = index := by
    obtain ⟨hposition, hfoundAt⟩ := List.getElem?_eq_some_iff.mp hfound
    obtain ⟨hindex, hcolumnAt⟩ := List.getElem?_eq_some_iff.mp hcolumn
    have hlength : (schema.columns.map Column.id).length = schema.columns.length :=
      List.length_map _
    refine (@List.Nodup.getElem_inj_iff _ _ hdistinct position (hlength ▸ hposition) index
      (hlength ▸ hindex)).mp ?_
    rw [List.getElem_map, List.getElem_map, hfoundAt, hcolumnAt]
    exact hfoundId.trans hcolumnId.symm
  subst hsame
  refine ⟨values, ?_, hprimary⟩
  rw [mapM_primaryValue_eq] at hvalues
  rw [mapM_eq_ok] at hvalues ⊢
  exact hvalues.imp fun value primary hvalue ↦ primaryValue_of_encoded hvalue

end Primary

/-! ### The block -/

/-- The array that the column at a position is decoded into. -/
def decodedAt (schema : Schema) (rows : BlockRows) (index : ℕ) : Option LogicalArray :=
  schema.columns[index]?.map fun column ↦ decodedArray column (rows.logical index)

/-- The decoded bytes that the column at a position asks for. -/
def BlockLayout.costAt (layout : BlockLayout) (schema : Schema) (rows : BlockRows) (index : ℕ) :
    ℕ :=
  (schema.columns[index]?.map fun column ↦
    layout.columnCost column (rows.logical index)).getD 0

/-- The decoded bytes that decoding a selection of the columns of a block asks for. -/
def BlockLayout.selectionCost (layout : BlockLayout) (schema : Schema) (rows : BlockRows)
    (selection : Selection) : ℕ :=
  selection.cost (layout.costAt schema rows) rows.rowCount

namespace DecoderOf

variable {decoder : BlockDecoder} {schema : Schema} {rows : BlockRows} {options : WriterOptions}
  {baseRowId sequence : ℕ} {assembly : BlockAssembly} {primary : ℤ × ℤ × Bool} {image : Bytes}
  {selection : Selection}

/-- Every column of a built block has a value or a null for each of its rows. -/
theorem length_logical {zstd : Zstd}
    (hbuilt : Built zstd schema rows options baseRowId sequence assembly primary image)
    (hencodes : Encodes schema rows options) {column : Column} {index : ℕ}
    (hcolumn : schema.columns[index]? = some column) :
    (rows.logical index).length = rows.rowCount := by
  obtain ⟨record, hrecord, -⟩ := hbuilt.exists_record hencodes.valid hcolumn
  obtain ⟨selected, typed, validity, candidates, -, hheld⟩ := hrecord.exists_held hencodes hcolumn
  rw [← hheld.scalars, LogicalType.Rows.scalars, List.length_map, hheld.length]

/-- A column of a block fits the schema it was encoded under. -/
theorem fits_decodedAt {zstd : Zstd}
    (hbuilt : Built zstd schema rows options baseRowId sequence assembly primary image)
    (hencodes : Encodes schema rows options) {column : Column} {index : ℕ}
    (hcolumn : schema.columns[index]? = some column) :
    ∃ array, decodedAt schema rows index = some array ∧ array.rows = rows.logical index ∧
      Fits column rows.rowCount array := by
  obtain ⟨typed, htyped⟩ := (hencodes.of.types hcolumn).exists_rows
  have hrows : rowsAt column.logicalType (rows.logical index) = typed := by
    rw [← htyped]
    exact rowsAt_scalars typed
  have hcount : typed.length = rows.rowCount := by
    rw [← length_logical hbuilt hencodes hcolumn, ← htyped, LogicalType.Rows.scalars,
      List.length_map]
  refine ⟨arrayOf typed, ?_, rows_arrayOf.trans htyped, len_arrayOf.trans hcount,
    describes_arrayType _, fun bits hbits ↦ ?_⟩
  · rw [decodedAt, hcolumn, Option.map_some, decodedArray, hrows]
  · have hvalidity : validityOf typed.bits = some bits := hbits
    rw [validityOf] at hvalidity
    split at hvalidity
    · cases hvalidity
    · rename_i hnulls
      cases hvalidity
      refine ⟨by rw [LogicalType.Rows.bits, List.length_map, hcount], ?_⟩
      by_contra hnullable
      rw [Bool.not_eq_true] at hnullable
      have hzero := count_false_of_not_nullable hencodes.of hcolumn hnullable
      rw [Rows.validityBits_eq htyped] at hzero
      exact hnulls hzero

variable (h : DecoderOf decoder schema rows options baseRowId assembly primary)
  (hbuilt : Built decoder.zstd schema rows options baseRowId sequence assembly primary image)
  (hencodes : Encodes schema rows options)
include h hbuilt hencodes

omit hbuilt hencodes in
theorem metadata_eq : decoder.layout.metadata =
    blockMetadata schema baseRowId rows.rowCount primary options.rowIds := by
  rw [h.layout]
  rfl

/-- **Every column of a built block is decoded into the rows it was encoded from**, and the bounds
of the block are those of its primary values. -/
theorem yields : decoder.Yields schema (decodedAt schema rows)
    (decoder.layout.costAt schema rows) := by
  have hrowCount : decoder.layout.metadata.rowCount = rows.rowCount := by
    rw [h.metadata_eq]
    rfl
  refine ⟨?_, fun {index column} hcolumn ↦ ?_, fun {index array} hindex harray ↦ ?_⟩
  · rw [hrowCount]
    exact hencodes.rows_le.trans h.limits.rows
  · obtain ⟨array, harray, -, hfits⟩ := fits_decodedAt hbuilt hencodes hcolumn
    refine ⟨array, harray, hrowCount ▸ hfits, ?_⟩
    have hdecodes := h.column_decodes hbuilt hencodes hcolumn
    rw [decodedAt, hcolumn, Option.map_some, Option.some.injEq] at harray
    have hcost : decoder.layout.costAt schema rows index =
        decoder.layout.columnCost column (rows.logical index) := by
      rw [BlockLayout.costAt, hcolumn]
      rfl
    rwa [harray, ← hrowCount, ← hcost] at hdecodes
  · obtain ⟨values, hvalues, hprimary⟩ := exists_primaryValues hencodes.valid hbuilt.bounds hindex
    obtain ⟨column, id, hid, hcolumn, -⟩ := getElem?_primaryIndex hindex
    obtain ⟨array', harray', hrows, hfits⟩ := fits_decodedAt hbuilt hencodes hcolumn
    obtain rfl : array' = array := Option.some.inj (harray'.symm.trans harray)
    refine ⟨mul_le_u64Max (hfits.len ▸ hencodes.rows_le) (by decide), values,
      by rw [hrows, hvalues], ?_⟩
    have hbounds : decoder.layout.metadata.primaryBounds = some (primary.1, primary.2.1) := by
      rw [h.metadata_eq]
      exact if_pos (by rw [hid]; rfl)
    refine ⟨?_, ?_, fun hsorted ↦ ?_⟩
    · rw [hbounds, hprimary.minimum]
      rfl
    · rw [hbounds, hprimary.maximum]
      rfl
    · rw [h.metadata_eq] at hsorted
      exact hprimary.sorted.mp hsorted

/-- **Any selection of the columns of a block is decoded into the rows it was encoded from**, and
the bounds of the block are confirmed, within `selectionCost` decoded bytes. -/
theorem block_decodes (hselection : selection.Of schema) :
    ∃ decoded, Decodes (decoder.block selection)
        (decoder.layout.selectionCost schema rows selection) decoded ∧
      DecodedAs (decodedAt schema rows)
        (blockMetadata schema baseRowId rows.rowCount primary options.rowIds) selection
          decoded := by
  have hdecodes := (h.yields hbuilt hencodes).block_decodes hselection
  rwa [h.metadata_eq] at hdecodes

end DecoderOf

end Acta
