import Acta.RoundTrip.Block
import Acta.RoundTrip.Envelope
import Acta.Write.History

/-!
# Reading the frame of a block back

The frame that the writer builds for a block is read back from any file it stands in: the envelope
is accepted, the header gives the layout of the block, and any selection of columns is decoded into
the rows the block was built from (`Built.decodeSelectedBlock_eq`).
-/

namespace Acta

open Machine Wire Candidates Write

/-! ### All columns of a block -/

/-- A row of a block has a place for each column. -/
theorem BlockRows.Of.length_row {schema : Schema} {rows : BlockRows} (h : rows.Of schema)
    {row : List (Option ScalarValue)} (hrow : row ∈ rows.rows) :
    row.length = schema.columns.length := by
  obtain ⟨chunk, hchunk, hrow⟩ := List.mem_flatMap.mp hrow
  obtain ⟨position, -, rfl⟩ := List.mem_map.mp hrow
  rw [RecordBatch.rowAt, List.length_map]
  exact (h chunk hchunk).types.length_eq.symm

/-- **A whole block is decoded into its rows.** -/
theorem rows_of_decodedAt {schema : Schema} {rows : BlockRows} {batch : RecordBatch}
    (hcolumns : batch.columns =
      (List.range schema.columns.length).filterMap (decodedAt schema rows))
    (hcount : batch.rowCount = rows.rowCount)
    (hof : rows.Of schema) (hrows : rows.rows.length = rows.rowCount)
    (hfits : ∀ index < schema.columns.length, ∃ array, decodedAt schema rows index = some array ∧
      array.rows = rows.logical index ∧ array.len = rows.rowCount) :
    batch.rows = rows.rows := by
  refine List.ext_getElem ?_ fun row _ hrow' ↦ ?_
  · rw [RecordBatch.rows, List.length_map, List.length_range, hcount, hrows]
  have hrowCount : row < rows.rowCount := hrows ▸ hrow'
  have hwidth := hof.length_row (List.getElem_mem hrow')
  have hget : batch.rows[row] = batch.rowAt row := by simp [RecordBatch.rows]
  rw [hget, RecordBatch.rowAt, hcolumns, List.map_filterMap,
    ← filterMap_getElem?_range rows.rows[row], hwidth]
  refine List.filterMap_congr fun index hindex ↦ ?_
  have hindex : index < schema.columns.length := List.mem_range.mp hindex
  obtain ⟨array, harray, hvalues, hlen⟩ := hfits index hindex
  have hvalue : array.rows[row]? = some (array.valueAt row) := by
    rw [LogicalArray.rows, List.getElem?_map, List.getElem?_range (hlen ▸ hrowCount)]
    rfl
  rw [hvalues, hof.logical_eq hindex, List.getElem?_map, List.getElem?_eq_getElem hrow'] at hvalue
  have hindex' : index < rows.rows[row].length := by rwa [hwidth]
  rw [harray, Option.map_some, ← hvalue, Option.map_some, List.getElem?_eq_getElem hindex']
  rfl

/-! ### The frame of a block -/

namespace Write

variable {zstd : Zstd} {schema : Schema} {rows : BlockRows} {options : WriterOptions}
  {baseRowId sequence offset fileSize : ℕ} {assembly : BlockAssembly} {primary : ℤ × ℤ × Bool}
  {image file : Bytes} {limits : Limits}

/-- The image of a block stands in a file, inside the bytes the file is said to have. -/
structure StandsAt (file : Bytes) (fileSize offset : ℕ) (image : Bytes) : Prop where
  holds : HoldsAt file offset image
  inside : offset + image.length ≤ fileSize
  fileSize_le : fileSize ≤ file.length
  fileSize_le_u64Max : fileSize ≤ u64Max

/-- The frame of a block is built from its header and its payload. -/
theorem Built.buildFrame_eq
    (h : Built zstd schema rows options baseRowId sequence assembly primary image) :
    buildFrame dataFrameType sequence
      (frameHeader schema rows options baseRowId assembly primary) assembly.payload = .ok image :=
  h.frame

section Frame

variable (h : Built zstd schema rows options baseRowId sequence assembly primary image)
  (hnumbered : Numbered rows baseRowId sequence) (hlimits : limits.CoversDefault)
include h hnumbered hlimits

/-- **The frame of a block is found.** -/
theorem Built.readFrame_eq (hstands : StandsAt file fileSize offset image) :
    Frame.readFrame file fileSize offset sequence limits =
      .ok (.complete (Frame.metadataAt image offset)) := by
  obtain ⟨hholds, hinside, hsize, hmax⟩ := hstands
  refine (Frame.readFrame_eq_complete hsize).mpr ⟨image.length, hinside, by omega, ?_, ?_⟩
  · rw [hholds.slice_eq]
    exact h.isFrame hnumbered hlimits
  · rw [hholds.slice_eq]

theorem Built.frameOf (offset : ℕ) :
    FrameOf (Frame.metadataAt image offset)
      (frameHeader schema rows options baseRowId assembly primary) assembly.payload := by
  have hframable := h.framable hnumbered hlimits
  have hframe := h.buildFrame_eq
  generalize frameHeader schema rows options baseRowId assembly primary = header
    at hframable hframe ⊢
  rw [metadataAt_of_buildFrame hframe hframable]
  exact ⟨rfl, rfl, rfl⟩

/-- The header and the payload of a block stand where its frame says. -/
theorem Built.holdsAt_parts (hholds : HoldsAt file offset image) :
    HoldsAt file (Frame.metadataAt image offset).headerOffset
        (frameHeader schema rows options baseRowId assembly primary) ∧
      HoldsAt file (Frame.metadataAt image offset).payloadOffset assembly.payload := by
  have hlength := h.length_image
  have hfits := hholds.fits
  rw [metadataAt_of_buildFrame h.buildFrame_eq (h.framable hnumbered hlimits)]
  refine ⟨⟨?_, ?_⟩, ⟨?_, ?_⟩⟩
  · dsimp only
    rw [hholds.slice (by omega)]
    exact slice_header_of_buildFrame h.buildFrame_eq
  · dsimp only
    omega
  · dsimp only
    rw [Nat.add_assoc, hholds.slice (by omega)]
    exact slice_payload_of_buildFrame h.buildFrame_eq
  · dsimp only
    omega

/-- **The layout of a block is read back**, whichever columns are selected. -/
theorem Built.readBlockLayout_eq (hencodes : Encodes schema rows options)
    (hholds : HoldsAt file offset image) {expected : Option ℕ}
    (hbase : CarriesBase options.rowIds expected baseRowId)
    (selectedColumnIds : Option (List UInt32)) :
    DataFrame.readBlockLayout file (Frame.metadataAt image offset) schema
        (featuresOf options.rowIds) expected limits selectedColumnIds =
      .ok (builtLayout schema rows options baseRowId assembly primary) := by
  have hframe := h.frameOf hnumbered hlimits offset
  obtain ⟨hheader, -⟩ := h.holdsAt_parts hnumbered hlimits hholds
  have hread : readExactAt file (Frame.metadataAt image offset).headerOffset
      (Frame.metadataAt image offset).headerLength =
        .ok (frameHeader schema rows options baseRowId assembly primary) := by
    rw [hframe.headerLength, readExactAt_of_le hheader.fits, hheader.slice_eq]
  rw [DataFrame.readBlockLayout, hread]
  exact h.parseLayout_eq hencodes hnumbered hlimits hbase hframe selectedColumnIds

/-- A decoder that was given the frame and the layout of a block stands on it. -/
theorem Built.decoderOf (hzstd : zstd.RoundTrips) (hstands : StandsAt file fileSize offset image) :
    DecoderOf { zstd, file, fileSize, frame := Frame.metadataAt image offset,
                layout := builtLayout schema rows options baseRowId assembly primary, limits }
      schema rows options baseRowId assembly primary := by
  obtain ⟨hholds, hinside, hsize, hmax⟩ := hstands
  obtain ⟨hheader, hpayload⟩ := h.holdsAt_parts hnumbered hlimits hholds
  have hlength := h.length_image
  have hmetadata := metadataAt_of_buildFrame h.buildFrame_eq (h.framable hnumbered hlimits) offset
  refine ⟨hzstd, rfl, hlimits, h.frameOf hnumbered hlimits offset, hheader, hpayload, ?_, ?_, hmax⟩
  · rw [hmetadata]
    dsimp only
    omega
  · rw [hmetadata]
    dsimp only
    omega

/-- **Any selection of the columns of a block is decoded into its rows**, exactly when the allowance
of a block covers what the selection costs. -/
theorem Built.decodeSelectedBlock_eq (hencodes : Encodes schema rows options)
    (hzstd : zstd.RoundTrips) (hstands : StandsAt file fileSize offset image)
    {selection : Selection} (hselection : selection.Of schema) :
    ∃ decoded, DecodedAs (decodedAt schema rows)
        (blockMetadata schema baseRowId rows.rowCount primary options.rowIds) selection decoded ∧
      (Read.decodeSelectedBlock zstd file fileSize (Frame.metadataAt image offset)
        (builtLayout schema rows options baseRowId assembly primary) selection none limits).1 =
        if (builtLayout schema rows options baseRowId assembly primary).selectionCost schema rows
            selection ≤ limits.maxDecodedBlockBytes then .ok decoded
        else .error (Budget.exceeded.withContext (.frame sequence)) := by
  have hdecoder := h.decoderOf hnumbered hlimits hzstd hstands
  obtain ⟨decoded, hdecodes, hdecoded⟩ := hdecoder.block_decodes h hencodes hselection
  refine ⟨decoded, hdecoded, ?_⟩
  have hrun := hdecodes.run_eq limits.maxDecodedBlockBytes
  have hsequence : (Frame.metadataAt image offset).sequence = sequence := by
    rw [metadataAt_of_buildFrame h.buildFrame_eq (h.framable hnumbered hlimits)]
  rw [Read.decodeSelectedBlock]
  dsimp only at hrun ⊢
  rw [hrun, hsequence]
  split <;> rfl

end Frame

/-- **A whole block is decoded into its rows** from any file, exactly when the allowance of a block
covers what its columns cost. -/
theorem Built.decodeBlock_eq
    (h : Built zstd schema rows options baseRowId sequence assembly primary image)
    (hnumbered : Numbered rows baseRowId sequence) (hencodes : Encodes schema rows options)
    (hzstd : zstd.RoundTrips) (hrows : rows.rows.length = rows.rowCount) :
    ∃ batch : RecordBatch, batch.schema = schema ∧ batch.rows = rows.rows ∧
      ∀ (limits : Limits) (file : Bytes) (fileSize offset : ℕ), limits.CoversDefault →
        StandsAt file fileSize offset image →
          Read.decodeBlock zstd file fileSize (Frame.metadataAt image offset)
            (builtLayout schema rows options baseRowId assembly primary) schema limits =
            if (builtLayout schema rows options baseRowId assembly primary).selectionCost schema
                rows (Selection.all schema (List.range schema.columns.length)) ≤
                  limits.maxDecodedBlockBytes then .ok batch
            else .error (Budget.exceeded.withContext (.frame sequence)) := by
  have hselection := @Selection.of_all schema
  have hfits : List.Forall₂ (Fits · rows.rowCount)
      ((List.range schema.columns.length).filterMap (schema.columns[·]?))
      ((List.range schema.columns.length).filterMap (decodedAt schema rows)) := by
    refine forall₂_fits fun index hindex ↦ ?_
    have hcolumn := List.getElem?_eq_getElem (hselection.inside index hindex)
    obtain ⟨array, harray, -, hfits⟩ := DecoderOf.fits_decodedAt h hencodes hcolumn
    exact ⟨_, array, hcolumn, harray, hfits⟩
  rw [filterMap_getElem?_range] at hfits
  refine ⟨⟨schema, _, rows.rowCount, hfits⟩, rfl, ?_, fun limits file fileSize offset hlimits
    hstands ↦ ?_⟩
  · refine rows_of_decodedAt rfl rfl hencodes.of hrows fun index hindex ↦ ?_
    obtain ⟨array, harray, hvalues, hfits⟩ :=
      DecoderOf.fits_decodedAt h hencodes (List.getElem?_eq_getElem hindex)
    exact ⟨array, harray, hvalues, hfits.len⟩
  · obtain ⟨decoded, hdecoded, heq⟩ :=
      h.decodeSelectedBlock_eq hnumbered hlimits hencodes hzstd hstands hselection
    have hbatch : decoded.batch = ⟨schema, _, rows.rowCount, hfits⟩ :=
      RecordBatch.eq_of_columns hdecoded.outputSchema hdecoded.columns hdecoded.rowCount
    rw [Read.decodeBlock, heq]
    split
    · exact congrArg Except.ok hbatch
    · rfl

end Write

end Acta
