import Acta.Reopening
import Acta.RoundTrip.Inventory

/-!
# What a session has done

A session is chronicled by the rows that its calls took in and by the blocks that it stored: the
rows of the blocks and of the buffer are the rows taken in, in order, and each block was built from
rows whose price lies within the limits of the format (`Chronicle`).  Every call adds to the
chronicle, whatever it returns, as long as nothing poisons the writer (`Chronicle.of_runs`).
-/

namespace Acta

open Machine Wire Candidates Write

namespace Write

/-! ### The bytes of a column -/

theorem le_streamPayloadBytes {length : ℕ}
    (h : streamPayloadBytes length ≤ defaultMaxFramePayloadLength) :
    length ≤ streamPayloadBytes length := by
  rw [streamPayloadBytes] at h ⊢
  split at h
  case isTrue hzero => omega
  case isFalse hpos =>
    rw [if_neg hpos]
    simp only [alignUp, saturatingAdd, frameAlignment, u64Max, defaultMaxFramePayloadLength] at h ⊢
    omega

theorem le_saturatingAdd {a b : ℕ} (h : saturatingAdd a b ≤ defaultMaxFramePayloadLength) :
    a ≤ saturatingAdd a b ∧ b ≤ saturatingAdd a b := by
  simp only [saturatingAdd, u64Max, defaultMaxFramePayloadLength] at h ⊢
  omega

/-- A column that is priced within a payload has no more bytes than it is priced at. -/
theorem rawValuesLength_le {column : Column} {footprint : ColumnFootprint} {rows : ℕ}
    (h : (columnSize column footprint rows).1 ≤ defaultMaxFramePayloadLength)
    (hdense : footprint.denseCount ≠ 0) :
    rawValuesLength column.logicalType footprint ≤ (columnSize column footprint rows).1 := by
  have hvalues : valuesBytes column.logicalType footprint ≤ (columnSize column footprint rows).1 := by
    have hsize := (le_saturatingAdd h).2
    have hfits := hsize.trans h
    refine le_trans ?_ hsize
    rw [valuesSize_of_ne_zero column hdense] at hfits ⊢
    split at hfits
    case isTrue hvariable =>
      rw [if_pos hvariable]
      have hstream := (le_saturatingAdd hfits).1
      exact (le_streamPayloadBytes (hstream.trans hfits)).trans hstream
    case isFalse hfixed =>
      rw [if_neg hfixed]
      exact le_streamPayloadBytes hfits
  have hmul (width : ℕ) (hle : saturatingMul width footprint.denseCount ≤
      (columnSize column footprint rows).1) :
      width * footprint.denseCount ≤ (columnSize column footprint rows).1 := by
    have hfits := hle.trans h
    rw [saturatingMul] at hle hfits
    simp only [u64Max, defaultMaxFramePayloadLength] at hle hfits
    omega
  cases hcase : column.logicalType with
  | bool | utf8 | categorical _ | binary =>
    rw [hcase] at hvalues
    exact hvalues
  | _ =>
    rw [hcase] at hvalues
    exact hmul _ hvalues

/-- The bytes a value is stored as. -/
theorem length_storedBytes (logicalType : LogicalType) (value : logicalType.arrayType.Value)
    (hwidth : ∀ byteWidth, logicalType = .fixedBinary byteWidth →
      (storedBytes ⟨logicalType.arrayType, value⟩).length = byteWidth.toNat) :
    (storedBytes ⟨logicalType.arrayType, value⟩).length =
      match logicalType.shape with
      | .bits => 1
      | .fixed width _ => width
      | .variableWidth => variableByteLength ⟨logicalType.arrayType, value⟩ := by
  cases logicalType with
  | bool | utf8 | categorical _ | binary => rfl
  | integer _ | decimal _ _ | timestamp _ _ | date32 => exact IntType.length_toLeBytes _
  | float32 | float64 => exact length_leBytes _ _
  | fixedBinary byteWidth => exact hwidth byteWidth rfl

/-- A value of a column of a fixed width has that width. -/
theorem length_of_validateScalar {column : Column} {value : ScalarValue} {byteWidth : UInt32}
    (hcase : column.logicalType = .fixedBinary byteWidth)
    (h : validateScalar column value = .ok ()) : (storedBytes value).length = byteWidth.toNat := by
  obtain ⟨_, -, h⟩ := bind_eq_ok.mp h
  rw [hcase] at h
  exact not_not.mp (failIf_eq_ok.mp h)

/-- The present values of a column passed the checks of an append. -/
theorem validateScalar_of_checked {schema : Schema} {rows : BlockRows} {column : Column}
    {index : ℕ} (hchecked : ∀ chunk ∈ rows.chunks, chunk.Checked schema)
    (hcolumn : schema.columns[index]? = some column) {value : ScalarValue}
    (hvalue : value ∈ (rows.logical index).reduceOption) :
    validateScalar column value = .ok () := by
  rw [List.reduceOption_mem_iff, BlockRows.logical] at hvalue
  obtain ⟨⟨array, row⟩, hmem, hvalue⟩ := List.mem_map.mp hvalue
  obtain ⟨held, hheld, hmem⟩ := List.mem_flatMap.mp hmem
  obtain ⟨_, -, heq⟩ := List.mem_map.mp hmem
  cases heq
  obtain ⟨chunk, hchunk, hcolumnArray⟩ := List.mem_filterMap.mp hheld
  exact (hchecked chunk hchunk).values hcolumn hcolumnArray _ value hvalue

/-- The bytes of a column are those that its values take where they are stored as they are. -/
theorem columnBytes_eq_raw {schema : Schema} {rows : BlockRows} {column : Column} {index : ℕ}
    (hchecked : ∀ chunk ∈ rows.chunks, chunk.Checked schema)
    (hcolumn : schema.columns[index]? = some column) (hshape : column.logicalType.shape ≠ .bits) :
    columnBytes rows index =
      rawValuesLength column.logicalType (.ofValues (rows.logical index)) := by
  have hof : rows.Of schema := fun chunk hchunk ↦ (hchecked chunk hchunk).declares
  obtain ⟨present, hpresent⟩ := (hof.types hcolumn).exists_present
  have hbytes : columnBytes rows index = (present.map fun value ↦
      (storedBytes ⟨column.logicalType.arrayType, value⟩).length).sum := by
    rw [columnBytes, hpresent, List.length_flatMap, List.map_map]
    rfl
  have hlength (value : column.logicalType.arrayType.Value) (hvalue : value ∈ present) :=
    length_storedBytes column.logicalType value fun byteWidth hcase ↦
      length_of_validateScalar hcase (validateScalar_of_checked hchecked hcolumn
        (hpresent ▸ List.mem_map_of_mem hvalue))
  have hdense : (ColumnFootprint.ofValues (rows.logical index)).denseCount = present.length := by
    show (rows.logical index).reduceOption.length = _
    rw [hpresent, List.length_map]
  rw [hbytes, List.map_congr_left hlength, rawValuesLength]
  cases hcase : column.logicalType.shape with
  | bits => exact absurd hcase hshape
  | fixed width signed =>
    simp only [List.map_const', List.sum_replicate, smul_eq_mul]
    rw [hdense, Nat.mul_comm]
  | variableWidth =>
    show _ = ((rows.logical index).reduceOption.map variableByteLength).sum
    rw [hpresent, List.map_map]
    rfl

section Priced

variable {schema : Schema} {rows : BlockRows} {column : Column} {index : ℕ}
  (hchecked : ∀ chunk ∈ rows.chunks, chunk.Checked schema)
  (hcolumn : schema.columns[index]? = some column)
  (h : (columnSize column (.ofValues (rows.logical index)) rows.rowCount).1 ≤
    defaultMaxFramePayloadLength)
include hchecked hcolumn h

/-- A column that is priced within the limits has no more bytes than it is priced at. -/
theorem columnBytes_le_columnSize (hshape : column.logicalType.shape ≠ .bits) :
    columnBytes rows index ≤
      (columnSize column (.ofValues (rows.logical index)) rows.rowCount).1 := by
  by_cases hnone : (ColumnFootprint.ofValues (rows.logical index)).denseCount = 0
  · have hempty : (rows.logical index).reduceOption = [] := List.length_eq_zero_iff.mp hnone
    rw [columnBytes, hempty]
    exact Nat.zero_le _
  · rw [columnBytes_eq_raw hchecked hcolumn hshape]
    exact rawValuesLength_le h hnone

/-- **A block that is priced within the limits has no column larger than a payload.** -/
theorem columnBytes_le (hrows : (rows.logical index).length ≤ defaultMaxRowsPerBlock) :
    columnBytes rows index ≤ defaultMaxFramePayloadLength := by
  by_cases hshape : column.logicalType.shape = .bits
  · have hof : rows.Of schema := fun chunk hchunk ↦ (hchecked chunk hchunk).declares
    obtain ⟨present, hpresent⟩ := (hof.types hcolumn).exists_present
    have hone (value : column.logicalType.arrayType.Value) :
        (storedBytes ⟨column.logicalType.arrayType, value⟩).length = 1 := by
      rw [length_storedBytes column.logicalType value fun _ hcase ↦ ?_, hshape]
      rw [hcase] at hshape
      cases hshape
    have hcount : present.length ≤ (rows.logical index).length := by
      rw [← List.length_map (f := ScalarValue.mk column.logicalType.arrayType), ← hpresent]
      exact List.reduceOption_length_le _
    rw [columnBytes, hpresent, List.flatMap_map, length_flatMap_of_forall fun value _ ↦ hone value,
      mul_one]
    exact (hcount.trans hrows).trans (by decide)
  · exact (columnBytes_le_columnSize hchecked hcolumn h hshape).trans h

end Priced

end Write

namespace Writer

variable {zstd : Zstd} {start writer next : Writer} {blocks : List PublishedBlock}

/-! ### What a bounded buffer is encoded from -/

/-- The price of a buffer is what its counters say, once something was pushed. -/
theorem size_ofChunks (schema : Schema) (statistics : WriterStatistics) {chunks : List RecordBatch}
    (hne : chunks ≠ []) :
    (BlockBuffer.ofChunks schema statistics chunks).size =
      blockSizeWithStatistics schema (BlockBuffer.ofChunks schema statistics chunks).footprints
        (BlockBuffer.ofChunks schema statistics chunks).blockRows.rowCount statistics := by
  obtain ⟨before, last, rfl⟩ := (List.eq_nil_or_concat chunks).resolve_left hne
  obtain ⟨-, -, hstatistics⟩ := BlockBuffer.ofChunks_fields schema statistics before
  rw [List.concat_eq_append, BlockBuffer.ofChunks_append]
  show blockSizeWithStatistics schema _ _ (BlockBuffer.ofChunks schema statistics before).statistics
    = _
  rw [hstatistics]
  rfl

/-- The columns of a bounded buffer are together priced within a payload. -/
theorem Assembled.sum_columnSize_le (h : Assembled writer) (hfull : writer.buffer.isEmpty = false)
    (hwithin : writer.buffer.size.withinFormatLimits writer.buffer.rows = true) :
    (writer.schema.columns.zipIdx.map fun entry ↦
      (columnSize entry.1 (footprintOf writer.buffer.blockRows entry)
        writer.buffer.blockRows.rowCount).1).sum ≤ defaultMaxFramePayloadLength := by
  have hne : writer.buffer.chunks ≠ [] := by
    intro hnil
    have hrows := h.rows_eq
    rw [hnil] at hrows
    exact of_decide_eq_false hfull hrows
  have hbuffer := h.buffer
  have hzip : writer.schema.columns.zip writer.buffer.footprints =
      writer.schema.columns.zipIdx.map fun entry ↦
        (entry.1, footprintOf writer.buffer.blockRows entry) := by
    rw [hbuffer]
    exact zip_footprints fun chunk hchunk ↦ (h.checked chunk hchunk).declares
  have hsize : writer.buffer.size = blockSizeWithStatistics writer.schema writer.buffer.footprints
      writer.buffer.blockRows.rowCount writer.options.statistics := by
    rw [hbuffer]
    exact size_ofChunks _ _ hne
  rw [BlockSize.withinFormatLimits, decide_eq_true_eq, hsize] at hwithin
  have hpayload := hwithin.2.2.2
  rw [blockSizeWithStatistics, hzip] at hpayload
  dsimp only at hpayload
  rw [foldl_saturatingAdd_eq _ _ (Nat.zero_le _), Nat.zero_add, List.map_map] at hpayload
  have hlimit : Limits.default.maxFramePayloadLength = defaultMaxFramePayloadLength := rfl
  have hroom : defaultMaxFramePayloadLength < u64Max := by decide
  simp only [Function.comp_def] at hpayload
  omega

/-- No column of a bounded buffer is priced beyond a payload. -/
theorem Assembled.columnSize_le (h : Assembled writer) (hfull : writer.buffer.isEmpty = false)
    (hwithin : writer.buffer.size.withinFormatLimits writer.buffer.rows = true) {column : Column}
    {index : ℕ} (hcolumn : writer.schema.columns[index]? = some column) :
    (columnSize column (.ofValues (writer.buffer.blockRows.logical index))
      writer.buffer.blockRows.rowCount).1 ≤ defaultMaxFramePayloadLength := by
  have hentry : (column, index) ∈ writer.schema.columns.zipIdx :=
    List.mem_zipIdx_iff_getElem?.mpr hcolumn
  have hsingle := List.single_le_sum (fun _ _ ↦ Nat.zero_le _) _ (List.mem_map_of_mem
    (f := fun entry ↦ (columnSize entry.1 (footprintOf writer.buffer.blockRows entry)
      writer.buffer.blockRows.rowCount).1) hentry)
  exact hsingle.trans (h.sum_columnSize_le hfull hwithin)

/-- The byte strings of a bounded buffer are priced within a payload. -/
theorem Assembled.strings_le (h : Assembled writer) (hfull : writer.buffer.isEmpty = false)
    (hwithin : writer.buffer.size.withinFormatLimits writer.buffer.rows = true) :
    (writer.schema.columns.zipIdx.map (stringBytes writer.buffer.blockRows)).sum ≤
      defaultMaxFramePayloadLength := by
  refine le_trans (List.sum_le_sum fun entry hentry ↦ ?_) (h.sum_columnSize_le hfull hwithin)
  have hcolumn := List.mem_zipIdx_iff_getElem?.mp hentry
  rw [stringBytes]
  split
  case isTrue hbytes =>
    refine columnBytes_le_columnSize h.checked hcolumn (h.columnSize_le hfull hwithin hcolumn) ?_
    intro hshape
    cases hcase : entry.1.logicalType <;> rw [hcase] at hbytes hshape <;> cases hshape
    cases hbytes
  case isFalse => exact Nat.zero_le _

/-- **A bounded buffer is a block that can be encoded.** -/
theorem Assembled.encodes (h : Assembled writer) (hfull : writer.buffer.isEmpty = false)
    (hwithin : writer.buffer.size.withinFormatLimits writer.buffer.rows = true)
    (hvalid : SchemaValid writer.schema)
    (hencoding : validateEncoding writer.schema writer.options.encoding = .ok ()) :
    Encodes writer.schema writer.buffer.blockRows writer.options := by
  have hof : writer.buffer.blockRows.Of writer.schema := fun chunk hchunk ↦
    (h.checked chunk hchunk).declares
  have hrows : writer.buffer.rows ≤ defaultMaxRowsPerBlock := by
    rw [BlockSize.withinFormatLimits, decide_eq_true_eq] at hwithin
    exact hwithin.1
  refine ⟨hof, hvalid, hencoding, hrows, fun index hindex ↦ ?_, h.strings_le hfull hwithin⟩
  have hcolumn := List.getElem?_eq_getElem hindex
  refine columnBytes_le h.checked hcolumn (h.columnSize_le hfull hwithin hcolumn) ?_
  rw [hof.length_logical hcolumn]
  exact h.rows_eq.symm.trans_le hrows

/-! ### The chronicle -/

theorem sequence_foldl_next (rowIds : Bool) (blocks : List PublishedBlock) (position : Position) :
    (blocks.foldl (Position.next rowIds) position).sequence =
      position.sequence + blocks.length := by
  induction blocks generalizing position with
  | nil => rfl
  | cons block blocks ih =>
    rw [List.foldl_cons, ih, List.length_cons]
    show position.sequence + 1 + blocks.length = _
    omega

/-- What holds of a session from its start on. -/
structure Begins (start : Writer) : Prop where
  schema : SchemaValid start.schema
  encoding : validateEncoding start.schema start.options.encoding = .ok ()
  sequence_pos : 0 < start.state.nextSequence

/-- What a session has done since `start`: the rows that its calls took in, the blocks that it
stored, and the writer it left. -/
structure Chronicle (zstd : Zstd) (start : Writer) (taken : List (List (Option ScalarValue)))
    (blocks : List PublishedBlock) (writer : Writer) : Prop where
  recorded : Recorded zstd start blocks writer
  bounded : Bounded writer
  target_pos : 0 < writer.options.byteBlockTarget
  healthy : writer.poisoned = false
  stored : Stored zstd start.schema start.options.rowIds start.position blocks
  rows : blocks.flatMap (·.rows.rows) ++ writer.buffer.blockRows.rows = taken
  durable_le : writer.durableRows ≤ writer.publishedRows

namespace Chronicle

variable {taken : List (List (Option ScalarValue))} {batch : RecordBatch}

/-- The block that a writer publishes is stored where the writer stands. -/
theorem storedAt (h : Chronicle zstd start taken blocks writer) (hbegins : Begins start)
    (hfull : writer.buffer.isEmpty = false) {frame : Bytes}
    (hframe : writer.bufferedFrame zstd = .ok frame)
    (hcounters : (writer.counted frame.length writer.buffer.frameBytes
      writer.buffer.rows).InRange writer.options.rowIds) :
    PublishedBlock.StoredAt zstd start.schema start.options.rowIds writer.position
      { rows := writer.buffer.blockRows, options := writer.options, baseRowId := writer.baseRowId,
        sequence := writer.state.nextSequence, frame } := by
  obtain ⟨hschema, hoptions⟩ := And.intro h.recorded.schema_eq h.recorded.options_eq
  have hwritten := Recorded.writtenAt h.recorded.assembled hfull hframe
  have hvalid : SchemaValid writer.schema := hschema ▸ hbegins.schema
  have hencoding : validateEncoding writer.schema writer.options.encoding = .ok () := by
    rw [hschema, hoptions]
    exact hbegins.encoding
  have hencodes := h.recorded.assembled.encodes hfull h.bounded.withinFormatLimits hvalid hencoding
  have hposition : writer.position.sequence = start.state.nextSequence + blocks.length := by
    rw [h.recorded.position_eq, sequence_foldl_next]
    rfl
  have hbegin := hbegins.sequence_pos
  rw [← hschema, ← hoptions]
  refine ⟨rfl, hencodes, hwritten.rows_pos, hwritten.length_rows, hwritten.frame, by omega,
    hcounters.nextSequence, fun hrowIds ↦ ?_⟩
  have hrowId := hcounters.nextRowId hrowIds
  rw [counted, if_pos hrowIds] at hrowId
  exact hrowId

/-- **A publication adds its block to the chronicle.** -/
theorem publishBuffer (h : Chronicle zstd start taken blocks writer) (hbegins : Begins start)
    (hpublish : Writer.publishBuffer zstd writer = (.ok (), next)) :
    Chronicle zstd start taken (blocks ++ writer.published zstd) next := by
  have hrecorded := h.recorded.publishBuffer hpublish
  have hkept := kept_of_publishBuffer zstd hpublish
  have htarget : 0 < next.options.byteBlockTarget := by
    rw [hkept.2]
    exact h.target_pos
  have hbounded : Bounded next := (hasRoom_of_new
    (h.recorded.assembled.buffer_of_publishBuffer zstd hpublish) htarget).bounded
  have hrows : (blocks ++ writer.published zstd).flatMap (·.rows.rows) ++
      next.buffer.blockRows.rows = taken := by
    rw [List.flatMap_append, List.append_assoc, (rows_of_publishBuffer hpublish).1, h.rows]
  have hhealthy := (published_poisoned zstd hpublish).trans h.healthy
  obtain ⟨-, rfl, hpublished⟩ | ⟨frame, counters, hwrote, hpublished⟩ :=
    publishBuffer_eq_ok zstd hpublish
  · refine ⟨hrecorded, hbounded, htarget, hhealthy, ?_, hrows, h.durable_le⟩
    rw [hpublished, List.append_nil]
    exact h.stored
  · obtain ⟨rfl, hcounters⟩ := advance_iff.mp hwrote.advances
    refine ⟨hrecorded, hbounded, htarget, hhealthy, ?_, hrows, ?_⟩
    · rw [hpublished]
      refine stored_append.mpr ⟨h.stored, ?_, trivial⟩
      rw [← h.recorded.position_eq]
      exact h.storedAt hbegins hwrote.nonempty hwrote.builds hcounters
    · rw [hwrote.next_eq]
      exact h.durable_le.trans (Nat.le_add_right _ _)

/-- A complete buffer is published, another is kept. -/
theorem publishIfComplete (h : Chronicle zstd start taken blocks writer) (hbegins : Begins start)
    (hpublish : Writer.publishIfComplete zstd writer = (.ok (), next)) :
    Chronicle zstd start taken (blocks ++ writer.publishedIfComplete zstd) next := by
  rw [publishIfComplete_eq] at hpublish
  rw [publishedIfComplete]
  split at hpublish
  case isTrue hcomplete =>
    rw [if_pos hcomplete]
    exact h.publishBuffer hbegins hpublish
  case isFalse hopen =>
    cases hpublish
    rwa [if_neg hopen, List.append_nil]

/-- Rows that fit are taken in. -/
theorem push (h : Chronicle zstd start taken blocks writer) (hbatch : batch.Checked writer.schema)
    {consumed count : ℕ} (hfits : writer.fittingPrefix batch consumed = .ok (count + 1))
    (hmore : consumed < batch.rowCount) :
    Chronicle zstd start (taken ++ slice batch.rows consumed (count + 1)) blocks
      (writer.push (batch.slice consumed (consumed + (count + 1)))) := by
  obtain ⟨hrange, hbounded⟩ := (h.recorded.assembled.isGreatest_of_fittingPrefix hbatch.declares
    hmore.le hfits).1
  have hassembled := h.recorded.assembled.push
    (hbatch.slice (show consumed < consumed + (count + 1) by omega) hrange)
  refine ⟨h.recorded.of_same hassembled rfl rfl rfl rfl rfl rfl, hbounded (Nat.succ_pos _),
    h.target_pos, h.healthy, h.stored, ?_, h.durable_le⟩
  rw [rows_push_slice hrange, ← List.append_assoc, h.rows]

/-- **An append adds the rows it has taken in and the blocks it has published.** -/
theorem of_appends {before : Writer} {stage : AppendStage} {consumed : ℕ}
    {more : List PublishedBlock} (h : Chronicle zstd start taken blocks before)
    (hbegins : Begins start) (hbatch : batch.Checked before.schema)
    (happends : Appends zstd batch before stage consumed more writer) :
    Chronicle zstd start (taken ++ batch.rows.take consumed) (blocks ++ more) writer := by
  induction happends with
  | start => rwa [List.take_zero, List.append_nil, List.append_nil]
  | full _ _ _ hpublish ih =>
    rw [← List.append_assoc]
    exact ih.publishBuffer hbegins hpublish
  | take hbefore hmore hfits ih =>
    have hreached := (kept_of_appends zstd hbefore).1 ▸ hbatch
    rw [List.take_add, ← List.append_assoc]
    exact ih.push hreached hfits hmore
  | complete _ hpublish ih =>
    rw [← List.append_assoc]
    exact ih.publishIfComplete hbegins hpublish

end Chronicle

/-! ### Calls -/

/-- A writer differs in nothing but how often its sink was asked, and in what is durable. -/
structure Quiet (one other : Writer) : Prop where
  buffer : other.buffer = one.buffer
  schema : other.schema = one.schema
  options : other.options = one.options
  stored : other.sink.stored = one.sink.stored
  state : other.state = one.state
  blocksWritten : other.blocksWritten = one.blocksWritten
  publishedRows : other.publishedRows = one.publishedRows
  poisoned : other.poisoned = one.poisoned
  durable : other.durableRows = one.durableRows ∨ other.durableRows = other.publishedRows

theorem Quiet.refl (writer : Writer) : Quiet writer writer :=
  ⟨rfl, rfl, rfl, rfl, rfl, rfl, rfl, rfl, .inl rfl⟩

theorem Quiet.trans {one other last : Writer} (h : Quiet one other) (h' : Quiet other last) :
    Quiet one last := by
  refine ⟨h'.buffer.trans h.buffer, h'.schema.trans h.schema, h'.options.trans h.options,
    h'.stored.trans h.stored, h'.state.trans h.state, h'.blocksWritten.trans h.blocksWritten,
    h'.publishedRows.trans h.publishedRows, h'.poisoned.trans h.poisoned, ?_⟩
  rcases h'.durable with hkept | hall
  · rcases h.durable with hkept' | hall
    · exact .inl (hkept.trans hkept')
    · exact .inr (by rw [hkept, hall, h'.publishedRows])
  · exact .inr hall

theorem Chronicle.quiet {taken : List (List (Option ScalarValue))}
    (h : Chronicle zstd start taken blocks writer) (hquiet : Quiet writer next) :
    Chronicle zstd start taken blocks next := by
  have hassembled : Assembled next := by
    refine ⟨?_, ?_⟩
    · rw [hquiet.buffer, hquiet.schema, hquiet.options]
      exact h.recorded.assembled.buffer
    · rw [hquiet.buffer, hquiet.schema]
      exact h.recorded.assembled.checked
  refine ⟨h.recorded.of_same hassembled hquiet.schema hquiet.options hquiet.stored hquiet.state
    hquiet.blocksWritten hquiet.publishedRows, ?_, ?_, ?_, h.stored, ?_, ?_⟩
  · refine ⟨?_, ?_, ?_⟩
    · rw [hquiet.buffer, hquiet.options]
      exact h.bounded.rows
    · rw [hquiet.buffer]
      exact h.bounded.withinFormatLimits
    · rw [hquiet.buffer, hquiet.options]
      exact h.bounded.frameBytes
  · rw [hquiet.options]
    exact h.target_pos
  · rw [hquiet.poisoned]
    exact h.healthy
  · rw [hquiet.buffer]
    exact h.rows
  · rcases hquiet.durable with hkept | hall
    · rw [hkept, hquiet.publishedRows]
      exact h.durable_le
    · exact hall.le

/-- What a request leaves of a writer that is not poisoned. -/
theorem quiet_requestSink {result : Result Unit} (h : requestSink writer = (result, next))
    (hhealthy : next.poisoned = false) : result = .ok () ∧ Quiet writer next := by
  rcases requestSink_eq writer with ⟨e, heq⟩ | heq
  · rw [heq] at h
    cases h
    cases hhealthy
  · rw [heq] at h
    cases h
    exact ⟨rfl, rfl, rfl, rfl, rfl, rfl, rfl, rfl, rfl, .inl rfl⟩

/-- The release of the lock leaves the writer as it was, granted or refused. -/
theorem quiet_releaseLock {result : Result Unit} (h : releaseLock writer = (result, next)) :
    Quiet writer next := by
  rw [releaseLock, Sink.request] at h
  cases hreply : writer.sink.replies writer.sink.calls <;>
  · rw [hreply] at h
    cases h
    exact ⟨rfl, rfl, rfl, rfl, rfl, rfl, rfl, rfl, .inl rfl⟩

theorem quiet_markDurable {result : Result Unit} (h : markDurable writer = (result, next)) :
    result = .ok () ∧ Quiet writer next ∧ next.durableRows = next.publishedRows := by
  cases h
  exact ⟨rfl, ⟨rfl, rfl, rfl, rfl, rfl, rfl, rfl, rfl, .inr rfl⟩, rfl⟩

/-- Two steps in a row fail at the first, or come to the second. -/
theorem andThen_cases {first second : WriterStep} {result : Result Unit}
    (h : first.andThen second writer = (result, next)) :
    (∃ e, result = .error e ∧ first writer = (.error e, next)) ∨
      ∃ between, first writer = (.ok (), between) ∧ second between = (result, next) := by
  rw [WriterStep.andThen] at h
  rcases hfirst : first writer with ⟨e | u, between⟩
  · rw [hfirst] at h
    cases h
    exact .inl ⟨e, rfl, rfl⟩
  · rw [hfirst] at h
    exact .inr ⟨between, rfl, h⟩

variable (zstd) in
/-- What a call that is no append makes of a writer, unless it poisons it: the buffer is published,
and the sink is asked; or the buffer cannot be published. -/
inductive Publication (writer : Writer) : Result Unit → Writer → Prop
  | published {result : Result Unit} {published next : Writer}
      (hpublish : publishBuffer zstd writer = (.ok (), published))
      (hquiet : Quiet published next) : Publication writer result next
  | unbuilt {e : Error} : Publication writer (.error e) writer

theorem Publication.quiet {published : Writer} {result : Result Unit}
    (h : Publication zstd writer (.ok ()) published) (hquiet : Quiet published next) :
    Publication zstd writer result next := by
  cases h with
  | published hpublish hbefore => exact .published hpublish (hbefore.trans hquiet)

/-- A flush publishes the buffer. -/
theorem publication_of_flush {result : Result Unit} (h : flush zstd writer = (result, next))
    (hhealthy : next.poisoned = false) : Publication zstd writer result next := by
  obtain ⟨e, rfl, hensure⟩ | ⟨ensured, hensure, hrest⟩ := andThen_cases h
  · rw [ensureHealthy] at hensure
    split at hensure
    · rename_i hpoisoned
      cases hensure
      rw [hpoisoned] at hhealthy
      cases hhealthy
    · cases hensure
  obtain ⟨-, rfl⟩ := ensureHealthy_eq_ok.mp hensure
  obtain ⟨e, rfl, hpublish⟩ | ⟨published, hpublish, hrequest⟩ := andThen_cases hrest
  · obtain ⟨-, ⟨-, rfl⟩ | ⟨-, hpoisoned, -⟩⟩ := publishBuffer_eq_error zstd hpublish
    · exact .unbuilt
    · rw [hpoisoned] at hhealthy
      cases hhealthy
  · exact .published hpublish (quiet_requestSink hrequest hhealthy).2

/-- A synchronization publishes the buffer, and then all that is published is durable. -/
theorem publication_of_sync {result : Result Unit} (h : sync zstd writer = (result, next))
    (hhealthy : next.poisoned = false) :
    Publication zstd writer result next ∧
      (result = .ok () → next.durableRows = next.publishedRows) := by
  obtain ⟨e, rfl, hflush⟩ | ⟨flushed, hflush, hrest⟩ := andThen_cases h
  · exact ⟨publication_of_flush hflush hhealthy, fun hok ↦ by cases hok⟩
  obtain ⟨e, rfl, hrequest⟩ | ⟨asked, hrequest, hmark⟩ := andThen_cases hrest
  · obtain ⟨hok, -⟩ := quiet_requestSink hrequest hhealthy
    cases hok
  obtain ⟨-, hmarked, hdurable⟩ := quiet_markDurable hmark
  have hasked : asked.poisoned = false := hmarked.poisoned.symm.trans hhealthy
  have hquiet := (quiet_requestSink hrequest hasked).2
  have hflushed : flushed.poisoned = false := hquiet.poisoned.symm.trans hasked
  exact ⟨(publication_of_flush hflush hflushed).quiet (hquiet.trans hmarked), fun _ ↦ hdurable⟩

/-- The end of a writer publishes the buffer, like a synchronization. -/
theorem publication_of_finish {result : Result Unit} (h : call zstd .finish writer = (result, next))
    (hhealthy : next.poisoned = false) :
    Publication zstd writer result next := by
  have hstep : ∃ result', (sync zstd).andThen releaseLock writer = (result', next) ∧
      (∀ e, result' = .error e → result = .error e) := by
    change ((finish zstd writer).1.map _, (finish zstd writer).2) = _ at h
    rw [finish] at h
    rcases hcase : (sync zstd).andThen releaseLock writer with ⟨e | u, last⟩
    · rw [hcase] at h
      cases h
      exact ⟨.error e, rfl, fun _ he ↦ by cases he; rfl⟩
    · rw [hcase] at h
      cases h
      exact ⟨.ok u, rfl, fun _ he ↦ by cases he⟩
  obtain ⟨result', hstep, herror⟩ := hstep
  obtain ⟨e, rfl, hsync⟩ | ⟨synced, hsync, hrelease⟩ := andThen_cases hstep
  · rw [herror e rfl]
    exact (publication_of_sync hsync hhealthy).1
  · have hquiet := quiet_releaseLock hrelease
    exact (publication_of_sync hsync (hquiet.poisoned.symm.trans hhealthy)).1.quiet hquiet

/-- The rows that a call brings. -/
def Call.appended : Call → List (List (Option ScalarValue))
  | .append batch => batch.rows
  | .flush | .sync | .finish => []

/-- The rows that a call took in: those it brings, or the first of them where it fails. -/
def Call.Took (c : Call) (result : Result Unit) (rows : List (List (Option ScalarValue))) : Prop :=
  rows <+: c.appended ∧ (result = .ok () → rows = c.appended)

namespace Chronicle

variable {taken : List (List (Option ScalarValue))} {batch : RecordBatch} {result : Result Unit}

/-- What is not an append takes nothing in. -/
theorem of_publication (h : Chronicle zstd start taken blocks writer) (hbegins : Begins start)
    (hpublication : Publication zstd writer result next) :
    ∃ more, Chronicle zstd start taken (blocks ++ more) next := by
  cases hpublication with
  | published hpublish hquiet => exact ⟨_, (h.publishBuffer hbegins hpublish).quiet hquiet⟩
  | unbuilt =>
    refine ⟨[], ?_⟩
    rwa [List.append_nil]

/-- **An append takes in the first rows of its batch**, and all of them where it succeeds. -/
theorem of_append (h : Chronicle zstd start taken blocks writer) (hbegins : Begins start)
    (happend : append zstd batch writer = (result, next)) (hhealthy : next.poisoned = false) :
    ∃ rows more, Chronicle zstd start (taken ++ rows) (blocks ++ more) next ∧
      (Call.append batch).Took result rows := by
  rw [append_of_healthy zstd h.healthy] at happend
  cases hcheck : writer.checkBatch batch with
  | error e =>
    rw [hcheck] at happend
    cases happend
    refine ⟨[], [], ?_, List.nil_prefix, fun hok ↦ by cases hok⟩
    rwa [List.append_nil, List.append_nil]
  | ok _ =>
    rw [hcheck] at happend
    have hbatch := checked_of_checkBatch hcheck
    have hwhole : batch.rows.take batch.rowCount = batch.rows :=
      List.take_of_length_le (by rw [RecordBatch.rows, List.length_map, List.length_range])
    dsimp only at happend
    rw [appendChecked_eq zstd (rowCount_pos_of_checkBatch hcheck)] at happend
    obtain ⟨more, last, hok, happends⟩ | ⟨reached, e, left, herror, hfails⟩ :=
      appendFrom_outcome zstd 0 writer [] (Appends.start : Appends zstd batch writer _ _ _ _)
    · rw [hok] at happend
      cases happend
      refine ⟨batch.rows, more, ?_, List.prefix_rfl, fun _ ↦ rfl⟩
      have hlast := h.of_appends hbegins hbatch happends
      rwa [hwhole] at hlast
    · rw [herror] at happend
      cases happend
      -- Whatever has failed, the writer still holds what the append had taken in by then.
      have hreached {stage : AppendStage} {consumed : ℕ} {more : List PublishedBlock}
          (before : Appends zstd batch writer stage consumed more next) :
          ∃ rows more, Chronicle zstd start (taken ++ rows) (blocks ++ more) next ∧
            (Call.append batch).Took (.error e) rows :=
        ⟨_, more, h.of_appends hbegins hbatch before, List.take_prefix _ _, fun hok ↦ by cases hok⟩
      have hkept {left : Writer} (hpublish : Writer.publishBuffer zstd left = (.error e, next)) :
          next = left := by
        obtain ⟨-, ⟨-, hsame⟩ | ⟨-, hpoisoned, -⟩⟩ := publishBuffer_eq_error zstd hpublish
        · exact hsame
        · rw [hpoisoned] at hhealthy
          cases hhealthy
      cases hfails with
      | unwritable before => exact hreached before
      | full before _ _ hpublish => exact hreached (hkept hpublish ▸ before)
      | complete before _ hpublish => exact hreached (hkept hpublish ▸ before)

/-- **Every call adds to the chronicle**, whatever it returns. -/
theorem of_call (h : Chronicle zstd start taken blocks writer) (hbegins : Begins start) {c : Call}
    (hcall : call zstd c writer = (result, next)) (hhealthy : next.poisoned = false) :
    ∃ rows more, Chronicle zstd start (taken ++ rows) (blocks ++ more) next ∧
      c.Took result rows := by
  have hpublishes (hc : c.appended = []) (hpublication : Publication zstd writer result next) :
      ∃ rows more, Chronicle zstd start (taken ++ rows) (blocks ++ more) next ∧
        c.Took result rows := by
    obtain ⟨more, hnext⟩ := h.of_publication hbegins hpublication
    refine ⟨[], more, ?_, List.nil_prefix, fun _ ↦ hc.symm⟩
    rwa [List.append_nil]
  cases c with
  | append batch => exact h.of_append hbegins hcall hhealthy
  | flush => exact hpublishes rfl (publication_of_flush hcall hhealthy)
  | sync => exact hpublishes rfl (publication_of_sync hcall hhealthy).1
  | finish => exact hpublishes rfl (publication_of_finish hcall hhealthy)

/-- **A session is chronicled** until something poisons its writer. -/
theorem of_runs (h : Chronicle zstd start [] [] start) (hbegins : Begins start)
    {allowed : Writer → Call → Prop} {calls : List (Call × Result Unit)}
    (hruns : Runs zstd allowed start calls writer) (hhealthy : writer.poisoned = false) :
    ∃ taken blocks, Chronicle zstd start taken.flatten blocks writer ∧
      List.Forall₂ (fun call rows ↦ call.1.Took call.2 rows) calls taken := by
  induction hruns with
  | start => exact ⟨[], [], h, .nil⟩
  | call before hallowed hcall ih =>
    rename_i calls reached last c result
    have hreached : reached.poisoned = false := by
      by_contra hpoisoned
      rw [Bool.not_eq_false] at hpoisoned
      rw [call_of_poisoned zstd hpoisoned] at hcall
      cases hcall
      rw [hpoisoned] at hhealthy
      cases hhealthy
    obtain ⟨taken, blocks, hchronicle, htaken⟩ := ih hreached
    obtain ⟨rows, more, hlast, htook⟩ := hchronicle.of_call hbegins hcall hhealthy
    refine ⟨taken ++ [rows], blocks ++ more, ?_, List.rel_append htaken (.cons htook .nil)⟩
    rwa [List.flatten_append, List.flatten_singleton]

end Chronicle

end Writer

end Acta
