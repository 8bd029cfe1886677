import Acta.Write.Assembly
import Acta.Write.Pricing
import Mathlib.Data.List.Zip
import Mathlib.Order.Bounds.Basic

/-!
# How an append cuts rows into blocks

An append takes rows into the buffer and publishes a block where the next row does not fit or a
target is reached.  The blocks and the buffer it leaves are consecutive parts of the rows that were
buffered, followed by the rows of the batch (`rows_of_appends`).

The search for the rows that fit prices a block row by row, from trial footprints (`addBatchRows`);
the buffer prices the part it is pushed.  The two agree (`size_push_slice`), and the price never
falls, so the search stops at the last count of rows that fit (`isGreatest_of_fittingPrefix`).  The
bounds of a block are then an invariant of the steps of an append (`Staged`).
-/

namespace Acta

open Machine Wire

/-! ### Rows -/

/-- A row: a value, or a null, for each column. -/
abbrev Row := List (Option ScalarValue)

/-- One row of a batch, with a value for each column. -/
def RecordBatch.rowAt (batch : RecordBatch) (row : ℕ) : Row :=
  batch.columns.map (·.valueAt row)

/-- The rows of a batch, in order. -/
def RecordBatch.rows (batch : RecordBatch) : List Row :=
  (List.range batch.rowCount).map batch.rowAt

/-- The rows of a block, in file order. -/
def BlockRows.rows (rows : BlockRows) : List Row :=
  rows.chunks.flatMap (·.rows)

namespace RecordBatch

variable {batch : RecordBatch}

@[simp] theorem length_rows (batch : RecordBatch) : batch.rows.length = batch.rowCount := by
  rw [rows, List.length_map, List.length_range]

theorem rowAt_slice {start stop row : ℕ} (h : row < stop - start) :
    (batch.slice start stop).rowAt row = batch.rowAt (start + row) := by
  show (batch.columns.map (·.slice start stop)).map (·.valueAt row) = _
  rw [List.map_map]
  exact List.map_congr_left fun array _ ↦ array.valueAt_slice h

/-- **The rows of a part of a batch** are the rows of the batch there. -/
theorem rows_slice {start stop : ℕ} (h : stop ≤ batch.rowCount) :
    (batch.slice start stop).rows = Wire.slice batch.rows start (stop - start) := by
  refine List.ext_getElem? fun row ↦ ?_
  rcases Nat.lt_or_ge row (stop - start) with hrow | hrow
  · rw [getElem?_slice batch.rows hrow, rows, rows, List.getElem?_map, List.getElem?_map,
      rowCount_slice h, List.getElem?_range hrow, List.getElem?_range (by omega), Option.map_some,
      Option.map_some, rowAt_slice hrow]
  · rw [List.getElem?_eq_none, List.getElem?_eq_none]
    · rw [length_slice]
      omega
    · rw [length_rows, rowCount_slice h]
      exact hrow

end RecordBatch

/-! ### Two routes to one price -/

/-- The footprints after the first `count` rows of a batch from `start` on. -/
def addBatchRows (footprints : List ColumnFootprint) (batch : RecordBatch) (start count : ℕ) :
    List ColumnFootprint :=
  footprints.zipWith (fun footprint array ↦
    (List.range count).foldl (fun footprint offset ↦ footprint.addRow array (start + offset))
      footprint) batch.columns

section Footprints

variable {footprints : List ColumnFootprint} {batch : RecordBatch}

theorem addBatchRows_zero (hlength : footprints.length = batch.columns.length) (start : ℕ) :
    addBatchRows footprints batch start 0 = footprints := by
  refine List.ext_getElem ?_ fun index hindex hindex' ↦ ?_
  · rw [addBatchRows, List.length_zipWith, hlength, Nat.min_self]
  · simp only [addBatchRows, List.getElem_zipWith, List.range_zero, List.foldl_nil]

/-- One row of a batch after another. -/
theorem addBatchRows_succ (footprints : List ColumnFootprint) (batch : RecordBatch)
    (start count : ℕ) :
    addBatchRows footprints batch start (count + 1) =
      Writer.addBatchRow (addBatchRows footprints batch start count) batch (start + count) := by
  rw [Writer.addBatchRow, addBatchRows, addBatchRows, List.zipWith_zipWith_left,
    List.zipWith3_same_right]
  simp only [List.range_succ, List.foldl_append, List.foldl_cons, List.foldl_nil]

/-- **The trial footprints are those of the buffer** once the rows are pushed. -/
theorem footprints_push_slice {buffer : BlockBuffer} {start count : ℕ} (schema : Schema)
    (h : start + count ≤ batch.rowCount) :
    (buffer.push schema (batch.slice start (start + count))).footprints =
      addBatchRows buffer.footprints batch start count := by
  have hcount : (batch.slice start (start + count)).rowCount = count := by
    rw [RecordBatch.rowCount_slice h]
    omega
  have hpriced (footprint : ColumnFootprint) (array : LogicalArray) :
      BlockBuffer.addRows footprint (array.slice start (start + count)) count =
        (List.range count).foldl (fun footprint offset ↦ footprint.addRow array (start + offset))
          footprint := by
    refine List.foldl_ext _ _ _ fun footprint row hrow ↦ ?_
    rw [ColumnFootprint.addRow, ColumnFootprint.addRow,
      array.valueAt_slice (by have := List.mem_range.mp hrow; omega)]
  show List.zipWith (BlockBuffer.addRows · · (batch.slice start (start + count)).rowCount)
    buffer.footprints (batch.columns.map (·.slice start (start + count))) = _
  rw [hcount, List.zipWith_map_right, addBatchRows]
  simp only [hpriced]

/-- More rows count for no less. -/
theorem addBatchRows_mono (footprints : List ColumnFootprint) (batch : RecordBatch) (start : ℕ)
    {count count' : ℕ} (h : count ≤ count') :
    List.Forall₂ ColumnFootprint.AtMost (addBatchRows footprints batch start count)
      (addBatchRows footprints batch start count') := by
  have hcolumn (footprint : ColumnFootprint) (array : LogicalArray) :
      ((List.range count).foldl (fun footprint offset ↦ footprint.addRow array (start + offset))
        footprint).AtMost
        ((List.range count').foldl (fun footprint offset ↦ footprint.addRow array (start + offset))
          footprint) := by
    induction h with
    | refl => exact .refl _
    | step _ ih =>
      rw [List.range_succ, List.foldl_append]
      exact ih.trans (ColumnFootprint.atMost_addRow _ _ _)
  rw [addBatchRows, addBatchRows, List.forall₂_iff_get]
  refine ⟨by rw [List.length_zipWith, List.length_zipWith], fun index hindex hindex' ↦ ?_⟩
  simp only [List.get_eq_getElem, List.getElem_zipWith]
  exact hcolumn _ _

end Footprints

namespace Writer

variable {zstd : Zstd} {writer : Writer} {batch : RecordBatch} {start count : ℕ}

/-! ### What fits -/

/-- The buffer of a block that may be written: within the limits of the format and the targets.  A
block of a single row may be larger than the byte target. -/
structure Bounded (writer : Writer) : Prop where
  rows : writer.buffer.rows ≤ writer.options.rowBlockTarget
  withinFormatLimits : writer.buffer.size.withinFormatLimits writer.buffer.rows = true
  frameBytes : writer.buffer.frameBytes ≤ writer.options.byteBlockTarget ∨ writer.buffer.rows = 1

/-- The first `count` rows of a batch from `start` on can be pushed into the buffer together. -/
def Takes (writer : Writer) (batch : RecordBatch) (start count : ℕ) : Prop :=
  start + count ≤ batch.rowCount ∧
    (0 < count → (writer.push (batch.slice start (start + count))).Bounded)

/-- What the trial of the row at `offset` looks at. -/
def trial (writer : Writer) (batch : RecordBatch) (start offset : ℕ) : BlockSize :=
  writer.price (addBatchRows writer.buffer.footprints batch start (offset + 1))
    (writer.buffer.rows + offset + 1)

/-- **The buffer has the price of the trial** once the rows are pushed. -/
theorem size_push_slice (hstatistics : writer.buffer.statistics = writer.options.statistics)
    (h : start + (count + 1) ≤ batch.rowCount) :
    (writer.push (batch.slice start (start + (count + 1)))).buffer.size =
      writer.trial batch start count := by
  have hcount : (batch.slice start (start + (count + 1))).rowCount = count + 1 := by
    rw [RecordBatch.rowCount_slice h]
    omega
  show Write.blockSizeWithStatistics writer.schema
    (writer.buffer.push writer.schema (batch.slice start (start + (count + 1)))).footprints
    (writer.buffer.rows + (batch.slice start (start + (count + 1))).rowCount)
    writer.buffer.statistics = _
  rw [footprints_push_slice writer.schema h, hcount, hstatistics]
  rfl

theorem trial_mono (writer : Writer) (batch : RecordBatch) (start : ℕ) {offset offset' : ℕ}
    (h : offset ≤ offset') :
    (writer.trial batch start offset).AtMost (writer.trial batch start offset') :=
  Write.blockSizeWithStatistics_mono _ (addBatchRows_mono _ _ _ (by omega)) (by omega) _

/-- The row at `offset` is accepted. -/
def Accepts (writer : Writer) (batch : RecordBatch) (start offset : ℕ) : Prop :=
  writer.refusesSize (writer.trial batch start offset) (writer.buffer.rows + offset + 1) offset =
    false

theorem accepts_iff :
    writer.Accepts batch start count ↔
      (writer.trial batch start count).withinFormatLimits (writer.buffer.rows + count + 1) = true ∧
        ((writer.trial batch start count).frameBytes ≤ writer.options.byteBlockTarget ∨
          writer.buffer.rows = 0 ∧ count = 0) := by
  rw [Accepts, refusesSize, BlockBuffer.isEmpty]
  simp only [Bool.or_eq_false_iff, Bool.not_eq_false', Bool.and_eq_false_iff,
    decide_eq_false_iff_not,
    not_lt, Bool.and_eq_true, decide_eq_true_eq]

/-- **An accepted row does not come after a refused one.** -/
theorem Accepts.of_le {offset : ℕ} (h : writer.Accepts batch start count) (hle : offset ≤ count) :
    writer.Accepts batch start offset := by
  obtain ⟨hwithin, hbytes⟩ := accepts_iff.mp h
  have hmono := trial_mono writer batch start hle
  refine accepts_iff.mpr ⟨hmono.withinFormatLimits (by omega) hwithin, ?_⟩
  rcases hbytes with hbytes | ⟨hempty, rfl⟩
  · exact .inl (hmono.frameBytes.trans hbytes)
  · exact .inr ⟨hempty, by omega⟩

/-- Rows can be pushed together where the last of them is accepted and the target has room. -/
theorem takes_succ_iff (hstatistics : writer.buffer.statistics = writer.options.statistics) :
    writer.Takes batch start (count + 1) ↔
      start + (count + 1) ≤ batch.rowCount ∧
        writer.buffer.rows + (count + 1) ≤ writer.options.rowBlockTarget ∧
          writer.Accepts batch start count := by
  refine and_congr_right fun hrange ↦ ?_
  have hsize := size_push_slice hstatistics hrange
  have hrows : (writer.push (batch.slice start (start + (count + 1)))).buffer.rows =
      writer.buffer.rows + (count + 1) := by
    show writer.buffer.rows + (batch.slice start (start + (count + 1))).rowCount = _
    rw [RecordBatch.rowCount_slice hrange]
    omega
  rw [accepts_iff]
  constructor
  · intro htakes
    obtain ⟨htarget, hwithin, hbytes⟩ := htakes (Nat.succ_pos _)
    rw [hrows] at htarget
    rw [hrows, hsize] at hwithin
    rw [BlockBuffer.frameBytes, hrows, hsize] at hbytes
    exact ⟨htarget, hwithin, hbytes.imp_right fun h ↦ by omega⟩
  · rintro ⟨htarget, hwithin, hbytes⟩ -
    refine ⟨by rw [hrows]; exact htarget, by rw [hrows, hsize]; exact hwithin, ?_⟩
    rw [BlockBuffer.frameBytes, hrows, hsize]
    exact hbytes.imp_right fun h ↦ by omega

/-- **What the search finds**: every row before the one it stops at is accepted, and that one is
not. -/
theorem fittingFrom_spec (remaining offset : ℕ) :
    let accepted := writer.fittingFrom batch start remaining offset
      (addBatchRows writer.buffer.footprints batch start offset)
    offset ≤ accepted ∧ (∀ row, offset ≤ row → row < accepted → writer.Accepts batch start row) ∧
      (accepted < offset + remaining → ¬writer.Accepts batch start accepted) := by
  induction remaining generalizing offset with
  | zero => exact ⟨le_rfl, fun row hle hlt ↦ absurd hlt (by rw [fittingFrom]; omega),
      fun hlt ↦ absurd hlt (by rw [fittingFrom]; omega)⟩
  | succ remaining ih =>
    intro accepted
    have hstep : accepted = if writer.refusesSize (writer.trial batch start offset)
        (writer.buffer.rows + offset + 1) offset then offset
        else writer.fittingFrom batch start remaining (offset + 1)
          (addBatchRows writer.buffer.footprints batch start (offset + 1)) := by
      rw [trial, addBatchRows_succ]
      rfl
    rcases hrefuses : writer.refusesSize (writer.trial batch start offset)
        (writer.buffer.rows + offset + 1) offset with - | -
    · rw [hrefuses, if_neg Bool.false_ne_true] at hstep
      obtain ⟨hle, haccepts, hstops⟩ := ih (offset + 1)
      rw [← hstep] at hle haccepts hstops
      refine ⟨by omega, fun row hrow hlt ↦ ?_, fun hlt ↦ hstops (by omega)⟩
      rcases Nat.eq_or_lt_of_le hrow with rfl | hrow
      · exact hrefuses
      · exact haccepts row hrow hlt
    · rw [hrefuses, if_pos rfl] at hstep
      rw [hstep]
      refine ⟨le_rfl, fun row hle hlt ↦ absurd hlt (by omega), fun _ haccepts ↦ ?_⟩
      rw [Accepts, hrefuses] at haccepts
      cases haccepts

/-- **Each take is the longest part that fits.** -/
theorem isGreatest_fittingFrom (hlength : writer.buffer.footprints.length = batch.columns.length)
    (hstatistics : writer.buffer.statistics = writer.options.statistics)
    (hstart : start ≤ batch.rowCount) :
    IsGreatest {count | writer.Takes batch start count}
      (writer.fittingFrom batch start
        (min (batch.rowCount - start) (writer.options.rowBlockTarget - writer.buffer.rows)) 0
        writer.buffer.footprints) := by
  have hspec := @fittingFrom_spec writer batch start
    (min (batch.rowCount - start) (writer.options.rowBlockTarget - writer.buffer.rows)) 0
  rw [addBatchRows_zero hlength] at hspec
  have hle : writer.fittingFrom batch start
      (min (batch.rowCount - start) (writer.options.rowBlockTarget - writer.buffer.rows)) 0
      writer.buffer.footprints ≤ 0 + _ := le_fittingFrom _ _ _
  generalize writer.fittingFrom batch start
    (min (batch.rowCount - start) (writer.options.rowBlockTarget - writer.buffer.rows)) 0
    writer.buffer.footprints = accepted at hspec hle ⊢
  obtain ⟨-, haccepts, hstops⟩ := hspec
  constructor
  · show writer.Takes batch start accepted
    cases accepted with
    | zero => exact ⟨hstart, fun h ↦ absurd h (lt_irrefl 0)⟩
    | succ count =>
      exact (takes_succ_iff hstatistics).mpr
        ⟨by omega, by omega, haccepts count (Nat.zero_le _) (Nat.lt_succ_self _)⟩
  · intro count htakes
    cases count with
    | zero => exact Nat.zero_le _
    | succ count =>
      obtain ⟨hrange, htarget, haccept⟩ := (takes_succ_iff hstatistics).mp htakes
      by_contra hlt
      exact hstops (by omega) (haccept.of_le (by omega))

/-- What the search for the rows that fit returns. -/
theorem fittingPrefix_cases (hlength : writer.buffer.footprints.length = batch.columns.length)
    (hstatistics : writer.buffer.statistics = writer.options.statistics)
    (hstart : start ≤ batch.rowCount) :
    (∃ count, writer.fittingPrefix batch start = .ok count ∧
        IsGreatest {count | writer.Takes batch start count} count) ∨
      writer.fittingPrefix batch start = .error (writer.unwritableRowError batch start) ∧
        writer.buffer.isEmpty = true ∧ ¬writer.Takes batch start 1 := by
  have hgreatest := isGreatest_fittingFrom hlength hstatistics hstart
  rw [fittingPrefix]
  dsimp only
  split
  case isTrue hfull =>
    rw [hfull] at hgreatest
    exact .inl ⟨0, rfl, hgreatest⟩
  case isFalse =>
    split
    case isFalse => exact .inl ⟨_, rfl, hgreatest⟩
    case isTrue hnone =>
      rw [hnone.1] at hgreatest
      exact .inr ⟨rfl, hnone.2, fun hone ↦ absurd (hgreatest.2 hone) (by omega)⟩

/-- The buffer a session has built prices its rows under the options of the session. -/
theorem Assembled.statistics_eq (h : Assembled writer) :
    writer.buffer.statistics = writer.options.statistics := by
  rw [h.buffer]
  exact (BlockBuffer.ofChunks_fields _ _ _).2.2

/-- There is a footprint for every column of a batch of the schema. -/
theorem Assembled.length_footprints (h : Assembled writer) (hbatch : batch.Declares writer.schema) :
    writer.buffer.footprints.length = batch.columns.length := by
  rw [h.buffer, BlockBuffer.length_footprints _ _
    fun chunk hchunk ↦ (h.checked chunk hchunk).declares.schema_eq]
  exact hbatch.types.length_eq

/-- What a call of the search returns on the way of an append. -/
theorem Assembled.fittingPrefix_cases (h : Assembled writer) (hbatch : batch.Declares writer.schema)
    (hstart : start ≤ batch.rowCount) :
    (∃ count, writer.fittingPrefix batch start = .ok count ∧
        IsGreatest {count | writer.Takes batch start count} count) ∨
      writer.fittingPrefix batch start = .error (writer.unwritableRowError batch start) ∧
        writer.buffer.isEmpty = true ∧ ¬writer.Takes batch start 1 :=
  Writer.fittingPrefix_cases (h.length_footprints hbatch) h.statistics_eq hstart

/-- A search that succeeds finds the longest part that fits. -/
theorem Assembled.isGreatest_of_fittingPrefix (h : Assembled writer)
    (hbatch : batch.Declares writer.schema) (hstart : start ≤ batch.rowCount)
    (hfits : writer.fittingPrefix batch start = .ok count) :
    IsGreatest {count | writer.Takes batch start count} count := by
  obtain ⟨greatest, hgreatest, hisGreatest⟩ | ⟨hrefused, -⟩ := h.fittingPrefix_cases hbatch hstart
  · rw [hfits] at hgreatest
    cases hgreatest
    exact hisGreatest
  · rw [hfits] at hrefused
    cases hrefused

/-! ### The rows an append passes on -/

/-- The part of a batch that is pushed goes behind the rows that were buffered. -/
theorem rows_push_slice (h : start + count ≤ batch.rowCount) :
    (writer.push (batch.slice start (start + count))).buffer.blockRows.rows =
      writer.buffer.blockRows.rows ++ slice batch.rows start count := by
  show (writer.buffer.chunks ++ [_]).flatMap RecordBatch.rows = _
  rw [List.flatMap_append, List.flatMap_singleton, RecordBatch.rows_slice h,
    Nat.add_sub_cancel_left]
  rfl

/-- A publication moves the buffered rows to its block, and the frame of the block to the file. -/
theorem rows_of_publishBuffer {next : Writer} (h : publishBuffer zstd writer = (.ok (), next)) :
    (writer.published zstd).flatMap (·.rows.rows) ++ next.buffer.blockRows.rows =
        writer.buffer.blockRows.rows ∧
      next.sink.stored = writer.sink.stored ++ (writer.published zstd).flatMap (·.frame) := by
  obtain ⟨-, rfl, hpublished⟩ | ⟨frame, counters, hwrote, hpublished⟩ := publishBuffer_eq_ok zstd h
  · rw [hpublished]
    exact ⟨rfl, (List.append_nil _).symm⟩
  · rw [hpublished, hwrote.next_eq, List.flatMap_singleton, List.flatMap_singleton]
    exact ⟨List.append_nil _, rfl⟩

theorem rows_of_publishIfComplete {next : Writer}
    (h : publishIfComplete zstd writer = (.ok (), next)) :
    (writer.publishedIfComplete zstd).flatMap (·.rows.rows) ++ next.buffer.blockRows.rows =
        writer.buffer.blockRows.rows ∧
      next.sink.stored = writer.sink.stored ++ (writer.publishedIfComplete zstd).flatMap
        (·.frame) := by
  rw [publishIfComplete_eq] at h
  rw [publishedIfComplete]
  split at h
  case isTrue hcomplete =>
    rw [if_pos hcomplete]
    exact rows_of_publishBuffer h
  case isFalse hopen =>
    cases h
    rw [if_neg hopen]
    exact ⟨rfl, (List.append_nil _).symm⟩

/-- **No row is lost, doubled or moved.**  The blocks published so far and the buffer hold the rows
that were buffered, followed by the rows taken from the batch. -/
theorem rows_of_appends {before : Writer} {stage : AppendStage} {consumed : ℕ}
    {blocks : List PublishedBlock} (h : Appends zstd batch before stage consumed blocks writer) :
    blocks.flatMap (·.rows.rows) ++ writer.buffer.blockRows.rows =
        before.buffer.blockRows.rows ++ batch.rows.take consumed ∧
      writer.sink.stored = before.sink.stored ++ blocks.flatMap (·.frame) := by
  induction h with
  | start => exact ⟨(List.append_nil _).symm, (List.append_nil _).symm⟩
  | full before hmore hfull hpublish ih =>
    obtain ⟨hrows, hstored⟩ := rows_of_publishBuffer hpublish
    rw [List.flatMap_append, List.flatMap_append, List.append_assoc, hrows, hstored, ih.2,
      List.append_assoc]
    exact ⟨ih.1, rfl⟩
  | take before hmore hfits ih =>
    rename_i consumed count blocks writer
    have hle := add_le_of_fittingPrefix (Nat.le_of_lt hmore) hfits
    refine ⟨?_, ih.2⟩
    rw [rows_push_slice hle, ← List.append_assoc, ih.1, List.append_assoc, List.take_add]
    rfl
  | complete before hpublish ih =>
    obtain ⟨hrows, hstored⟩ := rows_of_publishIfComplete hpublish
    rw [List.flatMap_append, List.flatMap_append, List.append_assoc, hrows, hstored, ih.2,
      List.append_assoc]
    exact ⟨ih.1, rfl⟩

/-! ### The bounds of a block -/

/-- A buffer that has reached neither target. -/
structure HasRoom (writer : Writer) : Prop where
  rows : writer.buffer.rows < writer.options.rowBlockTarget
  withinFormatLimits : writer.buffer.size.withinFormatLimits writer.buffer.rows = true
  frameBytes : writer.buffer.frameBytes < writer.options.byteBlockTarget

theorem HasRoom.bounded (h : HasRoom writer) : Bounded writer :=
  ⟨h.rows.le, h.withinFormatLimits, .inl h.frameBytes.le⟩

/-- A buffer without rows has room. -/
theorem hasRoom_of_new (hbuffer : writer.buffer =
    .ofChunks writer.schema writer.options.statistics [])
    (htarget : 0 < writer.options.byteBlockTarget) :
    HasRoom writer := by
  constructor
  · rw [hbuffer]
    exact writer.rowBlockTarget_pos
  · rw [hbuffer]
    rfl
  · rw [hbuffer]
    exact htarget

/-- What holds of a writer at each stage of an append: between two takes its buffer has room, and
rows that were just taken in are a block that may be written. -/
def Staged (stage : AppendStage) (writer : Writer) : Prop :=
  match stage with
  | .filling => HasRoom writer
  | .pushed => Bounded writer

end Writer

/-- A block as the bounds of a writer want it: with a row, with no more rows than the target, and no
larger than the byte target unless it is a single row. -/
structure PublishedBlock.Bounded (schema : Schema) (options : WriterOptions)
    (block : PublishedBlock) :
    Prop where
  options_eq : block.options = options
  rows_pos : 0 < block.rows.rowCount
  rows_le : block.rows.rowCount ≤ options.rowBlockTarget
  length_rows : block.rows.rows.length = block.rows.rowCount
  frameBytes : (BlockBuffer.ofChunks schema options.statistics block.rows.chunks).frameBytes ≤
      options.byteBlockTarget ∨ block.rows.rowCount = 1

namespace Writer

variable {zstd : Zstd} {writer : Writer} {batch : RecordBatch}

theorem Assembled.length_rows (h : Assembled writer) :
    writer.buffer.blockRows.rows.length = writer.buffer.rows := by
  show (writer.buffer.chunks.flatMap RecordBatch.rows).length = _
  rw [List.length_flatMap, h.rows_eq]
  simp only [RecordBatch.length_rows]

/-- A publication of a bounded buffer writes a bounded block. -/
theorem bounded_of_published (h : Assembled writer) (hbounded : Bounded writer) :
    ∀ block ∈ writer.published zstd, block.Bounded writer.schema writer.options := by
  intro block hblock
  rw [published] at hblock
  split at hblock
  case isTrue => cases hblock
  case isFalse hfull =>
    split at hblock
    case h_1 => cases hblock
    case h_2 frame hframe =>
      obtain rfl := List.mem_singleton.mp hblock
      have hrows : writer.buffer.rows ≠ 0 := by
        rwa [BlockBuffer.isEmpty, decide_eq_true_eq] at hfull
      refine ⟨rfl, Nat.pos_of_ne_zero hrows, hbounded.rows, h.length_rows, ?_⟩
      have hprice := hbounded.frameBytes
      rw [h.buffer] at hprice
      exact hprice.imp_right fun hone ↦ by rwa [← h.buffer] at hone

/-- **What each step of an append keeps**: the bounds of its stage, and of every block it has
published. -/
theorem staged_of_appends {start : Writer} {stage : AppendStage} {consumed : ℕ}
    {blocks : List PublishedBlock} (hassembled : Assembled start) (hroom : HasRoom start)
    (htarget : 0 < start.options.byteBlockTarget) (hbatch : batch.Checked start.schema)
    (happends : Appends zstd batch start stage consumed blocks writer) :
    Staged stage writer ∧ ∀ block ∈ blocks, block.Bounded start.schema start.options := by
  have hpublishes {blocks : List PublishedBlock} {stage : AppendStage} {consumed : ℕ}
      {reached : Writer} (before : Appends zstd batch start stage consumed blocks reached)
      (hbounded : Bounded reached)
      (hblocks : ∀ block ∈ blocks, block.Bounded start.schema start.options) :
      (∀ {next : Writer}, publishBuffer zstd reached = (.ok (), next) → HasRoom next) ∧
        ∀ block ∈ blocks ++ reached.published zstd, block.Bounded start.schema start.options := by
    have hreached := hassembled.of_appends zstd hbatch before
    obtain ⟨hschema, hoptions⟩ := kept_of_appends zstd before
    refine ⟨fun hpublish ↦ hasRoom_of_new (hreached.buffer_of_publishBuffer zstd hpublish) ?_,
      fun block hblock ↦ ?_⟩
    · rw [(kept_of_publishBuffer zstd hpublish).2, hoptions]
      exact htarget
    · rcases List.mem_append.mp hblock with hblock | hblock
      · exact hblocks block hblock
      · have hwritten := bounded_of_published hreached hbounded block hblock
        rwa [hschema, hoptions] at hwritten
  induction happends with
  | start => exact ⟨hroom, fun block hblock ↦ nomatch hblock⟩
  | full before hmore hfull hpublish ih =>
    obtain ⟨hnext, hblocks⟩ := hpublishes before ih.1.bounded ih.2
    exact ⟨hnext hpublish, hblocks⟩
  | take before hmore hfits ih =>
    refine ⟨?_, ih.2⟩
    have hreached := hassembled.of_appends zstd hbatch before
    have hdeclares := hbatch.declares
    rw [← (kept_of_appends zstd before).1] at hdeclares
    exact (hreached.isGreatest_of_fittingPrefix hdeclares hmore.le hfits).1.2 (Nat.succ_pos _)
  | complete before hpublish ih =>
    obtain ⟨hnext, hblocks⟩ := hpublishes before ih.1 ih.2
    rw [publishIfComplete_eq] at hpublish
    rw [publishedIfComplete]
    split at hpublish
    case isTrue hcomplete =>
      rw [if_pos hcomplete]
      exact ⟨hnext hpublish, hblocks⟩
    case isFalse hopen =>
      cases hpublish
      rw [if_neg hopen, List.append_nil]
      rw [IsComplete, not_or, not_le, not_le] at hopen
      exact ⟨⟨hopen.1, ih.1.withinFormatLimits, hopen.2⟩, ih.2⟩

/-! ### Sessions that only succeed -/

variable (zstd)

/-- The writers that a session reaches by calls that succeed. -/
inductive Reached : Writer → Prop
  | opened {writer : Writer} (h : Starts zstd writer) : Reached writer
  | append {writer next : Writer} {batch : RecordBatch} (before : Reached writer)
      (h : append zstd batch writer = (.ok (), next)) : Reached next
  | flush {writer next : Writer} (before : Reached writer)
    (h : flush zstd writer = (.ok (), next)) :
      Reached next
  | sync {writer next : Writer} (before : Reached writer) (h : sync zstd writer = (.ok (), next)) :
      Reached next

variable {zstd}

/-- What a call that succeeds leaves: a buffer that says nothing its chunks do not say, with room
for more, in a writer that was not poisoned. -/
structure Settled (writer : Writer) : Prop where
  assembled : Assembled writer
  hasRoom : HasRoom writer
  byteBlockTarget_pos : 0 < writer.options.byteBlockTarget
  healthy : writer.poisoned = false

/-- A writer differs in nothing that an append looks at before it writes. -/
theorem Settled.of_same {next : Writer} (h : Settled writer) (hbuffer : next.buffer = writer.buffer)
    (hschema : next.schema = writer.schema) (hoptions : next.options = writer.options)
    (hpoisoned : next.poisoned = writer.poisoned) : Settled next := by
  obtain ⟨⟨hassembled, hchecked⟩, ⟨hrows, hwithin, hbytes⟩, htarget, hhealthy⟩ := h
  rw [← hbuffer] at hassembled hchecked hrows hwithin hbytes
  rw [← hoptions] at hassembled hrows hbytes htarget
  rw [← hschema] at hassembled hchecked
  exact ⟨⟨hassembled, hchecked⟩, ⟨hrows, hwithin, hbytes⟩, htarget, hpoisoned.trans hhealthy⟩

theorem byteBlockTarget_pos_of_validateOptions {options : WriterOptions}
    (h : Write.validateOptions zstd options = .ok ()) : 0 < options.byteBlockTarget := by
  obtain ⟨_, -, h⟩ := bind_eq_ok.mp h
  obtain ⟨_, -, h⟩ := bind_eq_ok.mp h
  obtain ⟨_, htarget, -⟩ := bind_eq_ok.mp h
  exact Nat.pos_of_ne_zero (failIf_eq_ok.mp htarget)

/-- A session starts with an empty buffer, under options that were checked. -/
theorem Starts.settled (h : Starts zstd writer) : Settled writer := by
  have hnew {sink : Sink} {schema : Schema} {options : WriterOptions} {state : AppendState}
      (hoptions : Write.validateOptions zstd options = .ok ())
      (hstarts : startSession sink schema options state = .ok writer) : Settled writer := by
    obtain ⟨hpos, rfl⟩ := startSession_eq_ok hstarts
    have htarget := byteBlockTarget_pos_of_validateOptions hoptions
    exact ⟨assembled_of_new rfl, hasRoom_of_new rfl htarget, htarget, rfl⟩
  cases h with
  | created hcreate =>
    obtain ⟨_, _, hcreated, -⟩ := create_eq_ok zstd hcreate
    exact hnew hcreated.optionsValid hcreated.starts
  | reopened hopen =>
    obtain ⟨_, _, _, hreopened, -⟩ := openInternal_eq_ok zstd hopen
    exact hnew hreopened.optionsValid hreopened.starts

theorem Settled.of_publishBuffer {next : Writer} (h : Settled writer)
    (hpublish : publishBuffer zstd writer = (.ok (), next)) : Settled next := by
  have htarget : 0 < next.options.byteBlockTarget := by
    rw [(kept_of_publishBuffer zstd hpublish).2]
    exact h.byteBlockTarget_pos
  exact ⟨h.assembled.of_publishBuffer zstd hpublish,
    hasRoom_of_new (h.assembled.buffer_of_publishBuffer zstd hpublish) htarget, htarget,
    (published_poisoned zstd hpublish).trans h.healthy⟩

theorem Settled.of_requestSink {next : Writer} (h : Settled writer)
    (hrequest : requestSink writer = (.ok (), next)) : Settled next := by
  rcases requestSink_eq writer with ⟨e, heq⟩ | heq
  · rw [heq] at hrequest
    cases hrequest
  · rw [heq] at hrequest
    cases hrequest
    exact h.of_same rfl rfl rfl rfl

theorem Settled.of_flush {next : Writer} (h : Settled writer)
    (hflush : flush zstd writer = (.ok (), next)) : Settled next := by
  obtain ⟨-, published, hpublish, hrequest⟩ := flush_eq_ok zstd hflush
  exact (h.of_publishBuffer hpublish).of_requestSink hrequest

theorem Settled.of_sync {next : Writer} (h : Settled writer)
    (hsync : sync zstd writer = (.ok (), next)) : Settled next := by
  obtain ⟨flushed, hflush, hrest⟩ := andThen_eq_ok.mp hsync
  obtain ⟨synced, hrequest, hmark⟩ := andThen_eq_ok.mp hrest
  cases hmark
  exact ((h.of_flush hflush).of_requestSink hrequest).of_same rfl rfl rfl rfl

theorem Settled.of_append {next : Writer} (h : Settled writer)
    (happend : append zstd batch writer = (.ok (), next)) : Settled next := by
  obtain ⟨-, hcheck, blocks, happends⟩ := append_eq_ok zstd happend
  have hbatch := checked_of_checkBatch hcheck
  refine ⟨h.assembled.of_appends zstd hbatch happends,
    (staged_of_appends h.assembled h.hasRoom h.byteBlockTarget_pos hbatch happends).1, ?_,
    (poisoned_of_appends zstd happends).trans h.healthy⟩
  rw [(kept_of_appends zstd happends).2]
  exact h.byteBlockTarget_pos

/-- **Every writer that calls reach by succeeding is settled.** -/
theorem Reached.settled (h : Reached zstd writer) : Settled writer := by
  induction h with
  | opened hopened => exact hopened.settled
  | append _ happend ih => exact ih.of_append happend
  | flush _ hflush ih => exact ih.of_flush hflush
  | sync _ hsync ih => exact ih.of_sync hsync

/-! ### How an append cuts -/

/-- More rows of a batch, pushed together, are priced no lower. -/
theorem Assembled.push_slice_atMost (h : Assembled writer) {start count count' : ℕ}
    (hcount : 0 < count) (hle : count ≤ count') (hrange : start + count' ≤ batch.rowCount) :
    (writer.push (batch.slice start (start + count))).buffer.size.AtMost
      (writer.push (batch.slice start (start + count'))).buffer.size := by
  obtain ⟨count, rfl⟩ := Nat.exists_eq_succ_of_ne_zero hcount.ne'
  obtain ⟨count', rfl⟩ := Nat.exists_eq_succ_of_ne_zero (hcount.trans_le hle).ne'
  rw [size_push_slice h.statistics_eq (by omega), size_push_slice h.statistics_eq hrange]
  exact trial_mono writer batch start (Nat.le_of_succ_le_succ hle)

variable (zstd) in
/-- An append that takes in a whole batch, with the blocks it publishes. -/
structure Cuts (batch : RecordBatch) (writer next : Writer) (blocks : List PublishedBlock) :
    Prop where
  appends : Appends zstd batch writer .filling batch.rowCount blocks next
  stored : next.sink.stored = writer.sink.stored ++ blocks.flatMap (·.frame)
  rows : blocks.flatMap (·.rows.rows) ++ next.buffer.blockRows.rows =
    writer.buffer.blockRows.rows ++ batch.rows
  bounded : ∀ block ∈ blocks, block.Bounded writer.schema writer.options
  hasRoom : HasRoom next
  length_rows : next.buffer.blockRows.rows.length = next.buffer.rows
  longest : ∀ {consumed count : ℕ} {before : List PublishedBlock} {reached : Writer},
    Appends zstd batch writer .filling consumed before reached → consumed < batch.rowCount →
      reached.fittingPrefix batch consumed = .ok count →
        IsGreatest {count | reached.Takes batch consumed count} count
  price : ∀ {consumed count count' : ℕ} {before : List PublishedBlock} {reached : Writer},
    Appends zstd batch writer .filling consumed before reached → 0 < count → count ≤ count' →
      consumed + count' ≤ batch.rowCount →
        (reached.push (batch.slice consumed (consumed + count))).buffer.size.AtMost
          (reached.push (batch.slice consumed (consumed + count'))).buffer.size

theorem Settled.cuts {next : Writer} (h : Settled writer)
    (happend : append zstd batch writer = (.ok (), next)) :
    ∃ blocks, Cuts zstd batch writer next blocks := by
  have hnext := h.of_append happend
  obtain ⟨-, hcheck, blocks, happends⟩ := append_eq_ok zstd happend
  have hbatch := checked_of_checkBatch hcheck
  obtain ⟨hrows, hstored⟩ := rows_of_appends happends
  have hwhole : batch.rows.take batch.rowCount = batch.rows :=
    List.take_of_length_le (RecordBatch.length_rows batch).le
  rw [hwhole] at hrows
  refine ⟨blocks, happends, hstored, hrows,
    (staged_of_appends h.assembled h.hasRoom h.byteBlockTarget_pos hbatch happends).2,
    hnext.hasRoom, hnext.assembled.length_rows,
      fun {consumed count before reached} hbefore hmore hfits ↦ ?_,
    fun {consumed count count' before reached} hbefore hcount hle hrange ↦
      (h.assembled.of_appends zstd hbatch hbefore).push_slice_atMost hcount hle hrange⟩
  have hdeclares := hbatch.declares
  rw [← (kept_of_appends zstd hbefore).1] at hdeclares
  exact (h.assembled.of_appends zstd hbatch hbefore).isGreatest_of_fittingPrefix hdeclares hmore.le
    hfits

/-- **An append cuts rows into bounded blocks.**  The blocks that a successful append publishes and
the buffer it leaves are the rows that were buffered followed by the rows of the batch, cut where
the longest part that fits ends; and an append of a batch that passes its checks ends, with success
unless a row does not fit an empty block, where nothing it publishes fails. -/
theorem append_cuts (h : Reached zstd writer) (batch : RecordBatch) :
    (∀ next, append zstd batch writer = (.ok (), next) →
        ∃ blocks, Cuts zstd batch writer next blocks) ∧
      (writer.checkBatch batch = .ok () →
        (∀ stage consumed blocks reached, Appends zstd batch writer stage consumed blocks reached →
          ∃ next, publishBuffer zstd reached = (.ok (), next)) →
        (∃ next, append zstd batch writer = (.ok (), next)) ∨
          ∃ consumed blocks reached, Appends zstd batch writer .filling consumed blocks reached ∧
            consumed < batch.rowCount ∧ reached.buffer.isEmpty = true ∧
              ¬reached.Takes batch consumed 1 ∧
                append zstd batch writer =
                  (.error (reached.unwritableRowError batch consumed), reached)) := by
  have hsettled := h.settled
  refine ⟨fun next happend ↦ hsettled.cuts happend, fun hcheck hpublishes ↦ ?_⟩
  rw [append_eq zstd hsettled.healthy hcheck]
  obtain ⟨blocks, next, happend, -⟩ | ⟨reached, e, left, happend, hfails⟩ :=
    appendFrom_outcome zstd 0 writer [] (.start : Appends zstd batch writer _ _ _ _)
  · exact .inl ⟨next, happend⟩
  rw [happend]
  cases hfails with
  | unwritable before hmore hfit =>
    rename_i consumed blocks
    have hbatch := checked_of_checkBatch hcheck
    have hdeclares := hbatch.declares
    rw [← (kept_of_appends zstd before).1] at hdeclares
    obtain ⟨count, hfits, -⟩ | ⟨hrefused, hempty, hone⟩ :=
      (hsettled.assembled.of_appends zstd hbatch before).fittingPrefix_cases hdeclares hmore.le
    · rw [hfit] at hfits
      cases hfits
    · rw [hfit] at hrefused
      cases hrefused
      exact .inr ⟨consumed, blocks, _, before, hmore, hempty, hone, rfl⟩
  -- A publication that fails is none of those the hypothesis speaks of.
  | full before hmore hfull hpublish =>
    obtain ⟨next, hnext⟩ := hpublishes _ _ _ _ before
    rw [hpublish] at hnext
    cases hnext
  | complete before hcomplete hpublish =>
    obtain ⟨next, hnext⟩ := hpublishes _ _ _ _ before
    rw [hpublish] at hnext
    cases hnext

/-- A new file takes in one row, which completes a block of its own. -/
theorem append_cuts_oneNumber :
    ∃ start next blocks,
      (create storingZstd { contents := none } numberSchema { rowBlockTarget := 1 }).1 = .ok start ∧
        append storingZstd oneNumber start = (.ok (), next) ∧ next.buffer.rows = 0 ∧
          Cuts storingZstd oneNumber start next blocks := by
  have hfacts : ∃ start,
      (create storingZstd { contents := none } numberSchema { rowBlockTarget := 1 }).1 = .ok start ∧
        (append storingZstd oneNumber start).1.isOk = true ∧
          (append storingZstd oneNumber start).2.buffer.rows = 0 :=
    exists_ok_and (by decide +kernel) (by decide +kernel)
  obtain ⟨start, hcreate, happends, hrows⟩ := hfacts
  obtain ⟨u, happend⟩ := exists_eq_ok happends
  obtain ⟨blocks, hcuts⟩ := (append_cuts (.opened (.created (Prod.ext hcreate rfl))) oneNumber).1 _
    (Prod.ext happend rfl)
  exact ⟨start, _, blocks, hcreate, Prod.ext happend rfl, hrows, hcuts⟩

end Writer

end Acta
