import Acta.Write.Ledger
import Acta.Write.Mirror

/-!
# What a session has written

The blocks a session has published, in order (`Recorded`).  Each was built at the position the one
before it left (`Chained`), the file is what it was followed by their frames, and the walk of the
file meets them after the blocks that were there.

A block is its rows: blocks with the same rows, written one after another from one position under
one schema and the same options, have the same frames (`frames_eq_of_chained`).

The last section has a file of two blocks, `numberFile`, which other modules read, grow and damage.
-/

namespace Acta

open Machine Wire

/-! ### Positions -/

/-- Where a block is written: its sequence number, and the row ID that its first row would have. -/
structure Position where
  sequence : ℕ
  rowId : ℕ

/-- The position after a block. -/
def Position.next (rowIds : Bool) (position : Position) (block : PublishedBlock) : Position where
  sequence := position.sequence + 1
  rowId := if rowIds then position.rowId + block.rows.rowCount else position.rowId

/-- The base row ID of a block at a position. -/
def Position.baseRowId (rowIds : Bool) (position : Position) : ℕ :=
  if rowIds then position.rowId else unavailableBaseRowId

/-- A block that was written at a position. -/
structure PublishedBlock.WrittenAt (zstd : Zstd) (schema : Schema) (options : WriterOptions)
    (position : Position) (block : PublishedBlock) : Prop where
  isOf : block.rows.Of schema
  rows_pos : 0 < block.rows.rowCount
  length_rows : block.rows.rows.length = block.rows.rowCount
  frame : Write.buildDataFrameWithStatistics zstd schema block.rows options
    (position.baseRowId options.rowIds) position.sequence = .ok block.frame

/-- Blocks written one after another from a position. -/
def Chained (zstd : Zstd) (schema : Schema) (options : WriterOptions) :
    Position → List PublishedBlock → Prop
  | _, [] => True
  | position, block :: blocks =>
    block.WrittenAt zstd schema options position ∧
      Chained zstd schema options (position.next options.rowIds block) blocks

section Chained

variable {zstd : Zstd} {schema : Schema} {options : WriterOptions}

theorem chained_append {position : Position} {blocks more : List PublishedBlock} :
    Chained zstd schema options position (blocks ++ more) ↔
      Chained zstd schema options position blocks ∧
        Chained zstd schema options (blocks.foldl (Position.next options.rowIds) position)
          more := by
  induction blocks generalizing position with
  | nil => exact (and_iff_right trivial).symm
  | cons block blocks ih =>
    rw [List.cons_append, Chained, Chained, ih, List.foldl_cons, and_assoc]

/-- The logical rows of a column, read off the rows of the block. -/
theorem BlockRows.Of.logical_eq {rows : BlockRows} (h : rows.Of schema) {index : ℕ}
    (hindex : index < schema.columns.length) :
    rows.logical index = rows.rows.map fun row ↦ row[index]?.join := by
  obtain ⟨chunks, rowCount⟩ := rows
  rw [Of] at h
  induction chunks with
  | nil => rfl
  | cons chunk chunks ih =>
    obtain ⟨array, harray, -, hfits⟩ :=
      (h chunk List.mem_cons_self).column_eq_some (List.getElem?_eq_getElem hindex)
    have hrest := ih fun other hother ↦ h other (List.mem_cons_of_mem _ hother)
    have hvalue (row : ℕ) : (chunk.rowAt row)[index]?.join = array.valueAt row := by
      have hget : chunk.columns[index]? = some array := harray
      rw [RecordBatch.rowAt, List.getElem?_map, hget]
      rfl
    show ({ chunks := chunk :: chunks, rowCount } : BlockRows).logical index =
      (chunk.rows ++ chunks.flatMap RecordBatch.rows).map _
    rw [List.map_append, logical, column_cons _ _ _ _ harray, List.map_append, List.map_map,
      hfits.len]
    refine congrArg₂ _ ?_ hrest
    rw [RecordBatch.rows, List.map_map]
    exact List.map_congr_left fun row _ ↦ (hvalue row).symm

/-- **A frame is made of rows**: blocks with the same rows become the same frame, or are refused
with the same error. -/
theorem BlockRows.Of.buildDataFrame_eq {rows rows' : BlockRows} (h : rows.Of schema)
    (h' : rows'.Of schema) (hcount : rows.rowCount = rows'.rowCount)
    (hrows : rows.rows = rows'.rows) (baseRowId sequence : ℕ) :
    Write.buildDataFrameWithStatistics zstd schema rows options baseRowId sequence =
      Write.buildDataFrameWithStatistics zstd schema rows' options baseRowId sequence := by
  have hlogical (index : ℕ) (hindex : index < schema.columns.length) :
      rows.logical index = rows'.logical index := by
    rw [h.logical_eq hindex, h'.logical_eq hindex, hrows]
  have hassembly := Write.foldlM_assembleColumn_congr zstd h h' hcount hlogical options
    (Write.sortedColumns schema) (fun _ ↦ Write.getElem?_of_mem_sortedColumns) {}
  rw [Write.buildDataFrameWithStatistics, Write.buildDataFrameWithStatistics, hassembly, hcount,
    Write.primaryMetadata_congr hlogical]

theorem PublishedBlock.WrittenAt.frame_eq {position : Position} {block block' : PublishedBlock}
    (h : block.WrittenAt zstd schema options position)
    (h' : block'.WrittenAt zstd schema options position)
    (hrows : block.rows.rows = block'.rows.rows) :
    block.frame = block'.frame := by
  have hcount : block.rows.rowCount = block'.rows.rowCount := by
    rw [← h.length_rows, hrows, h'.length_rows]
  have hframe := h.frame
  rw [h.isOf.buildDataFrame_eq h'.isOf hcount hrows, h'.frame] at hframe
  exact (Except.ok.inj hframe).symm

/-- The blocks hold as many rows as they say. -/
theorem map_length_rows {position : Position} {blocks : List PublishedBlock}
    (h : Chained zstd schema options position blocks) :
    blocks.map (·.rows.rows.length) = blocks.map (·.rows.rowCount) := by
  induction blocks generalizing position with
  | nil => rfl
  | cons block blocks ih => exact congrArg₂ List.cons h.1.length_rows (ih h.2)

/-- **The same rows in the same blocks make the same bytes.** -/
theorem frames_eq_of_chained {position : Position} {blocks blocks' : List PublishedBlock}
    (h : Chained zstd schema options position blocks)
    (h' : Chained zstd schema options position blocks')
    (hrows : blocks.map (·.rows.rows) = blocks'.map (·.rows.rows)) :
    blocks.flatMap (·.frame) = blocks'.flatMap (·.frame) := by
  induction blocks generalizing position blocks' with
  | nil =>
    obtain rfl := List.map_eq_nil_iff.mp hrows.symm
    rfl
  | cons block blocks ih =>
    obtain ⟨block', rest', rfl, hblock, hrest⟩ := List.map_eq_cons_iff.mp hrows.symm
    obtain ⟨hfirst, hchained⟩ := h
    obtain ⟨hfirst', hchained'⟩ := h'
    have hnext : position.next options.rowIds block' = position.next options.rowIds block := by
      rw [Position.next, Position.next, ← hfirst.length_rows, ← hfirst'.length_rows, hblock]
    rw [hnext] at hchained'
    rw [List.flatMap_cons, List.flatMap_cons, hfirst.frame_eq hfirst' hblock.symm,
      ih hchained hchained' hrest.symm]

end Chained

/-! ### The blocks of a session -/

namespace Writer

/-- Where a writer goes on. -/
def position (writer : Writer) : Position where
  sequence := writer.state.nextSequence
  rowId := writer.state.nextRowId

variable (zstd : Zstd)

/-- **What a session has written** since `start`: the blocks, and the writer it left. -/
structure Recorded (start : Writer) (blocks : List PublishedBlock) (writer : Writer) : Prop where
  schema_eq : writer.schema = start.schema
  options_eq : writer.options = start.options
  assembled : Assembled writer
  stored : writer.sink.stored = start.sink.stored ++ blocks.flatMap (·.frame)
  chained : Chained zstd start.schema start.options start.position blocks
  position_eq : writer.position = blocks.foldl (Position.next start.options.rowIds) start.position
  blocksWritten : writer.blocksWritten = start.blocksWritten + blocks.length
  publishedRows : writer.publishedRows =
    start.publishedRows + (blocks.map (·.rows.rowCount)).sum
  mirrors : ∀ {scan state}, Mirrors start scan state → ∃ scan' state', Mirrors writer scan' state' ∧
    state'.visited.map (·.rowCount) =
      state.visited.map (·.rowCount) ++ blocks.map (·.rows.rowCount)

variable {zstd} {start writer next : Writer} {blocks : List PublishedBlock}

theorem recorded_start (h : Assembled start) : Recorded zstd start [] start where
  schema_eq := rfl
  options_eq := rfl
  assembled := h
  stored := (List.append_nil _).symm
  chained := trivial
  position_eq := rfl
  blocksWritten := rfl
  publishedRows := rfl
  mirrors hmirrors := ⟨_, _, hmirrors, (List.append_nil _).symm⟩

namespace Recorded

/-- What leaves the file and the counters alone leaves the record alone. -/
theorem of_same (h : Recorded zstd start blocks writer) (hassembled : Assembled next)
    (hschema : next.schema = writer.schema) (hoptions : next.options = writer.options)
    (hstored : next.sink.stored = writer.sink.stored) (hstate : next.state = writer.state)
    (hblocks : next.blocksWritten = writer.blocksWritten)
    (hrows : next.publishedRows = writer.publishedRows) : Recorded zstd start blocks next where
  schema_eq := hschema.trans h.schema_eq
  options_eq := hoptions.trans h.options_eq
  assembled := hassembled
  stored := hstored.trans h.stored
  chained := h.chained
  position_eq := by rw [← h.position_eq, position, position, hstate]
  blocksWritten := hblocks.trans h.blocksWritten
  publishedRows := hrows.trans h.publishedRows
  mirrors hmirrors := by
    obtain ⟨scan', state', hwriter, hvisited⟩ := h.mirrors hmirrors
    exact ⟨scan', state', hwriter.of_same hstored hschema hoptions hstate, hvisited⟩

/-- The block that a writer publishes is written where the writer stands. -/
theorem writtenAt {frame : Bytes} (hassembled : Assembled writer)
    (hfull : writer.buffer.isEmpty = false) (hframe : writer.bufferedFrame zstd = .ok frame) :
    PublishedBlock.WrittenAt zstd writer.schema writer.options writer.position
      { rows := writer.buffer.blockRows, options := writer.options, baseRowId := writer.baseRowId,
        sequence := writer.state.nextSequence, frame } where
  isOf chunk hchunk := (hassembled.checked chunk hchunk).declares
  rows_pos := Nat.pos_of_ne_zero (of_decide_eq_false hfull)
  length_rows := hassembled.length_rows
  frame := hframe

/-- **A publication adds its block to the record.** -/
theorem publishBuffer (h : Recorded zstd start blocks writer)
    (hpublish : Writer.publishBuffer zstd writer = (.ok (), next)) :
    Recorded zstd start (blocks ++ writer.published zstd) next := by
  have hassembled := h.assembled.of_publishBuffer zstd hpublish
  obtain ⟨-, rfl, hpublished⟩ | ⟨frame, counters, hwrote, hpublished⟩ :=
    publishBuffer_eq_ok zstd hpublish
  · rwa [hpublished, List.append_nil]
  obtain ⟨rfl, -⟩ := advance_iff.mp hwrote.advances
  have hwritten := writtenAt h.assembled hwrote.nonempty hwrote.builds
  obtain ⟨hkeptSchema, hkeptOptions⟩ := kept_of_publishBuffer zstd hpublish
  rw [hpublished]
  refine ⟨hkeptSchema.trans h.schema_eq, hkeptOptions.trans h.options_eq, hassembled, ?_,
    chained_append.mpr ⟨h.chained, ?_, trivial⟩, ?_, ?_, ?_, fun {scan state} hmirrors ↦ ?_⟩
  · rw [hwrote.next_eq, List.flatMap_append, List.flatMap_singleton, ← List.append_assoc,
      ← h.stored]
  · rw [← h.position_eq, ← h.schema_eq, ← h.options_eq]
    exact hwritten
  · rw [List.foldl_append, ← h.position_eq, ← h.options_eq, hwrote.next_eq]
    rfl
  · rw [List.length_append, ← Nat.add_assoc, ← h.blocksWritten, hwrote.next_eq]
    rfl
  · rw [List.map_append, List.sum_append, ← Nat.add_assoc, ← h.publishedRows, hwrote.next_eq]
    rfl
  · obtain ⟨scan', state', hwriter, hvisited⟩ := h.mirrors hmirrors
    obtain ⟨block, hrowCount, hnext⟩ := hwriter.wrote zstd hwrote
    refine ⟨_, _, hnext, ?_⟩
    show (state'.visited ++ [block]).map _ = _
    rw [List.map_append, hvisited, List.map_append, List.append_assoc]
    show _ ++ (_ ++ [block.rowCount]) = _
    rw [hrowCount]
    rfl

/-- **An append adds the blocks it publishes.** -/
theorem of_appends {before : Writer} {batch : RecordBatch} {stage : AppendStage} {consumed : ℕ}
    {more : List PublishedBlock} (h : Recorded zstd start blocks before)
    (hbatch : batch.Checked before.schema)
    (happends : Appends zstd batch before stage consumed more writer) :
    Recorded zstd start (blocks ++ more) writer := by
  induction happends with
  | start => rwa [List.append_nil]
  | full _ _ _ hpublish ih =>
    rw [← List.append_assoc]
    exact ih.publishBuffer hpublish
  | take hbefore hmore hfits ih =>
    have hreached := h.assembled.of_appends zstd hbatch (.take hbefore hmore hfits)
    exact ih.of_same hreached rfl rfl rfl rfl rfl rfl
  | complete _ hpublish ih =>
    rename_i reached _
    rw [publishIfComplete_eq] at hpublish
    rw [publishedIfComplete]
    split at hpublish
    case isTrue hcomplete =>
      rw [if_pos hcomplete, ← List.append_assoc]
      exact ih.publishBuffer hpublish
    case isFalse hopen =>
      cases hpublish
      rwa [if_neg hopen, List.append_nil]

theorem requestSink (h : Recorded zstd start blocks writer)
    (hrequest : Writer.requestSink writer = (.ok (), next)) : Recorded zstd start blocks next := by
  rcases requestSink_eq writer with ⟨e, heq⟩ | heq
  · rw [heq] at hrequest
    cases hrequest
  · rw [heq] at hrequest
    cases hrequest
    exact h.of_same ⟨h.assembled.buffer, h.assembled.checked⟩ rfl rfl rfl rfl rfl rfl

end Recorded

/-! ### A file of two blocks -/

/-- Where one row completes a block, appending one writes a block of it. -/
theorem recorded_oneNumber {writer next : Writer} (hassembled : Assembled writer)
    (happend : append storingZstd oneNumber writer = (.ok (), next))
    (hblocks : next.blocksWritten = writer.blocksWritten + 1)
    (hrows : next.publishedRows = writer.publishedRows + 1) :
    ∃ block, Recorded storingZstd writer [block] next ∧ block.rows.rowCount = 1 := by
  obtain ⟨-, hcheck, blocks, happends⟩ := append_eq_ok storingZstd happend
  have hrecorded := (recorded_start hassembled).of_appends (checked_of_checkBatch hcheck) happends
  rw [List.nil_append] at hrecorded
  obtain ⟨block, rfl⟩ : ∃ block, blocks = [block] := by
    rw [← List.length_eq_one_iff, ← Nat.add_left_cancel_iff, ← hrecorded.blocksWritten, hblocks]
  refine ⟨block, hrecorded, ?_⟩
  have hcount := hrecorded.publishedRows
  rw [hrows, List.map_singleton, List.sum_singleton] at hcount
  omega

end Writer

open Writer in
/-- What a session stores that appends `blocks` rows, each of which fills a block. -/
def numberFile (blocks : ℕ) : Bytes :=
  match (create storingZstd { contents := none } numberSchema { rowBlockTarget := 1 }).1 with
  | .ok start =>
    (runCalls storingZstd (List.replicate blocks (.append oneNumber)) start).2.sink.stored
  | .error _ => []

/-- A file with a block of one row, and the frame of a second block. -/
structure TwoBlocks (file frame : Bytes) : Prop where
  isFirst : file = numberFile 1
  isBoth : file ++ frame = numberFile 2
  one : ∃ scan state, FileScan.Complete FileScan.collect [] file Limits.default scan state ∧
    state.visited.map (·.rowCount) = [1]
  two : ∃ scan state, FileScan.Complete FileScan.collect [] (file ++ frame) Limits.default scan
    state ∧ state.visited.map (·.rowCount) = [1, 1]
  length_eq : file.length = 432
  head : file[0]? = some 65
  /-- The row of the block. -/
  row : file[392]? = some 5
  /-- The end of its trailer. -/
  last : file[431]? = some 10

open Writer in
theorem exists_twoBlocks : ∃ file frame, TwoBlocks file frame := by
  have hfacts : ∃ start,
      (create storingZstd { contents := none } numberSchema { rowBlockTarget := 1 }).1 = .ok start ∧
        let next := (append storingZstd oneNumber start).2
        let last := (append storingZstd oneNumber next).2
        ((append storingZstd oneNumber start).1 = .ok () ∧
            next.blocksWritten = start.blocksWritten + 1 ∧
            next.publishedRows = start.publishedRows + 1) ∧
          ((append storingZstd oneNumber next).1 = .ok () ∧
            last.blocksWritten = next.blocksWritten + 1 ∧
            last.publishedRows = next.publishedRows + 1) ∧
          next.sink.stored.length = 432 ∧ next.sink.stored[0]? = some 65 ∧
            next.sink.stored[392]? = some 5 ∧ next.sink.stored[431]? = some 10 :=
    exists_ok_and (by decide +kernel) (by decide +kernel)
  obtain ⟨start, hcreate, ⟨hfirst, hblocks, hrows⟩, ⟨hsecond, hblocks', hrows'⟩, hlength, hhead,
    hrow, hlast⟩ := hfacts
  obtain ⟨schemaFrame, sink, hcreated, -⟩ := create_eq_ok storingZstd (Prod.ext hcreate rfl)
  obtain ⟨hpos, hstart⟩ := startSession_eq_ok hcreated.starts
  have hassembled : Assembled start := assembled_of_new (by rw [hstart]; rfl)
  obtain ⟨scan, state, hmirrors, hnone⟩ := exists_mirrors_of_created storingZstd hcreated
  obtain ⟨first, hone, hcount⟩ :=
    recorded_oneNumber hassembled (Prod.ext hfirst rfl) hblocks hrows
  obtain ⟨second, htwo, hcount'⟩ :=
    recorded_oneNumber hone.assembled (Prod.ext hsecond rfl) hblocks' hrows'
  obtain ⟨scan₁, state₁, hmirrors₁, hvisited₁⟩ := hone.mirrors hmirrors
  obtain ⟨scan₂, state₂, hmirrors₂, hvisited₂⟩ := htwo.mirrors hmirrors₁
  rw [hnone, List.map_singleton, hcount] at hvisited₁
  rw [hvisited₁, List.map_singleton, hcount'] at hvisited₂
  have hboth := htwo.stored
  rw [List.flatMap_singleton] at hboth
  have hcomplete := hmirrors₂.complete
  rw [hboth] at hcomplete
  have hnumbers (blocks : ℕ) : numberFile blocks =
      (runCalls storingZstd (List.replicate blocks (.append oneNumber)) start).2.sink.stored := by
    rw [numberFile, hcreate]
  exact ⟨_, second.frame, (hnumbers 1).symm, hboth.symm.trans (hnumbers 2).symm,
    ⟨scan₁, state₁, hmirrors₁.complete, hvisited₁⟩, ⟨scan₂, state₂, hcomplete, hvisited₂⟩, hlength,
    hhead, hrow, hlast⟩

end Acta
