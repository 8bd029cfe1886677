import Acta.Write.Writer

/-!
# The progress of a writer

What a call does to a writer, one step at a time.  An append takes rows into the buffer and
publishes blocks until the batch is used up; `Appends` lists the writers it passes through, with the
blocks published on the way, and an append returns what is left of it from any of them
(`append_eq_resume`).  A property of all calls is then proved one step at a time.
-/

namespace Acta

open Machine Wire

/-- One block on its way to the file: its rows, what it was written under, and its frame. -/
structure PublishedBlock where
  rows : BlockRows
  options : WriterOptions
  baseRowId : ℕ
  sequence : ℕ
  frame : Bytes

namespace RecordBatch

theorem eq_of_columns {left right : RecordBatch} (hschema : left.schema = right.schema)
    (hcolumns : left.columns = right.columns) (hrows : left.rowCount = right.rowCount) :
    left = right := by
  cases left
  cases right
  cases hschema
  cases hcolumns
  cases hrows
  rfl

/-- An array of a batch is its own whole range. -/
theorem Fits.slice_whole {column : Column} {array : LogicalArray} {rowCount : ℕ}
    (h : Fits column rowCount array) : array.slice 0 rowCount = array := by
  have hvalues : Wire.slice array.values 0 rowCount = array.values := Wire.slice_whole h.len
  have hvalidity : array.validity.map (Wire.slice · 0 rowCount) = array.validity := by
    cases hbits : array.validity with
    | none => rfl
    | some bits => rw [Option.map_some, Wire.slice_whole (h.validity bits hbits).1]
  cases array with
  | mk type values validity => simp_all [LogicalArray.slice]

/-- A batch is its own whole range. -/
theorem slice_whole (batch : RecordBatch) : batch.slice 0 batch.rowCount = batch := by
  refine eq_of_columns rfl ?_ (by simp [slice])
  have hall : ∀ array ∈ batch.columns, array.slice 0 batch.rowCount = array := by
    intro array harray
    obtain ⟨index, hindex, rfl⟩ := List.mem_iff_getElem.mp harray
    have hcolumn : index < batch.schema.columns.length := by
      rw [batch.fits.length_eq]
      exact hindex
    exact Fits.slice_whole (batch.fits.get hcolumn hindex)
  calc batch.columns.map (·.slice 0 batch.rowCount)
      = batch.columns.map id := List.map_congr_left hall
    _ = batch.columns := List.map_id _

/-- The row count of a range that lies in the batch. -/
theorem rowCount_slice {batch : RecordBatch} {start stop : ℕ} (h : stop ≤ batch.rowCount) :
    (batch.slice start stop).rowCount = stop - start := by
  show min (stop - start) (batch.rowCount - start) = stop - start
  omega

end RecordBatch

namespace Writer

variable (zstd : Zstd)

/-! ### Publishing a block -/

/-- The blocks that publishing the buffer writes: one, unless the buffer is empty. -/
def published (writer : Writer) : List PublishedBlock :=
  if writer.buffer.isEmpty then
    []
  else
    match writer.bufferedFrame zstd with
    | .error _ => []
    | .ok frame =>
      [{ rows := writer.buffer.blockRows, options := writer.options, baseRowId := writer.baseRowId,
         sequence := writer.state.nextSequence, frame }]

/-- The buffer has reached one of the configured targets. -/
def IsComplete (writer : Writer) : Prop :=
  writer.options.rowBlockTarget ≤ writer.buffer.rows ∨
    writer.options.byteBlockTarget ≤ writer.buffer.frameBytes

instance (writer : Writer) : Decidable writer.IsComplete := inferInstanceAs (Decidable (_ ∨ _))

/-- The blocks written where a buffer is only published once it is complete. -/
def publishedIfComplete (writer : Writer) : List PublishedBlock :=
  if writer.IsComplete then writer.published zstd else []

theorem publishIfComplete_eq (writer : Writer) :
    publishIfComplete zstd writer =
      if writer.IsComplete then publishBuffer zstd writer else (.ok (), writer) := rfl

/-- The counters after a frame. -/
def counted (writer : Writer) (frameLength rawBytes rowCount : ℕ) : Advanced where
  fileLength := writer.state.fileLength + frameLength
  blocksWritten := writer.blocksWritten + 1
  nextSequence := writer.state.nextSequence + 1
  nextRowId := if writer.options.rowIds then writer.state.nextRowId + rowCount
    else writer.state.nextRowId
  publishedRows := writer.publishedRows + rowCount
  publishedBytes := writer.publishedBytes + rawBytes

/-- No counter runs past its range. -/
structure Advanced.InRange (counters : Advanced) (rowIds : Bool) : Prop where
  fileLength : counters.fileLength ≤ u64Max
  blocksWritten : counters.blocksWritten ≤ u64Max
  nextSequence : counters.nextSequence ≤ u64Max
  nextRowId : rowIds = true → counters.nextRowId ≤ u64Max
  publishedRows : counters.publishedRows ≤ u64Max
  publishedBytes : counters.publishedBytes ≤ u64Max

/-- **When the counters advance**, and to what. -/
theorem advance_iff {writer : Writer} {frameLength rawBytes rowCount : ℕ} {counters : Advanced} :
    writer.advance frameLength rawBytes rowCount = some counters ↔
      counters = writer.counted frameLength rawBytes rowCount ∧
        counters.InRange writer.options.rowIds := by
  cases hrowIds : writer.options.rowIds with
  | true =>
    simp only [advance, hrowIds, if_true, Option.bind_eq_bind, Option.bind_eq_some_iff,
      checkedAdd_eq_some]
    constructor
    · rintro ⟨_, ⟨hlength, rfl⟩, _, ⟨hblocks, rfl⟩, _, ⟨hsequence, rfl⟩, _, ⟨hrowId, rfl⟩, _,
        ⟨hrows, rfl⟩, _, ⟨hbytes, rfl⟩, hcounters⟩
      cases hcounters
      refine ⟨?_, hlength, hblocks, hsequence, fun _ ↦ hrowId, hrows, hbytes⟩
      rw [counted, hrowIds, if_pos rfl]
    · rintro ⟨rfl, hlength, hblocks, hsequence, hrowId, hrows, hbytes⟩
      have hle := hrowId rfl
      rw [counted, hrowIds, if_pos rfl] at hle ⊢
      exact ⟨_, ⟨hlength, rfl⟩, _, ⟨hblocks, rfl⟩, _, ⟨hsequence, rfl⟩, _, ⟨hle, rfl⟩, _,
        ⟨hrows, rfl⟩, _, ⟨hbytes, rfl⟩, rfl⟩
  | false =>
    simp only [advance, hrowIds, Bool.false_eq_true, if_false, Option.bind_eq_bind,
      Option.bind_eq_some_iff, Option.bind_some, checkedAdd_eq_some]
    constructor
    · rintro ⟨_, ⟨hlength, rfl⟩, _, ⟨hblocks, rfl⟩, _, ⟨hsequence, rfl⟩, _, ⟨hrows, rfl⟩, _,
        ⟨hbytes, rfl⟩, hcounters⟩
      cases hcounters
      refine ⟨?_, hlength, hblocks, hsequence, fun h ↦ (Bool.false_ne_true h).elim, hrows, hbytes⟩
      rw [counted, hrowIds, if_neg Bool.false_ne_true]
    · rintro ⟨rfl, hlength, hblocks, hsequence, -, hrows, hbytes⟩
      rw [counted, hrowIds, if_neg Bool.false_ne_true]
      exact ⟨_, ⟨hlength, rfl⟩, _, ⟨hblocks, rfl⟩, _, ⟨hsequence, rfl⟩, _, ⟨hrows, rfl⟩, _,
        ⟨hbytes, rfl⟩, rfl⟩
/-- Counters that advanced, and that none of them overflowed. -/
theorem advance_eq_some {writer : Writer} {frameLength rawBytes rowCount : ℕ} {counters : Advanced}
    (h : writer.advance frameLength rawBytes rowCount = some counters) :
    counters.fileLength = writer.state.fileLength + frameLength ∧
      counters.fileLength ≤ u64Max ∧
      counters.nextSequence = writer.state.nextSequence + 1 ∧
      counters.nextSequence ≤ u64Max ∧
      counters.nextRowId =
        (if writer.options.rowIds then writer.state.nextRowId + rowCount
          else writer.state.nextRowId) ∧
      (writer.options.rowIds = true → counters.nextRowId ≤ u64Max) := by
  obtain ⟨rfl, hrange⟩ := advance_iff.mp h
  exact ⟨rfl, hrange.fileLength, rfl, hrange.nextSequence, rfl, hrange.nextRowId⟩

/-- What a writer is after it wrote a frame for its buffered rows. -/
structure Wrote (writer : Writer) (frame : Bytes) (counters : Advanced) (next : Writer) : Prop where
  nonempty : writer.buffer.isEmpty = false
  builds : writer.bufferedFrame zstd = .ok frame
  advances : writer.advance frame.length writer.buffer.frameBytes writer.buffer.rows = some counters
  next_eq : next = { writer with
    sink := { writer.sink with
      stored := writer.sink.stored ++ frame, calls := writer.sink.calls + 1 }
    buffer := writer.buffer.clear
    state := { fileLength := counters.fileLength, nextSequence := counters.nextSequence,
               nextRowId := counters.nextRowId }
    blocksWritten := counters.blocksWritten
    publishedRows := counters.publishedRows
    publishedBytes := counters.publishedBytes }

/-- **A buffer is published in one of two ways**: there is nothing to publish, or its frame is
written. -/
theorem publishBuffer_eq_ok {writer next : Writer}
    (h : publishBuffer zstd writer = (.ok (), next)) :
    (writer.buffer.isEmpty = true ∧ next = writer ∧ writer.published zstd = []) ∨
      ∃ frame counters, Wrote zstd writer frame counters next ∧
        writer.published zstd =
          [{ rows := writer.buffer.blockRows, options := writer.options,
             baseRowId := writer.baseRowId, sequence := writer.state.nextSequence, frame }] := by
  unfold publishBuffer at h
  split at h
  case isTrue hempty =>
    cases h
    exact .inl ⟨hempty, rfl, by rw [published, if_pos hempty]⟩
  case isFalse hfull =>
    split at h
    case h_1 => cases h
    case h_2 frame hframe =>
      refine .inr ⟨frame, ?_⟩
      unfold writeFrame Sink.writeAll at h
      split at h
      case h_1 hsink =>
        cases h
      case h_2 sink hsink =>
        split at hsink
        case h_2 => cases hsink
        case h_1 =>
          cases hsink
          unfold commit at h
          split at h
          case h_1 => cases h
          case h_2 counters hcounters =>
            cases h
            refine ⟨counters, ⟨by simpa using hfull, hframe, hcounters, rfl⟩, ?_⟩
            rw [published, if_neg hfull, hframe]

/-- A buffer is published where its frame is built, the sink takes it and the counters advance. -/
theorem exists_wrote {writer : Writer} {frame : Bytes} {counters : Advanced}
    (hfull : writer.buffer.isEmpty = false) (hframe : writer.bufferedFrame zstd = .ok frame)
    (hgranted : writer.sink.replies writer.sink.calls = .done)
    (hadvance : writer.advance frame.length writer.buffer.frameBytes writer.buffer.rows =
      some counters) :
    ∃ next, publishBuffer zstd writer = (.ok (), next) ∧ Wrote zstd writer frame counters next := by
  have hwrite : writer.sink.writeAll frame = (.ok (), { writer.sink with
      stored := writer.sink.stored ++ frame, calls := writer.sink.calls + 1 }) := by
    rw [Sink.writeAll, hgranted]
  have hpublish : publishBuffer zstd writer = writeFrame frame writer := by
    rw [publishBuffer, hfull, hframe]
    rfl
  -- The counters depend on neither the sink nor the buffer that the frame replaced.
  have hcommit (sink : Sink) (buffer : BlockBuffer) :
      ({ writer with sink, buffer } : Writer).advance frame.length writer.buffer.frameBytes
        writer.buffer.rows = some counters := hadvance
  refine ⟨_, ?_, hfull, hframe, hadvance, rfl⟩
  rw [hpublish, writeFrame, hwrite]
  show commit _ _ _ _ = _
  rw [commit, hcommit]

/-- The ways to fail at publishing a buffer: its frame cannot be built, and the writer stays as it
was, or its frame is not written or not accounted for, and the writer is poisoned. -/
theorem publishBuffer_eq_error {writer next : Writer} {e : Error}
    (h : publishBuffer zstd writer = (.error e, next)) :
    writer.buffer.isEmpty = false ∧
      ((writer.bufferedFrame zstd = .error e ∧ next = writer) ∨
        ((∃ frame, writer.bufferedFrame zstd = .ok frame) ∧ next.poisoned = true ∧
          (e.kind = .io ∨ e.kind = .resourceLimit))) := by
  unfold publishBuffer at h
  split at h
  case isTrue => cases h
  case isFalse hfull =>
    refine ⟨by simpa using hfull, ?_⟩
    split at h
    case h_1 hframe =>
      cases h
      exact .inl ⟨hframe, rfl⟩
    case h_2 frame hframe =>
      refine .inr ⟨⟨frame, hframe⟩, ?_⟩
      unfold writeFrame at h
      split at h
      case h_1 =>
        cases h
        exact ⟨rfl, .inl rfl⟩
      case h_2 =>
        unfold commit at h
        split at h
        case h_1 =>
          cases h
          exact ⟨rfl, .inr rfl⟩
        case h_2 => cases h

/-! ### What fits a block -/

theorem fittingFrom_congr {writer other : Writer} (hschema : other.schema = writer.schema)
    (hoptions : other.options = writer.options) (hbuffer : other.buffer = writer.buffer)
    (batch : RecordBatch) (start remaining offset : ℕ) (footprints : List ColumnFootprint) :
    other.fittingFrom batch start remaining offset footprints =
      writer.fittingFrom batch start remaining offset footprints := by
  induction remaining generalizing offset footprints with
  | zero => rfl
  | succ remaining ih =>
    have hsize : other.price = writer.price := by
      funext footprints rows
      rw [price, price, hschema, hoptions]
    have hrefuses : other.refusesSize = writer.refusesSize := by
      funext size rows offset
      rw [refusesSize, refusesSize, hoptions, hbuffer]
    rw [fittingFrom, fittingFrom, hbuffer, hsize, hrefuses]
    split
    · rfl
    · exact ih _ _

/-- What fits depends on the buffer, the schema and the options. -/
theorem fittingPrefix_congr {writer other : Writer} (hschema : other.schema = writer.schema)
    (hoptions : other.options = writer.options) (hbuffer : other.buffer = writer.buffer)
    (batch : RecordBatch) (start : ℕ) :
    other.fittingPrefix batch start = writer.fittingPrefix batch start := by
  have herror : other.unwritableRowError batch start = writer.unwritableRowError batch start := by
    rw [unwritableRowError, unwritableRowError, hschema, hbuffer]
  rw [fittingPrefix, fittingPrefix, hoptions, hbuffer, herror,
    fittingFrom_congr hschema hoptions hbuffer]

/-! ### The steps of an append -/

/-- Where an append stands: about to take rows in, or with rows it has just taken in. -/
inductive AppendStage
  | filling
  | pushed
  deriving DecidableEq

/-- The writer with more rows in its buffer. -/
def push (writer : Writer) (chunk : RecordBatch) : Writer :=
  { writer with buffer := writer.buffer.push writer.schema chunk }

/-- The writers an append of `batch` passes through, with the number of rows taken from the batch
and the blocks published so far. -/
inductive Appends (batch : RecordBatch) (start : Writer) :
    AppendStage → ℕ → List PublishedBlock → Writer → Prop
  | start : Appends batch start .filling 0 [] start
  /-- A buffer that cannot take the next row is published first. -/
  | full {consumed : ℕ} {blocks : List PublishedBlock} {writer next : Writer}
      (before : Appends batch start .filling consumed blocks writer)
      (hmore : consumed < batch.rowCount) (hfull : writer.fittingPrefix batch consumed = .ok 0)
      (hpublish : publishBuffer zstd writer = (.ok (), next)) :
      Appends batch start .filling consumed (blocks ++ writer.published zstd) next
  /-- Rows that fit are taken in. -/
  | take {consumed count : ℕ} {blocks : List PublishedBlock} {writer : Writer}
      (before : Appends batch start .filling consumed blocks writer)
      (hmore : consumed < batch.rowCount)
      (hfits : writer.fittingPrefix batch consumed = .ok (count + 1)) :
      Appends batch start .pushed (consumed + (count + 1)) blocks
        (writer.push (batch.slice consumed (consumed + (count + 1))))
  /-- A buffer that became complete is published. -/
  | complete {consumed : ℕ} {blocks : List PublishedBlock} {writer next : Writer}
      (before : Appends batch start .pushed consumed blocks writer)
      (hpublish : publishIfComplete zstd writer = (.ok (), next)) :
      Appends batch start .filling consumed (blocks ++ writer.publishedIfComplete zstd) next

/-- What is left of an append. -/
def resume (batch : RecordBatch) : AppendStage → ℕ → WriterStep
  | .filling, consumed => appendFrom zstd batch consumed
  | .pushed, consumed => (publishIfComplete zstd).andThen (appendFrom zstd batch consumed)

theorem appendFrom_of_le {batch : RecordBatch} {consumed : ℕ} (h : batch.rowCount ≤ consumed)
    (writer : Writer) : appendFrom zstd batch consumed writer = (.ok (), writer) := by
  rw [appendFrom, dif_neg (by omega)]

/-- One round of the loop, where rows are left. -/
theorem appendFrom_of_lt {batch : RecordBatch} {consumed : ℕ} (h : consumed < batch.rowCount)
    (writer : Writer) :
    appendFrom zstd batch consumed writer =
      match writer.fittingPrefix batch consumed with
      | .error e => (.error e, writer)
      | .ok 0 => (publishBuffer zstd).andThen (appendFrom zstd batch consumed) writer
      | .ok (count + 1) =>
        resume zstd batch .pushed (consumed + (count + 1))
          (writer.push (batch.slice consumed (consumed + (count + 1)))) := by
  rw [appendFrom, dif_pos h]
  split
  case h_1 e hfit => rw [hfit]
  case h_2 hfit =>
    rw [hfit]
    simp only [WriterStep.andThen]
    split <;> simp_all
  case h_3 count hfit =>
    rw [hfit]
    simp only [resume, WriterStep.andThen, push]
    split <;> simp_all

/-- **An append goes on from every writer it passes through.** -/
theorem appendFrom_eq_resume {batch : RecordBatch} {start writer : Writer} {stage : AppendStage}
    {consumed : ℕ} {blocks : List PublishedBlock}
    (h : Appends zstd batch start stage consumed blocks writer) :
    appendFrom zstd batch 0 start = resume zstd batch stage consumed writer := by
  induction h with
  | start => rfl
  | full before hmore hfull hpublish ih =>
    rw [ih]
    show appendFrom zstd batch _ _ = appendFrom zstd batch _ _
    rw [appendFrom_of_lt zstd hmore, hfull]
    simp only [WriterStep.andThen, hpublish]
  | take before hmore hfits ih =>
    rw [ih]
    show appendFrom zstd batch _ _ = _
    rw [appendFrom_of_lt zstd hmore, hfits]
  | complete before hpublish ih =>
    rw [ih]
    simp only [resume, WriterStep.andThen, hpublish]

/-! ### What an append keeps -/

theorem published_poisoned {writer next : Writer} (h : publishBuffer zstd writer = (.ok (), next)) :
    next.poisoned = writer.poisoned := by
  obtain ⟨-, rfl, -⟩ | ⟨frame, counters, hwrote, -⟩ := publishBuffer_eq_ok zstd h
  · rfl
  · rw [hwrote.next_eq]

theorem publishIfComplete_eq_ok {writer next : Writer}
    (h : publishIfComplete zstd writer = (.ok (), next)) :
    next = writer ∨ publishBuffer zstd writer = (.ok (), next) := by
  rw [publishIfComplete_eq] at h
  split at h
  · exact .inr h
  · cases h
    exact .inl rfl

/-- An append poisons the writer only where it fails. -/
theorem poisoned_of_appends {batch : RecordBatch} {start writer : Writer} {stage : AppendStage}
    {consumed : ℕ} {blocks : List PublishedBlock}
    (h : Appends zstd batch start stage consumed blocks writer) :
    writer.poisoned = start.poisoned := by
  induction h with
  | start => rfl
  | full before hmore hfull hpublish ih => rw [published_poisoned zstd hpublish, ih]
  | take before hmore hfits ih => exact ih
  | complete before hpublish ih =>
    rcases publishIfComplete_eq_ok zstd hpublish with rfl | hpublish
    · exact ih
    · rw [published_poisoned zstd hpublish, ih]

/-- A publication that succeeds keeps the schema and the options. -/
theorem kept_of_publishBuffer {writer next : Writer}
    (h : publishBuffer zstd writer = (.ok (), next)) :
    next.schema = writer.schema ∧ next.options = writer.options := by
  obtain ⟨-, rfl, -⟩ | ⟨frame, counters, hwrote, -⟩ := publishBuffer_eq_ok zstd h
  · exact ⟨rfl, rfl⟩
  · rw [hwrote.next_eq]
    exact ⟨rfl, rfl⟩

/-- An append keeps the schema and the options. -/
theorem kept_of_appends {batch : RecordBatch} {start writer : Writer} {stage : AppendStage}
    {consumed : ℕ} {blocks : List PublishedBlock}
    (h : Appends zstd batch start stage consumed blocks writer) :
    writer.schema = start.schema ∧ writer.options = start.options := by
  induction h with
  | start => exact ⟨rfl, rfl⟩
  | full before hmore hfull hpublish ih =>
    obtain ⟨hschema, hoptions⟩ := kept_of_publishBuffer zstd hpublish
    exact ⟨hschema.trans ih.1, hoptions.trans ih.2⟩
  | take before hmore hfits ih => exact ih
  | complete before hpublish ih =>
    rcases publishIfComplete_eq_ok zstd hpublish with rfl | hpublish
    · exact ih
    · obtain ⟨hschema, hoptions⟩ := kept_of_publishBuffer zstd hpublish
      exact ⟨hschema.trans ih.1, hoptions.trans ih.2⟩

/-! ### How an append ends -/

theorem le_fittingFrom {writer : Writer} {batch : RecordBatch} {start : ℕ} (remaining offset : ℕ)
    (footprints : List ColumnFootprint) :
    writer.fittingFrom batch start remaining offset footprints ≤ offset + remaining := by
  induction remaining generalizing offset footprints with
  | zero => exact le_rfl
  | succ remaining ih =>
    rw [fittingFrom]
    split
    · omega
    · have hrest := ih (offset + 1) (addBatchRow footprints batch (start + offset))
      omega

/-- No more rows fit than are left. -/
theorem add_le_of_fittingPrefix {writer : Writer} {batch : RecordBatch} {start count : ℕ}
    (hstart : start ≤ batch.rowCount) (h : writer.fittingPrefix batch start = .ok count) :
    start + count ≤ batch.rowCount := by
  unfold fittingPrefix at h
  dsimp only at h
  split at h
  case isTrue =>
    cases h
    omega
  case isFalse =>
    split at h
    case isTrue => cases h
    case isFalse =>
      rw [Except.ok.injEq] at h
      have hle : writer.fittingFrom batch start
          (min (batch.rowCount - start) (writer.options.rowBlockTarget - writer.buffer.rows)) 0
          writer.buffer.footprints ≤ 0 + _ := le_fittingFrom _ _ _
      omega

theorem consumed_le_of_appends {batch : RecordBatch} {start writer : Writer} {stage : AppendStage}
    {consumed : ℕ} {blocks : List PublishedBlock}
    (h : Appends zstd batch start stage consumed blocks writer) : consumed ≤ batch.rowCount := by
  induction h with
  | start => omega
  | full before hmore hfull hpublish ih => exact ih
  | take before hmore hfits ih => exact add_le_of_fittingPrefix ih hfits
  | complete before hpublish ih => exact ih

/-- The ways an append that passed its checks can fail: `writer` is the writer it came to, and
`left` the writer it leaves. -/
inductive AppendFails (batch : RecordBatch) (start : Writer) : Writer → Error → Writer → Prop
  /-- A row does not fit an empty block. -/
  | unwritable {consumed : ℕ} {blocks : List PublishedBlock} {writer : Writer} {e : Error}
      (before : Appends zstd batch start .filling consumed blocks writer)
      (hmore : consumed < batch.rowCount) (hfit : writer.fittingPrefix batch consumed = .error e) :
      AppendFails batch start writer e writer
  /-- A buffer that cannot take the next row is not published. -/
  | full {consumed : ℕ} {blocks : List PublishedBlock} {writer left : Writer} {e : Error}
      (before : Appends zstd batch start .filling consumed blocks writer)
      (hmore : consumed < batch.rowCount) (hfull : writer.fittingPrefix batch consumed = .ok 0)
      (hpublish : publishBuffer zstd writer = (.error e, left)) :
      AppendFails batch start writer e left
  /-- A buffer that became complete is not published. -/
  | complete {consumed : ℕ} {blocks : List PublishedBlock} {writer left : Writer} {e : Error}
      (before : Appends zstd batch start .pushed consumed blocks writer)
      (hcomplete : writer.IsComplete) (hpublish : publishBuffer zstd writer = (.error e, left)) :
      AppendFails batch start writer e left

theorem publishIfComplete_eq_error {writer left : Writer} {e : Error} :
    publishIfComplete zstd writer = (.error e, left) ↔
      writer.IsComplete ∧ publishBuffer zstd writer = (.error e, left) := by
  rw [publishIfComplete_eq]
  split <;> simp_all

/-- A failure of an append is what it returns. -/
theorem appendFrom_of_appendFails {batch : RecordBatch} {start writer left : Writer} {e : Error}
    (h : AppendFails zstd batch start writer e left) :
    appendFrom zstd batch 0 start = (.error e, left) := by
  cases h with
  | unwritable before hmore hfit =>
    rw [appendFrom_eq_resume zstd before]
    show appendFrom zstd batch _ _ = _
    rw [appendFrom_of_lt zstd hmore, hfit]
  | full before hmore hfull hpublish =>
    rw [appendFrom_eq_resume zstd before]
    show appendFrom zstd batch _ _ = _
    rw [appendFrom_of_lt zstd hmore, hfull]
    simp only [WriterStep.andThen, hpublish]
  | complete before hcomplete hpublish =>
    rw [appendFrom_eq_resume zstd before]
    have hfails := (publishIfComplete_eq_error zstd).mpr ⟨hcomplete, hpublish⟩
    simp only [resume, WriterStep.andThen, hfails]

/-- **An append takes in the whole batch, or fails in one of the listed ways.** -/
theorem appendFrom_outcome {batch : RecordBatch} {start : Writer} (consumed : ℕ) (writer : Writer) :
    ∀ blocks, Appends zstd batch start .filling consumed blocks writer →
      (∃ blocks next, appendFrom zstd batch consumed writer = (.ok (), next) ∧
          Appends zstd batch start .filling batch.rowCount blocks next) ∨
        ∃ reached e left, appendFrom zstd batch consumed writer = (.error e, left) ∧
          AppendFails zstd batch start reached e left := by
  -- The cases are those of the loop: how many rows fit, and what became of the publication.
  induction consumed, writer using appendFrom.induct zstd batch with
  | case1 consumed writer hmore e hfit =>
    intro blocks before
    refine .inr ⟨writer, e, writer, ?_, .unwritable before hmore hfit⟩
    rw [appendFrom_of_lt zstd hmore, hfit]
  | case2 consumed writer hmore hfull e left hpublish =>
    intro blocks before
    refine .inr ⟨writer, e, left, ?_, .full before hmore hfull hpublish⟩
    rw [appendFrom_of_lt zstd hmore, hfull]
    simp only [WriterStep.andThen, hpublish]
  | case3 consumed writer hmore hfull next hpublish ih =>
    intro blocks before
    have heq : appendFrom zstd batch consumed writer = appendFrom zstd batch consumed next := by
      rw [appendFrom_of_lt zstd hmore, hfull]
      simp only [WriterStep.andThen, hpublish]
    rw [heq]
    exact ih _ (.full before hmore hfull hpublish)
  | case4 consumed writer hmore count hfits stop pushed e left hpublish =>
    intro blocks before
    have hfails := (publishIfComplete_eq_error zstd).mp hpublish
    refine .inr ⟨pushed, e, left, ?_, .complete (.take before hmore hfits) hfails.1 hfails.2⟩
    rw [appendFrom_of_lt zstd hmore, hfits]
    simp only [resume, WriterStep.andThen, push]
    rw [hpublish]
  | case5 consumed writer hmore count hfits stop pushed next hpublish ih =>
    intro blocks before
    have heq : appendFrom zstd batch consumed writer = appendFrom zstd batch stop next := by
      rw [appendFrom_of_lt zstd hmore, hfits]
      simp only [resume, WriterStep.andThen, push]
      rw [hpublish]
    rw [heq]
    exact ih _ (.complete (.take before hmore hfits) hpublish)
  | case6 consumed writer hdone =>
    intro blocks before
    have hle := consumed_le_of_appends zstd before
    obtain rfl : consumed = batch.rowCount := by omega
    exact .inl ⟨blocks, writer, appendFrom_of_le zstd le_rfl writer, before⟩

/-- A batch that fits whole is taken in as the loop would take it. -/
theorem appendChecked_eq {batch : RecordBatch} (hrows : 0 < batch.rowCount) (writer : Writer) :
    appendChecked zstd batch writer = appendFrom zstd batch 0 writer := by
  unfold appendChecked
  split
  case h_1 e hfit => rw [appendFrom_of_lt zstd hrows, hfit]
  case h_2 fitting hfit =>
    split
    case isFalse => rfl
    case isTrue hwhole =>
      subst hwhole
      obtain ⟨count, hcount⟩ : ∃ count, batch.rowCount = count + 1 := ⟨batch.rowCount - 1, by omega⟩
      rw [hcount] at hfit
      rw [appendFrom_of_lt zstd hrows, hfit]
      have hslice : batch.slice 0 (0 + (count + 1)) = batch := by
        rw [Nat.zero_add, ← hcount]
        exact batch.slice_whole
      simp only [resume, WriterStep.andThen, hslice, push]
      cases hpublish : publishIfComplete zstd
          { writer with buffer := writer.buffer.push writer.schema batch } with
      | mk result next =>
        cases result with
        | error e => rfl
        | ok u => exact (appendFrom_of_le zstd (by omega) next).symm

theorem rowCount_pos_of_checkBatch {writer : Writer} {batch : RecordBatch}
    (h : writer.checkBatch batch = .ok ()) : 0 < batch.rowCount := by
  simp only [checkBatch, bind_eq_ok, failIf_eq_ok] at h
  obtain ⟨_, -, _, hrows, -⟩ := h
  omega

theorem andThen_eq_of_ok {first second : WriterStep} {writer next : Writer}
    (h : first writer = (.ok (), next)) : first.andThen second writer = second next := by
  simp only [WriterStep.andThen, h]

theorem append_of_healthy {writer : Writer} (hhealthy : writer.poisoned = false)
    (batch : RecordBatch) :
    append zstd batch writer =
      match writer.checkBatch batch with
      | .error e => (.error e, writer)
      | .ok () => appendChecked zstd batch writer := by
  have hensured : ensureHealthy writer = (.ok (), writer) := by
    rw [ensureHealthy, hhealthy]
    exact if_neg Bool.false_ne_true
  exact andThen_eq_of_ok hensured

/-- A poisoned writer refuses what follows. -/
theorem ensureHealthy_andThen {writer : Writer} (hpoisoned : writer.poisoned = true)
    (second : WriterStep) :
    ensureHealthy.andThen second writer = (.error poisonedError, writer) := by
  simp only [WriterStep.andThen, ensureHealthy, hpoisoned, if_true]

/-- An append of a checked batch to a healthy writer is its loop. -/
theorem append_eq {writer : Writer} {batch : RecordBatch} (hhealthy : writer.poisoned = false)
    (hcheck : writer.checkBatch batch = .ok ()) :
    append zstd batch writer = appendFrom zstd batch 0 writer := by
  rw [append_of_healthy zstd hhealthy, hcheck]
  exact appendChecked_eq zstd (rowCount_pos_of_checkBatch hcheck) writer

/-- A complete batch that fits whole is published with the rows buffered before it. -/
theorem append_of_complete {writer : Writer} {batch : RecordBatch}
    (hhealthy : writer.poisoned = false) (hcheck : writer.checkBatch batch = .ok ())
    (hfits : writer.fittingPrefix batch 0 = .ok batch.rowCount)
    (hcomplete : (writer.push batch).IsComplete) :
    append zstd batch writer = publishBuffer zstd (writer.push batch) := by
  rw [append_of_healthy zstd hhealthy, hcheck]
  dsimp only
  unfold appendChecked
  rw [hfits]
  dsimp only
  rw [if_pos rfl]
  show publishIfComplete zstd (writer.push batch) = _
  rw [publishIfComplete_eq, if_pos hcomplete]

/-- What a successful append did. -/
theorem append_eq_ok {writer next : Writer} {batch : RecordBatch}
    (h : append zstd batch writer = (.ok (), next)) :
    writer.poisoned = false ∧ writer.checkBatch batch = .ok () ∧
      ∃ blocks, Appends zstd batch writer .filling batch.rowCount blocks next := by
  cases hhealthy : writer.poisoned with
  | true =>
    rw [append, ensureHealthy_andThen hhealthy] at h
    cases h
  | false =>
    cases hcheck : writer.checkBatch batch with
    | error e =>
      rw [append_of_healthy zstd hhealthy, hcheck] at h
      cases h
    | ok u =>
      rw [append_eq zstd hhealthy hcheck] at h
      obtain ⟨blocks, last, heq, hlast⟩ | ⟨reached, e, left, heq, -⟩ :=
        appendFrom_outcome zstd 0 writer [] (.start : Appends zstd batch writer _ _ _ _)
      · rw [h] at heq
        cases heq
        exact ⟨rfl, rfl, blocks, hlast⟩
      · rw [h] at heq
        cases heq

/-- How a failed append failed. -/
theorem append_eq_error {writer left : Writer} {batch : RecordBatch} {e : Error}
    (h : append zstd batch writer = (.error e, left)) :
    (writer.poisoned = true ∧ e = poisonedError ∧ left = writer) ∨
      (writer.checkBatch batch = .error e ∧ left = writer) ∨
        writer.checkBatch batch = .ok () ∧
          ∃ reached, AppendFails zstd batch writer reached e left := by
  cases hhealthy : writer.poisoned with
  | true =>
    rw [append, ensureHealthy_andThen hhealthy] at h
    cases h
    exact .inl ⟨rfl, rfl, rfl⟩
  | false =>
    cases hcheck : writer.checkBatch batch with
    | error e =>
      rw [append_of_healthy zstd hhealthy, hcheck] at h
      cases h
      exact .inr (.inl ⟨rfl, rfl⟩)
    | ok u =>
      rw [append_eq zstd hhealthy hcheck] at h
      obtain ⟨blocks, last, heq, -⟩ | ⟨reached, e', left', heq, hfails⟩ :=
        appendFrom_outcome zstd 0 writer [] (.start : Appends zstd batch writer _ _ _ _)
      · rw [h] at heq
        cases heq
      · rw [h] at heq
        cases heq
        exact .inr (.inr ⟨rfl, reached, hfails⟩)

/-! ### Calls -/

/-- A call of the public interface. -/
inductive Call
  | append (batch : RecordBatch)
  | flush
  | sync
  | finish

/-- Carry a call out.  Only `finish` returns more than success, and it ends the writer. -/
def call : Call → WriterStep
  | .append batch => append zstd batch
  | .flush => flush zstd
  | .sync => sync zstd
  | .finish => fun writer ↦ ((finish zstd writer).1.map fun _ ↦ (), (finish zstd writer).2)

/-- Carry calls out one after another, whatever they return. -/
def runCalls : List Call → Writer → List (Result Unit) × Writer
  | [], writer => ([], writer)
  | first :: rest, writer =>
    let (result, next) := call zstd first writer
    let (results, final) := runCalls rest next
    (result :: results, final)

/-! ### Poisoned writers -/

theorem andThen_eq_error {first second : WriterStep} {writer left : Writer} {e : Error}
    (h : first writer = (.error e, left)) : first.andThen second writer = (.error e, left) := by
  simp only [WriterStep.andThen, h]

theorem andThen_eq_ok {first second : WriterStep} {writer last : Writer} :
    first.andThen second writer = (.ok (), last) ↔
      ∃ next, first writer = (.ok (), next) ∧ second next = (.ok (), last) := by
  rcases hstep : first writer with ⟨e | u, next⟩
  · simp [andThen_eq_error hstep]
  · simp [andThen_eq_of_ok hstep]

theorem ensureHealthy_eq_ok {writer next : Writer} :
    ensureHealthy writer = (.ok (), next) ↔ writer.poisoned = false ∧ next = writer := by
  rw [ensureHealthy]
  rcases writer.poisoned with - | -
  · simp [eq_comm]
  · simp

/-- A flush publishes the buffer, and then only asks the sink. -/
theorem flush_eq_ok {writer next : Writer} (h : flush zstd writer = (.ok (), next)) :
    writer.poisoned = false ∧ ∃ published,
      publishBuffer zstd writer = (.ok (), published) ∧ requestSink published = (.ok (), next) := by
  obtain ⟨ensured, hensured, hflush⟩ := andThen_eq_ok.mp h
  obtain ⟨hhealthy, hsame⟩ := ensureHealthy_eq_ok.mp hensured
  rw [hsame] at hflush
  exact ⟨hhealthy, andThen_eq_ok.mp hflush⟩

theorem flush_of_poisoned {writer : Writer} (h : writer.poisoned = true) :
    flush zstd writer = (.error poisonedError, writer) := ensureHealthy_andThen h _

theorem sync_of_poisoned {writer : Writer} (h : writer.poisoned = true) :
    sync zstd writer = (.error poisonedError, writer) :=
  andThen_eq_error (flush_of_poisoned zstd h)

/-- A call of a poisoned writer is refused and changes nothing. -/
theorem call_of_poisoned {writer : Writer} (h : writer.poisoned = true) (c : Call) :
    call zstd c writer = (.error poisonedError, writer) := by
  cases c with
  | append batch => exact ensureHealthy_andThen h _
  | flush => exact flush_of_poisoned zstd h
  | sync => exact sync_of_poisoned zstd h
  | finish =>
    have hfinish : finish zstd writer = (.error poisonedError, writer) := by
      rw [finish, andThen_eq_error (sync_of_poisoned zstd h)]
    show ((finish zstd writer).1.map _, (finish zstd writer).2) = _
    rw [hfinish]
    rfl

end Writer

end Acta
