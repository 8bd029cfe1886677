import Acta.Format.Scan
import Acta.Write.Encode

/-!
# The writer

Writer lifecycle, buffering coordination and sink handling.  Every operation takes a writer to a
result and the writer it leaves behind, so a failed call still says what became of the writer.

The operating system is a parameter: a sink answers each request, and a request it refuses may have
stored part of what it was given.
-/

namespace Acta

open Machine Wire

/-- How the operating system answers one request: it does it, or it fails with a message after
storing some of the bytes it was given. -/
inductive SinkReply
  | done
  | refused (stored : ℕ) (message : String)

/-- An append-only file handle: what has reached the file, and how requests are answered. -/
structure Sink where
  stored : Bytes
  replies : ℕ → SinkReply
  calls : ℕ := 0

namespace Sink

/-- Write every byte, or report a failure after a part of them. -/
def writeAll (sink : Sink) (bytes : Bytes) : Except String Unit × Sink :=
  match sink.replies sink.calls with
  | .done => (.ok (), { sink with stored := sink.stored ++ bytes, calls := sink.calls + 1 })
  | .refused stored message =>
    (.error message,
      { sink with stored := sink.stored ++ bytes.take stored, calls := sink.calls + 1 })

/-- A request that stores nothing: a flush, a synchronization or the release of the lock. -/
def request (sink : Sink) : Except String Unit × Sink :=
  match sink.replies sink.calls with
  | .done => (.ok (), { sink with calls := sink.calls + 1 })
  | .refused _ message => (.error message, { sink with calls := sink.calls + 1 })

end Sink

/-- What a path holds, whether another writer has it locked, and how the operating system answers
what is asked of it. -/
structure Disk where
  contents : Option Bytes
  locked : Bool := false
  replies : ℕ → SinkReply := fun _ ↦ .done
  /-- The length the system reports of an open file. -/
  reportedLength : Bytes → Except String ℕ := fun bytes ↦ .ok bytes.length

/-- The continuation point shared by new and reopened append sessions. -/
structure AppendState where
  fileLength : ℕ
  nextSequence : ℕ
  nextRowId : ℕ
  deriving DecidableEq, Repr

def AppendState.new (fileLength : ℕ) : AppendState where
  fileLength := fileLength
  nextSequence := firstDataFrameSequence
  nextRowId := firstBaseRowId

/-- A synchronous buffered writer. -/
structure Writer where
  sink : Sink
  schema : Schema
  options : WriterOptions
  state : AppendState
  buffer : BlockBuffer
  publishedRows : ℕ
  publishedBytes : ℕ
  durableRows : ℕ
  durableBytes : ℕ
  blocksWritten : ℕ
  poisoned : Bool
  /-- Both ways to a writer check its options. -/
  rowBlockTarget_pos : 0 < options.rowBlockTarget

/-- An operation on a writer. -/
abbrev WriterStep := Writer → Result Unit × Writer

/-- One operation after another, stopping where the first fails. -/
def WriterStep.andThen (first second : WriterStep) : WriterStep := fun writer ↦
  match first writer with
  | (.ok (), writer) => second writer
  | (.error e, writer) => (.error e, writer)

/-- An operating-system failure at an offset of the file. -/
def fileIo (message : String) (offset : Option ℕ) : Error :=
  (Error.io message offset).withContext .file

/-- The cooperative exclusive lock, which is never waited for. -/
def acquireWriterLock (disk : Disk) : Result Unit :=
  failIf (disk.locked = true)
    ((Error.writerLocked "another writer already holds the exclusive lock on this file").withContext
      .file)

namespace Writer

variable (zstd : Zstd)

/-! ### Publishing -/

def poisonedError : Error :=
  (Error.poisoned "the writer cannot continue after a partial I/O failure").withContext .file

def ensureHealthy : WriterStep := fun writer ↦
  if writer.poisoned then (.error poisonedError, writer) else (.ok (), writer)

/-- Report a sink failure, after which the writer refuses further work. -/
def poisonIo (message : String) : WriterStep := fun writer ↦
  (.error (fileIo message (some writer.state.fileLength)), { writer with poisoned := true })

/-- Ask the sink for something that stores nothing. -/
def requestSink : WriterStep := fun writer ↦
  match writer.sink.request with
  | (.ok (), sink) => (.ok (), { writer with sink })
  | (.error message, sink) => poisonIo message { writer with sink }

/-- The counters after a frame that is already on disk. -/
structure Advanced where
  fileLength : ℕ
  blocksWritten : ℕ
  nextSequence : ℕ
  nextRowId : ℕ
  publishedRows : ℕ
  publishedBytes : ℕ

/-- Every counter advanced, unless one of them overflows. -/
def advance (writer : Writer) (frameLength rawBytes rowCount : ℕ) : Option Advanced := do
  let fileLength ← checkedAdd writer.state.fileLength frameLength
  let blocksWritten ← checkedAdd writer.blocksWritten 1
  let nextSequence ← checkedAdd writer.state.nextSequence 1
  let nextRowId ←
    if writer.options.rowIds then checkedAdd writer.state.nextRowId rowCount
    else some writer.state.nextRowId
  let publishedRows ← checkedAdd writer.publishedRows rowCount
  let publishedBytes ← checkedAdd writer.publishedBytes rawBytes
  return { fileLength, blocksWritten, nextSequence, nextRowId, publishedRows, publishedBytes }

/-- Advance the accounting for a frame that is already on disk. -/
def commit (frameLength rawBytes rowCount : ℕ) : WriterStep := fun writer ↦
  match writer.advance frameLength rawBytes rowCount with
  | none =>
    (.error ((Error.resourceLimit "the writer can no longer account for the bytes it has written"
      (some writer.state.fileLength)).withContext .file), { writer with poisoned := true })
  | some counters =>
    (.ok (), { writer with
      state := { fileLength := counters.fileLength, nextSequence := counters.nextSequence,
                 nextRowId := counters.nextRowId }
      blocksWritten := counters.blocksWritten
      publishedRows := counters.publishedRows
      publishedBytes := counters.publishedBytes })

/-- The base row ID of the next block. -/
def baseRowId (writer : Writer) : ℕ :=
  if writer.options.rowIds then writer.state.nextRowId else unavailableBaseRowId

/-- The frame the buffered rows are published as. -/
def bufferedFrame (writer : Writer) : Result Bytes :=
  Write.buildDataFrameWithStatistics zstd writer.schema writer.buffer.blockRows writer.options
    writer.baseRowId writer.state.nextSequence

/-- Write one frame, and clear the buffer only once its bytes have reached the sink. -/
def writeFrame (frame : Bytes) : WriterStep := fun writer ↦
  match writer.sink.writeAll frame with
  | (.error message, sink) => poisonIo message { writer with sink }
  | (.ok (), sink) =>
    commit frame.length writer.buffer.frameBytes writer.buffer.rows
      { writer with sink, buffer := writer.buffer.clear }

/-- Write the buffered rows as one data frame. -/
def publishBuffer : WriterStep := fun writer ↦
  if writer.buffer.isEmpty then
    (.ok (), writer)
  else
    match writer.bufferedFrame zstd with
    | .error e => (.error e, writer)
    | .ok frame => writeFrame frame writer

/-- Publish the buffer once it has reached either configured target. -/
def publishIfComplete : WriterStep := fun writer ↦
  if writer.options.rowBlockTarget ≤ writer.buffer.rows ∨
      writer.options.byteBlockTarget ≤ writer.buffer.frameBytes then
    publishBuffer zstd writer
  else
    (.ok (), writer)

theorem rows_eq_zero_of_publishBuffer {writer next : Writer}
    (h : publishBuffer zstd writer = (.ok (), next)) : next.buffer.rows = 0 := by
  unfold publishBuffer at h
  split at h
  · rename_i hempty
    cases h
    simpa [BlockBuffer.isEmpty] using hempty
  · split at h
    · cases h
    · unfold writeFrame at h
      split at h
      · cases h
      · unfold commit at h
        split at h
        · cases h
        · cases h
          rfl

/-! ### Filling a block -/

/-- Add one row of a batch to the footprints of its columns. -/
def addBatchRow (footprints : List ColumnFootprint) (batch : RecordBatch) (row : ℕ) :
    List ColumnFootprint :=
  footprints.zipWith (·.addRow · row) batch.columns

/-- The price of the block with these footprints. -/
def price (writer : Writer) (footprints : List ColumnFootprint) (rows : ℕ) : BlockSize :=
  Write.blockSizeWithStatistics writer.schema footprints rows writer.options.statistics

/-- Whether a block of this size is too large to take the row at `offset`.  A row too large for the
byte target is still written as a block of its own. -/
def refusesSize (writer : Writer) (size : BlockSize) (rows offset : ℕ) : Bool :=
  !size.withinFormatLimits rows ||
    (decide (writer.options.byteBlockTarget < size.frameBytes) &&
      !(writer.buffer.isEmpty && offset = 0))

/-- Go on accepting rows after the first `offset`, with at most `remaining` to go. -/
def fittingFrom (writer : Writer) (batch : RecordBatch) (start : ℕ) :
    ℕ → ℕ → List ColumnFootprint → ℕ
  | 0, offset, _ => offset
  | remaining + 1, offset, footprints =>
    let footprints := addBatchRow footprints batch (start + offset)
    let rows := writer.buffer.rows + offset + 1
    if writer.refusesSize (writer.price footprints rows) rows offset then
      offset
    else
      fittingFrom writer batch start remaining (offset + 1) footprints

/-- Explain why an empty block cannot hold even one row. -/
def unwritableRowError (writer : Writer) (batch : RecordBatch) (start : ℕ) : Error :=
  let footprints := addBatchRow writer.buffer.footprints batch start
  let withoutStatistics := Write.blockSizeWithStatistics writer.schema footprints 1 .none
  if withoutStatistics.withinFormatLimits 1 then
    Write.invalidBatch ("the block statistics this writer would generate do not fit the frame " ++
      "header limit; this schema needs WriterStatistics::None")
  else
    Write.invalidBatch "a single row exceeds the largest block this format version allows"

/-- How many rows from `start` the block being assembled can still take.  Zero means the buffer must
be published first. -/
def fittingPrefix (writer : Writer) (batch : RecordBatch) (start : ℕ) : Result ℕ :=
  let capacity := writer.options.rowBlockTarget - writer.buffer.rows
  let maxRows := min (batch.rowCount - start) capacity
  if maxRows = 0 then
    .ok 0
  else
    let accepted := fittingFrom writer batch start maxRows 0 writer.buffer.footprints
    if accepted = 0 ∧ writer.buffer.isEmpty then
      .error (writer.unwritableRowError batch start)
    else
      .ok accepted

/-- A block that can take nothing holds something. -/
theorem rows_pos_of_fittingPrefix {writer : Writer} {batch : RecordBatch} {start : ℕ}
    (hstart : start < batch.rowCount) (h : writer.fittingPrefix batch start = .ok 0) :
    0 < writer.buffer.rows := by
  have htarget := writer.rowBlockTarget_pos
  by_contra hrows
  have hzero : writer.buffer.rows = 0 := by omega
  have hempty : writer.buffer.isEmpty = true := by simp [BlockBuffer.isEmpty, hzero]
  unfold fittingPrefix at h
  dsimp only at h
  split at h
  · rename_i hmax
    omega
  · split at h
    · cases h
    · rename_i hnot
      rw [Except.ok.injEq] at h
      exact hnot ⟨h, hempty⟩

/-! ### Appending -/

/-- Take in the rows of a batch from `consumed` on, publishing where a block is full. -/
def appendFrom (batch : RecordBatch) (consumed : ℕ) (writer : Writer) : Result Unit × Writer :=
  if _hmore : consumed < batch.rowCount then
    match _hfit : writer.fittingPrefix batch consumed with
    | .error e => (.error e, writer)
    | .ok 0 =>
      match _hpublish : publishBuffer zstd writer with
      | (.error e, next) => (.error e, next)
      | (.ok (), next) => appendFrom batch consumed next
    | .ok (count + 1) =>
      let stop := consumed + (count + 1)
      let pushed := { writer with
        buffer := writer.buffer.push writer.schema (batch.slice consumed stop) }
      match publishIfComplete zstd pushed with
      | (.error e, next) => (.error e, next)
      | (.ok (), next) => appendFrom batch stop next
  else
    (.ok (), writer)
termination_by (batch.rowCount - consumed, writer.buffer.rows)
decreasing_by
  · have hpos := rows_pos_of_fittingPrefix _hmore _hfit
    have hzero := rows_eq_zero_of_publishBuffer zstd _hpublish
    apply Prod.Lex.right
    omega
  · apply Prod.Lex.left
    omega

/-- The checks an append makes of the whole batch before it buffers any of it. -/
def checkBatch (writer : Writer) (batch : RecordBatch) : Result Unit := do
  failIf (batch.schema ≠ writer.schema)
    (Write.invalidBatch "the batch schema does not match the writer schema")
  failIf (batch.rowCount = 0) (Write.invalidBatch "an Acta data block cannot be empty")
  Write.validateBatchInput writer.schema batch

/-- Take in a checked batch.  A batch that fits whole is moved into the buffer. -/
def appendChecked (batch : RecordBatch) : WriterStep := fun writer ↦
  match writer.fittingPrefix batch 0 with
  | .error e => (.error e, writer)
  | .ok fitting =>
    if fitting = batch.rowCount then
      publishIfComplete zstd { writer with buffer := writer.buffer.push writer.schema batch }
    else
      appendFrom zstd batch 0 writer

/-- Append one nonempty batch to the bounded block buffer. -/
def append (batch : RecordBatch) : WriterStep :=
  ensureHealthy.andThen fun writer ↦
    match writer.checkBatch batch with
    | .error e => (.error e, writer)
    | .ok () => appendChecked zstd batch writer

/-- Publish buffered rows as a data frame and flush the file handle. -/
def flush : WriterStep :=
  ensureHealthy.andThen ((publishBuffer zstd).andThen requestSink)

/-- Everything published so far is durable. -/
def markDurable : WriterStep := fun writer ↦
  (.ok (),
    { writer with durableRows := writer.publishedRows, durableBytes := writer.publishedBytes })

/-- Flush and request durable storage for all bytes written so far. -/
def sync : WriterStep :=
  (flush zstd).andThen (requestSink.andThen markDurable)

/-- The current buffered, published, durable and total accounting. -/
def accounting (writer : Writer) : WriteAccounting where
  bufferedRows := writer.buffer.rows
  bufferedBytes := writer.buffer.frameBytes
  publishedRows := writer.publishedRows
  publishedBytes := writer.publishedBytes
  durableRows := writer.durableRows
  durableBytes := writer.durableBytes
  totalRows := saturatingAdd writer.publishedRows writer.buffer.rows
  totalBytes := saturatingAdd writer.publishedBytes writer.buffer.frameBytes

/-- The release of the lock, which does not poison the writer it ends. -/
def releaseLock : WriterStep := fun writer ↦
  match writer.sink.request with
  | (.ok (), sink) => (.ok (), { writer with sink })
  | (.error message, sink) => (.error (fileIo message none), { writer with sink })

def summary (writer : Writer) : WriteSummary where
  rowsWritten := writer.publishedRows
  blocksWritten := writer.blocksWritten
  bytesWritten := writer.state.fileLength
  lastSequence := if writer.blocksWritten ≠ 0 then some (writer.state.nextSequence - 1) else none
  accounting := writer.accounting

/-- Flush, synchronize and end the writer. -/
def finish (writer : Writer) : Result WriteSummary × Writer :=
  match (sync zstd).andThen releaseLock writer with
  | (.error e, writer) => (.error e, writer)
  | (.ok (), writer) => (.ok writer.summary, writer)

/-! ### Opening -/

/-- Enter the one append engine used by both public initialization paths. -/
def fromAppendSession (sink : Sink) (schema : Schema) (options : WriterOptions)
    (state : AppendState) (h : 0 < options.rowBlockTarget) : Writer where
  sink := sink
  schema := schema
  options := options
  state := state
  buffer := BlockBuffer.newWithStatistics schema.columns.length options.statistics
  publishedRows := 0
  publishedBytes := 0
  durableRows := 0
  durableBytes := 0
  blocksWritten := 0
  poisoned := false
  rowBlockTarget_pos := h

/-- A writer over checked options. -/
def startSession (sink : Sink) (schema : Schema) (options : WriterOptions) (state : AppendState) :
    Result Writer :=
  if h : 0 < options.rowBlockTarget then
    .ok (fromAppendSession sink schema options state h)
  else
    .error (Write.invalidOption "row block target must be greater than zero")

/-- Write the prologue and the schema frame of a new file. -/
def writeInitial (sink : Sink) (prologue schemaFrame : Bytes) : Result Unit × Sink :=
  match sink.writeAll prologue with
  | (.error message, sink) => (.error (fileIo message (some 0)), sink)
  | (.ok (), sink) =>
    match sink.writeAll schemaFrame with
    | (.error message, sink) => (.error (fileIo message (some prologueSize)), sink)
    | (.ok (), sink) => (.ok (), sink)

/-- The bytes a new file starts with. -/
def initialBytes (schema : Schema) (options : WriterOptions) : Result (Bytes × Bytes) := do
  let featureFlags := if options.rowIds then rowIdsFeature else 0
  let schemaFrame ← Write.buildSchemaFrame schema
  return (Write.buildPrologue featureFlags, schemaFrame)

/-- Everything checked before a new file exists. -/
def checkCreate (schema : Schema) (options : WriterOptions) : Result (Bytes × Bytes) := do
  Write.validateSchema schema
  Write.validateOptions zstd options
  Write.validateEncoding schema options.encoding
  initialBytes schema options

/-- Exclusively create a path, write its prologue and schema frame, and return a writer, with what
the path holds afterwards.  A file that cannot be initialized is removed again. -/
def create (disk : Disk) (schema : Schema) (options : WriterOptions) :
    Result Writer × Option Bytes :=
  match checkCreate zstd schema options, disk.contents with
  | .error e, _ => (.error e, disk.contents)
  | .ok _, some _ => (.error (fileIo "File exists (os error 17)" none), disk.contents)
  | .ok (prologue, schemaFrame), none =>
    match acquireWriterLock disk with
    | .error e => (.error e, none)
    | .ok () =>
      match writeInitial { stored := [], replies := disk.replies } prologue schemaFrame with
      | (.error e, _) => (.error e, none)
      | (.ok (), sink) =>
        (startSession sink schema options
          (AppendState.new (prologue.length + schemaFrame.length)), some sink.stored)

/-- The guards that the prologue and the schema frame answer, before the walk reads the rest. -/
def checkReopen (scan : FileScan) (expectedSchema : Option Schema) (options : WriterOptions) :
    Result Unit := do
  failIf (expectedSchema.any (· ≠ scan.schema))
    ((Error.schemaMismatch "the expected schema does not match the existing file").withContext
      .header)
  Write.validateSchema scan.schema
  Write.validateEncoding scan.schema options.encoding
  failIf (options.rowIds ≠ scan.rowIdsEnabled)
    (Write.invalidOption "WriterOptions::row_ids must match the existing file")

/-- Discover where a file can be appended to.  Nothing here writes. -/
def discover (disk : Disk) (file : Bytes) (expectedSchema : Option Schema) (limits : Limits)
    (options : WriterOptions) : Result (Schema × AppendState) := do
  let scan ← FileScan.fromFile file limits
  checkReopen scan expectedSchema options
  let (walk, ()) ← scan.walkDataFrames (fun _ _ _ ↦ .ok ()) ()
  failIf (walk.incompleteTail = true)
    ((Error.incompleteTail
      "cannot append to a file with an incomplete tail; recover it explicitly first"
      (some walk.lastGoodOffset)).withContext .file)
  let fileLength ← (disk.reportedLength file).mapError (fileIo · none)
  failIf (fileLength ≠ scan.fileSize)
    (fileIo "the file changed while it was being opened for append" (some fileLength))
  return (scan.schema, { fileLength, nextSequence := walk.nextSequence,
                         nextRowId := walk.nextRowId.getD firstBaseRowId })

/-- Reopen what a path holds for appending, with what the path holds afterwards. -/
def openInternal (disk : Disk) (expectedSchema : Option Schema) (limits : Limits)
    (options : WriterOptions) : Result Writer × Option Bytes :=
  let opened : Result Writer := do
    Write.validateOptions zstd options
    let file ← okOr disk.contents (fileIo "No such file or directory (os error 2)" none)
    acquireWriterLock disk
    let (schema, state) ← discover disk file expectedSchema limits options
    startSession { stored := file, replies := disk.replies } schema options state
  (opened, disk.contents)

/-- Open an existing complete file and continue appending to it. -/
def «open» (disk : Disk) (options : WriterOptions) : Result Writer × Option Bytes :=
  openInternal zstd disk none Limits.default options

/-- Open an existing file and require its schema. -/
def openWithSchema (disk : Disk) (expectedSchema : Schema) (options : WriterOptions) :
    Result Writer × Option Bytes :=
  openInternal zstd disk (some expectedSchema) Limits.default options

/-- Open an existing file under explicit limits. -/
def openWithLimits (disk : Disk) (limits : Limits) (options : WriterOptions) :
    Result Writer × Option Bytes :=
  openInternal zstd disk none limits options

end Writer

end Acta
