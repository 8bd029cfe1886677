import Acta.Failures
import Acta.Write.Splitting

/-!
# When a refused batch leaves no trace

A batch that is refused as an invalid argument should leave the writer as it was.  The checks that
are made of the whole batch up front see to that, but two refusals are only met on the way: a row
may not fit an empty block, and a block may not be described by its transform.  The rows before it
are then buffered or written already.

The blocks of an append are known before it starts: they are the buffered rows and the rows of the
batch, cut by the rules of an assembly (`blocksToCome`).  Whether a block goes out is a question to
its rows, the options, the sink and the counters (`GoesOut`).  So a batch that is refused behind
other blocks is told from the writer and the batch (`RefusedBehind`), and these are the batches
that leave a trace (`unchanged_iff_not_refusedBehind`).
-/

namespace Acta

open Machine Wire

/-! ### The frame of a block -/

/-- Rows, as an encoder takes them, that are the rows of a block. -/
structure BlockRows.Holds (schema : Schema) (rows : BlockRows) (block : List Row) : Prop where
  isOf : rows.Of schema
  rows_eq : rows.rows = block
  rowCount_eq : rows.rowCount = block.length

/-- What the encoder makes of the rows of a block at a position. -/
def Frames (zstd : Zstd) (schema : Schema) (options : WriterOptions) (position : Position)
    (block : List Row) (result : Result Bytes) : Prop :=
  ∃ rows : BlockRows, rows.Holds schema block ∧
    Write.buildDataFrameWithStatistics zstd schema rows options
      (position.baseRowId options.rowIds) position.sequence = result

/-- The encoder makes one thing of the rows of a block. -/
theorem Frames.unique {zstd : Zstd} {schema : Schema} {options : WriterOptions}
    {position : Position} {block : List Row} {result result' : Result Bytes}
    (h : Frames zstd schema options position block result)
    (h' : Frames zstd schema options position block result') : result = result' := by
  obtain ⟨rows, hrows, rfl⟩ := h
  obtain ⟨rows', hrows', rfl⟩ := h'
  exact hrows.isOf.buildDataFrame_eq hrows'.isOf
    (hrows.rowCount_eq.trans hrows'.rowCount_eq.symm) (hrows.rows_eq.trans hrows'.rows_eq.symm) _ _

namespace Writer

/-! ### The blocks of an append -/

/-- The blocks that the buffered rows and the rows of a batch are cut into.  The last one stays in
the buffer, unless it is full. -/
def blocksToCome (start : Writer) (batch : RecordBatch) : List (List Row) :=
  (assemblyRules start.schema start.options).cut start.buffer.blockRows.rows
    (Cutting.marks batch.rows)

/-- A block can begin behind `sent` others: with rows that were buffered, or with a row that fits an
empty block. -/
def CanBegin (start : Writer) (sent : ℕ) (block : List Row) : Prop :=
  (sent = 0 ∧ start.buffer.isEmpty = false) ∨
    ∀ row ∈ block.head?,
      (priceOfRows start.schema start.options.statistics [row]).withinFormatLimits 1 = true

/-- The counters of a writer. -/
def counters (writer : Writer) : Advanced where
  fileLength := writer.state.fileLength
  blocksWritten := writer.blocksWritten
  nextSequence := writer.state.nextSequence
  nextRowId := writer.state.nextRowId
  publishedRows := writer.publishedRows
  publishedBytes := writer.publishedBytes

/-- Where the counters have a block written. -/
def Advanced.position (counters : Advanced) : Position where
  sequence := counters.nextSequence
  rowId := counters.nextRowId

/-- The counters after a block. -/
def Advanced.after (counters : Advanced) (schema : Schema) (options : WriterOptions)
    (block : List Row) (frame : Bytes) : Advanced where
  fileLength := counters.fileLength + frame.length
  blocksWritten := counters.blocksWritten + 1
  nextSequence := counters.nextSequence + 1
  nextRowId := if options.rowIds then counters.nextRowId + block.length else counters.nextRowId
  publishedRows := counters.publishedRows + block.length
  publishedBytes :=
    counters.publishedBytes + (priceOfRows schema options.statistics block).frameBytes

variable (zstd : Zstd)

/-- A block goes out behind `sent` others: it can begin, its frame is built, the sink takes it, and
no counter runs past its range. -/
structure GoesOut (start : Writer) (sent : ℕ) (counters : Advanced) (block : List Row)
    (next : Advanced) : Prop where
  canBegin : CanBegin start sent block
  granted : start.sink.replies (start.sink.calls + sent) = .done
  frames : ∃ frame,
    Frames zstd start.schema start.options counters.position block (.ok frame) ∧
      next = counters.after start.schema start.options block frame
  inRange : next.InRange start.options.rowIds

/-- Blocks go out one after another, and take the counters to `last`. -/
def GoOut (start : Writer) : ℕ → Advanced → List (List Row) → Advanced → Prop
  | _, counters, [], last => last = counters
  | sent, counters, block :: blocks, last =>
    ∃ next, GoesOut zstd start sent counters block next ∧ GoOut start (sent + 1) next blocks last

/-- A writer left as it was found, with no byte written. -/
structure Unchanged (writer left : Writer) : Prop where
  buffer : left.buffer = writer.buffer
  state : left.state = writer.state
  publishedRows : left.publishedRows = writer.publishedRows
  publishedBytes : left.publishedBytes = writer.publishedBytes
  durableRows : left.durableRows = writer.durableRows
  durableBytes : left.durableBytes = writer.durableBytes
  blocksWritten : left.blocksWritten = writer.blocksWritten
  poisoned : left.poisoned = writer.poisoned
  stored : left.sink.stored = writer.sink.stored

/-- A block is refused as an invalid argument once the append has left its mark: it begins with a
row that no empty block holds, behind other blocks, or it is due to go out with rows of the batch,
and the encoder refuses it. -/
inductive RefusedAt (start : Writer) (ahead : List (List Row)) (counters : Advanced)
    (block : List Row) (later : List (List Row)) : Prop
  | unwritable (hbehind : ahead ≠ []) (hunwritable : ¬CanBegin start ahead.length block)
  | undescribed {e : Error} (hbehind : ahead ≠ [] ∨ block ≠ start.buffer.blockRows.rows)
      (hdue : later ≠ [] ∨ (assemblyRules start.schema start.options).full block = true)
      (hbegins : CanBegin start ahead.length block)
      (hrefused : Frames zstd start.schema start.options counters.position block (.error e))
      (hkind : e.kind = .invalidArgument)

/-- **A batch is refused behind what it has left**: all the blocks ahead of a refused one go out. -/
def RefusedBehind (batch : RecordBatch) (start : Writer) : Prop :=
  ∃ ahead block later counters, blocksToCome start batch = ahead ++ block :: later ∧
    GoOut zstd start 0 start.counters ahead counters ∧
      RefusedAt zstd start ahead counters block later

variable {zstd} {start writer next : Writer}

/-! ### Blocks that go out -/

theorem goOut_append {sent : ℕ} {counters last : Advanced} {ahead blocks : List (List Row)} :
    GoOut zstd start sent counters (ahead ++ blocks) last ↔
      ∃ middle, GoOut zstd start sent counters ahead middle ∧
        GoOut zstd start (sent + ahead.length) middle blocks last := by
  induction ahead generalizing sent counters with
  | nil => exact ⟨fun h ↦ ⟨counters, rfl, h⟩, fun ⟨_, hsame, h⟩ ↦ hsame ▸ h⟩
  | cons block ahead ih =>
    have hlength : sent + (block :: ahead).length = sent + 1 + ahead.length := by
      rw [List.length_cons]
      omega
    simp only [List.cons_append, GoOut, ih, hlength]
    exact ⟨fun ⟨next, hblock, middle, hahead, hblocks⟩ ↦ ⟨middle, ⟨next, hblock, hahead⟩, hblocks⟩,
      fun ⟨middle, ⟨next, hblock, hahead⟩, hblocks⟩ ↦ ⟨next, hblock, middle, hahead, hblocks⟩⟩

theorem GoesOut.unique {sent : ℕ} {counters next next' : Advanced} {block : List Row}
    (h : GoesOut zstd start sent counters block next)
    (h' : GoesOut zstd start sent counters block next') : next = next' := by
  obtain ⟨frame, hframe, rfl⟩ := h.frames
  obtain ⟨frame', hframe', rfl⟩ := h'.frames
  rw [Except.ok.inj (hframe.unique hframe')]

/-- Blocks that go out take the counters to one place. -/
theorem GoOut.unique {sent : ℕ} {counters last last' : Advanced} {blocks : List (List Row)}
    (h : GoOut zstd start sent counters blocks last)
    (h' : GoOut zstd start sent counters blocks last') : last = last' := by
  induction blocks generalizing sent counters with
  | nil => exact Eq.trans h h'.symm
  | cons block blocks ih =>
    obtain ⟨next, hblock, hblocks⟩ := h
    obtain ⟨next', hblock', hblocks'⟩ := h'
    rw [hblock.unique hblock'] at hblocks
    exact ih hblocks hblocks'

theorem CanBegin.append {sent : ℕ} {block : List Row} (h : CanBegin start sent block)
    (hne : block ≠ []) (more : List Row) : CanBegin start sent (block ++ more) := by
  refine h.imp_right fun hfirst row hrow ↦ hfirst row ?_
  rwa [List.head?_append_of_ne_nil _ hne] at hrow

/-! ### How far an append goes -/

/-- The append has begun: it has taken rows of the batch in, or published a block. -/
def Begun (consumed : ℕ) (blocks : List PublishedBlock) : Prop :=
  0 < consumed ∨ blocks ≠ []

/-- The writer has gone on: it has published a block, or it has only taken rows in. -/
def GoesOn (start writer : Writer) : Prop :=
  start.state.nextSequence < writer.state.nextSequence ∨
    start.state.nextSequence = writer.state.nextSequence ∧ start.buffer.rows < writer.buffer.rows

theorem GoesOn.not_unchanged {start writer : Writer} (h : GoesOn start writer) :
    ¬Unchanged start writer := by
  intro hunchanged
  have hstate : writer.state.nextSequence = start.state.nextSequence := by rw [hunchanged.state]
  have hrows : writer.buffer.rows = start.buffer.rows := by rw [hunchanged.buffer]
  rcases h with hsequence | ⟨-, hgrown⟩ <;> omega

/-- A written block advances the sequence. -/
theorem Wrote.nextSequence {writer next : Writer} {frame : Bytes} {counters : Advanced}
    (h : Wrote zstd writer frame counters next) :
    next.state.nextSequence = writer.state.nextSequence + 1 := by
  obtain ⟨-, -, hsequence, -⟩ := advance_eq_some h.advances
  rw [h.next_eq]
  exact hsequence

/-- Publishing a nonempty buffer goes on from where the writer was. -/
theorem nextSequence_lt_of_publishBuffer {writer next : Writer} (hrows : 0 < writer.buffer.rows)
    (h : publishBuffer zstd writer = (.ok (), next)) :
    writer.state.nextSequence < next.state.nextSequence ∧ writer.published zstd ≠ [] := by
  obtain ⟨hempty, -, -⟩ | ⟨frame, counters, hwrote, hpublished⟩ := publishBuffer_eq_ok zstd h
  · simp only [BlockBuffer.isEmpty, decide_eq_true_eq] at hempty
    omega
  · rw [hwrote.nextSequence]
    exact ⟨by omega, by rw [hpublished]; exact List.cons_ne_nil _ _⟩

/-- **An append that has begun has gone on**, and one that has not is still at its first writer. -/
theorem begun_or_eq_start {batch : RecordBatch} {start writer : Writer} {stage : AppendStage}
    {consumed : ℕ} {blocks : List PublishedBlock}
    (h : Appends zstd batch start stage consumed blocks writer) :
    (Begun consumed blocks ∧ GoesOn start writer ∧
        (stage = .pushed → 0 < writer.buffer.rows)) ∨
      (stage = .filling ∧ consumed = 0 ∧ blocks = [] ∧ writer = start) := by
  -- A block that is published advances the sequence, and rows that are taken in grow the buffer.
  induction h with
  | start => exact .inr ⟨rfl, rfl, rfl, rfl⟩
  | full before hmore hfull hpublish ih =>
    have hrows := rows_pos_of_fittingPrefix hmore hfull
    obtain ⟨hlater, hblock⟩ := nextSequence_lt_of_publishBuffer hrows hpublish
    refine .inl ⟨.inr (by simp [hblock]), .inl ?_, fun h ↦ by cases h⟩
    obtain ⟨-, hgone | ⟨hsame, -⟩, -⟩ | ⟨-, -, -, rfl⟩ := ih
    · omega
    · omega
    · exact hlater
  | @take consumed count blocks writer before hmore hfits ih =>
    have hle := add_le_of_fittingPrefix hmore.le hfits
    have hcount : (batch.slice consumed (consumed + (count + 1))).rowCount = count + 1 := by
      rw [RecordBatch.rowCount_slice hle]
      omega
    have hrows : (writer.push (batch.slice consumed (consumed + (count + 1)))).buffer.rows =
        writer.buffer.rows + (batch.slice consumed (consumed + (count + 1))).rowCount := rfl
    refine .inl ⟨.inl (by omega), ?_, fun _ ↦ by omega⟩
    obtain ⟨-, hgone | ⟨hsame, hgrown⟩, -⟩ | ⟨-, -, -, rfl⟩ := ih
    · exact .inl hgone
    · exact .inr ⟨hsame, by omega⟩
    · exact .inr ⟨rfl, by omega⟩
  | complete before hpublish ih =>
    obtain ⟨hbegun, hgone, hrows⟩ | ⟨hstage, -⟩ := ih
    · refine .inl ⟨?_, ?_, fun h ↦ by cases h⟩
      · rcases hbegun with hconsumed | hblocks
        · exact .inl hconsumed
        · exact .inr (by simp [hblocks])
      · rcases publishIfComplete_eq_ok zstd hpublish with rfl | hpublish
        · exact hgone
        · have hlater := (nextSequence_lt_of_publishBuffer (hrows rfl) hpublish).1
          rcases hgone with hgone | ⟨hsame, -⟩ <;> exact .inl (by omega)
    · cases hstage

theorem kind_unwritableRowError (writer : Writer) (batch : RecordBatch) (start : ℕ) :
    (writer.unwritableRowError batch start).kind = .invalidArgument := by
  unfold unwritableRowError
  dsimp only
  split <;> rfl

theorem kind_of_fittingPrefix {writer : Writer} {batch : RecordBatch} {start : ℕ} {e : Error}
    (h : writer.fittingPrefix batch start = .error e) : e.kind = .invalidArgument := by
  unfold fittingPrefix at h
  dsimp only at h
  split at h
  · cases h
  · split at h
    · cases h
      exact kind_unwritableRowError _ _ _
    · cases h

/-- A publication refused as an invalid argument is one whose frame was refused. -/
theorem bufferedFrame_of_publishBuffer {writer left : Writer} {e : Error}
    (h : publishBuffer zstd writer = (.error e, left)) (hkind : e.kind = .invalidArgument) :
    writer.bufferedFrame zstd = .error e ∧ left = writer := by
  obtain ⟨-, hrefused | ⟨-, -, hio | hlimit⟩⟩ := publishBuffer_eq_error zstd h
  · exact hrefused
  · rw [hkind] at hio
    cases hio
  · rw [hkind] at hlimit
    cases hlimit

theorem publishBuffer_of_refused {writer : Writer} {e : Error} (hrows : 0 < writer.buffer.rows)
    (h : writer.bufferedFrame zstd = .error e) :
    publishBuffer zstd writer = (.error e, writer) := by
  have hfull : ¬writer.buffer.isEmpty = true := by
    simp only [BlockBuffer.isEmpty, decide_eq_true_eq]
    omega
  rw [publishBuffer, if_neg hfull, h]

variable {batch : RecordBatch} {stage : AppendStage} {consumed : ℕ} {blocks : List PublishedBlock}

/-- An append leaves its first writer with the first block it publishes, or the first row it takes
in. -/
theorem goesOn_or_eq_start (h : Appends zstd batch start stage consumed blocks writer) :
    ((blocks.map (·.rows.rows) ≠ [] ∨
          writer.buffer.blockRows.rows ≠ start.buffer.blockRows.rows) ∧ GoesOn start writer) ∨
      (blocks.map (·.rows.rows) = [] ∧ writer = start) := by
  rw [Ne, List.map_eq_nil_iff]
  obtain ⟨hbegun, hgone, -⟩ | ⟨-, -, hblocks, hsame⟩ := begun_or_eq_start h
  · refine .inl ⟨or_iff_not_imp_left.mpr fun hblocks hrows ↦ ?_, hgone⟩
    rw [not_not] at hblocks
    have hconsumed : 0 < consumed := hbegun.resolve_right (not_not.mpr hblocks)
    have hle := consumed_le_of_appends zstd h
    have htaken := (rows_of_appends h).1
    rw [hblocks, List.flatMap_nil, List.nil_append, hrows, List.self_eq_append_right,
      List.take_eq_nil_iff, ← List.length_eq_zero_iff, RecordBatch.length_rows] at htaken
    omega
  · exact .inr ⟨hblocks, hsame⟩

/-- Where nothing was published and nothing is buffered, nothing was buffered at the start. -/
theorem rows_eq_nil_of_appends (h : Appends zstd batch start stage consumed blocks writer)
    (hblocks : blocks.map (·.rows.rows) = []) (hrows : writer.buffer.blockRows.rows = []) :
    start.buffer.blockRows.rows = [] := by
  have hkept := (rows_of_appends h).1
  rw [List.map_eq_nil_iff.mp hblocks, hrows, List.flatMap_nil, List.nil_append] at hkept
  exact (List.append_eq_nil_iff.mp hkept.symm).1

/-- Where an append is about to take rows in, and has taken some, the buffer is empty or open. -/
theorem not_isComplete_of_appends (h : Appends zstd batch start .filling consumed blocks writer)
    (hconsumed : 0 < consumed) (hfull : writer.buffer.isEmpty = false) : ¬writer.IsComplete := by
  have hrows {reached : Writer} (hpublish : publishBuffer zstd reached = (.ok (), writer)) :
      False := by
    rw [BlockBuffer.isEmpty, rows_eq_zero_of_publishBuffer zstd hpublish] at hfull
    cases hfull
  cases h with
  | start => exact absurd hconsumed (Nat.lt_irrefl 0)
  | full before hmore hfits hpublish => exact (hrows hpublish).elim
  | complete before hpublish =>
    rw [publishIfComplete_eq] at hpublish
    split at hpublish
    case isTrue => exact (hrows hpublish).elim
    case isFalse hopen =>
      cases hpublish
      exact hopen

/-! ### What holds on the way of an append -/

/-- The rows of a buffer, as the encoder takes them. -/
theorem Assembled.frames (h : Assembled writer) :
    Frames zstd writer.schema writer.options writer.counters.position writer.buffer.blockRows.rows
      (writer.bufferedFrame zstd) :=
  ⟨writer.buffer.blockRows,
    ⟨fun chunk hchunk ↦ (h.checked chunk hchunk).declares, rfl, h.length_rows.symm⟩, rfl⟩

/-- The counters of a publication are told from the rows of the buffer. -/
theorem Assembled.counted_eq (h : Assembled writer) (hfull : writer.buffer.isEmpty = false)
    (frame : Bytes) :
    writer.counted frame.length writer.buffer.frameBytes writer.buffer.rows =
      writer.counters.after writer.schema writer.options writer.buffer.blockRows.rows frame := by
  rw [counted, Advanced.after, BlockBuffer.frameBytes, h.size_eq hfull, h.length_rows]
  rfl

/-- **A row fits an empty buffer** where a block of this row alone is within the format limits. -/
theorem Assembled.takes_one_iff (h : Assembled writer) (hempty : writer.buffer.isEmpty = true)
    (hbatch : batch.Checked writer.schema) {row : Row} (hrow : batch.rows[consumed]? = some row) :
    writer.Takes batch consumed 1 ↔
      (priceOfRows writer.schema writer.options.statistics [row]).withinFormatLimits 1 = true := by
  obtain ⟨hindex, rfl⟩ := List.getElem?_eq_some_iff.mp hrow
  rw [RecordBatch.length_rows] at hindex
  replace hindex : consumed + 1 ≤ batch.rowCount := hindex
  have hpushed : Assembled (writer.push (batch.slice consumed (consumed + 1))) :=
    h.push (hbatch.slice (Nat.lt_succ_self consumed) hindex)
  have hrows : (writer.push (batch.slice consumed (consumed + 1))).buffer.blockRows.rows =
      [batch.rows[consumed]] := by
    rw [rows_push_slice hindex, h.rows_eq_nil_iff.mpr hempty, List.nil_append, slice,
      List.drop_eq_getElem_cons (by rwa [RecordBatch.length_rows])]
    rfl
  have hcount : (writer.push (batch.slice consumed (consumed + 1))).buffer.rows = 1 := by
    rw [← hpushed.length_rows, hrows, List.length_singleton]
  have hsize := hpushed.size_eq (decide_eq_false (by omega))
  rw [hrows] at hsize
  rw [Takes, and_iff_right hindex, forall_prop_of_true Nat.one_pos]
  constructor
  · intro hbounded
    have hwithin := hbounded.withinFormatLimits
    rwa [hcount, hsize] at hwithin
  · intro hwithin
    refine ⟨?_, ?_, .inr hcount⟩
    · rw [hcount]
      exact writer.rowBlockTarget_pos
    · rw [hcount, hsize]
      exact hwithin

/-- Where a buffer is published, the sink has taken its frame. -/
theorem granted_of_publishBuffer (hfull : writer.buffer.isEmpty = false)
    (h : publishBuffer zstd writer = (.ok (), next)) :
    writer.sink.replies writer.sink.calls = .done := by
  rw [publishBuffer, hfull, if_neg Bool.false_ne_true] at h
  split at h
  · cases h
  · rw [writeFrame, Sink.writeAll] at h
    rcases hreply : writer.sink.replies writer.sink.calls with - | ⟨stored, message⟩
    · rfl
    · rw [hreply] at h
      cases h

variable (zstd) in
/-- **Where an append stands** behind the blocks it has published. -/
structure Stands (start : Writer) (ahead : List (List Row)) (writer : Writer) : Prop where
  schema_eq : writer.schema = start.schema
  options_eq : writer.options = start.options
  assembled : Assembled writer
  goOut : GoOut zstd start 0 start.counters ahead writer.counters
  replies_eq : writer.sink.replies = start.sink.replies
  calls_eq : writer.sink.calls = start.sink.calls + ahead.length
  canBegin : writer.buffer.isEmpty = false →
    CanBegin start ahead.length writer.buffer.blockRows.rows

theorem Assembled.stands (h : Assembled start) : Stands zstd start [] start where
  schema_eq := rfl
  options_eq := rfl
  assembled := h
  goOut := rfl
  replies_eq := rfl
  calls_eq := rfl
  canBegin hfull := .inl ⟨rfl, hfull⟩

namespace Stands

variable {ahead : List (List Row)}

theorem frames (h : Stands zstd start ahead writer) :
    Frames zstd start.schema start.options writer.counters.position writer.buffer.blockRows.rows
      (writer.bufferedFrame zstd) := by
  rw [← h.schema_eq, ← h.options_eq]
  exact h.assembled.frames

/-- **A publication sends the block of the buffer**, if there is one. -/
theorem publishBuffer (h : Stands zstd start ahead writer)
    (hpublish : Writer.publishBuffer zstd writer = (.ok (), next)) :
    Stands zstd start (ahead ++ (writer.published zstd).map (·.rows.rows)) next := by
  obtain ⟨-, rfl, hpublished⟩ | ⟨frame, counters, hwrote, hpublished⟩ :=
    publishBuffer_eq_ok zstd hpublish
  · rwa [hpublished, List.map_nil, List.append_nil]
  have hassembled := h.assembled.of_publishBuffer zstd hpublish
  have hempty : next.buffer.isEmpty = true :=
    decide_eq_true (rows_eq_zero_of_publishBuffer zstd hpublish)
  obtain ⟨hschema, hoptions⟩ := kept_of_publishBuffer zstd hpublish
  -- The block that goes out is the one of the buffer, at the position of the counters.
  obtain ⟨hcounters, hrange⟩ := advance_iff.mp hwrote.advances
  rw [h.assembled.counted_eq hwrote.nonempty, h.schema_eq, h.options_eq] at hcounters
  rw [h.options_eq] at hrange
  have hgranted := granted_of_publishBuffer hwrote.nonempty hpublish
  rw [h.replies_eq, h.calls_eq] at hgranted
  have hframe := h.frames
  rw [hwrote.builds] at hframe
  have hout : GoesOut zstd start ahead.length writer.counters writer.buffer.blockRows.rows
      counters := ⟨h.canBegin hwrote.nonempty, hgranted, ⟨frame, hframe, hcounters⟩, hrange⟩
  have hnext : next.counters = counters := by rw [hwrote.next_eq]; rfl
  rw [hpublished]
  refine ⟨hschema.trans h.schema_eq, hoptions.trans h.options_eq, hassembled, ?_, ?_, ?_, ?_⟩
  · refine goOut_append.mpr ⟨writer.counters, h.goOut, counters, ?_, hnext⟩
    rwa [Nat.zero_add]
  · rw [hwrote.next_eq]
    exact h.replies_eq
  · rw [hwrote.next_eq, List.length_append, ← Nat.add_assoc, ← h.calls_eq]
    rfl
  · intro hfull
    rw [hempty] at hfull
    cases hfull

/-- A block of the buffer that goes out is published. -/
theorem exists_publishes {last : Advanced} (h : Stands zstd start ahead writer)
    (hfull : writer.buffer.isEmpty = false)
    (hout : GoesOut zstd start ahead.length writer.counters writer.buffer.blockRows.rows last) :
    ∃ next, Writer.publishBuffer zstd writer = (.ok (), next) := by
  obtain ⟨frame, hframe, hlast⟩ := hout.frames
  have hbuilds := h.frames.unique hframe
  have hgranted := hout.granted
  rw [← h.replies_eq, ← h.calls_eq] at hgranted
  have hcounted := h.assembled.counted_eq hfull frame
  rw [h.schema_eq, h.options_eq, ← hlast] at hcounted
  have hadvance := advance_iff.mpr ⟨hcounted.symm, by rw [h.options_eq]; exact hout.inRange⟩
  obtain ⟨next, hpublish, -⟩ := exists_wrote zstd hfull hbuilds hgranted hadvance
  exact ⟨next, hpublish⟩

/-- The buffer has reached a target where its rows are a full block. -/
theorem isComplete_iff (h : Stands zstd start ahead writer)
    (hfull : writer.buffer.isEmpty = false) :
    writer.IsComplete ↔
      (assemblyRules start.schema start.options).full writer.buffer.blockRows.rows = true := by
  rw [← h.schema_eq, ← h.options_eq]
  exact h.assembled.isComplete_iff hfull

/-- Rows that are taken in go behind those that begin the block, or begin it. -/
theorem push {count : ℕ} (h : Stands zstd start ahead writer) (hbatch : batch.Checked start.schema)
    (htakes : writer.Takes batch consumed (count + 1)) :
    Stands zstd start ahead (writer.push (batch.slice consumed (consumed + (count + 1)))) := by
  have hrange := htakes.1
  rw [← h.schema_eq] at hbatch
  refine ⟨h.schema_eq, h.options_eq,
    h.assembled.push (hbatch.slice (by omega) hrange), h.goOut, h.replies_eq, h.calls_eq,
    fun _ ↦ ?_⟩
  rw [rows_push_slice hrange]
  rcases hempty : writer.buffer.isEmpty with - | -
  -- The rows that are buffered begin the block, whatever goes behind them.
  · refine (h.canBegin hempty).append ?_ _
    rw [Ne, h.assembled.rows_eq_nil_iff, hempty]
    exact Bool.false_ne_true
  -- The first row that is taken in begins it, and the buffer was empty when it was priced.
  · refine .inr fun row hrow ↦ ?_
    rw [h.assembled.rows_eq_nil_iff.mpr hempty, List.nil_append, List.head?_eq_getElem?,
      getElem?_slice batch.rows (Nat.succ_pos count)] at hrow
    have hone : writer.Takes batch consumed 1 := htakes.of_le h.assembled.statistics_eq (by omega)
    rw [← h.schema_eq, ← h.options_eq]
    exact (h.assembled.takes_one_iff hempty hbatch hrow).mp hone

end Stands

/-- **An append stands behind the blocks it has published.** -/
theorem Assembled.stands_of_appends (h : Assembled start) (hbatch : batch.Checked start.schema)
    (happends : Appends zstd batch start stage consumed blocks writer) :
    Stands zstd start (blocks.map (·.rows.rows)) writer := by
  induction happends with
  | start => exact h.stands
  | full before hmore hfull hpublish ih =>
    rw [List.map_append]
    exact ih.publishBuffer hpublish
  | take before hmore hfits ih =>
    have hdeclares := hbatch.declares
    rw [← ih.schema_eq] at hdeclares
    exact ih.push hbatch
      (ih.assembled.isGreatest_of_fittingPrefix hdeclares hmore.le hfits).1
  | complete before hpublish ih =>
    rw [publishIfComplete_eq] at hpublish
    rw [publishedIfComplete, List.map_append]
    split at hpublish
    case isTrue hcomplete =>
      rw [if_pos hcomplete]
      exact ih.publishBuffer hpublish
    case isFalse hopen =>
      cases hpublish
      rwa [if_neg hopen, List.map_nil, List.append_nil]

/-! ### Where an append ends -/

variable (zstd) in
/-- **Where the append of a checked batch ends**, among the blocks to come: behind all that go out,
before a block that cannot begin, or at a block that is not published. -/
inductive AppendEnds (batch : RecordBatch) (start : Writer) : Result Unit → Writer → Prop
  | taken {ahead : List (List Row)} {writer : Writer} (hstands : Stands zstd start ahead writer)
      (hblocks : blocksToCome start batch = ahead ++
        (assemblyRules start.schema start.options).cut writer.buffer.blockRows.rows [])
      (hopen : writer.buffer.isEmpty = false → ¬writer.IsComplete) :
      AppendEnds batch start (.ok ()) writer
  | unwritable {ahead later : List (List Row)} {block : List Row} {writer : Writer} {e : Error}
      (hstands : Stands zstd start ahead writer)
      (hblocks : blocksToCome start batch = ahead ++ block :: later)
      (hunwritable : ¬CanBegin start ahead.length block) (hkind : e.kind = .invalidArgument)
      (htrace : (ahead ≠ [] ∧ GoesOn start writer) ∨ (ahead = [] ∧ writer = start)) :
      AppendEnds batch start (.error e) writer
  | unpublished {ahead later : List (List Row)} {writer left : Writer} {e : Error}
      (hstands : Stands zstd start ahead writer)
      (hblocks : blocksToCome start batch = ahead ++ writer.buffer.blockRows.rows :: later)
      (hfull : writer.buffer.isEmpty = false)
      (hdue : later ≠ [] ∨
        (assemblyRules start.schema start.options).full writer.buffer.blockRows.rows = true)
      (hpublish : publishBuffer zstd writer = (.error e, left))
      (htrace : ((ahead ≠ [] ∨ writer.buffer.blockRows.rows ≠ start.buffer.blockRows.rows) ∧
        GoesOn start writer) ∨ (ahead = [] ∧ writer = start)) :
      AppendEnds batch start (.error e) left

/-- The blocks to come, from where an append stands. -/
theorem Assembled.blocksToCome_eq (h : Assembled start) (hbatch : batch.Checked start.schema)
    (happends : Appends zstd batch start stage consumed blocks writer) :
    blocksToCome start batch = blocks.map (·.rows.rows) ++
      toCome (assemblyRules start.schema start.options) stage writer.buffer.blockRows.rows
        (batch.rows.drop consumed) [] := by
  have hcut := h.cut_of_appends hbatch happends []
  rwa [List.append_nil] at hcut

/-- The rows left of a batch go on in a new block with the first of them. -/
theorem exists_cut_rows (rules : Cutting.Rules Row) (hmore : consumed < batch.rowCount) :
    ∃ row more later, batch.rows[consumed]? = some row ∧
      rules.cut [] (Cutting.marks (batch.rows.drop consumed) ++ []) = (row :: more) :: later := by
  have hindex : consumed < batch.rows.length := by rwa [RecordBatch.length_rows]
  rw [List.drop_eq_getElem_cons hindex, List.append_nil, Cutting.marks]
  obtain ⟨more, later, hcut⟩ := @Cutting.exists_cut_nil_eq_cons _ rules batch.rows[consumed]
    (batch.rows.drop (consumed + 1)).isEmpty (Cutting.marks (batch.rows.drop (consumed + 1)))
  exact ⟨_, more, later, List.getElem?_eq_getElem hindex, hcut⟩

/-- A row that no empty block holds begins the next block. -/
theorem Assembled.exists_not_canBegin (h : Assembled start) (hbatch : batch.Checked start.schema)
    (happends : Appends zstd batch start .filling consumed blocks writer)
    (hmore : consumed < batch.rowCount) (hempty : writer.buffer.isEmpty = true)
    (hone : ¬writer.Takes batch consumed 1) :
    ∃ block later, blocksToCome start batch = blocks.map (·.rows.rows) ++ block :: later ∧
      ¬CanBegin start (blocks.map (·.rows.rows)).length block := by
  have hstands := h.stands_of_appends hbatch happends
  have hnone := hstands.assembled.rows_eq_nil_iff.mpr hempty
  have hcome := h.blocksToCome_eq hbatch happends
  obtain ⟨row, more, later, hrow, hcut⟩ :=
    exists_cut_rows (assemblyRules start.schema start.options) hmore
  rw [hnone, toCome, hcut] at hcome
  refine ⟨_, later, hcome, ?_⟩
  rw [← hstands.schema_eq] at hbatch
  rw [hstands.assembled.takes_one_iff hempty hbatch hrow, hstands.schema_eq,
    hstands.options_eq] at hone
  rintro (⟨hfirst, hfull⟩ | hbegins)
  · have hstart := h.rows_eq_nil_iff.mp
      (rows_eq_nil_of_appends happends (List.length_eq_zero_iff.mp hfirst) hnone)
    rw [hstart] at hfull
    cases hfull
  · exact hone (hbegins row rfl)

/-- A block that is full, or does not take the next row, is due. -/
theorem Assembled.exists_due (h : Assembled start) (hbatch : batch.Checked start.schema)
    (happends : Appends zstd batch start stage consumed blocks writer)
    (hstage : stage = .pushed ∧ writer.IsComplete ∨
      stage = .filling ∧ consumed < batch.rowCount ∧ writer.fittingPrefix batch consumed = .ok 0)
    (hfull : writer.buffer.isEmpty = false) :
    ∃ later, blocksToCome start batch =
        blocks.map (·.rows.rows) ++ writer.buffer.blockRows.rows :: later ∧
      (later ≠ [] ∨
        (assemblyRules start.schema start.options).full writer.buffer.blockRows.rows = true) := by
  have hstands := h.stands_of_appends hbatch happends
  have hcome := h.blocksToCome_eq hbatch happends
  have hne : writer.buffer.blockRows.rows ≠ [] := by
    rw [Ne, hstands.assembled.rows_eq_nil_iff, hfull]
    exact Bool.false_ne_true
  rcases hstage with ⟨rfl, hcomplete⟩ | ⟨rfl, hmore, hfits⟩
  · have hisFull := (hstands.isComplete_iff hfull).mp hcomplete
    rw [toCome] at hcome
    split at hcome
    case isTrue hends => exact ⟨_, hcome, .inr hends.2⟩
    -- Rows are left, so the full block is cut off in front of them.
    case isFalse hleft =>
      have hmore : consumed < batch.rowCount := by
        rw [hisFull, and_iff_left rfl, List.drop_eq_nil_iff, RecordBatch.length_rows] at hleft
        omega
      have hstops := (h.pushed_of_appends hbatch happends []).2 hmore
      rw [Cutting.cut_of_not_continues hne hstops] at hcome
      exact ⟨_, hcome, .inr hisFull⟩
  · have hdeclares := hbatch.declares
    rw [← hstands.schema_eq] at hbatch hdeclares
    have hgreatest := hstands.assembled.isGreatest_of_fittingPrefix hdeclares hmore.le hfits
    have hsame : writer.buffer.blockRows.rows ++ slice batch.rows consumed 0 =
        writer.buffer.blockRows.rows := by
      rw [slice_length_zero, List.append_nil]
    have hstops := hstands.assembled.not_continues hbatch hgreatest (by rwa [hsame]) hmore []
    rw [hsame, hstands.schema_eq, hstands.options_eq, Nat.add_zero] at hstops
    rw [toCome, Cutting.cut_of_not_continues hne hstops] at hcome
    obtain ⟨row, more, later, -, hcut⟩ :=
      exists_cut_rows (assemblyRules start.schema start.options) hmore
    refine ⟨_, hcome, .inl ?_⟩
    rw [hcut]
    exact List.cons_ne_nil _ _

/-- **Every append of a checked batch ends in one of these ways.** -/
theorem Assembled.appendEnds (h : Assembled start) (hhealthy : start.poisoned = false)
    (hcheck : start.checkBatch batch = .ok ()) :
    AppendEnds zstd batch start (append zstd batch start).1 (append zstd batch start).2 := by
  have hbatch := checked_of_checkBatch hcheck
  rw [append_eq zstd hhealthy hcheck]
  obtain ⟨blocks, next, happend, happends⟩ | ⟨reached, e, left, happend, hfails⟩ :=
    appendFrom_outcome zstd 0 start [] (.start : Appends zstd batch start _ _ _ _)
  · rw [happend]
    have hcome := h.blocksToCome_eq hbatch happends
    rw [toCome, List.drop_eq_nil_of_le (by rw [RecordBatch.length_rows])] at hcome
    exact .taken (h.stands_of_appends hbatch happends) hcome
      (not_isComplete_of_appends happends (rowCount_pos_of_checkBatch hcheck))
  rw [happend]
  cases hfails with
  | unwritable before hmore hfit =>
    -- The buffer is empty there, or it would have been published first.
    have hstands := h.stands_of_appends hbatch before
    have hdeclares := hbatch.declares
    rw [← hstands.schema_eq] at hdeclares
    obtain ⟨count, hfits, -⟩ | ⟨-, hempty, hone⟩ :=
      hstands.assembled.fittingPrefix_cases hdeclares hmore.le
    · rw [hfit] at hfits
      cases hfits
    obtain ⟨block, later, hblocks, hunwritable⟩ :=
      h.exists_not_canBegin hbatch before hmore hempty hone
    refine .unwritable hstands hblocks hunwritable (kind_of_fittingPrefix hfit) ?_
    obtain ⟨hahead | hrows, hgone⟩ | hsame := goesOn_or_eq_start before
    · exact .inl ⟨hahead, hgone⟩
    · have hnone := hstands.assembled.rows_eq_nil_iff.mpr hempty
      refine .inl ⟨fun hahead ↦ hrows ?_, hgone⟩
      exact hnone.trans (rows_eq_nil_of_appends before hahead hnone).symm
    · exact .inr hsame
  | full before hmore hfull hpublish =>
    have hrows : reached.buffer.isEmpty = false := by
      have hpos := rows_pos_of_fittingPrefix hmore hfull
      exact decide_eq_false (by omega)
    obtain ⟨later, hblocks, hdue⟩ := h.exists_due hbatch before (.inr ⟨rfl, hmore, hfull⟩) hrows
    exact .unpublished (h.stands_of_appends hbatch before) hblocks hrows hdue hpublish
      (goesOn_or_eq_start before)
  | complete before hcomplete hpublish =>
    have hrows := (h.pushed_of_appends hbatch before []).1
    obtain ⟨later, hblocks, hdue⟩ := h.exists_due hbatch before (.inl ⟨rfl, hcomplete⟩) hrows
    exact .unpublished (h.stands_of_appends hbatch before) hblocks hrows hdue hpublish
      (goesOn_or_eq_start before)

/-! ### Which batches leave a trace -/

/-- A block that is refused does not go out. -/
theorem RefusedAt.not_goesOut {ahead later : List (List Row)} {counters next : Advanced}
    {block : List Row} (h : RefusedAt zstd start ahead counters block later) :
    ¬GoesOut zstd start ahead.length counters block next := by
  intro hout
  cases h with
  | unwritable _ hunwritable => exact hunwritable hout.canBegin
  | undescribed _ _ _ hrefused _ =>
    obtain ⟨frame, hframe, -⟩ := hout.frames
    cases hrefused.unique hframe

/-- **From wherever an append stands**, the next block of a batch that is refused behind others goes
out, or is the refused one. -/
theorem RefusedBehind.at_or_goesOut {ahead rest : List (List Row)} {counters : Advanced}
    (h : RefusedBehind zstd batch start) (hahead : GoOut zstd start 0 start.counters ahead counters)
    (hblocks : blocksToCome start batch = ahead ++ rest) :
    ∃ block later, rest = block :: later ∧
      (RefusedAt zstd start ahead counters block later ∨
        later ≠ [] ∧ ∃ next, GoesOut zstd start ahead.length counters block next) := by
  obtain ⟨before, block, later, reached, hblocks', hbefore, hrefused⟩ := h
  have hat (hsame : before = ahead) (hrest : rest = block :: later) :
      ∃ block later, rest = block :: later ∧
        (RefusedAt zstd start ahead counters block later ∨
          later ≠ [] ∧ ∃ next, GoesOut zstd start ahead.length counters block next) := by
    subst hsame
    rw [hbefore.unique hahead] at hrefused
    exact ⟨block, later, hrest, .inl hrefused⟩
  rw [hblocks, List.append_eq_append_iff] at hblocks'
  obtain ⟨between, hlonger, hrest⟩ | ⟨between, hshorter, hrest⟩ := hblocks'
  · rcases between with - | ⟨first, between⟩
    · exact hat (hlonger.trans (List.append_nil _)) hrest
    · rw [hlonger, goOut_append] at hbefore
      obtain ⟨middle, hmiddle, next, hnext, -⟩ := hbefore
      rw [Nat.zero_add, hmiddle.unique hahead] at hnext
      exact ⟨first, _, hrest, .inr ⟨by simp, next, hnext⟩⟩
  · rcases between with - | ⟨first, between⟩
    · exact hat (hshorter.trans (List.append_nil _)).symm hrest.symm
    · -- The append stands behind the refused block.
      rw [hshorter, goOut_append] at hahead
      obtain ⟨middle, hmiddle, next, hnext, -⟩ := hahead
      rw [Nat.zero_add, hmiddle.unique hbefore, ← (List.cons.inj hrest).1] at hnext
      exact absurd hnext hrefused.not_goesOut

/-- **What an append leaves of a refused batch**: the ends that leave a trace are the refusals
behind other blocks. -/
theorem AppendEnds.refusedBehind_iff {result : Result Unit} {left : Writer}
    (h : AppendEnds zstd batch start result left) :
    RefusedBehind zstd batch start ↔
      ∃ e, result = .error e ∧ e.kind = .invalidArgument ∧ ¬Unchanged start left := by
  have hsame : Unchanged start start := ⟨rfl, rfl, rfl, rfl, rfl, rfl, rfl, rfl, rfl⟩
  cases h with
  | taken hstands hblocks hopen =>
    refine iff_of_false (fun hbehind ↦ ?_) fun ⟨_, herror, _⟩ ↦ by cases herror
    -- Behind the blocks that went out only the rest in the buffer is left, and it is not due.
    obtain ⟨block, later, hrest, hnext⟩ := hbehind.at_or_goesOut hstands.goOut hblocks
    rw [Cutting.Rules.cut] at hrest
    split at hrest
    case isTrue => cases hrest
    case isFalse hne =>
      rw [hstands.assembled.rows_eq_nil_iff, Bool.not_eq_true] at hne
      cases hrest
      obtain hrefused | ⟨hlater, -⟩ := hnext
      · cases hrefused with
        | unwritable _ hunwritable => exact hunwritable (hstands.canBegin hne)
        | undescribed _ hdue _ _ _ =>
          obtain hlater | hfull := hdue
          · exact hlater rfl
          · exact hopen hne ((hstands.isComplete_iff hne).mpr hfull)
      · exact hlater rfl
  | @unwritable ahead _ _ _ e hstands hblocks hunwritable hkind htrace =>
    constructor
    · intro hbehind
      obtain ⟨block, later, hrest, hnext⟩ := hbehind.at_or_goesOut hstands.goOut hblocks
      cases hrest
      obtain hrefused | ⟨-, next, hout⟩ := hnext
      · cases hrefused with
        | unwritable hahead _ =>
          obtain ⟨-, hgone⟩ | ⟨hnone, -⟩ := htrace
          · exact ⟨e, rfl, hkind, hgone.not_unchanged⟩
          · exact absurd hnone hahead
        -- A block that cannot begin is not described, nor does it go out.
        | undescribed _ _ hbegins _ _ => exact absurd hbegins hunwritable
      · exact absurd hout.canBegin hunwritable
    · rintro ⟨-, -, -, hchanged⟩
      obtain ⟨hahead, -⟩ | ⟨-, rfl⟩ := htrace
      · exact ⟨ahead, _, _, _, hblocks, hstands.goOut, .unwritable hahead hunwritable⟩
      · exact absurd hsame hchanged
  | @unpublished ahead later writer _ e hstands hblocks hfull hdue hpublish htrace =>
    constructor
    · intro hbehind
      obtain ⟨block, later, hrest, hnext⟩ := hbehind.at_or_goesOut hstands.goOut hblocks
      cases hrest
      obtain hrefused | ⟨-, next, hout⟩ := hnext
      · cases hrefused with
        | unwritable _ hunwritable => exact absurd (hstands.canBegin hfull) hunwritable
        | undescribed hbehind _ _ hrefused hkind =>
          -- The refusal of the criterion is the one the append has met.
          have hrows : 0 < writer.buffer.rows := Nat.pos_of_ne_zero (of_decide_eq_false hfull)
          rw [publishBuffer_of_refused hrows (hstands.frames.unique hrefused)] at hpublish
          cases hpublish
          obtain ⟨-, hgone⟩ | ⟨hnone, rfl⟩ := htrace
          · exact ⟨_, rfl, hkind, hgone.not_unchanged⟩
          · exact absurd rfl (hbehind.resolve_left (not_not.mpr hnone))
      · obtain ⟨published, hpublished⟩ := hstands.exists_publishes hfull hout
        rw [hpublish] at hpublished
        cases hpublished
    · rintro ⟨_, ⟨⟩, hkind, hchanged⟩
      obtain ⟨hrefused, rfl⟩ := bufferedFrame_of_publishBuffer hpublish hkind
      have hframe := hstands.frames
      rw [hrefused] at hframe
      obtain ⟨hbehind, -⟩ | ⟨-, rfl⟩ := htrace
      · exact ⟨ahead, _, later, _, hblocks, hstands.goOut,
          .undescribed hbehind hdue (hstands.canBegin hfull) hframe hkind⟩
      · exact absurd hsame hchanged

/-- **When a refused batch leaves no trace.**  In any session, a healthy writer that answers an
append with an invalid argument is left as it was, with no byte written, exactly when the batch is
refused by the checks made up front or is not refused behind other blocks. -/
theorem unchanged_iff_not_refusedBehind {first writer : Writer} {calls : List (Call × Result Unit)}
    (hstarts : Starts zstd first) (hruns : Runs zstd (fun _ _ ↦ True) first calls writer)
    (hhealthy : writer.poisoned = false) (batch : RecordBatch) :
    (∀ e left, append zstd batch writer = (.error e, left) → e.kind = .invalidArgument →
        Unchanged writer left) ↔
      (writer.checkBatch batch = .ok () → ¬RefusedBehind zstd batch writer) := by
  have hassembled : Assembled writer := by
    obtain hkept | hpoisoned := assembled_stable.of_runs hstarts.settled.assembled hruns
    · exact hkept
    · rw [hhealthy] at hpoisoned
      cases hpoisoned
  rcases hcheck : writer.checkBatch batch with e | u
  · refine iff_of_true (fun e left happend _ ↦ ?_) fun hok ↦ by cases hok
    rw [append_of_healthy zstd hhealthy, hcheck] at happend
    cases happend
    exact ⟨rfl, rfl, rfl, rfl, rfl, rfl, rfl, rfl, rfl⟩
  · have hends : AppendEnds zstd batch writer _ _ := hassembled.appendEnds hhealthy hcheck
    rw [forall_prop_of_true rfl, hends.refusedBehind_iff]
    constructor
    · rintro hunchanged ⟨e, herror, hkind, hchanged⟩
      exact hchanged (hunchanged e _ (Prod.ext herror rfl) hkind)
    · intro hnot e left happend hkind
      by_contra hchanged
      rw [happend] at hnot
      exact hnot ⟨e, rfl, hkind, hchanged⟩

/-! ### A value too wide for its statistics

A column of values that fit a block alone, but not with the two bounds its statistics would store in
the header.  A null has no bounds, so it can be written. -/

def wideSchema : Schema where
  schemaId := 1
  columns := [{ id := 1, name := "w", logicalType := .fixedBinary 41943040, nullable := true }]
  primaryColumnId := none

/-- One row in a block, and its least and greatest value in the header. -/
def wideOptions : WriterOptions where
  rowBlockTarget := 1
  statistics := .minMax

/-- A null, and a value. -/
def nullThen (value : Bytes) : RecordBatch where
  schema := wideSchema
  columns := [{ type := .fixedBinary, values := [[], value], validity := some [false, true] }]
  rowCount := 2
  fits := .cons ⟨rfl, rfl, by rintro _ ⟨⟩; exact ⟨rfl, rfl⟩⟩ .nil

/-- A null, and a value of forty mebibytes. -/
def nullThenWide : RecordBatch := nullThen (List.replicate 41943040 0)

theorem validateScalar_fixedBinary {column : Column} {width : UInt32} {value : Bytes}
    (htype : column.logicalType = .fixedBinary width) (h : value.length = width.toNat) :
    Write.validateScalar column ⟨.fixedBinary, value⟩ = .ok () := by
  rw [Write.validateScalar, htype]
  exact bind_eq_ok.mpr ⟨(), failIf_eq_ok.mpr (not_not.mpr rfl), failIf_eq_ok.mpr (not_not.mpr h)⟩

/-- The checks made up front have nothing to say against values of the right length. -/
theorem checkBatch_nullThen {writer : Writer} (hschema : writer.schema = wideSchema) {value : Bytes}
    (h : value.length = 41943040) : writer.checkBatch (nullThen value) = .ok () := by
  have hvalues : Write.validateValues wideSchema.columns[0]
      { type := .fixedBinary, values := [[], value], validity := some [false, true] } 2 =
        .ok () := by
    refine forM_eq_ok.mpr fun row hrow ↦ ?_
    rcases row with - | - | row
    · rfl
    · exact validateScalar_fixedBinary rfl h
    · have hlt := List.mem_range.mp hrow
      omega
  have hinput : Write.validateBatchInput wideSchema (nullThen value) = .ok () :=
    forM_eq_ok.mpr (List.forall_mem_singleton.mpr
      (bind_eq_ok.mpr ⟨_, rfl, bind_eq_ok.mpr ⟨(), rfl, hvalues⟩⟩))
  rw [checkBatch, hschema]
  exact bind_eq_ok.mpr ⟨(), failIf_eq_ok.mpr (not_not.mpr rfl),
    bind_eq_ok.mpr ⟨(), failIf_eq_ok.mpr (show ¬2 = 0 by decide), hinput⟩⟩

/-- The null is published, and the value behind it is refused. -/
theorem append_nullThenWide :
    ∃ opened e left,
      (create storingZstd { contents := none } wideSchema wideOptions).1 = .ok opened ∧
        opened.poisoned = false ∧ append storingZstd nullThenWide opened = (.error e, left) ∧
          e.kind = .invalidArgument ∧ opened.blocksWritten = 0 ∧ left.blocksWritten = 1 := by
  have hfacts : ∃ opened,
      (create storingZstd { contents := none } wideSchema wideOptions).1 = .ok opened ∧
        opened.poisoned = false ∧ opened.schema = wideSchema ∧ opened.blocksWritten = 0 ∧
          opened.fittingPrefix nullThenWide 0 = .ok 1 ∧
            (publishIfComplete storingZstd (opened.push (nullThenWide.slice 0 1))).1 = .ok () ∧
              (publishIfComplete storingZstd
                (opened.push (nullThenWide.slice 0 1))).2.blocksWritten = 1 ∧
                ((publishIfComplete storingZstd
                  (opened.push (nullThenWide.slice 0 1))).2.fittingPrefix nullThenWide 1).isOk =
                    false :=
    exists_ok_and (by decide +kernel) (by decide +kernel)
  obtain ⟨opened, hopened, hhealthy, hschema, hbefore, hfits, hpublish, hafter, hfit⟩ := hfacts
  have htaken : Appends storingZstd nullThenWide opened .pushed (0 + (0 + 1)) [] _ :=
    .take .start (show 0 < 2 by decide) hfits
  have hpublished : Appends storingZstd nullThenWide opened .filling 1 _ _ :=
    .complete htaken (Prod.ext hpublish rfl)
  rcases hrefused : (publishIfComplete storingZstd
      (opened.push (nullThenWide.slice 0 1))).2.fittingPrefix nullThenWide 1 with e | count
  · have hfails : AppendFails storingZstd nullThenWide opened _ e _ :=
      .unwritable hpublished (show 1 < 2 by decide) hrefused
    exact ⟨opened, e, _, hopened, hhealthy,
      (append_eq storingZstd hhealthy
        (checkBatch_nullThen hschema List.length_replicate)).trans
        (appendFrom_of_appendFails storingZstd hfails), kind_of_fittingPrefix hrefused, hbefore,
      hafter⟩
  · rw [hrefused] at hfit
    cases hfit

/-- **A batch that is refused leaves a row in the file**: a null is published before the value
behind it turns out to fit no block. -/
theorem refused_batch_leaves_row :
    ∃ opened e left,
      (create storingZstd { contents := none } wideSchema wideOptions).1 = .ok opened ∧
        opened.poisoned = false ∧ append storingZstd nullThenWide opened = (.error e, left) ∧
          e.kind = .invalidArgument ∧ ¬Unchanged opened left := by
  obtain ⟨opened, e, left, hopened, hhealthy, happend, hkind, hbefore, hafter⟩ :=
    append_nullThenWide
  refine ⟨opened, e, left, hopened, hhealthy, happend, hkind, fun hunchanged ↦ ?_⟩
  have hwritten := hunchanged.blocksWritten
  rw [hbefore, hafter] at hwritten
  cases hwritten

/-- The criterion at that batch: the value is refused behind the null. -/
theorem refusedBehind_nullThenWide :
    ∃ opened,
      (create storingZstd { contents := none } wideSchema wideOptions).1 = .ok opened ∧
        RefusedBehind storingZstd nullThenWide opened := by
  obtain ⟨opened, e, left, hopened, hhealthy, happend, hkind, hbefore, hafter⟩ :=
    append_nullThenWide
  have hcriterion := @unchanged_iff_not_refusedBehind storingZstd opened opened []
    (.created (Prod.ext hopened rfl)) .start hhealthy nullThenWide
  refine ⟨opened, hopened, by_contra fun hnot ↦ ?_⟩
  have hwritten := (hcriterion.mpr (fun _ ↦ hnot) e left happend hkind).blocksWritten
  rw [hbefore, hafter] at hwritten
  cases hwritten

end Writer

end Acta
