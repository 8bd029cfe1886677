import Acta.Write.Assembly
import Acta.Write.Mirror

/-!
# Reopening is transparent

A session that is ended and reopened goes on as if it had only been flushed: the writer `open`
returns knows the same schema, the same continuation point and the same empty buffer as the writer
that was flushed, so it writes the same bytes from there on (`split_session`).

The two writers are compared by `Alike`.  They agree on everything a frame is built from, and the
second has counted no more than the first and has a sink that grants every request; so whatever
succeeds for the first succeeds for the second, and they stay alike.
-/

namespace Acta

open Machine Wire

namespace Writer

variable (zstd : Zstd)

/-! ### Two writers that go on alike -/

/-- The second writer goes on as the first does, with a sink that grants every request. -/
structure Alike (one other : Writer) : Prop where
  schema : other.schema = one.schema
  options : other.options = one.options
  buffer : other.buffer = one.buffer
  stored : other.sink.stored = one.sink.stored
  fileLength : other.state.fileLength = one.state.fileLength
  nextSequence : other.state.nextSequence = one.state.nextSequence
  nextRowId : one.options.rowIds = true → other.state.nextRowId = one.state.nextRowId
  blocksWritten : other.blocksWritten ≤ one.blocksWritten
  publishedRows : other.publishedRows ≤ one.publishedRows
  publishedBytes : other.publishedBytes ≤ one.publishedBytes
  healthy : other.poisoned = false
  granted : ∀ index, other.sink.replies index = .done

namespace Alike

variable {one other next : Writer}

/-- Two such writers build the same frame. -/
theorem bufferedFrame_eq (h : Alike one other) :
    other.bufferedFrame zstd = one.bufferedFrame zstd := by
  have hbase : other.baseRowId = one.baseRowId := by
    rw [baseRowId, baseRowId, h.options]
    split
    · exact h.nextRowId ‹_›
    · rfl
  rw [bufferedFrame, bufferedFrame, h.schema, h.buffer, h.options, hbase, h.nextSequence]

/-- Where the counters of the first can advance, those of the second can. -/
theorem advance (h : Alike one other) {frameLength rawBytes rowCount : ℕ} {counters : Advanced}
    (hone : one.advance frameLength rawBytes rowCount = some counters) :
    other.advance frameLength rawBytes rowCount =
      some (other.counted frameLength rawBytes rowCount) := by
  obtain ⟨rfl, hrange⟩ := advance_iff.mp hone
  have hfile : other.state.fileLength + frameLength ≤ u64Max := by
    rw [h.fileLength]
    exact hrange.fileLength
  have hsequence : other.state.nextSequence + 1 ≤ u64Max := by
    rw [h.nextSequence]
    exact hrange.nextSequence
  have hrowId (henabled : other.options.rowIds = true) :
      (other.counted frameLength rawBytes rowCount).nextRowId ≤ u64Max := by
    have henabled' : one.options.rowIds = true := h.options ▸ henabled
    have hle := hrange.nextRowId henabled'
    rw [counted, if_pos henabled'] at hle
    rw [counted, if_pos henabled, h.nextRowId henabled']
    exact hle
  exact advance_iff.mpr ⟨rfl, hfile, Nat.le_trans (Nat.add_le_add_right h.blocksWritten 1)
    hrange.blocksWritten, hsequence, hrowId,
    Nat.le_trans (Nat.add_le_add_right h.publishedRows rowCount) hrange.publishedRows,
    Nat.le_trans (Nat.add_le_add_right h.publishedBytes rawBytes) hrange.publishedBytes⟩

/-- **What the first publishes, the second publishes.** -/
theorem publishBuffer (h : Alike one other)
    (hone : Writer.publishBuffer zstd one = (.ok (), next)) :
    ∃ next', Writer.publishBuffer zstd other = (.ok (), next') ∧ Alike next next' := by
  rcases publishBuffer_eq_ok zstd hone with ⟨hempty, rfl, -⟩ | ⟨frame, counters, hwrote, -⟩
  · have hsame : Writer.publishBuffer zstd other = (.ok (), other) := by
      rw [Writer.publishBuffer, h.buffer, if_pos hempty]
    exact ⟨other, hsame, h⟩
  · have hfull : other.buffer.isEmpty = false := by
      rw [h.buffer]
      exact hwrote.nonempty
    have hframe : other.bufferedFrame zstd = .ok frame :=
      (h.bufferedFrame_eq zstd).trans hwrote.builds
    have hadvance := h.advance hwrote.advances
    rw [← h.buffer] at hadvance
    obtain ⟨next', hpublish, hwrote'⟩ := exists_wrote zstd hfull hframe (h.granted _) hadvance
    refine ⟨next', hpublish, ?_⟩
    obtain ⟨rfl, -⟩ := advance_iff.mp hwrote.advances
    rw [hwrote.next_eq, hwrote'.next_eq]
    refine ⟨h.schema, h.options, ?_, ?_, ?_, ?_, ?_, ?_, ?_, ?_, h.healthy, h.granted⟩
    · show other.buffer.clear = one.buffer.clear
      rw [h.buffer]
    · show other.sink.stored ++ frame = one.sink.stored ++ frame
      rw [h.stored]
    · show other.state.fileLength + frame.length = one.state.fileLength + frame.length
      rw [h.fileLength]
    · show other.state.nextSequence + 1 = one.state.nextSequence + 1
      rw [h.nextSequence]
    · intro henabled
      have henabled' : one.options.rowIds = true := henabled
      show (if other.options.rowIds then other.state.nextRowId + other.buffer.rows
        else other.state.nextRowId) =
          if one.options.rowIds then one.state.nextRowId + one.buffer.rows
          else one.state.nextRowId
      rw [h.options, if_pos henabled', if_pos henabled', h.nextRowId henabled', h.buffer]
    · exact Nat.add_le_add_right h.blocksWritten 1
    · show other.publishedRows + other.buffer.rows ≤ one.publishedRows + one.buffer.rows
      rw [h.buffer]
      exact Nat.add_le_add_right h.publishedRows _
    · show other.publishedBytes + other.buffer.frameBytes ≤
        one.publishedBytes + one.buffer.frameBytes
      rw [h.buffer]
      exact Nat.add_le_add_right h.publishedBytes _

theorem isComplete_iff (h : Alike one other) : other.IsComplete ↔ one.IsComplete := by
  rw [IsComplete, IsComplete, h.options, h.buffer]

theorem publishIfComplete (h : Alike one other)
    (hone : Writer.publishIfComplete zstd one = (.ok (), next)) :
    ∃ next', Writer.publishIfComplete zstd other = (.ok (), next') ∧ Alike next next' := by
  rw [publishIfComplete_eq] at hone
  rw [publishIfComplete_eq]
  by_cases hcomplete : one.IsComplete
  · rw [if_pos hcomplete] at hone
    rw [if_pos (h.isComplete_iff.mpr hcomplete)]
    exact h.publishBuffer zstd hone
  · rw [if_neg hcomplete] at hone
    rw [if_neg (h.isComplete_iff.not.mpr hcomplete)]
    cases hone
    exact ⟨other, rfl, h⟩

theorem push (h : Alike one other) (chunk : RecordBatch) :
    Alike (one.push chunk) (other.push chunk) := by
  refine ⟨h.schema, h.options, ?_, h.stored, h.fileLength, h.nextSequence, h.nextRowId,
    h.blocksWritten, h.publishedRows, h.publishedBytes, h.healthy, h.granted⟩
  show other.buffer.push other.schema chunk = one.buffer.push one.schema chunk
  rw [h.buffer, h.schema]

/-- **An append passes through like writers.** -/
theorem of_appends {start start' writer : Writer} {batch : RecordBatch} {stage : AppendStage}
    {consumed : ℕ} {blocks : List PublishedBlock} (h : Alike start start')
    (happends : Appends zstd batch start stage consumed blocks writer) :
    ∃ blocks' writer', Appends zstd batch start' stage consumed blocks' writer' ∧
      Alike writer writer' := by
  induction happends with
  | start => exact ⟨[], start', .start, h⟩
  | full before hmore hfull hpublish ih =>
    obtain ⟨blocks', writer', before', hlike⟩ := ih
    obtain ⟨next', hpublish', hnext⟩ := hlike.publishBuffer zstd hpublish
    have hfull' := (fittingPrefix_congr hlike.schema hlike.options hlike.buffer _ _).trans hfull
    exact ⟨_, next', .full before' hmore hfull' hpublish', hnext⟩
  | take before hmore hfits ih =>
    obtain ⟨blocks', writer', before', hlike⟩ := ih
    have hfits' := (fittingPrefix_congr hlike.schema hlike.options hlike.buffer _ _).trans hfits
    exact ⟨_, _, .take before' hmore hfits', hlike.push _⟩
  | complete before hpublish ih =>
    obtain ⟨blocks', writer', before', hlike⟩ := ih
    obtain ⟨next', hpublish', hnext⟩ := hlike.publishIfComplete zstd hpublish
    exact ⟨_, next', .complete before' hpublish', hnext⟩

/-- What the first takes in, the second takes in. -/
theorem append (h : Alike one other) {batch : RecordBatch}
    (hone : Writer.append zstd batch one = (.ok (), next)) :
    ∃ next', Writer.append zstd batch other = (.ok (), next') ∧ Alike next next' := by
  obtain ⟨-, hcheck, blocks, happends⟩ := append_eq_ok zstd hone
  obtain ⟨blocks', next', happends', hnext⟩ := h.of_appends zstd happends
  have hcheck' : other.checkBatch batch = .ok () := by
    rw [checkBatch, h.schema]
    exact hcheck
  refine ⟨next', ?_, hnext⟩
  rw [append_eq zstd h.healthy hcheck', appendFrom_eq_resume zstd happends']
  exact appendFrom_of_le zstd le_rfl next'

/-- The sink answers a request of each. -/
theorem requestSink (h : Alike one other) (hone : Writer.requestSink one = (.ok (), next)) :
    ∃ next', Writer.requestSink other = (.ok (), next') ∧ Alike next next' := by
  have hother : Writer.requestSink other = (.ok (),
      { other with sink := { other.sink with calls := other.sink.calls + 1 } }) := by
    rw [Writer.requestSink, Sink.request, h.granted]
  refine ⟨_, hother, ?_⟩
  rcases requestSink_eq one with ⟨e, heq⟩ | heq
  · rw [heq] at hone
    cases hone
  · rw [heq] at hone
    cases hone
    exact ⟨h.schema, h.options, h.buffer, h.stored, h.fileLength, h.nextSequence, h.nextRowId,
      h.blocksWritten, h.publishedRows, h.publishedBytes, h.healthy, h.granted⟩

end Alike

/-! ### Calls that all succeed -/

/-- Calls made one after another, all of which succeed. -/
def Succeeds (calls : List Call) (start last : Writer) : Prop :=
  runCalls zstd calls start = (calls.map fun _ ↦ .ok (), last)

theorem succeeds_nil {start last : Writer} : Succeeds zstd [] start last ↔ start = last := by
  rw [Succeeds, runCalls, Prod.mk.injEq]
  exact and_iff_right rfl

theorem succeeds_cons {c : Call} {calls : List Call} {start last : Writer} :
    Succeeds zstd (c :: calls) start last ↔
      ∃ next, call zstd c start = (.ok (), next) ∧ Succeeds zstd calls next last := by
  rw [Succeeds, runCalls, List.map_cons]
  rcases hcall : call zstd c start with ⟨result, next⟩
  show (result :: (runCalls zstd calls next).1, (runCalls zstd calls next).2) = _ ↔ _
  simp only [Succeeds, Prod.ext_iff, List.cons.injEq]
  constructor
  · rintro ⟨⟨hresult, hresults⟩, hlast⟩
    exact ⟨next, ⟨hresult, rfl⟩, hresults, hlast⟩
  · rintro ⟨_, ⟨hresult, rfl⟩, hresults, hlast⟩
    exact ⟨⟨hresult, hresults⟩, hlast⟩

theorem succeeds_append {first second : List Call} {start last : Writer} :
    Succeeds zstd (first ++ second) start last ↔
      ∃ middle, Succeeds zstd first start middle ∧ Succeeds zstd second middle last := by
  induction first generalizing start with
  | nil => simp only [List.nil_append, succeeds_nil, exists_eq_left']
  | cons c rest ih =>
    rw [List.cons_append, succeeds_cons]
    constructor
    · rintro ⟨next, hcall, hrest⟩
      obtain ⟨middle, hfirst, hsecond⟩ := ih.mp hrest
      exact ⟨middle, (succeeds_cons zstd).mpr ⟨next, hcall, hfirst⟩, hsecond⟩
    · rintro ⟨middle, hfirst, hsecond⟩
      obtain ⟨next, hcall, hrest⟩ := (succeeds_cons zstd).mp hfirst
      exact ⟨next, hcall, ih.mpr ⟨middle, hrest, hsecond⟩⟩

theorem succeeds_singleton {c : Call} {start last : Writer} :
    Succeeds zstd [c] start last ↔ call zstd c start = (.ok (), last) := by
  simp only [succeeds_cons, succeeds_nil, exists_eq_right]

/-- Like writers stay alike over the same appends. -/
theorem Alike.succeeds {one other last : Writer} (h : Alike one other) {batches : List RecordBatch}
    (hone : Succeeds zstd (batches.map .append) one last) :
    ∃ last', Succeeds zstd (batches.map .append) other last' ∧ Alike last last' := by
  induction batches generalizing one other with
  | nil =>
    obtain rfl := (succeeds_nil zstd).mp hone
    exact ⟨other, (succeeds_nil zstd).mpr rfl, h⟩
  | cons batch rest ih =>
    obtain ⟨next, hcall, hrest⟩ := (succeeds_cons zstd).mp hone
    obtain ⟨next', hcall', hnext⟩ := h.append zstd hcall
    obtain ⟨last', hrest', hlast⟩ := ih hnext hrest
    exact ⟨last', (succeeds_cons zstd).mpr ⟨next', hcall', hrest'⟩, hlast⟩

/-! ### The end of a session -/

/-- A writer is ended where its buffer is published. -/
theorem finish_eq_ok {writer last : Writer} (h : call zstd .finish writer = (.ok (), last)) :
    writer.poisoned = false ∧ ∃ published, publishBuffer zstd writer = (.ok (), published) ∧
      last.sink.stored = published.sink.stored := by
  obtain ⟨synced, hsync, -⟩ := andThen_eq_ok.mp ((call_finish_eq_ok zstd).mp h)
  obtain ⟨flushed, hflush, -⟩ := andThen_eq_ok.mp hsync
  obtain ⟨hhealthy, published, hpublish, -⟩ := flush_eq_ok zstd hflush
  have hstored := stored_finish zstd hhealthy
  rw [h, hpublish] at hstored
  exact ⟨hhealthy, published, hpublish, hstored⟩

/-- A sink that grants everything grants what it is asked at the end. -/
theorem finish_of_granted {writer published : Writer} (hhealthy : writer.poisoned = false)
    (hpublish : publishBuffer zstd writer = (.ok (), published))
    (hgranted : ∀ index, published.sink.replies index = .done) :
    ∃ last, call zstd .finish writer = (.ok (), last) ∧
      last.sink.stored = published.sink.stored := by
  have hasked (writer : Writer) (hgranted : ∀ index, writer.sink.replies index = .done) :
      requestSink writer =
        (.ok (), { writer with sink := { writer.sink with calls := writer.sink.calls + 1 } }) := by
    have hdone := hgranted writer.sink.calls
    rw [requestSink, Sink.request, hdone]
  have hreleased (writer : Writer) (hgranted : ∀ index, writer.sink.replies index = .done) :
      releaseLock writer =
        (.ok (), { writer with sink := { writer.sink with calls := writer.sink.calls + 1 } }) := by
    have hdone := hgranted writer.sink.calls
    rw [releaseLock, Sink.request, hdone]
  have hhealth := ensureHealthy_eq_ok.mpr ⟨hhealthy, rfl⟩
  have hflush : flush zstd writer = _ :=
    (andThen_eq_of_ok hhealth).trans
      ((andThen_eq_of_ok hpublish).trans (hasked published hgranted))
  have hsync : sync zstd writer = _ :=
    (andThen_eq_of_ok hflush).trans (andThen_eq_of_ok (hasked _ hgranted))
  have hended : (sync zstd).andThen releaseLock writer = _ :=
    (andThen_eq_of_ok hsync).trans (hreleased _ hgranted)
  exact ⟨_, (call_finish_eq_ok zstd).mpr hended, rfl⟩

/-! ### The start of a session -/

/-- What follows is determined by what calls are made. -/
theorem Succeeds.unique {calls : List Call} {start last last' : Writer}
    (h : Succeeds zstd calls start last) (h' : Succeeds zstd calls start last') : last' = last := by
  rw [Succeeds] at h h'
  rw [h] at h'
  cases h'
  rfl

/-- Two writers over the same bytes start alike. -/
theorem alike_of_startSession {sink sink' : Sink} {schema : Schema} {options : WriterOptions}
    {state : AppendState} {one other : Writer}
    (h : startSession sink schema options state = .ok one)
    (h' : startSession sink' schema options state = .ok other)
    (hstored : sink'.stored = sink.stored)
    (hgranted : ∀ index, sink'.replies index = .done) : Alike one other := by
  obtain ⟨hpos, rfl⟩ := startSession_eq_ok h
  obtain ⟨hpos', rfl⟩ := startSession_eq_ok h'
  exact ⟨rfl, rfl, rfl, hstored, rfl, rfl, fun _ ↦ rfl, le_rfl, le_rfl, le_rfl, rfl, hgranted⟩

/-- Two new files of one schema start with the same bytes. -/
theorem Created.stored_eq {disk disk' : Disk} {schema : Schema} {options : WriterOptions}
    {schemaFrame schemaFrame' : Bytes} {sink sink' : Sink} {one other : Writer}
    (h : Created zstd disk schema options schemaFrame sink one)
    (h' : Created zstd disk' schema options schemaFrame' sink' other) :
    sink'.stored = sink.stored := by
  have hbuild := h'.frame
  rw [h.frame] at hbuild
  cases hbuild
  rw [h'.stored, h.stored]

/-- Two new files start alike. -/
theorem Created.alike {disk disk' : Disk} {schema : Schema} {options : WriterOptions}
    {schemaFrame schemaFrame' : Bytes} {sink sink' : Sink} {one other : Writer}
    (h : Created zstd disk schema options schemaFrame sink one)
    (h' : Created zstd disk' schema options schemaFrame' sink' other)
    (hgranted : ∀ index, disk'.replies index = .done) : Alike one other := by
  have hstored := h.stored_eq zstd h'
  have hstarts := h'.starts
  rw [hstored] at hstarts
  refine alike_of_startSession h.starts hstarts hstored ?_
  rw [h'.replies]
  exact hgranted

/-- Two writers that reopened the same bytes start alike. -/
theorem Reopened.alike {disk disk' : Disk} {expectedSchema expectedSchema' : Option Schema}
    {limits : Limits} {options : WriterOptions} {file : Bytes} {scan scan' : FileScan}
    {walk walk' : Walk} {one other : Writer}
    (h : Reopened zstd disk expectedSchema limits options file scan walk one)
    (h' : Reopened zstd disk' expectedSchema' limits options file scan' walk' other)
    (hgranted : ∀ index, disk'.replies index = .done) : Alike one other := by
  have hscan : scan' = scan := by
    have hopens := h'.opens
    rw [h.opens] at hopens
    cases hopens
    rfl
  have hwalk : walk' = walk := by
    have hwalked := h'.walked
    rw [hscan, h.walked] at hwalked
    cases hwalked
    rfl
  have hstarts := h'.starts
  rw [hscan, hwalk] at hstarts
  exact alike_of_startSession h.starts hstarts rfl hgranted

/-- A file that can be created anywhere can be created on a disk that grants everything. -/
theorem exists_created {disk : Disk} {schema : Schema} {options : WriterOptions}
    {schemaFrame : Bytes} {sink : Sink} {writer : Writer}
    (h : Created zstd disk schema options schemaFrame sink writer) :
    ∃ ready, (create zstd { contents := none } schema options).1 = .ok ready := by
  have hchecked : checkCreate zstd schema options =
      .ok (Write.buildPrologue (if options.rowIds then rowIdsFeature else 0), schemaFrame) := by
    rw [checkCreate, h.schemaValid, ok_bind, h.optionsValid, ok_bind, h.encodingValid, ok_bind,
      initialBytes]
    show (do
      let schemaFrame ← Write.buildSchemaFrame schema
      _) = _
    rw [h.frame]
    rfl
  have hstarts (sink : Sink) (state : AppendState) :
      ∃ ready, startSession sink schema options state = .ok ready := by
    obtain ⟨hpos, -⟩ := startSession_eq_ok h.starts
    exact ⟨_, dif_pos hpos⟩
  rw [create, hchecked]
  exact hstarts _ _

/-- **A flushed writer and the writer that reopens its file go on alike.** -/
theorem exists_reopened_alike {flushed : Writer} (hlive : Live flushed)
    (hbuffer : flushed.buffer = .ofChunks flushed.schema flushed.options.statistics [])
    (hoptions : Write.validateOptions zstd flushed.options = .ok ())
    (hschema : Write.validateSchema flushed.schema = .ok ())
    (hencoding : Write.validateEncoding flushed.schema flushed.options.encoding = .ok ()) :
    ∃ ready, («open» zstd { contents := some flushed.sink.stored } flushed.options).1 = .ok ready ∧
      Alike flushed ready := by
  obtain ⟨-, scan, state, hmirrors⟩ := hlive
  obtain ⟨state', hcomplete, hsame⟩ := hmirrors.complete.revisit (fun _ _ _ ↦ .ok ())
    (fun _ _ _ ↦ ⟨(), rfl⟩) ()
  have hsequence : state'.sequence = state.sequence := congrArg WalkState.sequence hsame
  have hexpected : state'.expectedBaseRowId = state.expectedBaseRowId :=
    congrArg WalkState.expectedBaseRowId hsame
  have hchecked : checkReopen scan none flushed.options = .ok () := by
    rw [checkReopen, hmirrors.schema, hmirrors.rowIds, hschema, hencoding, failIf_neg (by simp),
      failIf_neg (by simp)]
    rfl
  have hopen : «open» zstd { contents := some flushed.sink.stored } flushed.options = _ :=
    openInternal_of_complete zstd hoptions rfl rfl rfl hcomplete hchecked
  rw [hmirrors.schema, hsequence, hexpected] at hopen
  let ready := fromAppendSession { stored := flushed.sink.stored, replies := fun _ ↦ .done }
    flushed.schema flushed.options
    { fileLength := flushed.sink.stored.length, nextSequence := state.sequence,
      nextRowId := state.expectedBaseRowId.getD firstBaseRowId } flushed.rowBlockTarget_pos
  have hready : («open» zstd { contents := some flushed.sink.stored } flushed.options).1 =
      .ok ready :=
    (congrArg Prod.fst hopen).trans (dif_pos flushed.rowBlockTarget_pos)
  refine ⟨ready, hready, rfl, rfl, hbuffer.symm, rfl, hmirrors.fileLength.symm,
    hmirrors.nextSequence.symm, fun henabled ↦ ?_, Nat.zero_le _, Nat.zero_le _, Nat.zero_le _, rfl,
    fun _ ↦ rfl⟩
  show state.expectedBaseRowId.getD firstBaseRowId = flushed.state.nextRowId
  rw [hmirrors.nextRowId henabled]
  rfl

/-! ### One session and two -/

/-- The file of one session that flushes between two groups of appends. -/
def WritesInOne (schema : Schema) (options : WriterOptions) (before after : List RecordBatch)
    (file : Bytes) : Prop :=
  ∃ disk contents start last,
    create zstd disk schema options = (.ok start, contents) ∧
      Succeeds zstd (before.map .append ++ [.flush] ++ after.map .append ++ [.finish]) start last ∧
        last.sink.stored = file

/-- The file of two sessions, the second of which reopens what the first left. -/
def WritesInTwo (schema : Schema) (options : WriterOptions) (before after : List RecordBatch)
    (file : Bytes) : Prop :=
  ∃ disk contents start first,
    create zstd disk schema options = (.ok start, contents) ∧
      Succeeds zstd (before.map .append ++ [.finish]) start first ∧
        ∃ disk' contents' reopened last, disk'.contents = some first.sink.stored ∧
          «open» zstd disk' options = (.ok reopened, contents') ∧
            Succeeds zstd (after.map .append ++ [.finish]) reopened last ∧
              last.sink.stored = file

/-- A stable property holds after calls that all succeed. -/
theorem Stable.of_succeeds {P : Writer → Prop} (h : Stable zstd P) {calls : List Call}
    {start last : Writer} (hstart : P start) (hcalls : Succeeds zstd calls start last) :
    P last := by
  induction calls generalizing start with
  | nil =>
    obtain rfl := (succeeds_nil zstd).mp hcalls
    exact hstart
  | cons c rest ih =>
    obtain ⟨next, hcall, hrest⟩ := (succeeds_cons zstd).mp hcalls
    exact ih ((h.leaves_call hstart c).ok hcall) hrest

/-- A session keeps its schema and its options. -/
theorem kept_stable (schema : Schema) (options : WriterOptions) :
    Stable zstd fun writer ↦ writer.schema = schema ∧ writer.options = options where
  publish h hpublish := by
    obtain ⟨hschema, hoptions⟩ := kept_of_publishBuffer zstd hpublish
    exact ⟨hschema.trans h.1, hoptions.trans h.2⟩
  push h _ := h
  asked h := h
  durable h := h

/-- Two sessions on disks that grant everything, up to what each publishes last. -/
structure Ready (schema : Schema) (options : WriterOptions) (before after : List RecordBatch)
    (start middle published reopened last ended : Writer) : Prop where
  creates : (create zstd { contents := none } schema options).1 = .ok start
  appends : Succeeds zstd (before.map .append) start middle
  healthy : middle.poisoned = false
  publishes : publishBuffer zstd middle = (.ok (), published)
  granted : ∀ index, published.sink.replies index = .done
  opens : («open» zstd { contents := some published.sink.stored } options).1 = .ok reopened
  continues : Succeeds zstd (after.map .append) reopened last
  lastHealthy : last.poisoned = false
  ends : publishBuffer zstd last = (.ok (), ended)
  endGranted : ∀ index, ended.sink.replies index = .done

/-- The writer after a flush is as new. -/
theorem flushed_of_created {disk : Disk} {schema : Schema} {options : WriterOptions}
    {schemaFrame : Bytes} {sink : Sink} {start middle published flushed : Writer}
    {before : List RecordBatch} (hcreated : Created zstd disk schema options schemaFrame sink start)
    (happends : Succeeds zstd (before.map .append) start middle)
    (hpublish : publishBuffer zstd middle = (.ok (), published))
    (hasked : requestSink published = (.ok (), flushed)) (hlive : Live start) :
    (flushed.schema = schema ∧ flushed.options = options) ∧ Live flushed ∧
      flushed.buffer = .ofChunks flushed.schema flushed.options.statistics [] := by
  obtain ⟨hpos, hstart⟩ := startSession_eq_ok hcreated.starts
  have hkept : start.schema = schema ∧ start.options = options := by
    rw [hstart]
    exact ⟨rfl, rfl⟩
  have hassembled : Assembled start := assembled_of_new (by rw [hstart]; rfl)
  have hafter {P : Writer → Prop} (h : Stable zstd P) (hstart : P start) : P flushed := by
    have hleaves : Leaves zstd P (fun _ ↦ True) requestSink published :=
      h.leaves_requestSink (h.publish (h.of_succeeds zstd hstart happends) hpublish)
    exact hleaves.ok hasked
  refine ⟨hafter (kept_stable zstd schema options) hkept, hafter (live_stable zstd) hlive, ?_⟩
  have hempty := (assembled_stable.of_succeeds zstd hassembled happends).buffer_of_publishBuffer
    zstd hpublish
  rcases requestSink_eq published with ⟨e, heq⟩ | heq
  · rw [heq] at hasked
    cases hasked
  · rw [heq] at hasked
    cases hasked
    exact hempty

/-- **One session can be split**: two sessions on disks that grant everything write the same
file. -/
theorem exists_ready {schema : Schema} {options : WriterOptions} {before after : List RecordBatch}
    {file : Bytes} (h : WritesInOne zstd schema options before after file) :
    ∃ start middle published reopened last ended,
      Ready zstd schema options before after start middle published reopened last ended ∧
        ended.sink.stored = file := by
  obtain ⟨disk, contents, start, closed, hcreate, hcalls, hfile⟩ := h
  obtain ⟨schemaFrame, sink, hcreated, -⟩ := create_eq_ok zstd hcreate
  have hlive : Live start := Opened.live zstd (.created hcreate)
  obtain ⟨last, hcalls, hfinish⟩ := (succeeds_append zstd).mp hcalls
  obtain ⟨flushed, hcalls, hafter⟩ := (succeeds_append zstd).mp hcalls
  obtain ⟨middle, hbefore, hflush⟩ := (succeeds_append zstd).mp hcalls
  obtain ⟨-, published, hpublish, hasked⟩ := flush_eq_ok zstd ((succeeds_singleton zstd).mp hflush)
  obtain ⟨-, ended, hends, hclosed⟩ := finish_eq_ok zstd ((succeeds_singleton zstd).mp hfinish)
  -- The first session, up to what it publishes last.
  obtain ⟨start', hcreate'⟩ := exists_created zstd hcreated
  obtain ⟨schemaFrame', sink', hcreated', -⟩ := create_eq_ok zstd (Prod.ext hcreate' rfl)
  have hstart : Alike start start' := hcreated.alike zstd hcreated' fun _ ↦ rfl
  obtain ⟨middle', hbefore', hmiddle⟩ := hstart.succeeds zstd hbefore
  obtain ⟨published', hpublish', hpublished⟩ := hmiddle.publishBuffer zstd hpublish
  -- The second session reopens the file that the flush left.
  obtain ⟨⟨hschema, hoptions⟩, hflushed, hempty⟩ :=
    flushed_of_created zstd hcreated hbefore hpublish hasked hlive
  obtain ⟨reopened, hopen, hreopened⟩ := exists_reopened_alike zstd hflushed hempty
    (hoptions ▸ hcreated.optionsValid) (hschema ▸ hcreated.schemaValid)
    (by rw [hschema, hoptions]; exact hcreated.encodingValid)
  have hstored : flushed.sink.stored = published'.sink.stored := by
    have hsame := stored_requestSink published
    rw [hasked] at hsame
    exact hsame.trans hpublished.stored.symm
  rw [hstored, hoptions] at hopen
  obtain ⟨last', hafter', hlast⟩ := hreopened.succeeds zstd hafter
  obtain ⟨ended', hends', hended⟩ := hlast.publishBuffer zstd hends
  exact ⟨start', middle', published', reopened, last', ended',
    ⟨hcreate', hbefore', hmiddle.healthy, hpublish', hpublished.granted, hopen, hafter',
      hlast.healthy, hends', hended.granted⟩,
    hended.stored.trans (hclosed.symm.trans hfile)⟩

namespace Ready

variable {schema : Schema} {options : WriterOptions} {before after : List RecordBatch}
  {start middle published reopened last ended : Writer}

/-- Both sessions can be ended there. -/
theorem writesInTwo
    (h : Ready zstd schema options before after start middle published reopened last ended) :
    WritesInTwo zstd schema options before after ended.sink.stored := by
  obtain ⟨first, hfirst, hstored⟩ := finish_of_granted zstd h.healthy h.publishes h.granted
  obtain ⟨closed, hclosed, hclosedStored⟩ :=
    finish_of_granted zstd h.lastHealthy h.ends h.endGranted
  have hopen := h.opens
  rw [← hstored] at hopen
  exact ⟨_, _, start, first, Prod.ext h.creates rfl,
    (succeeds_append zstd).mpr ⟨middle, h.appends, (succeeds_singleton zstd).mpr hfirst⟩,
    { contents := some first.sink.stored }, _, reopened, closed, rfl, Prod.ext hopen rfl,
    (succeeds_append zstd).mpr ⟨last, h.continues, (succeeds_singleton zstd).mpr hclosed⟩,
    hclosedStored⟩

/-- **Every two sessions write that file.** -/
theorem unique
    (h : Ready zstd schema options before after start middle published reopened last ended)
    {file : Bytes} (hwrites : WritesInTwo zstd schema options before after file) :
    file = ended.sink.stored := by
  obtain ⟨disk, contents, start', first, hcreate, hfirst, disk', contents', reopened', closed,
    hcontents, hopen, hclosed, rfl⟩ := hwrites
  obtain ⟨middle', hbefore, hfinish⟩ := (succeeds_append zstd).mp hfirst
  obtain ⟨last', hafter, hfinish'⟩ := (succeeds_append zstd).mp hclosed
  obtain ⟨-, published', hpublish, hstored⟩ :=
    finish_eq_ok zstd ((succeeds_singleton zstd).mp hfinish)
  obtain ⟨-, ended', hends, hclosedStored⟩ :=
    finish_eq_ok zstd ((succeeds_singleton zstd).mp hfinish')
  have hpublished : first.sink.stored = published.sink.stored := by
    obtain ⟨_, _, hcreated, -⟩ := create_eq_ok zstd hcreate
    obtain ⟨_, _, hcreated', -⟩ := create_eq_ok zstd (Prod.ext h.creates rfl)
    obtain ⟨_, hsucceeds, hmiddle⟩ :=
      (hcreated.alike zstd hcreated' fun _ ↦ rfl).succeeds zstd hbefore
    obtain rfl := Succeeds.unique zstd h.appends hsucceeds
    obtain ⟨_, hpublish', hpublished⟩ := hmiddle.publishBuffer zstd hpublish
    rw [h.publishes] at hpublish'
    cases hpublish'
    exact hstored.trans hpublished.stored.symm
  obtain ⟨file, _, _, hreopened, -⟩ := openInternal_eq_ok zstd hopen
  obtain ⟨file', _, _, hreopened', -⟩ := openInternal_eq_ok zstd (Prod.ext h.opens rfl)
  have hfile : file' = file := by
    have hpresent := hreopened.present
    have hpresent' := hreopened'.present
    rw [hcontents] at hpresent
    cases hpresent
    cases hpresent'
    exact hpublished.symm
  rw [hfile] at hreopened'
  obtain ⟨_, hsucceeds, hlast⟩ :=
    (hreopened.alike zstd hreopened' fun _ ↦ rfl).succeeds zstd hafter
  obtain rfl := Succeeds.unique zstd h.continues hsucceeds
  obtain ⟨_, hends', hended⟩ := hlast.publishBuffer zstd hends
  rw [h.ends] at hends'
  cases hends'
  exact hclosedStored.trans hended.stored.symm

end Ready

/-- A writer that was just opened has nothing to publish. -/
theorem stored_finish_of_open {disk : Disk} {options : WriterOptions} {contents : Option Bytes}
    {writer : Writer} (h : «open» zstd disk options = (.ok writer, contents)) :
    contents = some (call zstd .finish writer).2.sink.stored := by
  obtain ⟨file, scan, walk, hreopened, hcontents⟩ := openInternal_eq_ok zstd h
  obtain ⟨hpos, hwriter⟩ := startSession_eq_ok hreopened.starts
  have hempty : publishBuffer zstd writer = (.ok (), writer) := by
    rw [hwriter]
    rfl
  rw [hcontents, stored_finish zstd (by rw [hwriter]; rfl), hempty, hwriter]
  rfl

/-- **Splitting a run into sessions is transparent.**  What one session that flushes in between
writes, two sessions write, and no two sessions write anything else; and a session that appends
nothing leaves the file as it was. -/
theorem split_session (schema : Schema) (options : WriterOptions)
    (before after : List RecordBatch) (file : Bytes) :
    (WritesInOne zstd schema options before after file →
      WritesInTwo zstd schema options before after file ∧
        ∀ other, WritesInTwo zstd schema options before after other → other = file) ∧
    ∀ disk contents writer, «open» zstd disk options = (.ok writer, contents) →
      contents = some (call zstd .finish writer).2.sink.stored := by
  refine ⟨fun hone ↦ ?_, fun disk contents writer ↦ stored_finish_of_open zstd⟩
  obtain ⟨start, middle, published, reopened, last, ended, hready, rfl⟩ := exists_ready zstd hone
  exact ⟨hready.writesInTwo zstd, fun other ↦ hready.unique zstd⟩

/-- A row before the flush and a row after it. -/
theorem split_session_oneNumber :
    ∃ file, WritesInOne storingZstd numberSchema {} [oneNumber] [oneNumber] file ∧
      WritesInTwo storingZstd numberSchema {} [oneNumber] [oneNumber] file := by
  obtain ⟨start, hcreate, hcalls⟩ : ∃ start,
      (create storingZstd { contents := none } numberSchema {}).1 = .ok start ∧
        (runCalls storingZstd [.append oneNumber, .flush, .append oneNumber, .finish] start).1 =
          [.ok (), .ok (), .ok (), .ok ()] :=
    exists_ok_and (by decide +kernel) (by decide +kernel)
  have hone : WritesInOne storingZstd numberSchema {} [oneNumber] [oneNumber]
      (runCalls storingZstd [.append oneNumber, .flush, .append oneNumber, .finish]
        start).2.sink.stored :=
    ⟨{ contents := none }, _, start, _, Prod.ext hcreate rfl, Prod.ext hcalls rfl, rfl⟩
  exact ⟨_, hone, ((split_session storingZstd numberSchema {} [oneNumber] [oneNumber] _).1 hone).1⟩

end Writer

end Acta
