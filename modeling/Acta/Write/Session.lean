import Acta.Format.Growth
import Acta.Write.Progress

/-!
# Sessions

A session starts with a writer that `create` or `open` returned, and goes on by the calls made of
it, each with the result it gave (`Runs`).  Whatever a call returns, the file only grows by it
(`extends_call`), and every byte it adds belongs to a block the call was about to publish
(`Publishes`).
-/

namespace Acta

open Machine Wire

/-- What a write adds to the file, whether or not it succeeds. -/
def Sink.taken (sink : Sink) (bytes : Bytes) : Bytes :=
  match sink.replies sink.calls with
  | .done => bytes
  | .refused stored _ => bytes.take stored

theorem Sink.stored_writeAll (sink : Sink) (bytes : Bytes) :
    (sink.writeAll bytes).2.stored = sink.stored ++ sink.taken bytes := by
  unfold writeAll taken
  cases sink.replies sink.calls with
  | done => rfl
  | refused stored message => rfl

theorem Sink.taken_isPrefix (sink : Sink) (bytes : Bytes) : sink.taken bytes <+: bytes := by
  unfold taken
  cases sink.replies sink.calls with
  | done => exact List.prefix_rfl
  | refused stored message => exact List.take_prefix _ _

/-- An operation that only adds to the file. -/
def WriterStep.Extends (step : WriterStep) : Prop :=
  ∀ writer, writer.sink.stored <+: (step writer).2.sink.stored

theorem WriterStep.Extends.andThen {first second : WriterStep} (hfirst : first.Extends)
    (hsecond : second.Extends) : (first.andThen second).Extends := by
  intro writer
  have hprefix := hfirst writer
  unfold WriterStep.andThen
  cases hresult : first writer with
  | mk result next =>
    rw [hresult] at hprefix
    cases result with
    | error e => exact hprefix
    | ok u => exact hprefix.trans (hsecond next)

theorem WriterStep.Extends.length_le {step : WriterStep} (h : step.Extends) {writer next : Writer}
    {result : Result Unit} (hstep : step writer = (result, next)) :
    writer.sink.stored.length ≤ next.sink.stored.length := by
  have hprefix := h writer
  rw [hstep] at hprefix
  exact hprefix.length_le

namespace Writer

variable (zstd : Zstd)

/-! ### What a publication stores -/

/-- A publication that fails stores nothing, or what the sink takes of the frame, and then the
writer is poisoned. -/
theorem stored_of_publishBuffer_error {writer next : Writer} {e : Error}
    (h : publishBuffer zstd writer = (.error e, next)) :
    next = writer ∨ writer.buffer.isEmpty = false ∧ ∃ frame, writer.bufferedFrame zstd = .ok frame ∧
      next.poisoned = true ∧ next.sink.stored = writer.sink.stored ++ writer.sink.taken frame := by
  unfold publishBuffer at h
  split at h
  · cases h
  rename_i hfull
  split at h
  · cases h
    exact .inl rfl
  rename_i frame hframe
  have hstored := writer.sink.stored_writeAll frame
  unfold writeFrame at h
  refine .inr ⟨by simpa using hfull, frame, hframe, ?_⟩
  split at h
  · rename_i hwrite
    cases h
    rw [hwrite] at hstored
    exact ⟨rfl, hstored⟩
  · rename_i hwrite
    rw [hwrite] at hstored
    unfold commit at h
    split at h
    · cases h
      exact ⟨rfl, hstored⟩
    · cases h

/-- What a publication stores where the sink does as it is asked. -/
theorem stored_of_publishBuffer {writer : Writer} {frame : Bytes}
    (hfull : writer.buffer.isEmpty = false) (hframe : writer.bufferedFrame zstd = .ok frame)
    (hgranted : writer.sink.replies writer.sink.calls = .done) :
    (publishBuffer zstd writer).2.sink.stored = writer.sink.stored ++ frame := by
  have hwrite : writer.sink.writeAll frame = (.ok (), { writer.sink with
      stored := writer.sink.stored ++ frame, calls := writer.sink.calls + 1 }) := by
    unfold Sink.writeAll
    rw [hgranted]
  unfold publishBuffer
  rw [hfull, hframe]
  show (writeFrame frame writer).2.sink.stored = _
  unfold writeFrame
  rw [hwrite]
  dsimp only
  unfold commit
  split <;> rfl

theorem extends_publishBuffer : (publishBuffer zstd).Extends := by
  intro writer
  cases hpublish : publishBuffer zstd writer with
  | mk result next =>
    cases result with
    | error e =>
      obtain rfl | ⟨-, frame, -, -, hstored⟩ := stored_of_publishBuffer_error zstd hpublish
      · exact List.prefix_rfl
      · rw [hstored]
        exact List.prefix_append _ _
    | ok u =>
      obtain ⟨-, rfl, -⟩ | ⟨frame, counters, hwrote, -⟩ := publishBuffer_eq_ok zstd hpublish
      · exact List.prefix_rfl
      · rw [hwrote.next_eq]
        exact List.prefix_append _ _

theorem extends_publishIfComplete : (publishIfComplete zstd).Extends := by
  intro writer
  rw [publishIfComplete_eq]
  split
  · exact extends_publishBuffer zstd writer
  · exact List.prefix_rfl

/-! ### Every operation only adds to the file -/

/-- A request that stores nothing, granted or refused. -/
theorem requestSink_eq (writer : Writer) :
    (∃ e, requestSink writer = (.error e,
        { writer with sink := { writer.sink with calls := writer.sink.calls + 1 },
                      poisoned := true })) ∨
      requestSink writer = (.ok (),
        { writer with sink := { writer.sink with calls := writer.sink.calls + 1 } }) := by
  unfold requestSink Sink.request
  cases writer.sink.replies writer.sink.calls with
  | done => exact .inr rfl
  | refused stored message => exact .inl ⟨_, rfl⟩

theorem stored_requestSink (writer : Writer) :
    (requestSink writer).2.sink.stored = writer.sink.stored := by
  obtain ⟨e, heq⟩ | heq := requestSink_eq writer <;> rw [heq]

theorem stored_releaseLock (writer : Writer) :
    (releaseLock writer).2.sink.stored = writer.sink.stored := by
  unfold releaseLock Sink.request
  cases writer.sink.replies writer.sink.calls with
  | done => rfl
  | refused stored message => rfl

theorem extends_of_stored {step : WriterStep}
    (h : ∀ writer, (step writer).2.sink.stored = writer.sink.stored) : step.Extends := by
  intro writer
  rw [h writer]

/-- What a step stores nothing after leaves in the file. -/
theorem stored_andThen {first second : WriterStep}
    (h : ∀ writer, (second writer).2.sink.stored = writer.sink.stored) (writer : Writer) :
    (first.andThen second writer).2.sink.stored = (first writer).2.sink.stored := by
  rcases hstep : first writer with ⟨e | u, next⟩
  · rw [andThen_eq_error hstep]
  · rw [andThen_eq_of_ok hstep]
    exact h next

theorem extends_ensureHealthy : ensureHealthy.Extends := by
  refine extends_of_stored fun writer ↦ ?_
  unfold ensureHealthy
  split <;> rfl

theorem extends_appendFrom {batch : RecordBatch} (consumed : ℕ) (writer : Writer) :
    writer.sink.stored <+: (appendFrom zstd batch consumed writer).2.sink.stored := by
  induction consumed, writer using appendFrom.induct zstd batch with
  | case1 consumed writer hmore e hfit =>
    rw [appendFrom_of_lt zstd hmore, hfit]
  | case2 consumed writer hmore hfull e left hpublish =>
    have hprefix := extends_publishBuffer zstd writer
    rw [appendFrom_of_lt zstd hmore, hfull]
    simp only [WriterStep.andThen, hpublish] at hprefix ⊢
    exact hprefix
  | case3 consumed writer hmore hfull next hpublish ih =>
    have hprefix := extends_publishBuffer zstd writer
    rw [appendFrom_of_lt zstd hmore, hfull]
    simp only [WriterStep.andThen, hpublish] at hprefix ⊢
    exact hprefix.trans ih
  | case4 consumed writer hmore count hfits stop pushed e left hpublish =>
    have hprefix := extends_publishIfComplete zstd pushed
    rw [appendFrom_of_lt zstd hmore, hfits]
    simp only [resume, WriterStep.andThen, push]
    rw [hpublish] at hprefix ⊢
    exact hprefix
  | case5 consumed writer hmore count hfits stop pushed next hpublish ih =>
    have hprefix := extends_publishIfComplete zstd pushed
    rw [appendFrom_of_lt zstd hmore, hfits]
    simp only [resume, WriterStep.andThen, push]
    rw [hpublish] at hprefix ⊢
    exact hprefix.trans ih
  | case6 consumed writer hdone =>
    rw [appendFrom_of_le zstd (by omega)]

theorem extends_append (batch : RecordBatch) : (append zstd batch).Extends := by
  intro writer
  cases hhealthy : writer.poisoned with
  | true => rw [append, ensureHealthy_andThen hhealthy]
  | false =>
    cases hcheck : writer.checkBatch batch with
    | error e => rw [append_of_healthy zstd hhealthy, hcheck]
    | ok u =>
      rw [append_eq zstd hhealthy hcheck]
      exact extends_appendFrom zstd 0 writer

theorem extends_flush : (flush zstd).Extends :=
  extends_ensureHealthy.andThen
    ((extends_publishBuffer zstd).andThen (extends_of_stored stored_requestSink))

theorem extends_sync : (sync zstd).Extends :=
  (extends_flush zstd).andThen
    ((extends_of_stored stored_requestSink).andThen (extends_of_stored fun _ ↦ rfl))

theorem finish_snd (writer : Writer) :
    (finish zstd writer).2 = ((sync zstd).andThen releaseLock writer).2 := by
  unfold finish
  rcases (sync zstd).andThen releaseLock writer with ⟨e | u, next⟩ <;> rfl

theorem call_finish_eq_ok {writer last : Writer} :
    call zstd .finish writer = (.ok (), last) ↔
      (sync zstd).andThen releaseLock writer = (.ok (), last) := by
  show ((finish zstd writer).1.map _, (finish zstd writer).2) = _ ↔ _
  rw [finish]
  rcases (sync zstd).andThen releaseLock writer with ⟨e | u, next⟩
  · simp [Except.map]
  · simp [Except.map]

/-- What a flush and what `finish` leave in the file is what publishing the buffer leaves. -/
theorem stored_flush {writer : Writer} (hhealthy : writer.poisoned = false) :
    (flush zstd writer).2.sink.stored = (publishBuffer zstd writer).2.sink.stored := by
  rw [flush, andThen_eq_of_ok (ensureHealthy_eq_ok.mpr ⟨hhealthy, rfl⟩)]
  exact stored_andThen stored_requestSink writer

theorem stored_finish {writer : Writer} (hhealthy : writer.poisoned = false) :
    (call zstd .finish writer).2.sink.stored = (publishBuffer zstd writer).2.sink.stored := by
  have hmarked (next : Writer) :
      (requestSink.andThen markDurable next).2.sink.stored = next.sink.stored :=
    (stored_andThen (fun _ ↦ rfl) next).trans (stored_requestSink next)
  show (finish zstd writer).2.sink.stored = _
  rw [finish_snd, stored_andThen stored_releaseLock, sync, stored_andThen hmarked]
  exact stored_flush zstd hhealthy

/-- **A call only adds to the file**, whatever it returns. -/
theorem extends_call (c : Call) : (call zstd c).Extends := by
  cases c with
  | append batch => exact extends_append zstd batch
  | flush => exact extends_flush zstd
  | sync => exact extends_sync zstd
  | finish =>
    intro writer
    show _ <+: (finish zstd writer).2.sink.stored
    rw [finish_snd]
    exact (extends_sync zstd).andThen (extends_of_stored stored_releaseLock) writer

/-! ### How a session starts -/

/-- What `create` did when it returned a writer. -/
structure Created (disk : Disk) (schema : Schema) (options : WriterOptions) (schemaFrame : Bytes)
    (sink : Sink) (writer : Writer) : Prop where
  schemaValid : Write.validateSchema schema = .ok ()
  optionsValid : Write.validateOptions zstd options = .ok ()
  encodingValid : Write.validateEncoding schema options.encoding = .ok ()
  frame : Write.buildSchemaFrame schema = .ok schemaFrame
  absent : disk.contents = none
  stored : sink.stored =
    Write.buildPrologue (if options.rowIds then rowIdsFeature else 0) ++ schemaFrame
  replies : sink.replies = disk.replies
  starts : startSession sink schema options (AppendState.new sink.stored.length) = .ok writer

theorem checkCreate_eq_ok {schema : Schema} {options : WriterOptions} {initial : Bytes × Bytes}
    (h : checkCreate zstd schema options = .ok initial) :
    Write.validateSchema schema = .ok () ∧ Write.validateOptions zstd options = .ok () ∧
      Write.validateEncoding schema options.encoding = .ok () ∧
        ∃ schemaFrame, Write.buildSchemaFrame schema = .ok schemaFrame ∧
          initial = (Write.buildPrologue (if options.rowIds then rowIdsFeature else 0),
            schemaFrame) := by
  obtain ⟨_, hschema, h⟩ := bind_eq_ok.mp h
  obtain ⟨_, hoptions, h⟩ := bind_eq_ok.mp h
  obtain ⟨_, hencoding, h⟩ := bind_eq_ok.mp h
  obtain ⟨schemaFrame, hframe, h⟩ := bind_eq_ok.mp h
  cases h
  exact ⟨hschema, hoptions, hencoding, schemaFrame, hframe, rfl⟩

/-- The sink of an initialized file holds exactly the first two parts of the file. -/
theorem writeInitial_eq_ok {sink next : Sink} {prologue schemaFrame : Bytes}
    (h : writeInitial sink prologue schemaFrame = (.ok (), next)) :
    next.stored = sink.stored ++ prologue ++ schemaFrame ∧ next.replies = sink.replies := by
  unfold writeInitial Sink.writeAll at h
  split at h
  · cases h
  rename_i hfirst
  split at hfirst
  · cases hfirst
    split at h
    · cases h
    rename_i hsecond
    cases h
    split at hsecond
    · cases hsecond
      exact ⟨rfl, rfl⟩
    · cases hsecond
  · cases hfirst

/-- How `create` returns a writer. -/
theorem create_eq_ok {disk : Disk} {schema : Schema} {options : WriterOptions}
    {contents : Option Bytes} {writer : Writer}
    (h : create zstd disk schema options = (.ok writer, contents)) :
    ∃ schemaFrame sink, Created zstd disk schema options schemaFrame sink writer ∧
      contents = some sink.stored := by
  unfold create at h
  split at h
  · cases h
  · cases h
  rename_i prologue schemaFrame hchecked habsent
  obtain ⟨hschema, hoptions, hencoding, frame, hframe, heq⟩ := checkCreate_eq_ok zstd hchecked
  cases heq
  split at h
  · cases h
  split at h
  · cases h
  rename_i sink hinitial
  obtain ⟨hstored, hreplies⟩ := writeInitial_eq_ok hinitial
  obtain ⟨hstarts, rfl⟩ := Prod.mk.injEq _ _ _ _ ▸ h
  rw [List.nil_append] at hstored
  refine ⟨schemaFrame, sink, ⟨hschema, hoptions, hencoding, hframe, habsent, hstored, hreplies, ?_⟩,
    rfl⟩
  rw [hstored, List.length_append]
  exact hstarts

/-- What `open` did when it returned a writer. -/
structure Reopened (disk : Disk) (expectedSchema : Option Schema) (limits : Limits)
    (options : WriterOptions) (file : Bytes) (scan : FileScan) (walk : Walk) (writer : Writer) :
    Prop where
  optionsValid : Write.validateOptions zstd options = .ok ()
  present : disk.contents = some file
  opens : FileScan.fromFile file limits = .ok scan
  checked : checkReopen scan expectedSchema options = .ok ()
  walked : scan.walkDataFrames (fun _ _ _ ↦ .ok ()) () = .ok (walk, ())
  whole : walk.incompleteTail = false
  starts : startSession { stored := file, replies := disk.replies } scan.schema options
    { fileLength := scan.fileSize, nextSequence := walk.nextSequence,
      nextRowId := walk.nextRowId.getD firstBaseRowId } = .ok writer

/-- How `open` returns a writer. -/
theorem openInternal_eq_ok {disk : Disk} {expectedSchema : Option Schema} {limits : Limits}
    {options : WriterOptions} {contents : Option Bytes} {writer : Writer}
    (h : openInternal zstd disk expectedSchema limits options = (.ok writer, contents)) :
    ∃ file scan walk,
      Reopened zstd disk expectedSchema limits options file scan walk writer ∧
        contents = some file := by
  unfold openInternal at h
  obtain ⟨hopened, rfl⟩ := Prod.mk.injEq _ _ _ _ ▸ h
  obtain ⟨_, hoptions, hopened⟩ := bind_eq_ok.mp hopened
  obtain ⟨file, hfile, hopened⟩ := bind_eq_ok.mp hopened
  obtain ⟨_, -, hopened⟩ := bind_eq_ok.mp hopened
  obtain ⟨⟨schema, state⟩, hdiscover, hstarts⟩ := bind_eq_ok.mp hopened
  obtain ⟨scan, hscan, hdiscover⟩ := bind_eq_ok.mp hdiscover
  obtain ⟨_, hchecked, hdiscover⟩ := bind_eq_ok.mp hdiscover
  obtain ⟨⟨walk, _⟩, hwalked, hdiscover⟩ := bind_eq_ok.mp hdiscover
  obtain ⟨_, hwhole, hdiscover⟩ := bind_eq_ok.mp hdiscover
  obtain ⟨fileLength, -, hdiscover⟩ := bind_eq_ok.mp hdiscover
  obtain ⟨_, hlength, hdiscover⟩ := bind_eq_ok.mp hdiscover
  cases hdiscover
  rw [failIf_eq_ok] at hwhole hlength
  obtain rfl : fileLength = scan.fileSize := not_not.mp hlength
  rw [okOr_eq_ok] at hfile
  exact ⟨file, scan, walk, ⟨hoptions, hfile, hscan, hchecked, hwalked, Bool.eq_false_iff.mpr hwhole,
    hstarts⟩, hfile⟩

/-- **A complete file is reopened** at the place where its walk ends. -/
theorem openInternal_of_complete {disk : Disk} {expectedSchema : Option Schema} {limits : Limits}
    {options : WriterOptions} {file : Bytes} {scan : FileScan} {state : WalkState Unit}
    (hoptions : Write.validateOptions zstd options = .ok ())
    (hcontents : disk.contents = some file) (hlock : disk.locked = false)
    (hlength : disk.reportedLength file = .ok file.length)
    (hcomplete : FileScan.Complete (fun _ _ _ ↦ .ok ()) () file limits scan state)
    (hchecked : checkReopen scan expectedSchema options = .ok ()) :
    openInternal zstd disk expectedSchema limits options =
      (startSession { stored := file, replies := disk.replies } scan.schema options
        { fileLength := file.length, nextSequence := state.sequence,
          nextRowId := state.expectedBaseRowId.getD firstBaseRowId }, disk.contents) := by
  obtain ⟨frame, hopens⟩ := FileScan.fromFile_eq_ok.mp hcomplete.opens
  have hlocked : acquireWriterLock disk = .ok () :=
    failIf_neg (by rw [hlock]; exact Bool.false_ne_true)
  have hdiscover : discover disk file expectedSchema limits options =
      .ok (scan.schema,
        { fileLength := file.length, nextSequence := state.sequence,
          nextRowId := state.expectedBaseRowId.getD firstBaseRowId }) := by
    unfold discover
    rw [hcomplete.opens, ok_bind, hchecked, ok_bind, hcomplete.walk, ok_bind]
    dsimp only
    have hwhole : ¬(FileScan.walkOf state false).incompleteTail = true := Bool.false_ne_true
    rw [failIf_neg hwhole, ok_bind, hlength]
    show (do
      failIf (file.length ≠ scan.fileSize) _
      _) = _
    rw [failIf_neg (not_not.mpr hopens.isSize.symm)]
    rfl
  unfold openInternal
  rw [hoptions, ok_bind, hcontents, hlocked]
  show ((do
    let opened ← discover disk file expectedSchema limits options
    _), _) = _
  rw [hdiscover]
  rfl

theorem startSession_eq_ok {sink : Sink} {schema : Schema} {options : WriterOptions}
    {state : AppendState} {writer : Writer}
    (h : startSession sink schema options state = .ok writer) :
    ∃ hpos, writer = fromAppendSession sink schema options state hpos := by
  unfold startSession at h
  split at h
  · rename_i hpos
    cases h
    exact ⟨hpos, rfl⟩
  · cases h

/-! ### Sessions -/

/-- A writer that a session starts with: one that was created, or reopened under any limits. -/
inductive Starts : Writer → Prop
  | created {disk : Disk} {schema : Schema} {options : WriterOptions} {contents : Option Bytes}
      {writer : Writer} (h : create zstd disk schema options = (.ok writer, contents)) :
      Starts writer
  | reopened {disk : Disk} {expectedSchema : Option Schema} {limits : Limits}
      {options : WriterOptions} {contents : Option Bytes} {writer : Writer}
      (h : openInternal zstd disk expectedSchema limits options = (.ok writer, contents)) :
      Starts writer

/-- A writer that `create`, `open` or `openWithSchema` returned, under the default limits. -/
inductive Opened : Writer → Prop
  | created {disk : Disk} {schema : Schema} {options : WriterOptions} {contents : Option Bytes}
      {writer : Writer} (h : create zstd disk schema options = (.ok writer, contents)) :
      Opened writer
  | reopened {disk : Disk} {expectedSchema : Option Schema} {options : WriterOptions}
      {contents : Option Bytes} {writer : Writer}
      (h : openInternal zstd disk expectedSchema Limits.default options = (.ok writer, contents)) :
      Opened writer

variable {zstd} in
theorem Opened.starts {writer : Writer} (h : Opened zstd writer) : Starts zstd writer := by
  cases h with
  | created hcreate => exact .created hcreate
  | reopened hopen => exact .reopened hopen

/-- The writers from which a call publishes its buffer. -/
inductive Publishes (start : Writer) : Call → Writer → Prop
  /-- A full buffer, on the way of an append. -/
  | full {batch : RecordBatch} {consumed : ℕ} {blocks : List PublishedBlock} {writer : Writer}
      (before : Appends zstd batch start .filling consumed blocks writer)
      (hmore : consumed < batch.rowCount) (hfull : writer.fittingPrefix batch consumed = .ok 0) :
      Publishes start (.append batch) writer
  /-- A complete buffer, on the way of an append. -/
  | complete {batch : RecordBatch} {consumed : ℕ} {blocks : List PublishedBlock} {writer : Writer}
      (before : Appends zstd batch start .pushed consumed blocks writer)
      (hcomplete : writer.IsComplete) : Publishes start (.append batch) writer
  | flush : Publishes start .flush start
  | sync : Publishes start .sync start
  | finish : Publishes start .finish start

/-- The rows a call brings. -/
def Call.rows : Call → ℕ
  | .append batch => batch.rowCount
  | .flush | .sync | .finish => 0

/-- **Row IDs are handed out in order**: along an append, the next row ID and the buffered rows
advance by the rows taken from the batch. -/
theorem rowIds_of_appends {batch : RecordBatch} {start writer : Writer} {stage : AppendStage}
    {consumed : ℕ} {blocks : List PublishedBlock} (hrowIds : start.options.rowIds = true)
    (h : Appends zstd batch start stage consumed blocks writer) :
    writer.state.nextRowId + writer.buffer.rows =
      start.state.nextRowId + start.buffer.rows + consumed := by
  have hpublished {before next : Writer} (henabled : before.options.rowIds = true)
      (hpublish : publishBuffer zstd before = (.ok (), next)) :
      next.state.nextRowId + next.buffer.rows = before.state.nextRowId + before.buffer.rows := by
    obtain ⟨-, rfl, -⟩ | ⟨frame, counters, hwrote, -⟩ := publishBuffer_eq_ok zstd hpublish
    · rfl
    · obtain ⟨-, -, -, -, hrowId, -⟩ := advance_eq_some hwrote.advances
      rw [if_pos henabled] at hrowId
      rw [hwrote.next_eq]
      exact hrowId
  induction h with
  | start => rfl
  | full before hmore hfull hpublish ih =>
    have henabled := (kept_of_appends zstd before).2.symm ▸ hrowIds
    rw [hpublished henabled hpublish, ih]
  | take before hmore hfits ih =>
    rename_i consumed count blocks writer
    have hle := add_le_of_fittingPrefix (Nat.le_of_lt hmore) hfits
    have hslice : (batch.slice consumed (consumed + (count + 1))).rowCount =
        consumed + (count + 1) - consumed := RecordBatch.rowCount_slice hle
    show writer.state.nextRowId +
      (writer.buffer.rows + (batch.slice consumed (consumed + (count + 1))).rowCount) = _
    omega
  | complete before hpublish ih =>
    rcases publishIfComplete_eq_ok zstd hpublish with rfl | hpublish
    · exact ih
    · have henabled := (kept_of_appends zstd before).2.symm ▸ hrowIds
      rw [hpublished henabled hpublish, ih]

/-- What a call publishes holds no more rows than there were and than it brings. -/
theorem rowIds_of_publishes {start writer : Writer} {c : Call}
    (hrowIds : start.options.rowIds = true) (h : Publishes zstd start c writer) :
    writer.state.nextRowId + writer.buffer.rows ≤
      start.state.nextRowId + start.buffer.rows + c.rows := by
  cases h with
  | full before hmore hfull =>
    have hle := consumed_le_of_appends zstd before
    rw [rowIds_of_appends zstd hrowIds before]
    exact Nat.add_le_add_left hle _
  | complete before hcomplete =>
    have hle := consumed_le_of_appends zstd before
    rw [rowIds_of_appends zstd hrowIds before]
    exact Nat.add_le_add_left hle _
  | flush | sync | finish => exact Nat.le_refl _

/-- What a session has come to: the calls made of the first writer, each with its result, and the
writer they left.  Each call was `allowed` where it was made. -/
inductive Runs (allowed : Writer → Call → Prop) (start : Writer) :
    List (Call × Result Unit) → Writer → Prop
  | start : Runs allowed start [] start
  | call {calls : List (Call × Result Unit)} {writer next : Writer} {c : Call}
      {result : Result Unit} (before : Runs allowed start calls writer)
        (hallowed : allowed writer c)
      (h : Writer.call zstd c writer = (result, next)) :
      Runs allowed start (calls ++ [(c, result)]) next

end Writer

end Acta
