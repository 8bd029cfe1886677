import Acta.Format.DataFrame
import Acta.Format.FrameImage
import Acta.Format.SchemaFrame
import Acta.Lib.LogScan

/-!
# The forward walk over a file

Every entry point discovers a file the same way: validate the prologue and the schema frame, then
read data frames in order until the file ends or a frame is not yet complete.  The callers differ
only in what they record of each frame, which is the `visit` of the walk.

One turn of the loop is `stepFrame`, and the loop itself is the scan of a log (`LogScan.run`).
-/

namespace Acta

open Machine

/-- An open file whose prologue and schema frame have been validated. -/
structure FileScan where
  file : Bytes
  fileSize : ℕ
  limits : Limits
  prologue : Prologue
  schema : Schema
  firstDataFrameOffset : ℕ

/-- Where a completed walk stopped, and why. -/
structure Walk where
  frameCount : ℕ
  nextSequence : ℕ
  lastGoodOffset : ℕ
  incompleteTail : Bool
  nextRowId : Option ℕ
  frameBytesScanned : ℕ
  deriving DecidableEq, Repr

/-- The boundary an incremental walk resumes from. -/
structure ResumePoint where
  offset : ℕ
  sequence : ℕ
  expectedBaseRowId : Option ℕ
  frameCount : ℕ
  deriving DecidableEq, Repr

/-- The variables of the walk's loop, and what the caller has recorded so far. -/
structure WalkState (σ : Type) where
  offset : ℕ
  sequence : ℕ
  frameCount : ℕ
  expectedBaseRowId : Option ℕ
  frameBytesScanned : ℕ
  visited : σ

/-- What a caller records of each data frame, which it may also refuse. -/
abbrev Visit (σ : Type) := σ → FrameMetadata → DataFrameMetadata → Result σ

namespace FileScan

variable {σ : Type}

def nextOffset (offset length : ℕ) : Result ℕ :=
  okOr (checkedAdd offset length)
    ((Error.corruption "next frame offset overflow" (some offset)).withContext .file)

def incompleteSchemaFrame (offset : ℕ) : Error :=
  (Error.incompleteTail "the file ends before its schema frame is complete"
    (some offset)).withContext
    (.frame schemaFrameSequence)

/-- The schema frame of a file, which must be complete. -/
def completeSchemaFrame (read : FrameRead) : Result FrameMetadata :=
  match read with
  | .complete frame => .ok frame
  | .incompleteTail => .error (incompleteSchemaFrame schemaFrameOffset)

/-- Validate everything that precedes the first data frame.  The file extent is captured once, here,
and bounds every later read. -/
def fromFile (file : Bytes) (limits : Limits) : Result FileScan := do
  let fileSize := file.length
  let prologue ← Prologue.readFromFile file fileSize
  let read ← Frame.readFrame file fileSize schemaFrameOffset schemaFrameSequence limits
  let frame ← completeSchemaFrame read
  let schema ← SchemaFrame.parse file frame limits
  let firstDataFrameOffset ← nextOffset frame.frameOffset frame.totalLength
  return { file, fileSize, limits, prologue, schema, firstDataFrameOffset }

def rowIdsEnabled (scan : FileScan) : Bool :=
  scan.prologue.featureFlags &&& rowIdsFeature ≠ 0

def initialResumePoint (scan : FileScan) : ResumePoint where
  offset := scan.firstDataFrameOffset
  sequence := firstDataFrameSequence
  expectedBaseRowId := if scan.rowIdsEnabled then some 0 else none
  frameCount := 1

/-- The base row ID the block after this one must carry. -/
def nextBaseRowId (expected : Option ℕ) (block : DataFrameMetadata) (frame : FrameMetadata) :
    Result (Option ℕ) :=
  match block.baseRowId with
  | some base => do
    let next ← okOr (checkedAdd base block.rowCount)
      ((Error.corruption "base row ID overflow" (some frame.frameOffset)).withContext
        (.frame frame.sequence))
    return some next
  | none => .ok expected

/-- One turn of the walk: nothing when the file ends inside the frame, and otherwise the state after
it. -/
def stepFrame (scan : FileScan) (visit : Visit σ) (state : WalkState σ) :
    Result (Option (WalkState σ)) := do
  match ← Frame.readFrame scan.file scan.fileSize state.offset state.sequence scan.limits with
  | .incompleteTail => return none
  | .complete frame =>
    let block ← DataFrame.parse scan.file frame scan.schema scan.prologue.featureFlags
      state.expectedBaseRowId
    let expectedBaseRowId ← nextBaseRowId state.expectedBaseRowId block frame
    let visited ← visit state.visited frame block
    let offset ← nextOffset state.offset frame.totalLength
    let overflowed := (Error.corruption "frame sequence overflow"
      (some frame.frameOffset)).withContext
      .file
    let sequence ← okOr (checkedAdd state.sequence 1) overflowed
    let frameCount ← okOr (checkedAdd state.frameCount 1) overflowed
    let frameBytesScanned ← okOr (checkedAdd state.frameBytesScanned frame.totalLength) overflowed
    return some { offset, sequence, frameCount, expectedBaseRowId, frameBytesScanned, visited }

/-- What one turn of the walk that reads a whole frame did. -/
structure StepsTo (scan : FileScan) (visit : Visit σ) (state next : WalkState σ)
    (frame : FrameMetadata) (block : DataFrameMetadata) : Prop where
  read : Frame.readFrame scan.file scan.fileSize state.offset state.sequence scan.limits =
    .ok (.complete frame)
  parse : DataFrame.parse scan.file frame scan.schema scan.prologue.featureFlags
    state.expectedBaseRowId = .ok block
  baseRowId : nextBaseRowId state.expectedBaseRowId block frame = .ok next.expectedBaseRowId
  visit : visit state.visited frame block = .ok next.visited
  offset : next.offset = state.offset + frame.totalLength
  offset_le : state.offset + frame.totalLength ≤ u64Max
  sequence : next.sequence = state.sequence + 1
  sequence_le : state.sequence + 1 ≤ u64Max
  frameCount : next.frameCount = state.frameCount + 1
  frameCount_le : state.frameCount + 1 ≤ u64Max
  scanned : next.frameBytesScanned = state.frameBytesScanned + frame.totalLength
  scanned_le : state.frameBytesScanned + frame.totalLength ≤ u64Max

/-- **All a turn of the walk can do** when it reads a whole frame. -/
theorem stepFrame_eq_some {scan : FileScan} {visit : Visit σ} {state next : WalkState σ} :
    stepFrame scan visit state = .ok (some next) ↔
      ∃ frame block, StepsTo scan visit state next frame block := by
  constructor
  · intro h
    obtain ⟨read, hread, h⟩ := bind_eq_ok.mp h
    cases read with
    | incompleteTail => cases h
    | complete frame =>
      simp only [bind_eq_ok, nextOffset, okOr_eq_ok, checkedAdd_eq_some, pure_eq_ok,
        Except.ok.injEq, Option.some.injEq] at h
      obtain ⟨block, hparse, expected, hbase, visited, hvisit, _, ⟨hoffset, rfl⟩, _, ⟨hseq, rfl⟩,
        _, ⟨hcount, rfl⟩, _, ⟨hbytes, rfl⟩, rfl⟩ := h
      exact ⟨frame, block, hread, hparse, hbase, hvisit, rfl, hoffset, rfl, hseq, rfl, hcount, rfl,
        hbytes⟩
  · rintro ⟨frame, block, h⟩
    rw [stepFrame, h.read, ok_bind]
    simp only [bind_eq_ok, nextOffset, okOr_eq_ok, checkedAdd_eq_some, pure_eq_ok,
      Except.ok.injEq, Option.some.injEq]
    refine ⟨block, h.parse, _, h.baseRowId, _, h.visit, _, ⟨h.offset_le, rfl⟩, _,
      ⟨h.sequence_le, rfl⟩, _, ⟨h.frameCount_le, rfl⟩, _, ⟨h.scanned_le, rfl⟩, ?_⟩
    rw [← h.offset, ← h.sequence, ← h.frameCount, ← h.scanned]

/-- The walk stops inside a record exactly when the file ends inside the frame. -/
theorem stepFrame_eq_none {scan : FileScan} {visit : Visit σ} {state : WalkState σ} :
    stepFrame scan visit state = .ok none ↔
      Frame.readFrame scan.file scan.fileSize state.offset state.sequence scan.limits =
        .ok .incompleteTail := by
  constructor
  · intro h
    obtain ⟨read, hread, h⟩ := bind_eq_ok.mp h
    cases read with
    | incompleteTail => exact hread
    | complete frame =>
      simp only [bind_eq_ok, pure_eq_ok, Except.ok.injEq, reduceCtorEq, and_false,
        exists_false] at h
  · intro h
    rw [stepFrame, h]
    rfl

/-- The walk as the scan of a log of frames. -/
def frames (scan : FileScan) (visit : Visit σ) : LogScan (WalkState σ) Error where
  pos := WalkState.offset
  step := stepFrame scan visit
  progress h := by
    obtain ⟨frame, block, hsteps⟩ := stepFrame_eq_some.mp h
    have hpos := Frame.totalLength_pos_of_complete hsteps.read
    rw [hsteps.offset]
    omega

/-- What the walk reports of the state it stopped in. -/
def walkOf (state : WalkState σ) (incompleteTail : Bool) : Walk where
  frameCount := state.frameCount
  nextSequence := state.sequence
  lastGoodOffset := state.offset
  incompleteTail := incompleteTail
  nextRowId := state.expectedBaseRowId
  frameBytesScanned := state.frameBytesScanned

/-- The state a walk starts in. -/
def startAt (resume : ResumePoint) (visited : σ) : WalkState σ where
  offset := resume.offset
  sequence := resume.sequence
  frameCount := resume.frameCount
  expectedBaseRowId := resume.expectedBaseRowId
  frameBytesScanned := 0
  visited := visited

/-- Resume a data-frame walk from a previously committed boundary. -/
def walkDataFramesFrom (scan : FileScan) (resume : ResumePoint) (visit : Visit σ) (visited : σ) :
    Result (Walk × σ) := do
  let (state, incompleteTail) ← (scan.frames visit).run scan.fileSize (startAt resume visited)
  return (walkOf state incompleteTail, state.visited)

/-- Read every complete data frame in order, passing each to `visit`. -/
def walkDataFrames (scan : FileScan) (visit : Visit σ) (visited : σ) : Result (Walk × σ) :=
  walkDataFramesFrom scan scan.initialResumePoint visit visited

end FileScan

end Acta
