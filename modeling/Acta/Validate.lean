import Acta.Refresh
import Acta.Repair

/-!
# Structural validation, and what the entry points agree on

Validation, recovery and the reader walk the same frames and differ in what they do with each.
Validation and recovery record nothing, so what one makes of a file the other does: both accept it
and report the same extent, boundary and tail, or both fail alike.

The reader retains the blocks it finds.  It refuses to retain more of them than its limit, and to
count more rows than a 64-bit number holds, where the other two go on.  That is the only way the
three part.
-/

namespace Acta

open Machine Wire

/-- The result of a sequential structural validation. -/
structure ValidationReport where
  formatVersion : ℕ × ℕ
  featureFlags : ℕ
  frameCount : ℕ
  fileSize : ℕ
  lastGoodOffset : ℕ
  incompleteTail : Bool
  deriving DecidableEq, Repr

namespace ValidationReport

def complete (prologue : Prologue) (frameCount fileSize : ℕ) : ValidationReport where
  formatVersion := prologue.formatVersion
  featureFlags := prologue.featureFlags
  frameCount := frameCount
  fileSize := fileSize
  lastGoodOffset := fileSize
  incompleteTail := false

def withIncompleteTail (prologue : Prologue) (frameCount fileSize lastGoodOffset : ℕ) :
    ValidationReport where
  formatVersion := prologue.formatVersion
  featureFlags := prologue.featureFlags
  frameCount := frameCount
  fileSize := fileSize
  lastGoodOffset := lastGoodOffset
  incompleteTail := true

end ValidationReport

/-- Walk every frame from the prologue to the end of the file.  Validation keeps only the counts. -/
def validateStructural (file : Bytes) (limits : Limits) : Result ValidationReport := do
  let scan ← FileScan.fromFile file limits
  let (walk, ()) ← scan.walkDataFrames (fun _ _ _ ↦ .ok ()) ()
  if walk.incompleteTail then
    return .withIncompleteTail scan.prologue walk.frameCount scan.fileSize walk.lastGoodOffset
  else
    return .complete scan.prologue walk.frameCount scan.fileSize

namespace FileScan

variable {σ : Type} {scan : FileScan} {visit : Visit σ} {state : WalkState σ}

/-! ### Walks with different visitors -/

/-- The walk hands a frame to its visitor in this state. -/
structure Hands (scan : FileScan) (state : WalkState σ) (frame : FrameMetadata)
    (block : DataFrameMetadata) : Prop where
  inside : state.offset < scan.fileSize
  read : Frame.readFrame scan.file scan.fileSize state.offset state.sequence scan.limits =
    .ok (.complete frame)
  parse : DataFrame.parse scan.file frame scan.schema scan.prologue.featureFlags
    state.expectedBaseRowId = .ok block

/-- A turn of the walk fails for a reason of its own, or because the visitor refuses the frame it is
handed. -/
theorem stepFrame_eq_error {e : Error} (hinside : state.offset < scan.fileSize)
    (h : scan.stepFrame visit state = .error e) :
    scan.stepFrame (fun _ _ _ ↦ .ok ()) state.forget = .error e ∨
      ∃ frame block, scan.Hands state frame block ∧ visit state.visited frame block = .error e := by
  rcases bind_eq_error.mp h with h | ⟨read, hread, h⟩
  · exact .inl (by simp only [stepFrame, WalkState.forget, h, error_bind])
  cases read with
  | incompleteTail => cases h
  | complete frame =>
    rcases bind_eq_error.mp h with h | ⟨block, hparse, h⟩
    · exact .inl (by simp only [stepFrame, WalkState.forget, hread, ok_bind, h, error_bind])
    rcases bind_eq_error.mp h with h | ⟨expected, hbase, h⟩
    · exact .inl (by simp only [stepFrame, WalkState.forget, hread, ok_bind, hparse, h, error_bind])
    rcases bind_eq_error.mp h with h | ⟨visited, -, h⟩
    · exact .inr ⟨frame, block, ⟨hinside, hread, hparse⟩, h⟩
    -- What follows the visit does not look at what was recorded.
    refine .inl ?_
    simp only [stepFrame, WalkState.forget, hread, ok_bind, hparse, hbase]
    rcases bind_eq_error.mp h with h | ⟨offset, hoffset, h⟩
    · rw [h, error_bind]
    rcases bind_eq_error.mp h with h | ⟨sequence, hsequence, h⟩
    · rw [hoffset, ok_bind, h, error_bind]
    rcases bind_eq_error.mp h with h | ⟨count, hcount, h⟩
    · rw [hoffset, ok_bind, hsequence, ok_bind, h, error_bind]
    rcases bind_eq_error.mp h with h | ⟨scanned, -, h⟩
    · rw [hoffset, ok_bind, hsequence, ok_bind, hcount, ok_bind, h, error_bind]
    · cases h

/-- **What a visitor can change of a walk**: it ends as the walk that records nothing does, with the
same outcome or the same error, or the visitor refuses a frame it is handed. -/
theorem walkDataFrames_cases (scan : FileScan) (visit : Visit σ) (visited : σ) :
    (∃ walk visited', scan.walkDataFrames visit visited = .ok (walk, visited') ∧
        scan.walkDataFrames (fun _ _ _ ↦ .ok ()) () = .ok (walk, ())) ∨
      (∃ e, scan.walkDataFrames visit visited = .error e ∧
        scan.walkDataFrames (fun _ _ _ ↦ .ok ()) () = .error e) ∨
      ∃ state frame block e, (scan.frames visit).Reaches scan.fileSize
          (startAt scan.initialResumePoint visited) state ∧ scan.Hands state frame block ∧
        visit state.visited frame block = .error e ∧
          scan.walkDataFrames visit visited = .error e := by
  cases hwalk : scan.walkDataFrames visit visited with
  | ok result =>
    obtain ⟨walk, visited'⟩ := result
    exact .inl ⟨walk, visited', rfl, walkDataFramesFrom_forget hwalk⟩
  | error e =>
    refine .inr ?_
    rcases bind_eq_error.mp hwalk with hrun | ⟨_, -, hdone⟩
    · obtain ⟨state, hreach, hinside, hstep⟩ := LogScan.run_eq_error.mp hrun
      rcases stepFrame_eq_error hinside hstep with hplain | ⟨frame, block, hhands, hvisit⟩
      · refine .inl ⟨e, rfl, ?_⟩
        have hrun' : (scan.frames fun _ _ _ ↦ .ok ()).run scan.fileSize
            (startAt scan.initialResumePoint ()) = .error e :=
          LogScan.run_eq_error.mpr ⟨state.forget, reaches_forget hreach, hinside, hplain⟩
        rw [walkDataFrames, walkDataFramesFrom, hrun', error_bind]
      · exact .inr ⟨state, frame, block, e, hreach, hhands, hvisit, rfl⟩
    · cases hdone

/-- A walk fails where its visitor refuses a frame it is handed. -/
theorem walk_fails_of_hands {visited : σ} {frame : FrameMetadata} {block : DataFrameMetadata}
    {e : Error}
    (hreach : (scan.frames visit).Reaches scan.fileSize (startAt scan.initialResumePoint visited)
      state)
    (hhands : scan.Hands state frame block) (hvisit : visit state.visited frame block = .error e) :
    ∃ e, scan.walkDataFrames visit visited = .error e := by
  have hfails : ∃ e, scan.stepFrame visit state = .error e := by
    simp only [stepFrame, hhands.read, ok_bind, hhands.parse]
    cases nextBaseRowId state.expectedBaseRowId block frame with
    | error e => exact ⟨e, rfl⟩
    | ok expected => exact ⟨e, by rw [ok_bind, hvisit, error_bind]⟩
  obtain ⟨e, hstep⟩ := hfails
  have hrun : (scan.frames visit).run scan.fileSize (startAt scan.initialResumePoint visited) =
      .error e :=
    LogScan.run_eq_error.mpr ⟨state, hreach, hhands.inside, hstep⟩
  exact ⟨e, by rw [walkDataFrames, walkDataFramesFrom, hrun, error_bind]⟩

/-! ### Where a walk ends -/

/-- A walk that succeeds ends past the schema frame and no further than the end of the file, and
short of it exactly when the file ends inside a frame. -/
theorem walk_ends {file : Bytes} {limits : Limits} {visited visited' : σ} {walk : Walk}
    (hopen : fromFile file limits = .ok scan)
    (hwalk : scan.walkDataFrames visit visited = .ok (walk, visited')) :
    schemaFrameOffset ≤ walk.lastGoodOffset ∧
      if walk.incompleteTail then walk.lastGoodOffset < file.length
      else walk.lastGoodOffset = file.length := by
  obtain ⟨frame, hopens⟩ := fromFile_eq_ok.mp hopen
  have hsize : scan.fileSize = scan.file.length := by rw [hopens.isFile, hopens.isSize]
  obtain ⟨state, hreach, hend, hstate, -⟩ := walkDataFramesFrom_eq_ok.mp hwalk
  have hoffset : state.offset = walk.lastGoodOffset := congrArg Walk.lastGoodOffset hstate
  have hfirst : (startAt scan.initialResumePoint visited).offset ≤ scan.fileSize := by
    rw [hopens.isSize]
    exact hopens.firstDataFrameOffset_le
  have hle := offset_le_of_reaches hsize hfirst hreach
  have hpast : scan.firstDataFrameOffset ≤ state.offset := hreach.pos_le
  rw [hopens.offset] at hpast
  rw [← hoffset]
  refine ⟨by omega, ?_⟩
  rw [hopens.isSize] at hend hle
  split at hend <;> rename_i htail
  · rw [if_pos htail]
    exact hend.1
  · rw [if_neg htail]
    exact le_antisymm hle hend

end FileScan

/-! ### Agreement -/

/-- Two operations fail with errors of one kind. -/
def FailAlike {α β : Type} (x : Result α) (y : Result β) : Prop :=
  ∃ kind, FailsWith kind x ∧ FailsWith kind y

theorem FailAlike.of_eq_error {α β : Type} {x : Result α} {y : Result β} {e : Error}
    (hx : x = .error e) (hy : y = .error e) : FailAlike x y :=
  ⟨e.kind, ⟨e, hx, rfl⟩, ⟨e, hy, rfl⟩⟩

/-- A report and a recovery plan describe one snapshot. -/
structure ReportsPlan (report : ValidationReport) (plan : RecoveryPlan) : Prop where
  fileSize : report.fileSize = plan.fileSize
  lastGoodOffset : report.lastGoodOffset = plan.lastGoodOffset
  incompleteTail : report.incompleteTail = true ↔ plan.action = .truncateIncompleteTail

/-- A report and a reader describe one snapshot, whose frames are the schema frame and the
blocks. -/
structure ReportsReader (report : ValidationReport) (reader : Reader) : Prop where
  fileSize : report.fileSize = reader.fileMetadata.fileSize
  lastGoodOffset : report.lastGoodOffset = reader.fileMetadata.lastGoodOffset
  incompleteTail : report.incompleteTail = reader.fileMetadata.incompleteTail
  frameCount : report.frameCount = reader.fileMetadata.frameCount
  blockCount : report.frameCount = reader.fileMetadata.blockCount + 1
  blocks : reader.fileMetadata.blockCount = reader.blocks.length

/-- The walk of a file hands the reader a block it does not retain: one beyond its limit, which it
refuses as such, or one that brings the rows past the largest 64-bit number. -/
inductive Overruns (file : Bytes) (limits : Limits) (outcome : Result Reader) : Prop
  | blocks {scan : FileScan} {state : WalkState Reader.Discovered} {frame : FrameMetadata}
      {block : DataFrameMetadata} (opens : FileScan.fromFile file limits = .ok scan)
      (reaches : (scan.frames (Reader.visitBlock limits)).Reaches scan.fileSize
        (FileScan.startAt scan.initialResumePoint {}) state)
      (hands : scan.Hands state frame block)
      (beyond : limits.maxBlocks ≤ state.visited.blocks.length)
      (refuses : FailsWith .resourceLimit outcome)
  | rows {scan : FileScan} {state : WalkState Reader.Discovered} {frame : FrameMetadata}
      {block : DataFrameMetadata} (opens : FileScan.fromFile file limits = .ok scan)
      (reaches : (scan.frames (Reader.visitBlock limits)).Reaches scan.fileSize
        (FileScan.startAt scan.initialResumePoint {}) state)
      (hands : scan.Hands state frame block)
      (beyond : u64Max < state.visited.totalRows + block.rowCount)

/-- What validation makes of a walk. -/
theorem validateStructural_eq {file : Bytes} {limits : Limits} {scan : FileScan} {walk : Walk}
    (hopen : FileScan.fromFile file limits = .ok scan)
    (hwalk : scan.walkDataFrames (fun _ _ _ ↦ .ok ()) () = .ok (walk, ())) :
    validateStructural file limits =
      .ok { formatVersion := scan.prologue.formatVersion
            featureFlags := scan.prologue.featureFlags
            frameCount := walk.frameCount
            fileSize := file.length
            lastGoodOffset := walk.lastGoodOffset
            incompleteTail := walk.incompleteTail } := by
  obtain ⟨frame, hopens⟩ := FileScan.fromFile_eq_ok.mp hopen
  obtain ⟨-, hend⟩ := FileScan.walk_ends hopen hwalk
  rw [validateStructural, hopen, ok_bind, hwalk, ok_bind, ← hopens.isSize]
  rw [← hopens.isSize] at hend
  cases htail : walk.incompleteTail with
  | true => simp only [htail, if_true, pure_eq_ok, ValidationReport.withIncompleteTail]
  | false =>
    rw [htail, if_neg (by simp)] at hend
    simp [htail, hend, pure_eq_ok, ValidationReport.complete]

/-- **Validation and recovery agree** on every file, under any limits. -/
theorem validateStructural_inspectRecovery (file : Bytes) (limits : Limits) :
    (∃ report plan, validateStructural file limits = .ok report ∧
        Recovery.inspectRecoveryWithLimits file limits = .ok plan ∧ ReportsPlan report plan) ∨
      FailAlike (validateStructural file limits)
        (Recovery.inspectRecoveryWithLimits file limits) := by
  cases hopen : FileScan.fromFile file limits with
  | error e =>
    right
    refine .of_eq_error (e := e) ?_ ?_
    · rw [validateStructural, hopen, error_bind]
    · rw [Recovery.inspectRecoveryWithLimits, hopen, error_bind]
  | ok scan =>
    cases hwalk : scan.walkDataFrames (fun _ _ _ ↦ .ok ()) () with
    | error e =>
      right
      refine .of_eq_error (e := e) ?_ ?_
      · rw [validateStructural, hopen, ok_bind, hwalk, error_bind]
      · rw [Recovery.inspectRecoveryWithLimits, hopen, ok_bind, Recovery.discover, hwalk,
          error_bind]
    | ok result =>
      obtain ⟨walk, _⟩ := result
      obtain ⟨frame, hopens⟩ := FileScan.fromFile_eq_ok.mp hopen
      obtain ⟨-, hend⟩ := FileScan.walk_ends hopen hwalk
      have hdiscover := Recovery.discover_eq hwalk
      rw [← hopens.isSize] at hend
      left
      rw [Recovery.inspectRecoveryWithLimits, hopen, ok_bind, hdiscover]
      cases htail : walk.incompleteTail with
      | true =>
        rw [htail, if_pos rfl] at hend
        refine ⟨_, _, validateStructural_eq hopen hwalk, Recovery.planFromWalk_incomplete hend, ?_⟩
        exact ⟨hopens.isSize.symm, rfl, iff_of_true htail rfl⟩
      | false =>
        rw [htail, if_neg (by simp)] at hend
        rw [hend]
        refine ⟨_, _, validateStructural_eq hopen hwalk, Recovery.planFromWalk_complete _, ?_⟩
        exact ⟨hopens.isSize.symm, hend, iff_of_false (by simp [htail]) (by simp)⟩

section Reading

variable {system : FileSystem} {path : String} {identity : FileIdentity}

theorem Reader.openWithLimits_eq (hpath : system.identityOf path = .ok identity) (limits : Limits) :
    Reader.openWithLimits system path limits = (do
      let (schema, fileMetadata, blocks) ← Reader.discover (system.contents identity) limits
      return { path, limits, schema, fileMetadata, blocks, identity }) := by
  simp only [Reader.openWithLimits, FileIdentity.capture, FileSystem.openFile, hpath,
    Except.mapError, ok_bind]

/-- **The reader agrees with validation** unless it is handed a block it does not retain. -/
theorem validateStructural_openWithLimits (hpath : system.identityOf path = .ok identity)
    (limits : Limits) :
    (∃ report reader, validateStructural (system.contents identity) limits = .ok report ∧
        Reader.openWithLimits system path limits = .ok reader ∧ ReportsReader report reader) ∨
      FailAlike (validateStructural (system.contents identity) limits)
          (Reader.openWithLimits system path limits) ∨
        Overruns (system.contents identity) limits (Reader.openWithLimits system path limits) := by
  rw [Reader.openWithLimits_eq hpath]
  generalize system.contents identity = file
  cases hopen : FileScan.fromFile file limits with
  | error e =>
    refine .inr (.inl (.of_eq_error (e := e) ?_ ?_))
    · rw [validateStructural, hopen, error_bind]
    · rw [Reader.discover, hopen, error_bind, error_bind]
  | ok scan =>
    obtain ⟨frame, hopens⟩ := FileScan.fromFile_eq_ok.mp hopen
    rcases FileScan.walkDataFrames_cases scan (Reader.visitBlock limits) {} with
      ⟨walk, discovered, hwalk, hplain⟩ | ⟨e, hwalk, hplain⟩ |
        ⟨state, frame, block, e, hreach, hhands, hvisit, hwalk⟩
    · left
      obtain ⟨hpast, hend⟩ := FileScan.walk_ends hopen hplain
      have hle : walk.lastGoodOffset ≤ file.length := by
        split at hend
        · exact hend.le
        · exact hend.le
      have htrailer : trailerSize ≤ schemaFrameOffset := by decide
      have hanchor := Frame.readCommitTrailer_of_le (htrailer.trans hpast) hle
      rw [← hopens.isSize, ← hopens.isFile] at hanchor
      obtain ⟨state, hreach, -, hstate, hvisited⟩ := FileScan.walkDataFramesFrom_eq_ok.mp hwalk
      have hcounted := Reader.Counted.of_reaches hreach (Reader.counted_startAt hopens)
      have hcount : walk.frameCount = discovered.blocks.length + 1 := by
        rw [← hstate, ← hvisited]
        exact hcounted.frameCount
      simp only [Reader.discover, hopen, hwalk, ok_bind, hanchor, pure_eq_ok]
      refine ⟨_, _, validateStructural_eq hopen hplain, rfl, ?_⟩
      exact ⟨hopens.isSize.symm, rfl, rfl, rfl, hcount, rfl⟩
    · refine .inr (.inl (.of_eq_error (e := e) ?_ ?_))
      · rw [validateStructural, hopen, ok_bind, hplain, error_bind]
      · rw [Reader.discover, hopen, ok_bind, hwalk, error_bind, error_bind]
    · refine .inr (.inr ?_)
      have hfails : (do
          let (schema, fileMetadata, blocks) ← Reader.discover file limits
          return { path, limits, schema, fileMetadata, blocks, identity : Reader }) =
            .error e := by
        rw [Reader.discover, hopen, ok_bind, hwalk, error_bind, error_bind]
      rcases bind_eq_error.mp hvisit with hfull | ⟨_, -, hrecord⟩
      · obtain ⟨hbeyond, rfl⟩ := failIf_eq_error.mp hfull
        exact .blocks hopen hreach hhands hbeyond ⟨_, hfails, rfl⟩
      · refine .rows hopen hreach hhands ?_
        by_contra hfits
        have hok : Reader.recordBlock state.visited frame block = .ok _ :=
          Reader.recordBlock_eq_ok.mpr ⟨Nat.not_lt.mp hfits, rfl⟩
        cases hrecord.symm.trans hok

/-- **What the three entry points agree on.**  Validation and recovery accept the same files and
report the same snapshot of them, or fail with one kind of error; and so do validation and the
reader, unless the walk hands the reader a block beyond its limit, or one that brings the rows past
the largest 64-bit number. -/
theorem entry_points_agree (hpath : system.identityOf path = .ok identity) (limits : Limits) :
    ((∃ report plan, validateStructural (system.contents identity) limits = .ok report ∧
        Recovery.inspectRecoveryWithLimits (system.contents identity) limits = .ok plan ∧
          ReportsPlan report plan) ∨
      FailAlike (validateStructural (system.contents identity) limits)
        (Recovery.inspectRecoveryWithLimits (system.contents identity) limits)) ∧
    ((∃ report reader, validateStructural (system.contents identity) limits = .ok report ∧
        Reader.openWithLimits system path limits = .ok reader ∧ ReportsReader report reader) ∨
      FailAlike (validateStructural (system.contents identity) limits)
          (Reader.openWithLimits system path limits) ∨
        Overruns (system.contents identity) limits (Reader.openWithLimits system path limits)) :=
  ⟨validateStructural_inspectRecovery _ limits, validateStructural_openWithLimits hpath limits⟩

end Reading

/-- A reader is not opened where the walk overruns. -/
theorem Overruns.not_opened {system : FileSystem} {path : String} {identity : FileIdentity}
    {limits : Limits} (hpath : system.identityOf path = .ok identity)
    (h : Overruns (system.contents identity) limits (Reader.openWithLimits system path limits))
    (reader : Reader) : Reader.openWithLimits system path limits ≠ .ok reader := by
  intro hopened
  cases h with
  | blocks _ _ _ _ hrefuses =>
    obtain ⟨e, hfails, -⟩ := hrefuses
    cases hopened.symm.trans hfails
  | rows hopen hreach hhands hbeyond =>
    rename_i state frame block
    obtain ⟨e, hvisit⟩ : ∃ e, Reader.visitBlock limits state.visited frame block = .error e := by
      rcases hvisit : Reader.visitBlock limits state.visited frame block with e | next
      · exact ⟨e, rfl⟩
      · have hfits := (Reader.recordBlock_eq_ok.mp (Reader.visitBlock_eq_ok hvisit).2).1
        omega
    obtain ⟨e, hwalk⟩ := FileScan.walk_fails_of_hands hreach hhands hvisit
    rw [Reader.openWithLimits_eq hpath, Reader.discover, hopen, ok_bind, hwalk, error_bind,
      error_bind] at hopened
    cases hopened

/-- A file of one block, which all three accept. -/
theorem entry_points_agree_oneBlock :
    ∃ file report plan reader, Reader.OneBlock file reader ∧
      validateStructural file Limits.default = .ok report ∧
        Recovery.inspectRecoveryWithLimits file Limits.default = .ok plan ∧
          ReportsPlan report plan ∧ ReportsReader report reader := by
  obtain ⟨file, reader, h⟩ := Reader.exists_oneBlock
  have hpath : (Reader.oneFile file).identityOf "n.acta" = .ok ⟨0, 0⟩ := rfl
  obtain ⟨hplan, hreader⟩ := entry_points_agree hpath Limits.default
  obtain ⟨report, opened, hvalid, hopen, hreports⟩ | ⟨kind, -, e, hfails, -⟩ | hoverruns := hreader
  · obtain rfl : reader = opened := Except.ok.inj (h.opens.symm.trans hopen)
    obtain ⟨report', plan, hvalid', hinspect, hreports'⟩ | ⟨kind, ⟨e, hfails, -⟩, -⟩ := hplan
    · obtain rfl : report = report' := Except.ok.inj (hvalid.symm.trans hvalid')
      exact ⟨file, report, plan, reader, h, hvalid, hinspect, hreports', hreports⟩
    · cases hvalid.symm.trans hfails
  · cases h.opens.symm.trans hfails
  · exact absurd h.opens (hoverruns.not_opened hpath reader)

/-! ### Where they part -/

/-- Limits that retain no block. -/
def noBlocks : Limits := { Limits.default with maxBlocks := 0 }

theorem coversDefault_noBlocks : noBlocks.CoversDefault :=
  ⟨Nat.le_refl _, Nat.le_refl _, Nat.le_refl _, Nat.le_refl _, Nat.le_refl _⟩

/-- A file of one block, which validation and recovery accept and a reader that retains no block
does not. -/
theorem entry_points_part :
    ∃ file report plan, validateStructural file noBlocks = .ok report ∧
      Recovery.inspectRecoveryWithLimits file noBlocks = .ok plan ∧
        FailsWith .resourceLimit (Reader.openWithLimits (Reader.oneFile file) "" noBlocks) := by
  obtain ⟨schemaFrame, hbuild⟩ : ∃ schemaFrame,
      Write.buildSchemaFrame numberSchema = .ok schemaFrame :=
    exists_eq_ok (by decide +kernel)
  let options : WriterOptions := {}
  let rows := ((BlockBuffer.newWithStatistics 1 .none).push numberSchema oneNumber).blockRows
  obtain ⟨image, hframe⟩ : ∃ image, Write.buildDataFrameWithStatistics storingZstd numberSchema rows
      options unavailableBaseRowId firstDataFrameSequence = .ok image :=
    exists_eq_ok (by decide +kernel)
  obtain ⟨assembly, primary, hbuilt⟩ := Write.buildDataFrame_eq_ok hframe
  have hnumbered : Write.Numbered rows unavailableBaseRowId firstDataFrameSequence :=
    ⟨by decide, by decide, by decide, by decide⟩
  let start := Write.buildPrologue options.featureFlags ++ schemaFrame
  let scan := Write.initialScan numberSchema options noBlocks schemaFrame start
  have hcomplete : FileScan.Complete (fun _ _ _ ↦ .ok ()) () start noBlocks scan
      (FileScan.startAt scan.initialResumePoint ()) :=
    Write.complete_initial_of_covers (by decide) hbuild coversDefault_noBlocks ()
  let state := FileScan.startAt scan.initialResumePoint ()
  have hexpected : state.expectedBaseRowId = none := by
    show (if scan.rowIdsEnabled then some 0 else none) = none
    rw [Write.rowIdsEnabled_initialScan]
    rfl
  let frame := Frame.metadataAt image start.length
  let block := Write.blockMetadata numberSchema unavailableBaseRowId rows.rowCount primary
    options.rowIds
  have himage := hbuilt.isFrame hnumbered coversDefault_noBlocks
  have hparse : DataFrame.parse (start ++ image) frame scan.schema scan.prologue.featureFlags
      state.expectedBaseRowId = .ok block := by
    rw [hexpected]
    exact hbuilt.parse hnumbered coversDefault_noBlocks rfl (holdsAt_append_right _ _)
  have hlength : (start ++ image).length ≤ u64Max := by
    have hheader := hbuilt.header_le
    have hpayload := hbuilt.payload_le
    have htotal := hbuilt.length_image
    have hschema := Write.length_le_of_buildSchemaFrame hbuild
    rw [hbuilt.length_frameHeader] at htotal
    rw [List.length_append, List.length_append, Write.length_buildPrologue]
    simp only [defaultMaxFramePayloadLength, defaultMaxFrameHeaderLength]
      at hheader hpayload hschema
    simp only [prefixSize, trailerSize] at htotal
    simp only [u64Max]
    omega
  have hbase : FileScan.nextBaseRowId state.expectedBaseRowId block frame = .ok none := by
    rw [hexpected]
    rfl
  have hgrown := hcomplete.append himage hparse hbase rfl hlength
  refine ⟨start ++ image, _, _, validateStructural_eq hgrown.opens hgrown.walk,
    Recovery.inspect_of_complete hgrown, ?_⟩
  -- The reader's own walk refuses the block it is handed first.
  have hread : Frame.readFrame (start ++ image) (start ++ image).length scan.firstDataFrameOffset
      firstDataFrameSequence noBlocks = .ok (.complete frame) := by
    have hend : scan.firstDataFrameOffset = start.length := hcomplete.isEnd
    rw [hend]
    exact Frame.readFrame_append himage hlength
  have hinside : scan.firstDataFrameOffset < (start ++ image).length := by
    have hend : scan.firstDataFrameOffset = start.length := hcomplete.isEnd
    have htotal := hbuilt.length_image
    have hprefix : prefixSize = 48 := rfl
    rw [List.length_append, hend]
    omega
  let refused := Reader.tooManyBlocks noBlocks (some frame.frameOffset)
  let scan' := scan.withFile (start ++ image)
  have hstep : scan'.stepFrame (Reader.visitBlock noBlocks)
      (FileScan.startAt scan.initialResumePoint {}) = .error refused := by
    show (Frame.readFrame (start ++ image) (start ++ image).length scan.firstDataFrameOffset
      firstDataFrameSequence noBlocks >>= _) = _
    rw [hread, ok_bind]
    show (DataFrame.parse (start ++ image) frame scan.schema scan.prologue.featureFlags
      state.expectedBaseRowId >>= _) = _
    rw [hparse, ok_bind]
    show (FileScan.nextBaseRowId state.expectedBaseRowId block frame >>= _) = _
    rw [hbase, ok_bind]
    rfl
  have hwalk : scan'.walkDataFrames (Reader.visitBlock noBlocks) {} = .error refused := by
    have hrun : (scan'.frames (Reader.visitBlock noBlocks)).run scan'.fileSize
        (FileScan.startAt scan'.initialResumePoint {}) = .error refused :=
      LogScan.run_eq_error.mpr ⟨_, .refl, hinside, hstep⟩
    rw [FileScan.walkDataFrames, FileScan.walkDataFramesFrom, hrun, error_bind]
  refine ⟨refused, ?_, rfl⟩
  rw [@Reader.openWithLimits_eq _ _ ⟨0, 0⟩ rfl]
  show (do
    let (schema, fileMetadata, blocks) ← Reader.discover (start ++ image) noBlocks
    return _) = _
  rw [Reader.discover, hgrown.opens, ok_bind, hwalk, error_bind, error_bind]

end Acta
