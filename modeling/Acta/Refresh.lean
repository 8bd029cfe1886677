import Acta.Read.Discovery
import Acta.Read.Tail

/-!
# Refresh is a fresh open

However a file has grown since a reader last looked at it, a refresh leaves the reader where a fresh
open of the same bytes would have put it, and fails where that would have failed
(`refresh_eq_openWithLimits`).  A snapshot is always the discovery of some earlier contents of the
file (`Reader.Follows`), and this is the invariant of a chain of refreshes.

The walk of a refresh resumes where the walk of the snapshot stopped.  It carries fewer counters
than the walk of a fresh open does there, and `resumed` puts back what is missing: turn by turn the
two walks then do the same.
-/

namespace Acta

open Machine Wire

namespace Reader

/-! ### The resumed walk -/

/-- A state of the resumed walk, with what was recorded and scanned before it resumed. -/
def resumed (known : List BlockMetadata) (scanned : ℕ) (state : WalkState Discovered) :
    WalkState Discovered :=
  { state with
    frameBytesScanned := scanned + state.frameBytesScanned
    visited := { state.visited with blocks := known ++ state.visited.blocks } }

/-- A refresh records a block where an open does, and refuses it with the same error. -/
theorem visitBlock_resumed {limits : Limits} {known : List BlockMetadata} {staged : Discovered}
    (h : known.length + staged.blocks.length ≤ u64Max) (frame : FrameMetadata)
    (block : DataFrameMetadata) :
    visitBlock limits { staged with blocks := known ++ staged.blocks } frame block =
      (stageBlock limits known.length staged frame block).map
        fun next ↦ { next with blocks := known ++ next.blocks } := by
  rw [visitBlock, stageBlock, checkedAdd_of_le h]
  simp only [okOr, ok_bind, List.length_append]
  by_cases hmax : limits.maxBlocks ≤ known.length + staged.blocks.length
  · rw [failIf_pos hmax]
    rfl
  · rw [failIf_neg hmax]
    simp only [ok_bind, recordBlock]
    cases okOr (checkedAdd staged.totalRows block.rowCount)
      (fileError (Error.corruption "total row count overflow" (some frame.frameOffset))) with
    | error e => rfl
    | ok totalRows => simp [Except.map, List.append_assoc]

/-- **A turn of the resumed walk** is the turn of the walk it resumes. -/
theorem stepFrame_resumed {scan : FileScan} {limits : Limits} {known : List BlockMetadata}
    {scanned : ℕ} {state : WalkState Discovered} (h : Counted (resumed known scanned state)) :
    scan.stepFrame (visitBlock limits) (resumed known scanned state) =
      (scan.stepFrame (stageBlock limits known.length) state).map
        (Option.map (resumed known scanned)) := by
  have hframeCount := h.frameCount
  have hframeCount_le := h.frameCount_le
  have hscanned := h.scanned
  dsimp only [resumed] at hframeCount hframeCount_le hscanned
  rw [List.length_append] at hframeCount
  have hvisit : ∀ frame block,
      visitBlock limits { state.visited with blocks := known ++ state.visited.blocks } frame block =
        (stageBlock limits known.length state.visited frame block).map
          fun next ↦ { next with blocks := known ++ next.blocks } :=
    visitBlock_resumed (by omega)
  simp only [FileScan.stepFrame, resumed]
  cases Frame.readFrame scan.file scan.fileSize state.offset state.sequence scan.limits with
  | error e => rfl
  | ok read =>
    cases read with
    | incompleteTail => rfl
    | complete frame =>
      simp only [ok_bind]
      cases DataFrame.parse scan.file frame scan.schema scan.prologue.featureFlags
        state.expectedBaseRowId with
      | error e => rfl
      | ok block =>
        simp only [ok_bind]
        cases FileScan.nextBaseRowId state.expectedBaseRowId block frame with
        | error e => rfl
        | ok expectedBaseRowId =>
          simp only [ok_bind, hvisit frame block]
          cases stageBlock limits known.length state.visited frame block with
          | error e => rfl
          | ok staged =>
            simp only [Except.map, ok_bind]
            by_cases hoffset : state.offset + frame.totalLength ≤ u64Max
            · -- The bytes scanned never outrun the offset, so neither counter overflows first.
              rw [FileScan.nextOffset, checkedAdd_of_le hoffset,
                checkedAdd_of_le (a := scanned + state.frameBytesScanned) (by omega),
                checkedAdd_of_le (a := state.frameBytesScanned) (by omega)]
              simp only [okOr, ok_bind]
              cases checkedAdd state.sequence 1 with
              | none => rfl
              | some sequence =>
                cases checkedAdd state.frameCount 1 with
                | none => rfl
                | some frameCount => simp [resumed, Nat.add_assoc]
            · have hoverflow : checkedAdd state.offset frame.totalLength = none := if_neg hoffset
              rw [FileScan.nextOffset, hoverflow]
              rfl

/-- **The resumed walk runs as the walk it resumes.** -/
theorem run_resumed {scan : FileScan} {limits : Limits} {known : List BlockMetadata}
    {scanned : ℕ} {state : WalkState Discovered} (h : Counted (resumed known scanned state)) :
    LogScan.RunsAlike
      (fun left right ↦ left = resumed known scanned right ∧ Counted left)
      ((scan.frames (visitBlock limits)).run scan.fileSize (resumed known scanned state))
      ((scan.frames (stageBlock limits known.length)).run scan.fileSize state) := by
  refine LogScan.run_alike ?_ ?_ ⟨rfl, h⟩
  · rintro _ right ⟨rfl, -⟩
    rfl
  · rintro _ right ⟨rfl, hcounted⟩
    have hstep : scan.stepFrame (visitBlock limits) (resumed known scanned right) =
        (scan.stepFrame (stageBlock limits known.length) right).map
          (Option.map (resumed known scanned)) := stepFrame_resumed hcounted
    show LogScan.StepsAlike _ (scan.stepFrame (visitBlock limits) (resumed known scanned right))
      (scan.stepFrame (stageBlock limits known.length) right)
    cases hright : scan.stepFrame (stageBlock limits known.length) right with
    | error e =>
      rw [hstep, hright]
      exact .error e
    | ok next =>
      rw [hright] at hstep
      cases next with
      | none =>
        rw [hstep]
        exact .stopped
      | some next =>
        rw [hstep]
        exact .moved ⟨rfl, hcounted.step hstep⟩

/-! ### One refresh -/

/-- The snapshot is the discovery of an earlier part of the file. -/
def Follows (reader : Reader) (file : Bytes) : Prop :=
  ∃ past, past <+: file ∧
    discover past reader.limits = .ok (reader.schema, reader.fileMetadata, reader.blocks)

/-- A commit trailer is read inside the bytes it ends. -/
theorem readCommitTrailer_append {file : Bytes} {offset : ℕ} (more : Bytes)
    (h : offset ≤ file.length) :
    Frame.readCommitTrailer (file ++ more) (file ++ more).length offset =
      Frame.readCommitTrailer file file.length offset := by
  have h' : offset ≤ (file ++ more).length := by
    rw [List.length_append]
    omega
  simp only [Frame.readCommitTrailer, h, h', decide_true]
  refine bind_congr_ok rfl fun trailerOffset htrailer ↦ ?_
  obtain ⟨hsub, -⟩ := Option.filter_eq_some_iff.mp (okOr_eq_ok.mp htrailer)
  obtain ⟨hle, rfl⟩ := checkedSub_eq_some.mp hsub
  have hsize : trailerSize = 32 := rfl
  rw [agreeOn_append more h _ trailerSize (Nat.zero_le _) (by omega)]

section Grown

variable {reader : Reader} {past more : Bytes} {scan : FileScan} {state : WalkState Discovered}
  {incompleteTail : Bool}

/-- The walk of the snapshot does not leave the bytes it was discovered in. -/
theorem Discovery.offset_le {limits : Limits} {schema : Schema} {metadata : FileMetadata}
    {blocks : List BlockMetadata}
    (h : Discovery past limits schema metadata blocks scan state incompleteTail) :
    state.offset ≤ past.length := by
  obtain ⟨frame, hopens⟩ := FileScan.fromFile_eq_ok.mp h.fromFile
  have hsize : scan.fileSize = scan.file.length := by rw [hopens.isFile, hopens.isSize]
  have hstart : (FileScan.startAt scan.initialResumePoint ({} : Discovered)).offset ≤
      scan.fileSize := by
    rw [hopens.isSize]
    exact hopens.firstDataFrameOffset_le
  have hle := FileScan.offset_le_of_reaches hsize hstart h.reaches
  rwa [hopens.isSize] at hle

theorem Discovery.counted {limits : Limits} {schema : Schema} {metadata : FileMetadata}
    {blocks : List BlockMetadata}
    (h : Discovery past limits schema metadata blocks scan state incompleteTail) :
    Counted state := by
  obtain ⟨frame, hopens⟩ := FileScan.fromFile_eq_ok.mp h.fromFile
  exact Counted.of_reaches h.reaches (counted_startAt hopens)

/-- A fresh open of the grown file comes to where the snapshot stopped. -/
theorem Discovery.run_grown {limits : Limits} {schema : Schema} {metadata : FileMetadata}
    {blocks : List BlockMetadata}
    (h : Discovery past limits schema metadata blocks scan state incompleteTail) (more : Bytes) :
    ((scan.withFile (past ++ more)).frames (visitBlock limits)).run (past ++ more).length
        (FileScan.startAt scan.initialResumePoint {}) =
      ((scan.withFile (past ++ more)).frames (visitBlock limits)).run (past ++ more).length
        state := by
  obtain ⟨frame, hopens⟩ := FileScan.fromFile_eq_ok.mp h.fromFile
  have hsize : scan.fileSize = scan.file.length := by rw [hopens.isFile, hopens.isSize]
  have hle := h.offset_le
  have hreach : ((scan.withFile (past ++ more)).frames (visitBlock limits)).Reaches
      (past ++ more).length (FileScan.startAt scan.initialResumePoint {}) state := by
    refine FileScan.reaches_of_agreeOn hsize h.reaches ?_ ?_
    · rw [hopens.isFile]
      exact agreeOn_append more hle
    · rw [List.length_append]
      omega
  exact LogScan.run_eq_of_reaches hreach

/-- What a fresh open of grown contents finds, from where the snapshot stopped. -/
theorem Discovery.discover_grown {limits : Limits} {schema : Schema} {metadata : FileMetadata}
    {blocks : List BlockMetadata}
    (h : Discovery past limits schema metadata blocks scan state incompleteTail) (more : Bytes) :
    discover (past ++ more) limits = (do
      let (final, stopped) ← ((scan.withFile (past ++ more)).frames (visitBlock limits)).run
        (past ++ more).length state
      let anchor ← Frame.readCommitTrailer (past ++ more) (past ++ more).length final.offset
      return (scan.schema,
        metadataAfter (scan.withFile (past ++ more)) (FileScan.walkOf final stopped)
          final.visited.blocks.length final.visited.totalRows anchor,
        final.visited.blocks)) := by
  rw [← h.run_grown more]
  simp only [discover, FileScan.fromFile_append h.fromFile more, ok_bind, FileScan.walkDataFrames,
    FileScan.walkDataFramesFrom, bind_assoc]
  rfl

/-- **A refresh past the committed boundary is a fresh open.** -/
theorem extend_eq_discover
    (h : Discovery past reader.limits reader.schema reader.fileMetadata reader.blocks scan state
      incompleteTail) (more : Bytes) :
    (∃ e, discover (past ++ more) reader.limits = .error e ∧
      reader.extend (past ++ more) = .error e) ∨
    ∃ report fileMetadata blocks,
      discover (past ++ more) reader.limits = .ok (reader.schema, fileMetadata, blocks) ∧
        reader.extend (past ++ more) = .ok (report, { reader with fileMetadata, blocks }) ∧
          reader.blocks.length + report.blocksAdded = blocks.length ∧
            reader.fileMetadata.totalRows + report.rowsAdded = fileMetadata.totalRows := by
  have hcounted := h.counted
  have hmetadata := h.isMetadata
  have hblocks := h.isBlocks
  -- The resumed walk starts where the walk of the snapshot stopped.
  have hstart : resumed state.visited.blocks state.frameBytesScanned
      (FileScan.startAt reader.resumePoint { totalRows := reader.fileMetadata.totalRows }) =
      state := by
    rw [resumePoint, hmetadata]
    simp [resumed, FileScan.startAt, metadataAfter, FileScan.walkOf]
  have hheader : reader.expectOwnFileHeader (scan.withFile (past ++ more)) = .ok () := by
    rw [expectOwnFileHeader, failIf_eq_ok, not_not, hmetadata, h.isSchema]
    exact ⟨rfl, rfl, rfl, rfl⟩
  have hcount : reader.fileMetadata.blockCount = state.visited.blocks.length := by
    rw [hmetadata]
    rfl
  have hrows : reader.fileMetadata.totalRows = state.visited.totalRows := by
    rw [hmetadata]
    rfl
  have hrestarted : Counted (resumed state.visited.blocks state.frameBytesScanned
      (FileScan.startAt reader.resumePoint { totalRows := reader.fileMetadata.totalRows })) := by
    rw [hstart]
    exact hcounted
  have halike : LogScan.RunsAlike _
      (((scan.withFile (past ++ more)).frames (visitBlock reader.limits)).run
        (scan.withFile (past ++ more)).fileSize _) _ := run_resumed hrestarted
  rw [hstart] at halike
  have hdiscover := h.discover_grown more
  have hextend : reader.extend (past ++ more) = (do
      let (final, stopped) ← ((scan.withFile (past ++ more)).frames
        (stageBlock reader.limits state.visited.blocks.length)).run (past ++ more).length
        (FileScan.startAt reader.resumePoint { totalRows := reader.fileMetadata.totalRows })
      let blockCount ← okOr (checkedAdd state.visited.blocks.length final.visited.blocks.length)
        (fileError (Error.corruption "block count overflow" (some final.offset)))
      let anchor ← Frame.readCommitTrailer (past ++ more) (past ++ more).length final.offset
      return ({ blocksAdded := final.visited.blocks.length
                rowsAdded := final.visited.totalRows - reader.fileMetadata.totalRows
                previousFileSize := reader.fileMetadata.fileSize
                observedFileSize := (past ++ more).length
                incompleteTail := stopped
                frameBytesScanned := final.frameBytesScanned },
        { reader with
          blocks := reader.blocks ++ final.visited.blocks
          fileMetadata := metadataAfter (scan.withFile (past ++ more))
            (FileScan.walkOf final stopped) blockCount final.visited.totalRows anchor })) := by
    simp only [extend, FileScan.fromFile_append h.fromFile more, ok_bind, hheader,
      FileScan.walkDataFramesFrom, bind_assoc, hcount]
    rfl
  rw [hdiscover, hextend]
  have hfileSize : (scan.withFile (past ++ more)).fileSize = (past ++ more).length := rfl
  rw [hfileSize] at halike
  generalize ((scan.withFile (past ++ more)).frames (visitBlock reader.limits)).run
    (past ++ more).length state = left at halike ⊢
  generalize ((scan.withFile (past ++ more)).frames
    (stageBlock reader.limits state.visited.blocks.length)).run (past ++ more).length
    (FileScan.startAt reader.resumePoint { totalRows := reader.fileMetadata.totalRows }) = right
    at halike ⊢
  cases halike with
  | error e => exact .inl ⟨e, rfl, rfl⟩
  | @ended left right stopped hrelated =>
    obtain ⟨rfl, hfinal⟩ := hrelated
    have hframeCount := hfinal.frameCount
    have hframeCount_le := hfinal.frameCount_le
    have hfinalRows := hfinal.rows
    have hknownRows := hcounted.rows
    dsimp only [resumed] at hframeCount hframeCount_le hfinalRows
    rw [List.length_append] at hframeCount
    rw [List.map_append, List.sum_append] at hfinalRows
    simp only [ok_bind, resumed, checkedAdd_of_le
      (show state.visited.blocks.length + right.visited.blocks.length ≤ u64Max by omega), okOr]
    cases Frame.readCommitTrailer (past ++ more) (past ++ more).length right.offset with
    | error e => exact .inl ⟨e, rfl, rfl⟩
    | ok anchor =>
      let report : RefreshReport :=
        { blocksAdded := right.visited.blocks.length
          rowsAdded := right.visited.totalRows - reader.fileMetadata.totalRows
          previousFileSize := reader.fileMetadata.fileSize
          observedFileSize := (past ++ more).length
          incompleteTail := stopped
          frameBytesScanned := right.frameBytesScanned }
      refine .inr ⟨report, metadataAfter (scan.withFile (past ++ more))
        (FileScan.walkOf right stopped)
        (state.visited.blocks.length + right.visited.blocks.length) right.visited.totalRows anchor,
        state.visited.blocks ++ right.visited.blocks, ?_, ?_, ?_, ?_⟩
      · rw [h.isSchema, ← List.length_append]
        rfl
      · rw [hblocks]
        rfl
      · rw [hblocks, List.length_append]
      · dsimp only [metadataAfter, report]
        omega

/-- **A refresh that finds no growth is a fresh open too.** -/
theorem withoutGrowth_eq_discover
    (h : Discovery past reader.limits reader.schema reader.fileMetadata reader.blocks scan state
      incompleteTail) (hend : past.length = state.offset) :
    reader.withoutGrowth past.length =
      ({ blocksAdded := 0, rowsAdded := 0, previousFileSize := reader.fileMetadata.fileSize,
         observedFileSize := past.length, incompleteTail := false, frameBytesScanned := 0 },
       reader) := by
  obtain ⟨frame, hopens⟩ := FileScan.fromFile_eq_ok.mp h.fromFile
  have hended := h.ended
  have htail : incompleteTail = false := by
    cases incompleteTail with
    | false => rfl
    | true =>
      rw [if_pos rfl, hopens.isSize] at hended
      omega
  have hmetadata := h.isMetadata
  rw [htail] at hmetadata
  have hsame : { reader.fileMetadata with fileSize := past.length, incompleteTail := false } =
      reader.fileMetadata := by
    rw [hmetadata]
    simp [metadataAfter, FileScan.walkOf, hopens.isSize]
  rw [withoutGrowth, hsame]

/-- The trailer a snapshot keeps is the one at its committed boundary. -/
theorem expectOwnCommittedBytes_grown
    (h : Discovery past reader.limits reader.schema reader.fileMetadata reader.blocks scan state
      incompleteTail) (more : Bytes) :
    reader.expectOwnCommittedBytes (past ++ more) (past ++ more).length = .ok () := by
  have hoffset : reader.fileMetadata.lastGoodOffset = state.offset := by
    rw [h.isMetadata]
    rfl
  rw [expectOwnCommittedBytes, hoffset, readCommitTrailer_append more h.offset_le, h.anchor,
    ok_bind,
    failIf_eq_ok, not_not]

/-- **One refresh** of a snapshot of an earlier part of the file is a fresh open of the file. -/
theorem refreshed_eq_discover {system : FileSystem}
    (hidentity : system.identityOf reader.path = .ok reader.identity)
    (hfollows : reader.Follows (system.contents reader.identity)) :
    (∃ e, discover (system.contents reader.identity) reader.limits = .error e ∧
      reader.refreshed system = .error e) ∨
    ∃ report fileMetadata blocks,
      discover (system.contents reader.identity) reader.limits =
          .ok (reader.schema, fileMetadata, blocks) ∧
        reader.refreshed system = .ok (report, { reader with fileMetadata, blocks }) ∧
          reader.blocks.length + report.blocksAdded = blocks.length ∧
            reader.fileMetadata.totalRows + report.rowsAdded = fileMetadata.totalRows := by
  obtain ⟨past, ⟨more, hfile⟩, hdiscover⟩ := hfollows
  obtain ⟨scan, state, incompleteTail, h⟩ := discover_eq_ok.mp hdiscover
  have hoffset : reader.fileMetadata.lastGoodOffset = state.offset := by
    rw [h.isMetadata]
    rfl
  have hle := h.offset_le
  have hopened : system.openFile reader.path = .ok reader.identity := by
    rw [FileSystem.openFile, hidentity]
    rfl
  have hunchanged : reader.identity.expectUnchanged system reader.path = .ok () := by
    rw [FileIdentity.expectUnchanged, FileIdentity.capture, hidentity]
    simp [Except.mapError, failIf_eq_ok]
  have hcommitted := expectOwnCommittedBytes_grown h more
  rw [hfile] at hcommitted
  have hsize : state.offset ≤ (system.contents reader.identity).length := by
    rw [← hfile, List.length_append]
    omega
  have hrefreshed : reader.refreshed system =
      if (system.contents reader.identity).length = state.offset then
        .ok (reader.withoutGrowth (system.contents reader.identity).length)
      else reader.extend (system.contents reader.identity) := by
    rw [refreshed, hunchanged, ok_bind, hopened, ok_bind, hoffset]
    simp only [failIf_neg (Nat.not_lt.mpr hsize), ok_bind, hcommitted]
    rfl
  rw [hrefreshed, ← hfile]
  by_cases hend : (past ++ more).length = state.offset
  · -- The file is the bytes of the snapshot and nothing more.
    have hmore : more = [] := by
      rw [List.length_append] at hend
      exact List.length_eq_zero_iff.mp (by omega)
    subst hmore
    rw [List.append_nil] at hend ⊢
    rw [if_pos hend, withoutGrowth_eq_discover h hend]
    exact .inr ⟨_, _, _, hdiscover, rfl, rfl, rfl⟩
  · rw [if_neg hend]
    exact extend_eq_discover h more

end Grown

/-! ### Chains of refreshes -/

/-- The path names the same file, which has more bytes at its end. -/
def Grows (path : String) (system next : FileSystem) : Prop :=
  ∃ identity more, system.identityOf path = .ok identity ∧ next.identityOf path = .ok identity ∧
    next.contents identity = system.contents identity ++ more

/-- The readers of a growing file: one is opened, and refreshed each time the file has grown. -/
inductive Chain (path : String) (limits : Limits) : FileSystem → Reader → Prop
  | opened {system : FileSystem} {reader : Reader}
      (h : openWithLimits system path limits = .ok reader) : Chain path limits system reader
  | refreshed {system next : FileSystem} {reader : Reader} (h : Chain path limits system reader)
      (hgrows : Grows path system next) : Chain path limits next (reader.refresh next).2

/-- The invariant of a chain. -/
structure Attached (path : String) (limits : Limits) (system : FileSystem) (reader : Reader) :
    Prop where
  isPath : reader.path = path
  isLimits : reader.limits = limits
  identity : system.identityOf path = .ok reader.identity
  follows : reader.Follows (system.contents reader.identity)

theorem grows_oneFile (path : String) (contents more : Bytes) :
    Grows path (oneFile contents) (oneFile (contents ++ more)) :=
  ⟨⟨0, 0⟩, more, rfl, rfl, rfl⟩

theorem grows_refl_oneFile (path : String) (contents : Bytes) :
    Grows path (oneFile contents) (oneFile contents) :=
  ⟨⟨0, 0⟩, [], rfl, rfl, (List.append_nil contents).symm⟩

theorem attached_of_open {path : String} {limits : Limits} {system : FileSystem} {reader : Reader}
    (h : openWithLimits system path limits = .ok reader) : Attached path limits system reader := by
  obtain ⟨hidentity, hpath, hlimits, hdiscover⟩ := openWithLimits_eq_ok.mp h
  refine ⟨hpath, hlimits, hidentity, _, List.prefix_rfl, ?_⟩
  rw [hlimits]
  exact hdiscover

/-- An attached reader stays attached to a file that grows. -/
theorem Attached.grows {path : String} {limits : Limits} {system next : FileSystem}
    {reader : Reader} (h : Attached path limits system reader) (hgrows : Grows path system next) :
    Attached path limits next reader := by
  obtain ⟨identity, more, hsystem, hnext, hcontents⟩ := hgrows
  have hsame : identity = reader.identity := by
    rw [h.identity] at hsystem
    exact (Except.ok.inj hsystem).symm
  subst hsame
  obtain ⟨past, hpast, hdiscover⟩ := h.follows
  refine ⟨h.isPath, h.isLimits, hnext, past, ?_, hdiscover⟩
  rw [hcontents]
  exact hpast.trans (List.prefix_append _ _)

/-- **A refresh of an attached reader is a fresh open.** -/
theorem Attached.refresh_eq {path : String} {limits : Limits} {system : FileSystem}
    {reader : Reader} (h : Attached path limits system reader) :
    match openWithLimits system path limits with
    | .error e => reader.refresh system = (.error e, reader)
    | .ok fresh => ∃ report, reader.refresh system = (.ok report, fresh) ∧
        reader.blocks.length + report.blocksAdded = fresh.blocks.length ∧
          reader.fileMetadata.totalRows + report.rowsAdded = fresh.fileMetadata.totalRows := by
  have hidentity := h.identity
  rw [← h.isPath] at hidentity ⊢
  rw [← h.isLimits]
  have hopen : openWithLimits system reader.path reader.limits =
      (discover (system.contents reader.identity) reader.limits).map
        fun found ↦
          { path := reader.path, limits := reader.limits, schema := found.1,
            fileMetadata := found.2.1, blocks := found.2.2, identity := reader.identity } := by
    simp only [openWithLimits, FileIdentity.capture, FileSystem.openFile, hidentity,
      Except.mapError, ok_bind]
    cases discover (system.contents reader.identity) reader.limits <;> rfl
  rcases refreshed_eq_discover hidentity h.follows with ⟨e, hdiscover, hrefreshed⟩ |
    ⟨report, fileMetadata, blocks, hdiscover, hrefreshed, hadded, hrows⟩
  · rw [hopen, hdiscover]
    show reader.refresh system = (.error e, reader)
    rw [refresh, hrefreshed]
  · rw [hopen, hdiscover]
    refine ⟨report, ?_, hadded, hrows⟩
    rw [refresh, hrefreshed]

theorem Attached.refresh {path : String} {limits : Limits} {system : FileSystem}
    {reader : Reader} (h : Attached path limits system reader) :
    Attached path limits system (reader.refresh system).2 := by
  have hrefresh := h.refresh_eq
  split at hrefresh
  · rw [hrefresh]
    exact h
  · rename_i fresh hopen
    obtain ⟨report, hrefresh, -⟩ := hrefresh
    rw [hrefresh]
    exact attached_of_open hopen

/-- Every reader of a chain is attached to the file. -/
theorem Chain.attached {path : String} {limits : Limits} {system : FileSystem} {reader : Reader}
    (h : Chain path limits system reader) : Attached path limits system reader := by
  induction h with
  | opened h => exact attached_of_open h
  | refreshed _ hgrows ih => exact (ih.grows hgrows).refresh

/-- **Incremental refresh equals a fresh open**, however often and by whatever bytes the file has
grown. -/
theorem refresh_eq_openWithLimits {path : String} {limits : Limits} {system next : FileSystem}
    {reader : Reader} (h : Chain path limits system reader) (hgrows : Grows path system next) :
    match openWithLimits next path limits with
    | .error e => reader.refresh next = (.error e, reader)
    | .ok fresh => ∃ report, reader.refresh next = (.ok report, fresh) ∧
        reader.blocks.length + report.blocksAdded = fresh.blocks.length ∧
          reader.fileMetadata.totalRows + report.rowsAdded = fresh.fileMetadata.totalRows :=
  (h.attached.grows hgrows).refresh_eq

/-- A file of one block grows by the frame of a second one. -/
theorem refresh_eq_openWithLimits_secondBlock :
    ∃ file frame reader fresh report, OneBlock file reader ∧ SecondBlock file frame fresh ∧
      reader.refresh (oneFile (file ++ frame)) = (.ok report, fresh) ∧ report.blocksAdded = 1 ∧
        reader.fileMetadata.totalRows + report.rowsAdded = fresh.fileMetadata.totalRows := by
  obtain ⟨file, frame, reader, fresh, hone, hsecond⟩ := exists_secondBlock
  have hrefresh :=
    refresh_eq_openWithLimits (.opened hone.opens) (grows_oneFile "n.acta" file frame)
  rw [hsecond.opens] at hrefresh
  obtain ⟨report, hrefresh, hblocks, hrows⟩ := hrefresh
  rw [hone.blocks, hsecond.blocks] at hblocks
  exact ⟨file, frame, reader, fresh, report, hone, hsecond, hrefresh, by omega, hrows⟩

end Reader

end Acta
