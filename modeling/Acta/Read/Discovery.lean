import Acta.Read.Reader
import Acta.Write.History

/-!
# What an open finds

An open walks the file and records each of its blocks (`Discovery`).  It sees the blocks that any
other walk of the file sees, and refuses them only where there are too many, so a file that some
walk reads to its end can be opened as long as a reader retains that many blocks
(`exists_open_of_complete`).
-/

namespace Acta

open Machine Wire

/-! ### Commit trailers -/

/-- The trailer before a boundary inside the file can be read. -/
theorem Frame.readCommitTrailer_of_le {file : Bytes} {boundary : ℕ}
    (htrailer : trailerSize ≤ boundary)
    (h : boundary ≤ file.length) :
    Frame.readCommitTrailer file file.length boundary =
      .ok (slice file (boundary - trailerSize) trailerSize) := by
  have hread : readExactAt file (boundary - trailerSize) trailerSize =
      .ok (slice file (boundary - trailerSize) trailerSize) :=
    readExactAt_of_le (by omega)
  rw [Frame.readCommitTrailer, checkedSub_of_le htrailer]
  simp only [Option.filter, h, decide_true, if_true, okOr, ok_bind, hread]
  rfl

/-- **A commit trailer is read** where a boundary inside the file has room for one before it. -/
theorem Frame.readCommitTrailer_eq_ok {file : Bytes} {boundary : ℕ} {trailer : Bytes} :
    Frame.readCommitTrailer file file.length boundary = .ok trailer ↔
      trailerSize ≤ boundary ∧ boundary ≤ file.length ∧
        slice file (boundary - trailerSize) trailerSize = trailer := by
  constructor
  · intro h
    obtain ⟨_, htrailer, -⟩ := bind_eq_ok.mp h
    obtain ⟨hsub, hinside⟩ := Option.filter_eq_some_iff.mp (okOr_eq_ok.mp htrailer)
    obtain ⟨hroom, -⟩ := checkedSub_eq_some.mp hsub
    have hle := of_decide_eq_true hinside
    rw [readCommitTrailer_of_le hroom hle] at h
    exact ⟨hroom, hle, Except.ok.inj h⟩
  · rintro ⟨hroom, hle, rfl⟩
    exact readCommitTrailer_of_le hroom hle

namespace Reader

/-! ### Discovery -/

/-- What a walk that recorded its blocks has counted. -/
structure Counted (state : WalkState Discovered) : Prop where
  frameCount : state.frameCount = state.visited.blocks.length + 1
  frameCount_le : state.frameCount ≤ u64Max
  scanned : state.frameBytesScanned ≤ state.offset
  offset_le : state.offset ≤ u64Max
  rows : state.visited.totalRows = (state.visited.blocks.map BlockMetadata.rowCount).sum

theorem recordBlock_eq_ok {discovered next : Discovered} {frame : FrameMetadata}
    {block : DataFrameMetadata} :
    recordBlock discovered frame block = .ok next ↔
      discovered.totalRows + block.rowCount ≤ u64Max ∧
        next = { blocks := discovered.blocks ++ [blockMetadata frame block],
                 totalRows := discovered.totalRows + block.rowCount } := by
  simp only [recordBlock, bind_eq_ok, okOr_eq_ok, checkedAdd_eq_some, pure_eq_ok, Except.ok.injEq]
  constructor
  · rintro ⟨_, ⟨hle, rfl⟩, rfl⟩
    exact ⟨hle, rfl⟩
  · rintro ⟨hle, rfl⟩
    exact ⟨_, ⟨hle, rfl⟩, rfl⟩

theorem visitBlock_eq_ok {limits : Limits} {discovered next : Discovered} {frame : FrameMetadata}
    {block : DataFrameMetadata} (h : visitBlock limits discovered frame block = .ok next) :
    discovered.blocks.length < limits.maxBlocks ∧
      recordBlock discovered frame block = .ok next := by
  obtain ⟨_, hroom, hrecord⟩ := bind_eq_ok.mp h
  exact ⟨Nat.not_le.mp (failIf_eq_ok.mp hroom), hrecord⟩

/-- One more frame keeps the counts. -/
theorem Counted.step {scan : FileScan} {limits : Limits} {state next : WalkState Discovered}
    (h : Counted state)
    (hstep : scan.stepFrame (visitBlock limits) state = .ok (some next)) : Counted next := by
  obtain ⟨frame, block, hsteps⟩ := FileScan.stepFrame_eq_some.mp hstep
  obtain ⟨-, hrecord⟩ := visitBlock_eq_ok hsteps.visit
  obtain ⟨-, hvisited⟩ := recordBlock_eq_ok.mp hrecord
  have hframeCount := h.frameCount
  have hscanned := h.scanned
  have hrows := h.rows
  refine ⟨?_, ?_, ?_, ?_, ?_⟩
  · rw [hsteps.frameCount, hvisited, hframeCount]
    simp
  · rw [hsteps.frameCount]
    exact hsteps.frameCount_le
  · rw [hsteps.scanned, hsteps.offset]
    omega
  · rw [hsteps.offset]
    exact hsteps.offset_le
  · rw [hvisited, hrows]
    simp [blockMetadata]

theorem Counted.of_reaches {scan : FileScan} {limits : Limits} {start state : WalkState Discovered}
    (h : (scan.frames (visitBlock limits)).Reaches scan.fileSize start state) (hs : Counted start) :
    Counted state :=
  h.invariant (fun _ _ hadv hcounted ↦ hcounted.step hadv.2) hs

/-- The walk of an opened file starts with nothing recorded. -/
theorem counted_startAt {file : Bytes} {limits : Limits} {scan : FileScan} {frame : FrameMetadata}
    (h : FileScan.Opens file limits scan frame) :
    Counted (FileScan.startAt scan.initialResumePoint {}) where
  frameCount := rfl
  frameCount_le := by
    show 1 ≤ u64Max
    decide
  scanned := Nat.zero_le _
  offset_le := by
    show scan.firstDataFrameOffset ≤ u64Max
    rw [h.offset]
    exact h.offset_le
  rows := rfl

/-- A snapshot, with the walk that discovered it. -/
structure Discovery (file : Bytes) (limits : Limits) (schema : Schema) (metadata : FileMetadata)
    (blocks : List BlockMetadata) (scan : FileScan) (state : WalkState Discovered)
    (incompleteTail : Bool) : Prop where
  fromFile : FileScan.fromFile file limits = .ok scan
  reaches : (scan.frames (visitBlock limits)).Reaches scan.fileSize
    (FileScan.startAt scan.initialResumePoint {}) state
  ended : if incompleteTail then
      state.offset < scan.fileSize ∧ scan.stepFrame (visitBlock limits) state = .ok none
    else scan.fileSize ≤ state.offset
  anchor : Frame.readCommitTrailer file file.length state.offset = .ok metadata.commitAnchor
  isSchema : schema = scan.schema
  isMetadata : metadata = metadataAfter scan (FileScan.walkOf state incompleteTail)
    state.visited.blocks.length state.visited.totalRows metadata.commitAnchor
  isBlocks : blocks = state.visited.blocks

/-- **What discovery establishes.** -/
theorem discover_eq_ok {file : Bytes} {limits : Limits} {schema : Schema} {metadata : FileMetadata}
    {blocks : List BlockMetadata} :
    discover file limits = .ok (schema, metadata, blocks) ↔
      ∃ scan state incompleteTail,
        Discovery file limits schema metadata blocks scan state incompleteTail := by
  constructor
  · intro h
    simp only [discover, bind_eq_ok] at h
    obtain ⟨scan, hscan, ⟨walk, discovered⟩, hwalk, anchor, hanchor, hdone⟩ := h
    cases hdone
    obtain ⟨frame, hopens⟩ := FileScan.fromFile_eq_ok.mp hscan
    obtain ⟨state, hreach, hend, hstate, rfl⟩ := FileScan.walkDataFramesFrom_eq_ok.mp hwalk
    refine ⟨scan, state, walk.incompleteTail, hscan, hreach, hend, ?_, rfl, ?_, rfl⟩
    · rw [hopens.isFile, hopens.isSize, ← hstate] at hanchor
      exact hanchor
    · rw [hstate]
      rfl
  · rintro ⟨scan, state, incompleteTail, h⟩
    obtain ⟨frame, hopens⟩ := FileScan.fromFile_eq_ok.mp h.fromFile
    have hwalk : scan.walkDataFrames (visitBlock limits) {} =
        .ok (FileScan.walkOf state incompleteTail, state.visited) :=
      FileScan.walkDataFramesFrom_eq_ok.mpr ⟨state, h.reaches, h.ended, rfl, rfl⟩
    have hanchor : Frame.readCommitTrailer scan.file scan.fileSize
        (FileScan.walkOf state incompleteTail).lastGoodOffset = .ok metadata.commitAnchor := by
      rw [hopens.isFile, hopens.isSize]
      exact h.anchor
    simp only [discover, h.fromFile, ok_bind, hwalk, hanchor, pure_eq_ok]
    rw [← h.isMetadata, h.isSchema, h.isBlocks]

/-! ### Opening a file -/

theorem openWithLimits_eq_ok {system : FileSystem} {path : String} {limits : Limits}
    {reader : Reader} :
    openWithLimits system path limits = .ok reader ↔
      system.identityOf path = .ok reader.identity ∧ reader.path = path ∧ reader.limits = limits ∧
        discover (system.contents reader.identity) limits =
          .ok (reader.schema, reader.fileMetadata, reader.blocks) := by
  cases hidentity : system.identityOf path with
  | error e =>
    simp [openWithLimits, FileIdentity.capture, hidentity, Except.mapError]
  | ok identity =>
    simp only [openWithLimits, FileIdentity.capture, FileSystem.openFile, hidentity,
      Except.mapError, ok_bind, bind_eq_ok, pure_eq_ok, Except.ok.injEq]
    constructor
    · rintro ⟨⟨schema, fileMetadata, blocks⟩, hdiscover, rfl⟩
      exact ⟨rfl, rfl, rfl, hdiscover⟩
    · rintro ⟨rfl, rfl, rfl, hdiscover⟩
      exact ⟨_, hdiscover, rfl⟩

section Complete

variable {scan : FileScan} {limits : Limits} {resume : ResumePoint}

/-- **An open records what a walk sees.** -/
theorem exists_reaches_visitBlock {state : WalkState (List DataFrameMetadata)}
    (hreach : (scan.frames FileScan.collect).Reaches scan.fileSize (FileScan.startAt resume [])
      state)
    (hcounted : Counted (FileScan.startAt resume {}))
    (hblocks : state.visited.length ≤ limits.maxBlocks)
    (hrows : (state.visited.map (·.rowCount)).sum ≤ u64Max) :
    ∃ state', (scan.frames (visitBlock limits)).Reaches scan.fileSize (FileScan.startAt resume {})
        state' ∧
      state'.forget = state.forget ∧
        state'.visited.blocks.map (·.rowCount) = state.visited.map (·.rowCount) := by
  induction hreach with
  | refl => exact ⟨_, .refl, rfl, rfl⟩
  | tail hbefore hadvance ih =>
    rename_i before state
    obtain ⟨hinside, hstep⟩ := hadvance
    obtain ⟨frame, block, hsteps⟩ := FileScan.stepFrame_eq_some.mp hstep
    have hvisited : state.visited = before.visited ++ [block] :=
      (Except.ok.inj hsteps.visit).symm
    rw [hvisited, List.length_append, List.length_singleton] at hblocks
    rw [hvisited, List.map_append, List.sum_append, List.map_singleton, List.sum_singleton] at hrows
    obtain ⟨before', hreach', hsame, hmap⟩ := ih (by omega) (by omega)
    have hcount := Counted.of_reaches hreach' hcounted
    have hlength : before'.visited.blocks.length = before.visited.length := by
      rw [← List.length_map (f := BlockMetadata.rowCount), hmap, List.length_map]
    have htotal : before'.visited.totalRows + block.rowCount ≤ u64Max := by
      rw [hcount.rows, hmap]
      exact hrows
    obtain ⟨next, hvisit, hnext⟩ :
        ∃ next, visitBlock limits before'.visited frame block = .ok next ∧
          next.blocks = before'.visited.blocks ++ [blockMetadata frame block] := by
      rw [visitBlock, failIf_neg (by rw [hlength]; omega), ok_bind]
      exact ⟨_, recordBlock_eq_ok.mpr ⟨htotal, rfl⟩, rfl⟩
    obtain ⟨offset, sequence, frameCount, expected, scanned, visited⟩ := before
    obtain ⟨offset', sequence', frameCount', expected', scanned', visited'⟩ := before'
    cases hsame
    refine ⟨{ state with visited := next }, hreach'.tail ⟨hinside, FileScan.stepFrame_eq_some.mpr
      ⟨frame, block, { hsteps with visit := hvisit }⟩⟩, rfl, ?_⟩
    show next.blocks.map _ = _
    rw [hvisited, hnext, List.map_append, List.map_append, hmap]
    rfl

/-- **A file that a walk reads to its end is opened**, with the blocks that the walk sees. -/
theorem exists_open_of_complete {file : Bytes} {state : WalkState (List DataFrameMetadata)}
    (h : FileScan.Complete FileScan.collect [] file limits scan state)
    (hblocks : state.visited.length ≤ limits.maxBlocks)
    (hrows : (state.visited.map (·.rowCount)).sum ≤ u64Max) {system : FileSystem} {path : String}
    {identity : FileIdentity} (hpath : system.identityOf path = .ok identity)
    (hfile : system.contents identity = file) :
    ∃ reader, openWithLimits system path limits = .ok reader ∧ reader.identity = identity ∧
      reader.fileMetadata.lastGoodOffset = file.length ∧
        reader.blocks.map (·.rowCount) = state.visited.map (·.rowCount) := by
  obtain ⟨frame, hopens⟩ := FileScan.fromFile_eq_ok.mp h.opens
  obtain ⟨state', hreach, hsame, hmap⟩ :=
    exists_reaches_visitBlock h.reaches (counted_startAt hopens) hblocks hrows
  have hoffset : state'.offset = file.length :=
    (congrArg WalkState.offset hsame).trans h.isEnd
  have hfirst := hopens.offset
  have hlower : scan.firstDataFrameOffset ≤ state'.offset := hreach.pos_le
  have hroom : trailerSize ≤ file.length := by
    have hstart : schemaFrameOffset = 64 := rfl
    have htrailer : trailerSize = 32 := rfl
    omega
  have hdiscovery : Discovery file limits scan.schema
      (metadataAfter scan (FileScan.walkOf state' false) state'.visited.blocks.length
        state'.visited.totalRows (slice file (file.length - trailerSize) trailerSize))
      state'.visited.blocks scan state' false := by
    refine ⟨h.opens, hreach, ?_, ?_, rfl, rfl, rfl⟩
    · rw [if_neg Bool.false_ne_true, hopens.isSize, hoffset]
    · rw [hoffset]
      exact Frame.readCommitTrailer_of_le hroom (Nat.le_refl file.length)
  have hdiscover := discover_eq_ok.mpr ⟨scan, state', false, hdiscovery⟩
  rw [← hfile] at hdiscover
  exact ⟨⟨path, limits, _, _, _, identity⟩,
    openWithLimits_eq_ok.mpr ⟨hpath, rfl, rfl, hdiscover⟩, rfl, hoffset, hmap⟩

end Complete

/-! ### A file of one block -/

/-- A file system in which every path names one file. -/
def oneFile (contents : Bytes) : FileSystem where
  identityOf _ := .ok ⟨0, 0⟩
  contents _ := contents

/-- A session of one block, and the reader of its file. -/
structure OneBlock (file : Bytes) (reader : Reader) : Prop where
  opens : openWithLimits (oneFile file) "n.acta" Limits.default = .ok reader
  identity : reader.identity = ⟨0, 0⟩
  lastGoodOffset : reader.fileMetadata.lastGoodOffset = file.length
  blocks : reader.blocks.length = 1
  length_gt : trailerSize < file.length
  head : file[0]? = some 65

/-- The file grown by the frame of a second block, and the reader of that. -/
structure SecondBlock (file frame : Bytes) (fresh : Reader) : Prop where
  bytes : TwoBlocks file frame
  opens : openWithLimits (oneFile (file ++ frame)) "n.acta" Limits.default = .ok fresh
  blocks : fresh.blocks.length = 2

theorem exists_secondBlock :
    ∃ file frame reader fresh, OneBlock file reader ∧ SecondBlock file frame fresh := by
  obtain ⟨file, frame, h⟩ := exists_twoBlocks
  obtain ⟨scan, state, hone, hcount⟩ := h.one
  obtain ⟨scan', state', htwo, hcount'⟩ := h.two
  have hlength := congrArg List.length hcount
  have hlength' := congrArg List.length hcount'
  rw [List.length_map] at hlength hlength'
  have hnamed (contents : Bytes) : (oneFile contents).identityOf "n.acta" = .ok ⟨0, 0⟩ := rfl
  obtain ⟨reader, hopen, hidentity, hoffset, hmap⟩ := exists_open_of_complete hone
    (by rw [hlength]; decide) (by rw [hcount]; decide) (hnamed file) rfl
  obtain ⟨fresh, hopen', -, -, hmap'⟩ := exists_open_of_complete htwo
    (by rw [hlength']; decide) (by rw [hcount']; decide) (hnamed (file ++ frame)) rfl
  have hblocks := congrArg List.length (hmap.trans hcount)
  have hblocks' := congrArg List.length (hmap'.trans hcount')
  rw [List.length_map] at hblocks hblocks'
  exact ⟨file, frame, reader, fresh,
    ⟨hopen, hidentity, hoffset, hblocks, by rw [h.length_eq]; decide, h.head⟩,
    h, hopen', hblocks'⟩

theorem exists_oneBlock : ∃ file reader, OneBlock file reader := by
  obtain ⟨file, -, reader, -, h, -⟩ := exists_secondBlock
  exact ⟨file, reader, h⟩

theorem SecondBlock.opens_both {file frame : Bytes} {fresh : Reader}
    (h : SecondBlock file frame fresh) :
    openWithLimits (oneFile (numberFile 2)) "n.acta" Limits.default = .ok fresh := by
  rw [← h.bytes.isBoth]
  exact h.opens

set_option maxRecDepth 100000 in
/-- Both blocks are read. -/
theorem exists_readBlock_numberFile :
    ∃ reader, openWithLimits (oneFile (numberFile 2)) "n.acta" Limits.default = .ok reader ∧
      ∀ index < 2, ∃ batch,
        reader.readBlock storingZstd (oneFile (numberFile 2)) index = .ok batch ∧
          batch.rows = oneNumber.rows := by
  obtain ⟨file, frame, _, reader, -, hsecond⟩ := exists_secondBlock
  have hreads : ∀ reader ∈
      (openWithLimits (oneFile (numberFile 2)) "n.acta" Limits.default).toOption, ∀ index < 2,
        (reader.readBlock storingZstd (oneFile (numberFile 2)) index).toOption.map
          RecordBatch.rows = some oneNumber.rows := by
    decide +kernel
  refine ⟨reader, hsecond.opens_both, fun index hindex ↦ ?_⟩
  obtain ⟨batch, hbatch, hrows⟩ := Option.map_eq_some_iff.mp
    (hreads reader (mem_toOption.mpr hsecond.opens_both) index hindex)
  exact ⟨batch, mem_toOption.mp hbatch, hrows⟩

end Reader

end Acta
