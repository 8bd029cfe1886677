import Acta.Format.Crash

/-!
# Complete files and how they grow

A complete file is one the walk reads to its end (`Complete`).  Its counters are tied together: one
number for each frame, and a row ID chain exactly when the file declares row IDs.  A complete file
followed by one more data frame is complete again when the frame's row IDs leave the chain within
its range (`Complete.append`), and followed by a part of that frame it is the same file with an
incomplete tail (`Complete.walk_cut`).
-/

namespace Acta

open Machine Wire

/-- A frame is read where the bytes before it end. -/
theorem Frame.readFrame_append {file image : Bytes} {sequence : ℕ} {limits : Limits}
    (himage : IsFrame image sequence limits) (hfits : (file ++ image).length ≤ u64Max) :
    readFrame (file ++ image) (file ++ image).length file.length sequence limits =
      .ok (.complete (metadataAt image file.length)) := by
  rw [List.length_append] at hfits
  have hslice : slice (file ++ image) file.length image.length = image := by
    rw [slice_append_right' _ _ le_rfl, Nat.sub_self, slice_whole rfl]
  refine (readFrame_eq_complete le_rfl).mpr ⟨image.length, ?_, by omega, ?_, ?_⟩
  · rw [List.length_append]
  · rw [hslice]
    exact himage
  · rw [hslice]

/-- Flags without an unknown bit are one bit. -/
theorem Prologue.le_one_of_unknownFeatures {flags : ℕ} (hflags : flags < 2 ^ 64)
    (h : unknownFeatures flags = 0) : flags ≤ 1 := by
  have hhalf : flags / 2 % 2 ^ 63 = 0 := by
    have hmask : (2 ^ 64 - 1 - supportedFeatures) / 2 = 2 ^ 63 - 1 := by decide
    have hdiv := congrArg (· / 2) h
    dsimp only [unknownFeatures] at hdiv
    rwa [Nat.and_div_two, hmask, Nat.and_two_pow_sub_one_eq_mod] at hdiv
  have hlt : flags / 2 < 2 ^ 63 := by omega
  rw [Nat.mod_eq_of_lt hlt] at hhalf
  omega

namespace FileScan

variable {σ : Type}

/-- A file the walk reads to its end, with the state the walk ends in. -/
structure Complete (visit : Visit σ) (visited : σ) (file : Bytes) (limits : Limits)
    (scan : FileScan) (state : WalkState σ) : Prop where
  opens : fromFile file limits = .ok scan
  reaches : (scan.frames visit).Reaches scan.fileSize (startAt scan.initialResumePoint visited)
    state
  isEnd : state.offset = file.length

/-- The facts that tie the counters of a walk together. -/
structure Tallied (scan : FileScan) (state : WalkState σ) : Prop where
  frameCount : state.frameCount = state.sequence
  /-- Every data frame takes at least one byte. -/
  sequence_le : state.sequence ≤ firstDataFrameSequence + state.frameBytesScanned
  sequence_pos : firstDataFrameSequence ≤ state.sequence
  scanned : state.frameBytesScanned ≤ state.offset
  scanned_lt : state.frameBytesScanned + prologueSize ≤ state.offset
  offset_le : state.offset ≤ u64Max
  rowIds : state.expectedBaseRowId.isSome = scan.rowIdsEnabled
  rowId_le : ∀ rowId ∈ state.expectedBaseRowId, rowId ≤ u64Max

/-- The one feature a file can declare is row IDs. -/
theorem featureFlags_of_opens {file : Bytes} {limits : Limits} {scan : FileScan}
    (hopen : fromFile file limits = .ok scan) :
    scan.prologue.featureFlags = if scan.rowIdsEnabled then rowIdsFeature else 0 := by
  obtain ⟨frame, h⟩ := fromFile_eq_ok.mp hopen
  have hsize := h.prologueSize_le
  obtain ⟨hprologue, heq⟩ := (Prologue.parse_eq_ok (length_slice_of_le (by omega))).mp h.prologue
  have hflags : scan.prologue.featureFlags =
      leNat (slice (slice file 0 prologueSize) 16 8) := by
    rw [← heq]
    rfl
  have hlt := leNat_lt (slice (slice file 0 prologueSize) 16 8)
  rw [← hflags, length_slice] at hlt
  have hbound : scan.prologue.featureFlags < 2 ^ 64 :=
    Nat.lt_of_lt_of_le hlt (Nat.pow_le_pow_right (by decide) (Nat.min_le_left 8 _))
  have hfeatures := hprologue.features
  have hle := Prologue.le_one_of_unknownFeatures hbound (by rw [hflags]; exact hfeatures)
  unfold rowIdsEnabled
  rcases Nat.le_one_iff_eq_zero_or_eq_one.mp hle with hzero | hone
  · rw [hzero]
    rfl
  · rw [hone]
    rfl

/-- **A block carries the row ID it must** when the file declares row IDs, and otherwise none. -/
theorem baseRowId_of_parse {file : Bytes} {frame : FrameMetadata} {schema : Schema}
    {featureFlags : ℕ} {expected : Option ℕ} {block : DataFrameMetadata}
    (h : DataFrame.parse file frame schema featureFlags expected = .ok block) :
    block.baseRowId =
      if featureFlags &&& rowIdsFeature ≠ 0 then some (expected.getD firstBaseRowId) else none := by
  obtain ⟨_, -, h⟩ := bind_eq_ok.mp h
  obtain ⟨fields, -, h⟩ := bind_eq_ok.mp h
  obtain ⟨_, -, h⟩ := bind_eq_ok.mp h
  obtain ⟨_, -, h⟩ := bind_eq_ok.mp h
  obtain ⟨_, -, h⟩ := bind_eq_ok.mp h
  obtain ⟨baseRowId, hbase, h⟩ := bind_eq_ok.mp h
  obtain ⟨bounds, -, h⟩ := bind_eq_ok.mp h
  cases h
  obtain ⟨_, -, hbase⟩ := bind_eq_ok.mp hbase
  simp only [decide_eq_true_eq] at hbase
  by_cases henabled : featureFlags &&& rowIdsFeature ≠ 0
  · rw [if_pos henabled] at hbase ⊢
    obtain ⟨_, hstored, hbase⟩ := bind_eq_ok.mp hbase
    cases hbase
    rw [failIf_eq_ok, not_not] at hstored
    exact congrArg some hstored
  · rw [if_neg henabled] at hbase ⊢
    obtain ⟨_, -, hbase⟩ := bind_eq_ok.mp hbase
    cases hbase
    rfl

/-- A block carries a row ID exactly when the file declares row IDs. -/
theorem isSome_baseRowId_of_parse {file : Bytes} {frame : FrameMetadata} {schema : Schema}
    {featureFlags : ℕ} {expected : Option ℕ} {block : DataFrameMetadata}
    (h : DataFrame.parse file frame schema featureFlags expected = .ok block) :
    block.baseRowId.isSome = decide (featureFlags &&& rowIdsFeature ≠ 0) := by
  rw [baseRowId_of_parse h]
  by_cases henabled : featureFlags &&& rowIdsFeature ≠ 0
  · rw [if_pos henabled, decide_eq_true henabled]
    rfl
  · rw [if_neg henabled, decide_eq_false henabled]
    rfl

/-- The chain goes on through a block as it began. -/
theorem nextBaseRowId_eq_ok {expected next : Option ℕ} {block : DataFrameMetadata}
    {frame : FrameMetadata} (h : nextBaseRowId expected block frame = .ok next)
    (hsame : block.baseRowId.isSome = expected.isSome) (hle : ∀ rowId ∈ expected, rowId ≤ u64Max) :
    next.isSome = expected.isSome ∧ ∀ rowId ∈ next, rowId ≤ u64Max := by
  unfold nextBaseRowId at h
  split at h
  · rename_i base hbase
    obtain ⟨rowId, hadd, h⟩ := bind_eq_ok.mp h
    cases h
    obtain ⟨hrowId, rfl⟩ := checkedAdd_eq_some.mp (okOr_eq_ok.mp hadd)
    refine ⟨by rw [← hsame, hbase]; rfl, ?_⟩
    rintro _ ⟨⟩
    exact hrowId
  · cases h
    exact ⟨rfl, hle⟩

theorem tallied_startAt {file : Bytes} {limits : Limits} {scan : FileScan}
    (hopen : fromFile file limits = .ok scan) (visited : σ) :
    Tallied scan (startAt scan.initialResumePoint visited) := by
  obtain ⟨frame, h⟩ := fromFile_eq_ok.mp hopen
  have hoffset := h.offset
  have hle := h.offset_le
  have hschema : schemaFrameOffset = prologueSize := rfl
  refine ⟨rfl, le_rfl, le_rfl, Nat.zero_le _, ?_, ?_, ?_, ?_⟩
  · show 0 + prologueSize ≤ scan.firstDataFrameOffset
    omega
  · show scan.firstDataFrameOffset ≤ u64Max
    omega
  · show (if scan.rowIdsEnabled then some 0 else none : Option ℕ).isSome = scan.rowIdsEnabled
    cases scan.rowIdsEnabled <;> rfl
  · show ∀ rowId ∈ (if scan.rowIdsEnabled then some 0 else none : Option ℕ), rowId ≤ u64Max
    cases scan.rowIdsEnabled with
    | false => exact fun _ hnone ↦ nomatch hnone
    | true =>
      rintro _ ⟨⟩
      exact Nat.zero_le _

/-- **A turn of the walk keeps its counters tied.** -/
theorem Tallied.step {scan : FileScan} {visit : Visit σ} {state next : WalkState σ}
    {frame : FrameMetadata} {block : DataFrameMetadata} (h : Tallied scan state)
    (hsteps : StepsTo scan visit state next frame block) : Tallied scan next := by
  obtain ⟨hframes, hsequence, hpos, hscanned, hlt, hle, hrowIds, hrowId⟩ := h
  have hsize := Frame.totalLength_pos_of_complete hsteps.read
  obtain ⟨hchain, hnext⟩ := nextBaseRowId_eq_ok hsteps.baseRowId (by
    rw [isSome_baseRowId_of_parse hsteps.parse, hrowIds]
    rfl) hrowId
  refine ⟨?_, ?_, ?_, ?_, ?_, ?_, hchain.trans hrowIds, hnext⟩
  · rw [hsteps.frameCount, hsteps.sequence, hframes]
  · rw [hsteps.sequence, hsteps.scanned]
    omega
  · rw [hsteps.sequence]
    omega
  · rw [hsteps.scanned, hsteps.offset]
    omega
  · rw [hsteps.scanned, hsteps.offset]
    omega
  · rw [hsteps.offset]
    exact hsteps.offset_le

/-- A block whose row IDs run past their range is refused. -/
theorem stepFrame_of_rowIds {scan : FileScan} {visit : Visit σ} {state : WalkState σ}
    {frame : FrameMetadata} {block : DataFrameMetadata} {base : ℕ}
    (hread : Frame.readFrame scan.file scan.fileSize state.offset state.sequence scan.limits =
      .ok (.complete frame))
    (hparse : DataFrame.parse scan.file frame scan.schema scan.prologue.featureFlags
      state.expectedBaseRowId = .ok block)
    (hbase : block.baseRowId = some base) (hover : u64Max < base + block.rowCount) :
    FailsWith .corruption (stepFrame scan visit state) := by
  have hnone : checkedAdd base block.rowCount = none := by
    rw [checkedAdd, if_neg (Nat.not_le.mpr hover)]
  have hrefused : FailsWith .corruption (nextBaseRowId state.expectedBaseRowId block frame) := by
    unfold nextBaseRowId
    rw [hbase]
    dsimp only
    rw [hnone]
    exact ⟨_, rfl, rfl⟩
  obtain ⟨e, he, hkind⟩ := hrefused
  refine ⟨e, ?_, hkind⟩
  rw [stepFrame, hread, ok_bind]
  dsimp only
  rw [hparse, ok_bind, he, error_bind]

namespace Complete

variable {visit : Visit σ} {visited : σ} {file : Bytes} {limits : Limits} {scan : FileScan}
  {state : WalkState σ}

theorem tallied (h : Complete visit visited file limits scan state) : Tallied scan state := by
  refine h.reaches.invariant (fun a b hadvance ha ↦ ?_) (tallied_startAt h.opens visited)
  obtain ⟨-, hstep⟩ := hadvance
  obtain ⟨frame, block, hsteps⟩ := stepFrame_eq_some.mp hstep
  exact ha.step hsteps

/-- The walk of a complete file ends where the file does. -/
theorem walk (h : Complete visit visited file limits scan state) :
    scan.walkDataFrames visit visited = .ok (walkOf state false, state.visited) := by
  obtain ⟨frame, hopens⟩ := fromFile_eq_ok.mp h.opens
  refine walkDataFramesFrom_eq_ok.mpr ⟨state, h.reaches, ?_, rfl, rfl⟩
  have hwhole : (walkOf state false).incompleteTail ≠ true := Bool.false_ne_true
  rw [if_neg hwhole, hopens.isSize, h.isEnd]

theorem of_walk {visited' : σ} {walk : Walk} (hopen : fromFile file limits = .ok scan)
    (hwalk : scan.walkDataFrames visit visited = .ok (walk, visited'))
    (hcomplete : walk.incompleteTail = false) :
    ∃ state, Complete visit visited file limits scan state ∧ walkOf state false = walk ∧
      state.visited = visited' := by
  obtain ⟨state, hreach, hend, hstate, hvisited⟩ := exists_reaches_length hopen hwalk hcomplete
  exact ⟨state, ⟨hopen, hreach, hend⟩, hstate, hvisited⟩

/-- **Any visitor that never refuses sees the same complete file.** -/
theorem revisit {τ : Type} (h : Complete visit visited file limits scan state)
    (visitor : Visit τ) (htotal : ∀ seen frame block, ∃ seen', visitor seen frame block = .ok seen')
    (seen : τ) : ∃ state', Complete visitor seen file limits scan state' ∧
      state'.forget = state.forget := by
  have hstep : ∀ a b (a' : WalkState τ), (scan.frames visit).Advances scan.fileSize a b →
      b.offset ≤ state.offset → a'.forget = a.forget →
        ∃ b', (scan.frames visitor).Advances scan.fileSize a' b' ∧ b'.forget = b.forget := by
    rintro a b a' ⟨hinside, hadv⟩ - hsame
    obtain ⟨frame, block, hsteps⟩ := stepFrame_eq_some.mp hadv
    obtain ⟨seen', hseen⟩ := htotal a'.visited frame block
    obtain ⟨offset, sequence, frameCount, expected, scanned, visited⟩ := a
    obtain ⟨offset', sequence', frameCount', expected', scanned', visited'⟩ := a'
    cases hsame
    have hsteps' : StepsTo scan visitor
        ⟨offset, sequence, frameCount, expected, scanned, visited'⟩
        { b with visited := seen' } frame block :=
      { hsteps with visit := hseen }
    exact ⟨_, ⟨hinside, stepFrame_eq_some.mpr ⟨frame, block, hsteps'⟩⟩, rfl⟩
  obtain ⟨state', hreach, hsame⟩ := h.reaches.simulate
    (R := fun a (a' : WalkState τ) ↦ a'.forget = a.forget) hstep le_rfl
    (show (startAt scan.initialResumePoint seen).forget = _ from rfl)
  have hoffset : state'.offset = state.offset := congrArg WalkState.offset hsame
  exact ⟨state', ⟨h.opens, hreach, hoffset.trans h.isEnd⟩, hsame⟩

/-- The state after one more frame. -/
def grown (state : WalkState σ) (image : Bytes) (expected : Option ℕ) (visited : σ) :
    WalkState σ where
  offset := state.offset + image.length
  sequence := state.sequence + 1
  frameCount := state.frameCount + 1
  expectedBaseRowId := expected
  frameBytesScanned := state.frameBytesScanned + image.length
  visited := visited

/-- **A complete file grows by a frame** that goes on its numbering and its row IDs. -/
theorem append (h : Complete visit visited file limits scan state) {image : Bytes}
    {block : DataFrameMetadata} {expected : Option ℕ} {visited' : σ}
    (himage : Frame.IsFrame image state.sequence limits)
    (hparse : DataFrame.parse (file ++ image) (Frame.metadataAt image file.length) scan.schema
      scan.prologue.featureFlags state.expectedBaseRowId = .ok block)
    (hbase : nextBaseRowId state.expectedBaseRowId block (Frame.metadataAt image file.length) =
      .ok expected)
    (hvisit : visit state.visited (Frame.metadataAt image file.length) block = .ok visited')
    (hfits : (file ++ image).length ≤ u64Max) :
    Complete visit visited (file ++ image) limits (scan.withFile (file ++ image))
      (grown state image expected visited') := by
  obtain ⟨schemaFrame, hopens⟩ := fromFile_eq_ok.mp h.opens
  have htallied := h.tallied
  have hread := Frame.readFrame_append himage hfits
  have htotal : (Frame.metadataAt image file.length).totalLength = image.length :=
    himage.length.symm
  have hpos := Frame.totalLength_pos_of_complete hread
  have hlength : (file ++ image).length = file.length + image.length := List.length_append
  have hend := h.isEnd
  have hscanned := htallied.scanned_lt
  have hsequence := htallied.sequence_le
  have hprologue : prologueSize = 64 := rfl
  have hfirst : firstDataFrameSequence = 1 := rfl
  have hsteps : StepsTo (scan.withFile (file ++ image)) visit state
      (grown state image expected visited') (Frame.metadataAt image file.length) block := by
    refine ⟨?_, hparse, hbase, hvisit, ?_, ?_, rfl, ?_, rfl, ?_, ?_, ?_⟩
    · show Frame.readFrame (file ++ image) (file ++ image).length state.offset state.sequence
        scan.limits = _
      rw [hend, hopens.isLimits]
      exact hread
    · rw [htotal]
      rfl
    · omega
    · omega
    · rw [htallied.frameCount]
      omega
    · rw [htotal]
      rfl
    · omega
  refine ⟨fromFile_append h.opens image, ?_, ?_⟩
  · refine (reaches_append h.opens h.reaches hend image).trans (Relation.ReflTransGen.single ?_)
    refine ⟨?_, stepFrame_eq_some.mpr ⟨_, _, hsteps⟩⟩
    show state.offset < (file ++ image).length
    omega
  · show state.offset + image.length = _
    omega

/-- **A complete file followed by a part of its next frame** is the same file with an incomplete
tail. -/
theorem walk_cut (h : Complete visit visited file limits scan state) {kept lost : Bytes}
    (himage : Frame.IsFrame (kept ++ lost) state.sequence limits) (hkept : kept ≠ [])
    (hlost : lost ≠ []) :
    (scan.withFile (file ++ kept)).walkDataFrames visit visited =
      .ok (walkOf state true, state.visited) := by
  obtain ⟨schemaFrame, hopens⟩ := fromFile_eq_ok.mp h.opens
  have hpos : 0 < kept.length := List.length_pos_iff.mpr hkept
  have hcut : Frame.readFrame (file ++ kept) (file ++ kept).length file.length state.sequence
      limits = .ok .incompleteTail := himage.readFrame_cut hlost
  have hstop : (scan.withFile (file ++ kept)).stepFrame visit state = .ok none := by
    refine stepFrame_eq_none.mpr ?_
    show Frame.readFrame (file ++ kept) (file ++ kept).length state.offset state.sequence
      scan.limits = .ok .incompleteTail
    rw [h.isEnd, hopens.isLimits]
    exact hcut
  refine walkDataFramesFrom_eq_ok.mpr ⟨state, reaches_append h.opens h.reaches h.isEnd kept, ?_,
    rfl, rfl⟩
  have htail : (walkOf state true).incompleteTail = true := rfl
  rw [if_pos htail]
  refine ⟨?_, hstop⟩
  show state.offset < (file ++ kept).length
  rw [h.isEnd, List.length_append]
  omega

/-- **A refused frame stops the walk**: a complete file followed by a frame the walk refuses is
refused for the same reason. -/
theorem walk_of_error (h : Complete visit visited file limits scan state) {more : Bytes} {e : Error}
    (hmore : more ≠ [])
    (hstep : (scan.withFile (file ++ more)).stepFrame visit state = .error e) :
    (scan.withFile (file ++ more)).walkDataFrames visit visited = .error e := by
  have hpos : 0 < more.length := List.length_pos_iff.mpr hmore
  have hinside : state.offset < (file ++ more).length := by
    rw [h.isEnd, List.length_append]
    omega
  have hreach := reaches_append h.opens h.reaches h.isEnd more
  have hrun : ((scan.withFile (file ++ more)).frames visit).run (file ++ more).length
      (startAt scan.initialResumePoint visited) = .error e := by
    rw [LogScan.run_eq_of_reaches hreach]
    exact LogScan.run_of_error hinside hstep
  exact (congrArg (· >>= _) hrun).trans (error_bind _ _)

end Complete

end FileScan

end Acta
