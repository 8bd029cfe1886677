import Acta.RoundTrip.DataFrame
import Acta.RoundTrip.Opening
import Acta.Write.Assembly

/-!
# A writer and its file

A healthy writer mirrors its file (`Mirrors`): the walk reads the file to its end, and stops with
the sequence number, the row ID and the length the writer goes on from.  A writer starts that way,
whether its file is new (`mirrors_of_created`) or not (`mirrors_of_reopened`), and every publication
that succeeds keeps it so (`Mirrors.wrote`).  A publication cut off anywhere leaves a file with an
incomplete tail, as long as the row IDs of the block stay within their range (`RowIdsFit`); a block
whose row IDs run past it is only noticed once its frame is in the file, and then the file is
corrupt (`Mirrors.accepted_append_iff`).
-/

namespace Acta

open Machine Wire

/-- Record every block of a file. -/
def FileScan.collect : Visit (List DataFrameMetadata) :=
  fun blocks _ block ↦ .ok (blocks ++ [block])

namespace Writer

variable (zstd : Zstd)

/-- The walk of any reader takes these bytes: whole, or with an incomplete tail. -/
def Accepted (file : Bytes) : Prop :=
  ∃ scan walk, FileScan.fromFile file Limits.default = .ok scan ∧
    scan.walkDataFrames (fun _ _ _ ↦ .ok ()) () = .ok (walk, ())

/-- A writer that goes on from where the walk of its file stops. -/
structure Mirrors (writer : Writer) (scan : FileScan) (state : WalkState (List DataFrameMetadata)) :
    Prop where
  complete : FileScan.Complete FileScan.collect [] writer.sink.stored Limits.default scan state
  schema : scan.schema = writer.schema
  rowIds : scan.rowIdsEnabled = writer.options.rowIds
  fileLength : writer.state.fileLength = writer.sink.stored.length
  nextSequence : writer.state.nextSequence = state.sequence
  nextRowId : writer.options.rowIds = true → state.expectedBaseRowId = some writer.state.nextRowId

/-- The row IDs of the buffered rows stay within their range. -/
def RowIdsFit (writer : Writer) : Prop :=
  writer.options.rowIds = true → writer.state.nextRowId + writer.buffer.rows ≤ u64Max

theorem accepted_of_complete {visited : List DataFrameMetadata} {file : Bytes} {scan : FileScan}
    {state : WalkState (List DataFrameMetadata)}
    (h : FileScan.Complete FileScan.collect visited file Limits.default scan state) :
    Accepted file :=
  ⟨scan, _, h.opens, FileScan.walkDataFramesFrom_forget h.walk⟩

/-! ### What a publication makes of the file -/

namespace Mirrors

variable {writer : Writer} {scan : FileScan} {state : WalkState (List DataFrameMetadata)}
  {frame : Bytes}

theorem numbered (h : Mirrors writer scan state) (hfull : writer.buffer.isEmpty = false) :
    Write.Numbered writer.buffer.blockRows writer.baseRowId state.sequence where
  rows_pos hzero := by
    have hempty : writer.buffer.isEmpty = true := decide_eq_true hzero
    rw [hempty] at hfull
    cases hfull
  baseRowId_le := by
    unfold baseRowId
    split
    · rename_i hrowIds
      exact h.complete.tallied.rowId_le _ (h.nextRowId hrowIds)
    · exact le_rfl
  sequence_pos hzero := by
    have hpos := h.complete.tallied.sequence_pos
    rw [hzero] at hpos
    cases hpos
  sequence_le := by
    have htallied := h.complete.tallied
    have hsequence := htallied.sequence_le
    have hscanned := htallied.scanned_lt
    have hoffset := htallied.offset_le
    have hfirst : firstDataFrameSequence = 1 := rfl
    have hprologue : prologueSize = 64 := rfl
    omega

/-- The base row ID a writer gives its next block is the one the walk expects there. -/
theorem carriesBase (h : Mirrors writer scan state) :
    Write.CarriesBase writer.options.rowIds state.expectedBaseRowId writer.baseRowId := by
  unfold Write.CarriesBase baseRowId
  split
  · rename_i hrowIds
    rw [h.nextRowId hrowIds]
    rfl
  · rfl

/-- **The walk takes the block a writer is about to publish.** -/
theorem parse_bufferedFrame (h : Mirrors writer scan state)
    (hfull : writer.buffer.isEmpty = false) (hframe : writer.bufferedFrame zstd = .ok frame) :
    Frame.IsFrame frame state.sequence Limits.default ∧
      ∃ primary, DataFrame.parse (writer.sink.stored ++ frame)
        (Frame.metadataAt frame writer.sink.stored.length) scan.schema scan.prologue.featureFlags
        state.expectedBaseRowId = .ok (Write.blockMetadata writer.schema writer.baseRowId
          writer.buffer.rows primary writer.options.rowIds) := by
  unfold bufferedFrame at hframe
  rw [h.nextSequence] at hframe
  obtain ⟨assembly, primary, hbuilt⟩ := Write.buildDataFrame_eq_ok hframe
  have hnumbered := h.numbered hfull
  refine ⟨hbuilt.isFrame hnumbered Limits.coversDefault_default, primary, ?_⟩
  have hfeatures : scan.prologue.featureFlags = Write.featuresOf writer.options.rowIds := by
    rw [FileScan.featureFlags_of_opens h.complete.opens, h.rowIds]
    rfl
  rw [hfeatures, h.schema]
  exact hbuilt.parse hnumbered Limits.coversDefault_default h.carriesBase
    (holdsAt_append_right _ _)

/-- **The file of a writer takes its next block**, when the row IDs of the block fit. -/
theorem complete_append (h : Mirrors writer scan state) (hfull : writer.buffer.isEmpty = false)
    (hframe : writer.bufferedFrame zstd = .ok frame) (hfit : writer.RowIdsFit)
    (hlength : (writer.sink.stored ++ frame).length ≤ u64Max) :
    ∃ block, block.rowCount = writer.buffer.rows ∧
      FileScan.Complete FileScan.collect [] (writer.sink.stored ++ frame) Limits.default
        (scan.withFile (writer.sink.stored ++ frame))
        (FileScan.Complete.grown state frame
          (if writer.options.rowIds then some (writer.state.nextRowId + writer.buffer.rows)
            else none) (state.visited ++ [block])) := by
  obtain ⟨hisFrame, primary, hparse⟩ := h.parse_bufferedFrame zstd hfull hframe
  refine ⟨_, rfl, h.complete.append hisFrame hparse ?_ rfl hlength⟩
  have htallied := h.complete.tallied
  unfold FileScan.nextBaseRowId Write.blockMetadata baseRowId
  cases hrowIds : writer.options.rowIds with
  | true =>
    simp only [if_true]
    rw [checkedAdd_of_le (hfit hrowIds)]
    rfl
  | false =>
    have hnone : state.expectedBaseRowId = none := by
      rw [← Option.not_isSome_iff_eq_none, htallied.rowIds, h.rowIds, hrowIds]
      exact Bool.false_ne_true
    simp only [Bool.false_eq_true, if_false]
    rw [hnone]

/-- **A writer that wrote its buffer still mirrors its file.** -/
theorem wrote (h : Mirrors writer scan state) {counters : Advanced} {next : Writer}
    (hwrote : Wrote zstd writer frame counters next) :
    ∃ block, block.rowCount = writer.buffer.rows ∧
      Mirrors next (scan.withFile (writer.sink.stored ++ frame))
        (FileScan.Complete.grown state frame
          (if writer.options.rowIds then some (writer.state.nextRowId + writer.buffer.rows)
            else none) (state.visited ++ [block])) := by
  obtain ⟨hfileLength, hlengthMax, hsequence, -, hrowId, hrowIdMax⟩ :=
    advance_eq_some hwrote.advances
  have hfit : writer.RowIdsFit := fun hrowIds ↦ by
    have hmax := hrowIdMax hrowIds
    rw [hrowId, if_pos hrowIds] at hmax
    exact hmax
  have hlength : (writer.sink.stored ++ frame).length ≤ u64Max := by
    rw [List.length_append, ← h.fileLength, ← hfileLength]
    exact hlengthMax
  obtain ⟨block, hblock, hcomplete⟩ := h.complete_append zstd hwrote.nonempty hwrote.builds hfit
    hlength
  refine ⟨block, hblock, ?_⟩
  rw [hwrote.next_eq]
  refine ⟨hcomplete, h.schema, h.rowIds, ?_, ?_, ?_⟩
  · show counters.fileLength = (writer.sink.stored ++ frame).length
    rw [hfileLength, h.fileLength, List.length_append]
  · show counters.nextSequence = state.sequence + 1
    rw [hsequence, h.nextSequence]
  · intro hrowIds
    show (if writer.options.rowIds then some (writer.state.nextRowId + writer.buffer.rows)
      else none) = some counters.nextRowId
    rw [hrowId, if_pos hrowIds, if_pos hrowIds]

/-- **A publication cut off anywhere leaves an accepted file**, when the row IDs of a whole block
fit. -/
theorem accepted_take (h : Mirrors writer scan state) (hfull : writer.buffer.isEmpty = false)
    (hframe : writer.bufferedFrame zstd = .ok frame) {kept : Bytes} (hkept : kept <+: frame)
    (hfit : kept = frame → writer.RowIdsFit)
    (hlength : (writer.sink.stored ++ kept).length ≤ u64Max) :
    Accepted (writer.sink.stored ++ kept) := by
  obtain ⟨lost, rfl⟩ := hkept
  by_cases hzero : kept = []
  · rw [hzero, List.append_nil]
    exact accepted_of_complete h.complete
  by_cases hall : lost = []
  · subst hall
    rw [List.append_nil] at hframe hfit
    obtain ⟨block, -, hcomplete⟩ := h.complete_append zstd hfull hframe (hfit rfl) hlength
    exact accepted_of_complete hcomplete
  · obtain ⟨hisFrame, -⟩ := h.parse_bufferedFrame zstd hfull hframe
    have hwalk := h.complete.walk_cut hisFrame hzero hall
    exact ⟨_, _, FileScan.fromFile_append h.complete.opens _,
      FileScan.walkDataFramesFrom_forget hwalk⟩

/-- **A block whose row IDs do not fit makes the file corrupt**, once its frame is in the file. -/
theorem corrupt_append (h : Mirrors writer scan state) (hfull : writer.buffer.isEmpty = false)
    (hframe : writer.bufferedFrame zstd = .ok frame) (hover : ¬writer.RowIdsFit)
    (hlength : (writer.sink.stored ++ frame).length ≤ u64Max) :
    ∃ grown, FileScan.fromFile (writer.sink.stored ++ frame) Limits.default = .ok grown ∧
      FailsWith .corruption (grown.walkDataFrames (fun _ _ _ ↦ .ok ()) ()) := by
  obtain ⟨hisFrame, primary, hparse⟩ := h.parse_bufferedFrame zstd hfull hframe
  obtain ⟨hrowIds, hpast⟩ : writer.options.rowIds = true ∧
      ¬writer.state.nextRowId + writer.buffer.rows ≤ u64Max := Classical.not_imp.mp hover
  obtain ⟨state', hcomplete, hsame⟩ := h.complete.revisit (fun _ _ _ ↦ .ok ())
    (fun _ _ _ ↦ ⟨(), rfl⟩) ()
  have hsequence : state'.sequence = state.sequence := congrArg WalkState.sequence hsame
  have hexpected : state'.expectedBaseRowId = state.expectedBaseRowId :=
    congrArg WalkState.expectedBaseRowId hsame
  obtain ⟨schemaFrame, hopens⟩ := FileScan.fromFile_eq_ok.mp h.complete.opens
  have hread := Frame.readFrame_append hisFrame hlength
  have hpos := Frame.totalLength_pos_of_complete hread
  have htotal : (Frame.metadataAt frame writer.sink.stored.length).totalLength = frame.length :=
    hisFrame.length.symm
  have hne : frame ≠ [] := List.length_pos_iff.mp (htotal ▸ hpos)
  refine ⟨_, FileScan.fromFile_append h.complete.opens frame, ?_⟩
  have hread' : Frame.readFrame (writer.sink.stored ++ frame)
      (writer.sink.stored ++ frame).length state'.offset state'.sequence scan.limits =
        .ok (.complete (Frame.metadataAt frame writer.sink.stored.length)) := by
    rw [hcomplete.isEnd, hsequence, hopens.isLimits]
    exact hread
  rw [← hexpected] at hparse
  have hbase : writer.baseRowId = writer.state.nextRowId := by
    rw [baseRowId, if_pos hrowIds]
  have hcarried : (Write.blockMetadata writer.schema writer.baseRowId writer.buffer.rows primary
      writer.options.rowIds).baseRowId = some writer.state.nextRowId := by
    show (if writer.options.rowIds then some writer.baseRowId else none) = _
    rw [if_pos hrowIds, hbase]
  have hstep : FailsWith .corruption
      ((scan.withFile (writer.sink.stored ++ frame)).stepFrame (fun _ _ _ ↦ .ok ()) state') :=
    FileScan.stepFrame_of_rowIds hread' hparse hcarried (Nat.not_le.mp hpast)
  obtain ⟨e, he, hkind⟩ := hstep
  exact ⟨e, hcomplete.walk_of_error hne he, hkind⟩

/-- **A whole block leaves the file readable exactly when its row IDs fit.** -/
theorem accepted_append_iff (h : Mirrors writer scan state) (hfull : writer.buffer.isEmpty = false)
    (hframe : writer.bufferedFrame zstd = .ok frame)
    (hlength : (writer.sink.stored ++ frame).length ≤ u64Max) :
    Accepted (writer.sink.stored ++ frame) ↔ writer.RowIdsFit := by
  constructor
  · intro haccepted
    by_contra hover
    obtain ⟨grown, hopens, e, hcorrupt, -⟩ := h.corrupt_append zstd hfull hframe hover hlength
    obtain ⟨scan', walk, hopens', hwalk⟩ := haccepted
    rw [hopens] at hopens'
    cases hopens'
    rw [hcorrupt] at hwalk
    cases hwalk
  · intro hfit
    obtain ⟨block, -, hcomplete⟩ := h.complete_append zstd hfull hframe hfit hlength
    exact accepted_of_complete hcomplete

end Mirrors

/-- What the file reads as does not depend on the buffer, nor on how often the sink was asked. -/
theorem Mirrors.of_same {writer next : Writer} {scan : FileScan}
    {state : WalkState (List DataFrameMetadata)} (h : Mirrors writer scan state)
    (hstored : next.sink.stored = writer.sink.stored) (hschema : next.schema = writer.schema)
    (hoptions : next.options = writer.options) (hstate : next.state = writer.state) :
    Mirrors next scan state where
  complete := hstored ▸ h.complete
  schema := h.schema.trans hschema.symm
  rowIds := by rw [hoptions, h.rowIds]
  fileLength := by rw [hstate, hstored, h.fileLength]
  nextSequence := by rw [hstate, h.nextSequence]
  nextRowId := by
    rw [hoptions, hstate]
    exact h.nextRowId

/-! ### The start of a session -/

variable {writer : Writer}

/-- A writer of a new file mirrors it, and no block is in it. -/
theorem exists_mirrors_of_created {disk : Disk} {schema : Schema} {options : WriterOptions}
    {schemaFrame : Bytes} {sink : Sink}
    (h : Created zstd disk schema options schemaFrame sink writer) :
    ∃ scan state, Mirrors writer scan state ∧ state.visited = [] := by
  obtain ⟨hpos, hwriter⟩ := startSession_eq_ok h.starts
  subst hwriter
  let file := Write.buildPrologue options.featureFlags ++ schemaFrame
  let scan := Write.initialScan schema options Limits.default schemaFrame file
  have hcomplete : FileScan.Complete FileScan.collect [] file Limits.default scan
      (FileScan.startAt scan.initialResumePoint []) :=
    Write.complete_initial h.schemaValid h.frame []
  have hrowIds : scan.rowIdsEnabled = options.rowIds :=
    Write.rowIdsEnabled_initialScan schema options Limits.default schemaFrame file
  refine ⟨scan, FileScan.startAt scan.initialResumePoint [], ⟨?_, rfl, hrowIds, rfl, rfl, ?_⟩, rfl⟩
  · show FileScan.Complete _ _ sink.stored _ _ _
    rw [h.stored]
    exact hcomplete
  · intro henabled
    show (if scan.rowIdsEnabled then some 0 else none) = some firstBaseRowId
    have hoption : options.rowIds = true := henabled
    rw [hrowIds, if_pos hoption]
    rfl

theorem mirrors_of_created {disk : Disk} {schema : Schema} {options : WriterOptions}
    {schemaFrame : Bytes} {sink : Sink}
    (h : Created zstd disk schema options schemaFrame sink writer) :
    ∃ scan state, Mirrors writer scan state := by
  obtain ⟨scan, state, hmirrors, -⟩ := exists_mirrors_of_created zstd h
  exact ⟨scan, state, hmirrors⟩

/-- A writer that reopened a file mirrors it. -/
theorem mirrors_of_reopened {disk : Disk} {expectedSchema : Option Schema} {options : WriterOptions}
    {file : Bytes} {scan : FileScan} {walk : Walk}
    (h : Reopened zstd disk expectedSchema Limits.default options file scan walk writer) :
    ∃ state, Mirrors writer scan state := by
  obtain ⟨hpos, hwriter⟩ := startSession_eq_ok h.starts
  subst hwriter
  obtain ⟨frame, hopens⟩ := FileScan.fromFile_eq_ok.mp h.opens
  obtain ⟨state, hcomplete, hwalk, -⟩ := FileScan.Complete.of_walk h.opens h.walked h.whole
  obtain ⟨state', hcomplete', hsame⟩ := hcomplete.revisit FileScan.collect
    (fun seen frame block ↦ ⟨_, rfl⟩) []
  have hsequence : walk.nextSequence = state'.sequence := by
    rw [← hwalk]
    exact (congrArg WalkState.sequence hsame).symm
  have hrowId : walk.nextRowId = state'.expectedBaseRowId := by
    rw [← hwalk]
    exact (congrArg WalkState.expectedBaseRowId hsame).symm
  have hrowIds : scan.rowIdsEnabled = options.rowIds := by
    obtain ⟨_, -, hchecked⟩ := bind_eq_ok.mp h.checked
    obtain ⟨_, -, hchecked⟩ := bind_eq_ok.mp hchecked
    obtain ⟨_, -, hchecked⟩ := bind_eq_ok.mp hchecked
    rw [failIf_eq_ok] at hchecked
    exact (not_not.mp hchecked).symm
  refine ⟨state', ⟨hcomplete', rfl, hrowIds, hopens.isSize, hsequence, ?_⟩⟩
  intro henabled
  show state'.expectedBaseRowId = some (walk.nextRowId.getD firstBaseRowId)
  have hsome : state'.expectedBaseRowId.isSome = true := by
    rw [hcomplete'.tallied.rowIds, hrowIds]
    exact henabled
  obtain ⟨rowId, hrowId'⟩ := Option.isSome_iff_exists.mp hsome
  rw [hrowId, hrowId']
  rfl

/-! ### Writers that go on with their file -/

/-- A writer that can go on with its file. -/
def Live (writer : Writer) : Prop :=
  writer.poisoned = false ∧ ∃ scan state, Mirrors writer scan state

theorem Live.accepted (h : Live writer) : Accepted writer.sink.stored := by
  obtain ⟨-, scan, state, hmirrors⟩ := h
  exact accepted_of_complete hmirrors.complete

/-- What leaves the file alone leaves a writer that can go on. -/
theorem Live.of_same {next : Writer} (h : Live writer)
    (hpoisoned : next.poisoned = writer.poisoned)
    (hstored : next.sink.stored = writer.sink.stored) (hschema : next.schema = writer.schema)
    (hoptions : next.options = writer.options) (hstate : next.state = writer.state) :
    Live next := by
  obtain ⟨hhealthy, scan, state, hmirrors⟩ := h
  exact ⟨hpoisoned.trans hhealthy, scan, state, hmirrors.of_same hstored hschema hoptions hstate⟩

/-- A publication that succeeds keeps a writer going. -/
theorem Live.publishBuffer_ok {next : Writer} (h : Live writer)
    (hpublish : publishBuffer zstd writer = (.ok (), next)) : Live next := by
  obtain ⟨hhealthy, scan, state, hmirrors⟩ := h
  rcases publishBuffer_eq_ok zstd hpublish with ⟨-, rfl, -⟩ | ⟨frame, counters, hwrote, -⟩
  · exact ⟨hhealthy, scan, state, hmirrors⟩
  · obtain ⟨block, -, hnext⟩ := hmirrors.wrote zstd hwrote
    exact ⟨(published_poisoned zstd hpublish).trans hhealthy, _, _, hnext⟩

/-- A writer goes on with its file until it is poisoned. -/
theorem live_stable : Stable zstd Live where
  publish h := h.publishBuffer_ok zstd
  push h _ := h.of_same rfl rfl rfl rfl rfl
  asked h := h.of_same rfl rfl rfl rfl rfl
  durable h := h.of_same rfl rfl rfl rfl rfl

theorem Opened.live (h : Opened zstd writer) : Live writer := by
  cases h with
  | created hcreate =>
    obtain ⟨schemaFrame, sink, hcreated, -⟩ := create_eq_ok zstd hcreate
    refine ⟨?_, mirrors_of_created zstd hcreated⟩
    obtain ⟨hpos, rfl⟩ := startSession_eq_ok hcreated.starts
    rfl
  | reopened hopen =>
    obtain ⟨file, scan, walk, hreopened, -⟩ := openInternal_eq_ok zstd hopen
    refine ⟨?_, _, mirrors_of_reopened zstd hreopened⟩
    obtain ⟨hpos, rfl⟩ := startSession_eq_ok hreopened.starts
    rfl

end Writer

end Acta
