import Acta.Failures
import Acta.Write.Mirror

/-!
# The file stays readable

Whatever a call of a session returns, it leaves a file the walk accepts, whole or with an incomplete
tail (`accepted_of_runs`).  The writer goes on with its file (`Live`) until the sink fails or the
counters run out, and gives it up readable then (`Intact`).  The one way to a corrupt file is a
block whose row IDs run past their range (`rowIds_overflow_corrupts`).
-/

namespace Acta

open Machine Wire

namespace Writer

variable (zstd : Zstd)

/-! ### Every call -/

/-- A publication that stores a whole frame leaves the row IDs of the file within their range. -/
def PublishesInRange (writer : Writer) : Prop :=
  ∀ frame, writer.bufferedFrame zstd = .ok frame → writer.sink.taken frame = frame →
    writer.RowIdsFit

/-- A writer that can go on with its file, or one that gave it up and left it readable. -/
def Intact (writer : Writer) : Prop :=
  Live writer ∨ writer.poisoned = true ∧ Accepted writer.sink.stored

theorem Intact.accepted {writer : Writer} (h : Intact writer) : Accepted writer.sink.stored := by
  rcases h with hlive | ⟨-, haccepted⟩
  · exact hlive.accepted
  · exact haccepted

variable {writer : Writer}

/-- **A call leaves the file readable**, when what it publishes stays within its range. -/
theorem Live.call (h : Live writer) {c : Call}
    (hrange : ∀ p, Publishes zstd writer c p → p.PublishesInRange zstd)
    (hlength : (Writer.call zstd c writer).2.sink.stored.length ≤ u64Max) :
    Intact (Writer.call zstd c writer).2 := by
  have hends := ((live_stable zstd).leaves_call h c).ends
  generalize Writer.call zstd c writer = called at hends hlength ⊢
  cases hends with
  | holds hlive => exact .inl hlive
  | refused hreached hpoisoned hstored =>
    refine .inr ⟨hpoisoned, ?_⟩
    rw [hstored]
    exact hreached.accepted
  | torn hreached hpoisoned hpublishes hfull hframe hstored =>
    rename_i reached frame
    obtain ⟨-, scan, state, hmirrors⟩ := hreached
    refine .inr ⟨hpoisoned, ?_⟩
    rw [hstored] at hlength ⊢
    exact hmirrors.accepted_take zstd hfull hframe (reached.sink.taken_isPrefix frame)
      (hrange reached hpublishes frame hframe) hlength

/-- Whatever a call publishes stays within the range of the row IDs. -/
def StaysInRange (writer : Writer) (c : Call) : Prop :=
  ∀ p, Publishes zstd writer c p → p.PublishesInRange zstd

/-- A call stays in range when there are row IDs for all the rows it can publish. -/
theorem staysInRange_of_le {c : Call} (h : writer.options.rowIds = true →
    writer.state.nextRowId + writer.buffer.rows + c.rows ≤ u64Max) :
      StaysInRange zstd writer c := by
  intro p hpublishes frame _ _ hrowIds
  have hoptions : writer.options.rowIds = true := by
    cases hpublishes with
    | full before hmore hfull => exact (kept_of_appends zstd before).2 ▸ hrowIds
    | complete before hcomplete => exact (kept_of_appends zstd before).2 ▸ hrowIds
    | flush | sync | finish => exact hrowIds
  exact Nat.le_trans (rowIds_of_publishes zstd hoptions hpublishes) (h hoptions)

/-- **A session leaves the file readable after every call.** -/
theorem Intact.runs {start : Writer} (h : Intact start) {calls : List (Call × Result Unit)}
    (hruns : Runs zstd (StaysInRange zstd) start calls writer)
    (hlength : writer.sink.stored.length ≤ u64Max) : Intact writer := by
  induction hruns with
  | start => exact h
  | call before hallowed hcall ih =>
    rename_i reached next c result
    have hnext : (call zstd c reached).2 = next := by rw [hcall]
    rcases ih (Nat.le_trans ((extends_call zstd c).length_le hcall) hlength) with hlive | hgiven
    · have hcalled := hlive.call zstd hallowed (by rwa [hnext])
      rwa [hnext] at hcalled
    · rw [call_of_poisoned zstd hgiven.1] at hcall
      cases hcall
      exact .inr hgiven

/-! ### Sessions -/

/-- **A writer never makes its file corrupt** while the row IDs it publishes stay within their
range: after every call of every session, the walk reads the file whole or with an incomplete
tail. -/
theorem accepted_of_runs {start : Writer} (hopened : Opened zstd start)
    {calls : List (Call × Result Unit)}
    (hruns : Runs zstd (StaysInRange zstd) start calls writer)
    (hlength : writer.sink.stored.length ≤ u64Max) : Accepted writer.sink.stored := by
  have hintact : Intact start := .inl (hopened.live zstd)
  exact (hintact.runs zstd hruns hlength).accepted

/-- Row IDs, and blocks of one row. -/
def rowIdOptions : WriterOptions where
  rowIds := true
  rowBlockTarget := 1

/-- The file of one row, after the append that wrote it. -/
theorem accepted_of_runs_oneNumber :
    ∃ start, (create storingZstd { contents := none } numberSchema rowIdOptions).1 = .ok start ∧
      Accepted (call storingZstd (.append oneNumber) start).2.sink.stored := by
  have hfacts : ∃ start,
      (create storingZstd { contents := none } numberSchema rowIdOptions).1 = .ok start ∧
        start.state.nextRowId + start.buffer.rows = 0 ∧
          (call storingZstd (.append oneNumber) start).2.sink.stored.length ≤ 1000 :=
    exists_ok_and (by decide +kernel) (by decide +kernel)
  obtain ⟨start, hcreate, hrows, hlength⟩ := hfacts
  have hrange : StaysInRange storingZstd start (.append oneNumber) := by
    refine staysInRange_of_le storingZstd fun _ ↦ ?_
    rw [hrows]
    decide
  exact ⟨start, hcreate, accepted_of_runs storingZstd (.created (Prod.ext hcreate rfl))
    (.call .start hrange rfl) (Nat.le_trans hlength (by decide))⟩

/-! ### A file whose row IDs have run out

Blocks of as many rows as a block header can declare, one after another, until the next row ID of
the file is the last number there is. -/

/-- The header of the block that starts at a row ID, and claims as many rows as it can. -/
def wideHeader (baseRowId : ℕ) : Bytes :=
  Write.blockHeader numberSchema baseRowId u32Max (0, 0, false) true 96 96 0 ++ Write.zeros 32

/-- The frame of the block with the given number. -/
def wideFrame (index : ℕ) : Bytes :=
  Write.frameImage dataFrameType (index + 1) (wideHeader (index * u32Max)) []

/-- The file of the first blocks. -/
def wideFile (schemaFrame : Bytes) : ℕ → Bytes
  | 0 => Write.buildPrologue rowIdOptions.featureFlags ++ schemaFrame
  | index + 1 => wideFile schemaFrame index ++ wideFrame index

theorem length_wideHeader (baseRowId : ℕ) : (wideHeader baseRowId).length = 96 := by
  simp [wideHeader]

theorem buildFrame_wideFrame (index : ℕ) :
    Write.buildFrame dataFrameType (index + 1) (wideHeader (index * u32Max)) [] =
      .ok (wideFrame index) := by
  have hheader := length_wideHeader (index * u32Max)
  refine (Write.buildFrame_eq_ok _ _ _ _).mpr ⟨⟨?_, rfl⟩, ?_, ?_, rfl⟩
  · rw [hheader]
    decide
  · rw [hheader]
    decide
  · rw [Write.frameLength, hheader]
    decide

theorem length_wideFrame (index : ℕ) : (wideFrame index).length = 176 := by
  rw [Write.length_of_buildFrame (buildFrame_wideFrame index), Write.frameLength,
    length_wideHeader]
  decide

theorem isBlockHeader_wideHeader {baseRowId : ℕ} (h : baseRowId ≤ u64Max) :
    Write.IsBlockHeader numberSchema baseRowId u32Max (0, 0, false) true 0
      (wideHeader baseRowId) := by
  have hlength := length_wideHeader baseRowId
  refine ⟨⟨96, 96, 0, Write.zeros 32, rfl, ⟨h, ?_, ?_, ?_, ?_, ?_⟩, ⟨rfl, rfl, ?_, ?_⟩⟩,
    ⟨by decide, by decide, le_rfl, fun _ ↦ rfl⟩, by decide⟩
  any_goals decide
  · rw [hlength]
  · rw [hlength]
    decide

theorem framable_wideFrame {index : ℕ} (h : index + 1 < 2 ^ 64) :
    Write.Framable dataFrameType (index + 1) (wideHeader (index * u32Max)) [] Limits.default where
  expectedType := by
    have hsequence : index + 1 ≠ schemaFrameSequence := Nat.succ_ne_zero index
    rw [Frame.expectedFrameType, if_neg hsequence]
  sequence_lt := h
  schemaHeader hschema := absurd hschema (by decide)
  dataHeader _ := by
    rw [length_wideHeader]
    decide
  headerLimit := by
    rw [length_wideHeader]
    decide
  payloadLimit := Nat.zero_le _

/-- What the walk makes of the first blocks. -/
structure ReadsWide (schemaFrame : Bytes) (index : ℕ) (scan : FileScan) (state : WalkState Unit) :
    Prop where
  complete : FileScan.Complete (fun _ _ _ ↦ .ok ()) () (wideFile schemaFrame index) Limits.default
    scan state
  schema : scan.schema = numberSchema
  rowIds : scan.rowIdsEnabled = true
  sequence : state.sequence = index + 1
  expected : state.expectedBaseRowId = some (index * u32Max)
  length : (wideFile schemaFrame index).length = 64 + schemaFrame.length + 176 * index

/-- The row IDs of a wide block are the ones the walk expects, and the next one follows. -/
theorem nextBaseRowId_wide {baseRowId : ℕ} (h : baseRowId + u32Max ≤ u64Max)
    (frame : FrameMetadata) :
    FileScan.nextBaseRowId (some baseRowId)
        (Write.blockMetadata numberSchema baseRowId u32Max (0, 0, false) true) frame =
      .ok (some (baseRowId + u32Max)) := by
  show (do
    let next ← okOr (checkedAdd baseRowId u32Max) _
    return some next) = _
  rw [checkedAdd_of_le h]
  rfl

/-- **The walk takes the blocks** as long as the row IDs last. -/
theorem exists_readsWide {schemaFrame : Bytes}
    (hbuild : Write.buildSchemaFrame numberSchema = .ok schemaFrame) (index : ℕ)
    (h : index * u32Max ≤ u64Max) : ∃ scan state, ReadsWide schemaFrame index scan state := by
  induction index with
  | zero =>
    let scan := Write.initialScan numberSchema rowIdOptions Limits.default schemaFrame
      (wideFile schemaFrame 0)
    have hcomplete : FileScan.Complete (fun _ _ _ ↦ .ok ()) () (wideFile schemaFrame 0)
        Limits.default scan (FileScan.startAt scan.initialResumePoint ()) :=
      Write.complete_initial (by decide) hbuild ()
    have hrowIds : scan.rowIdsEnabled = true := Write.rowIdsEnabled_initialScan _ _ _ _ _
    refine ⟨scan, _, hcomplete, rfl, hrowIds, rfl, ?_, ?_⟩
    · show (if scan.rowIdsEnabled then some 0 else none : Option ℕ) = _
      rw [hrowIds, if_pos rfl, Nat.zero_mul]
    · show (Write.buildPrologue _ ++ schemaFrame).length = _
      rw [List.length_append, Write.length_buildPrologue]
      rfl
  | succ index ih =>
    have hnext : index * u32Max + u32Max ≤ u64Max := by
      rw [← Nat.succ_mul]
      exact h
    have hbefore : index * u32Max ≤ u64Max := by omega
    obtain ⟨scan, state, hreads⟩ := ih hbefore
    have hu32 : u32Max = 2 ^ 32 - 1 := rfl
    have hu64 : u64Max = 2 ^ 64 - 1 := rfl
    have hindex : index ≤ 2 ^ 33 := by
      rw [hu32, hu64] at hbefore
      omega
    have hlength : (wideFile schemaFrame index ++ wideFrame index).length =
        64 + schemaFrame.length + 176 * (index + 1) := by
      rw [List.length_append, hreads.length, length_wideFrame]
      omega
    have hsmall := Write.length_le_of_buildSchemaFrame hbuild
    have hpayload : defaultMaxFramePayloadLength = 2 ^ 32 := rfl
    have hfits : (wideFile schemaFrame index ++ wideFrame index).length ≤ u64Max := by omega
    have hframable := framable_wideFrame (show index + 1 < 2 ^ 64 by omega)
    have hbase : Write.CarriesBase true state.expectedBaseRowId (index * u32Max) := by
      rw [hreads.expected]
      rfl
    have hparse := Write.parse_of_buildFrame (buildFrame_wideFrame index) hframable
      (isBlockHeader_wideHeader hbefore) hbase
      (holdsAt_append_right (wideFile schemaFrame index) (wideFrame index))
    have hfeatures : scan.prologue.featureFlags = Write.featuresOf true := by
      rw [FileScan.featureFlags_of_opens hreads.complete.opens, hreads.rowIds]
      rfl
    have hframe : Frame.IsFrame (wideFrame index) state.sequence Limits.default := by
      rw [hreads.sequence]
      exact Write.isFrame_of_buildFrame (buildFrame_wideFrame index) hframable
    rw [← hreads.schema, ← hfeatures] at hparse
    have hchain := nextBaseRowId_wide hnext
      (Frame.metadataAt (wideFrame index) (wideFile schemaFrame index).length)
    rw [← hreads.expected, ← hreads.schema] at hchain
    refine ⟨_, _, hreads.complete.append hframe hparse hchain rfl hfits, hreads.schema,
      hreads.rowIds, ?_, ?_, hlength⟩
    · show state.sequence + 1 = index + 1 + 1
      rw [hreads.sequence]
    · show some (index * u32Max + u32Max) = some ((index + 1) * u32Max)
      rw [Nat.succ_mul]


/-- The block with which the row IDs have run out. -/
def lastWide : ℕ := 2 ^ 32 + 1

theorem lastWide_mul : lastWide * u32Max = u64Max := by decide

/-- The writer that reopens the file goes on with the last row ID there is. -/
theorem exists_reopened {schemaFrame : Bytes}
    (hbuild : Write.buildSchemaFrame numberSchema = .ok schemaFrame) :
    ∃ start, openInternal storingZstd { contents := some (wideFile schemaFrame lastWide) } none
        Limits.default rowIdOptions = (.ok start, some (wideFile schemaFrame lastWide)) ∧
      start = fromAppendSession
        { stored := wideFile schemaFrame lastWide, replies := fun _ ↦ .done }
        numberSchema rowIdOptions
        { fileLength := (wideFile schemaFrame lastWide).length, nextSequence := lastWide + 1,
          nextRowId := u64Max } (by decide) := by
  obtain ⟨scan, state, hreads⟩ := exists_readsWide hbuild lastWide (Nat.le_of_eq lastWide_mul)
  have hchecked : checkReopen scan none rowIdOptions = .ok () := by
    unfold checkReopen
    rw [hreads.schema, hreads.rowIds]
    rfl
  have hopen : openInternal storingZstd { contents := some (wideFile schemaFrame lastWide) } none
      Limits.default rowIdOptions = _ :=
    openInternal_of_complete storingZstd (by decide) rfl rfl rfl hreads.complete hchecked
  rw [hreads.schema, hreads.sequence, hreads.expected, lastWide_mul] at hopen
  exact ⟨_, hopen, rfl⟩


/-- One row more is published, although its row ID has no successor. -/
theorem stored_append_oneNumber {start : Writer} {sink : Sink} {fileLength : ℕ}
    (hgranted : ∀ index, sink.replies index = .done)
    (hstart : start = fromAppendSession sink numberSchema rowIdOptions
      { fileLength, nextSequence := lastWide + 1, nextRowId := u64Max } (by decide)) :
    ∃ frame, (start.push oneNumber).bufferedFrame storingZstd = .ok frame ∧
      (start.push oneNumber).buffer.isEmpty = false ∧
        (append storingZstd oneNumber start).2.sink.stored = sink.stored ++ frame := by
  have hbuilds : (Write.buildDataFrameWithStatistics storingZstd numberSchema
      ((BlockBuffer.newWithStatistics 1 .none).push numberSchema oneNumber).blockRows rowIdOptions
      u64Max (lastWide + 1)).isOk = true := by decide +kernel
  obtain ⟨frame, hframe⟩ := exists_eq_ok hbuilds
  have hfits : start.fittingPrefix oneNumber 0 = .ok 1 := by
    have hclosed : (fromAppendSession { stored := [], replies := fun _ ↦ .done } numberSchema
        rowIdOptions (.new 0) (by decide)).fittingPrefix oneNumber 0 = .ok 1 := by decide +kernel
    rw [← hclosed, hstart]
    exact fittingPrefix_congr rfl rfl rfl _ _
  have hcheck : start.checkBatch oneNumber = .ok () := by
    rw [hstart]
    rfl
  have happend : append storingZstd oneNumber start =
      publishBuffer storingZstd (start.push oneNumber) :=
    append_of_complete storingZstd (by rw [hstart]; rfl) hcheck hfits
      (by rw [hstart]; exact .inl (Nat.le_refl 1))
  have hbuffered : (start.push oneNumber).bufferedFrame storingZstd = .ok frame := by
    rw [hstart]
    exact hframe
  have hfull : (start.push oneNumber).buffer.isEmpty = false := by
    rw [hstart]
    rfl
  refine ⟨frame, hbuffered, hfull, ?_⟩
  rw [happend, stored_of_publishBuffer storingZstd hfull hbuffered (by
    rw [hstart]
    exact hgranted _)]
  rw [hstart]
  rfl

/-- A file of as many rows as row IDs can number is corrupt after one row more. -/
theorem rowIds_overflow_corrupts :
    ∃ schemaFrame start left result,
      Write.buildSchemaFrame numberSchema = .ok schemaFrame ∧
      openInternal storingZstd { contents := some (wideFile schemaFrame lastWide) } none
        Limits.default rowIdOptions = (.ok start, some (wideFile schemaFrame lastWide)) ∧
      Accepted (wideFile schemaFrame lastWide) ∧
      call storingZstd (.append oneNumber) start = (result, left) ∧
      left.sink.stored.length ≤ u64Max ∧ ¬Accepted left.sink.stored := by
  obtain ⟨schemaFrame, hbuild⟩ : ∃ schemaFrame,
      Write.buildSchemaFrame numberSchema = .ok schemaFrame :=
    exists_eq_ok (by decide +kernel)
  obtain ⟨start, hopen, hstart⟩ := exists_reopened hbuild
  obtain ⟨frame, hframe, hfull, hstored⟩ := stored_append_oneNumber (fun _ ↦ rfl) hstart
  have hlive : Live start := Opened.live storingZstd (.reopened hopen)
  have hpushed : Live (start.push oneNumber) := hlive.of_same rfl rfl rfl rfl rfl
  obtain ⟨-, scan, state, hmirrors⟩ := hpushed
  have hsame : (start.push oneNumber).sink.stored = wideFile schemaFrame lastWide := by
    rw [hstart]
    rfl
  have hlength : ((start.push oneNumber).sink.stored ++ frame).length ≤ u64Max := by
    obtain ⟨_, _, hreads⟩ := exists_readsWide hbuild lastWide (Nat.le_of_eq lastWide_mul)
    obtain ⟨assembly, primary, hbuilt⟩ := Write.buildDataFrame_eq_ok hframe
    have hschema := Write.length_le_of_buildSchemaFrame hbuild
    have hheader := hbuilt.header_le
    have hpayload := hbuilt.payload_le
    have hframeLength := hbuilt.length_image
    rw [hbuilt.length_frameHeader] at hframeLength
    rw [hsame, List.length_append, hreads.length]
    simp only [defaultMaxFramePayloadLength, defaultMaxFrameHeaderLength]
      at hschema hheader hpayload
    simp only [prefixSize, trailerSize] at hframeLength
    simp only [lastWide, u64Max]
    omega
  have haccepted := hmirrors.accepted_append_iff storingZstd hfull hframe hlength
  refine ⟨schemaFrame, start, _, _, hbuild, hopen, ?_, rfl, ?_, ?_⟩
  · rw [← hsame]
    exact accepted_of_complete hmirrors.complete
  · show (append storingZstd oneNumber start).2.sink.stored.length ≤ u64Max
    rw [hstored, ← hsame]
    exact hlength
  · show ¬Accepted (append storingZstd oneNumber start).2.sink.stored
    have hover : ¬(start.push oneNumber).RowIdsFit := by
      intro hfit
      have hle := hfit (by rw [hstart]; rfl)
      rw [hstart] at hle
      exact absurd (show u64Max + 1 ≤ u64Max from hle) (by decide)
    rw [hstored, ← hsame, haccepted]
    exact hover


end Writer

end Acta
