import Acta.Read.Filter
import Acta.RoundTrip.Chronicle
import Acta.RoundTrip.Price

/-!
# Reading a file back

A file that sessions wrote is walked to its end, and every block the walk visits is decoded into the
rows that some call appended: in order, each of them once (`Sessions.readsBack`).  Within one
session, the same holds at every moment of the blocks of the session and of the rows that are still
buffered, whether the calls so far returned success or refused (`Opened.ledger`).
-/

namespace Acta

open Machine Wire Candidates Write

/-- The values of one column of a batch, in order. -/
def RecordBatch.columnRows (batch : RecordBatch) (index : ℕ) : List (Option ScalarValue) :=
  (batch.columns[index]?.map LogicalArray.rows).getD []

/-- The values of a column are those of its cells in the rows. -/
theorem RecordBatch.filterMap_rows (batch : RecordBatch) (index : ℕ) :
    batch.rows.filterMap (·[index]?) = batch.columnRows index := by
  have hcell (row : ℕ) :
      (batch.rowAt row)[index]? = batch.columns[index]?.map (·.valueAt row) := List.getElem?_map ..
  rw [rows, List.filterMap_map, columnRows]
  cases hcolumn : batch.columns[index]? with
  | none =>
    refine List.filterMap_eq_nil_iff.mpr fun row _ ↦ ?_
    rw [Function.comp_apply, hcell, hcolumn]
    rfl
  | some array =>
    have hlen : array.len = batch.rowCount :=
      (RecordBatch.fits_of_mem (List.mem_of_getElem? hcolumn)).1
    rw [Option.map_some, Option.getD_some, LogicalArray.rows, hlen, ← List.filterMap_eq_map]
    refine List.filterMap_congr fun row _ ↦ ?_
    rw [Function.comp_apply, hcell, hcolumn]
    rfl

/-! ### The entries of a file -/

/-- What a walk says of a block: where its frame stands, and what its header declares. -/
abbrev Entry := FrameMetadata × DataFrameMetadata

namespace FileScan

/-- Record the entry of every block of a file. -/
def record : Visit (List Entry) :=
  fun entries frame block ↦ .ok (entries ++ [(frame, block)])

/-- Every entry of the second part is recorded after those of the first. -/
theorem foldlM_record (before entries : List Entry) :
    entries.foldlM (fun seen entry ↦ record seen entry.1 entry.2) before =
      .ok (before ++ entries) := by
  induction entries generalizing before with
  | nil => rw [List.foldlM_nil, List.append_nil, pure_eq_ok]
  | cons entry entries ih =>
    rw [List.foldlM_cons]
    show (Except.ok (before ++ [(entry.1, entry.2)]) >>= _ : Result (List Entry)) = _
    rw [ok_bind, ih, List.append_assoc, List.singleton_append]

/-- The block of an entry is decoded into `batch` by every reader whose limits are no tighter than
the defaults: exactly when the allowance of a block covers what the block costs, which is no more
than a 64-bit allowance may be. -/
structure Decodes (zstd : Zstd) (scan : FileScan) (entry : Entry) (batch : RecordBatch) : Prop where
  schema : batch.schema = scan.schema
  rowCount : batch.rowCount = entry.2.rowCount
  decodes : ∃ cost ≤ u64Max, ∀ limits : Limits, limits.CoversDefault → ∃ layout,
    DataFrame.readLayout scan.file entry.1 scan.schema scan.prologue.featureFlags entry.2.baseRowId
        limits = .ok layout ∧
      Read.decodeBlock zstd scan.file scan.fileSize entry.1 layout scan.schema limits =
        if cost ≤ limits.maxDecodedBlockBytes then .ok batch
        else .error (Budget.exceeded.withContext (.frame entry.1.sequence))

/-- Blocks are numbered one after another, and where the file has row IDs each of them is based
where the rows of the one ahead of it end. -/
def NumberedFrom (rowIds : Bool) : ℕ → ℕ → List Entry → Prop
  | _, _, [] => True
  | sequence, rowId, entry :: entries =>
    entry.1.sequence = sequence ∧ entry.2.baseRowId = (if rowIds then some rowId else none) ∧
      NumberedFrom rowIds (sequence + 1) (rowId + entry.2.rowCount) entries

/-- The block of an entry is decoded into `batch` under the limits of a reader. -/
def ReadsInto (zstd : Zstd) (scan : FileScan) (limits : Limits) (entry : Entry)
    (batch : RecordBatch) : Prop :=
  ∃ layout, DataFrame.readLayout scan.file entry.1 scan.schema scan.prologue.featureFlags
      entry.2.baseRowId limits = .ok layout ∧
    Read.decodeBlock zstd scan.file scan.fileSize entry.1 layout scan.schema limits = .ok batch

/-- What decodes at all decodes under an allowance that no count of bytes exceeds. -/
theorem Decodes.readsInto {zstd : Zstd} {scan : FileScan} {entry : Entry} {batch : RecordBatch}
    (h : scan.Decodes zstd entry batch) {limits : Limits} (hlimits : limits.CoversDefault)
    (hall : limits.maxDecodedBlockBytes = u64Max) : scan.ReadsInto zstd limits entry batch := by
  obtain ⟨cost, hcost, hdecodes⟩ := h.decodes
  obtain ⟨layout, hlayout, hdecode⟩ := hdecodes limits hlimits
  rw [hall, if_pos hcost] at hdecode
  exact ⟨layout, hlayout, hdecode⟩

end FileScan

section Inventory

variable {zstd : Zstd} {schema : Schema} {rowIds : Bool} {position : Position}
  {blocks : List PublishedBlock} {scan : FileScan} {offset : ℕ}

/-- **A stored block is read back**, within the bytes that it is priced at. -/
theorem PublishedBlock.StoredAt.decodesAtPrice {block : PublishedBlock}
    (h : block.StoredAt zstd schema rowIds position) (hzstd : zstd.RoundTrips)
    (hscan : scan.Of schema rowIds) (hholds : HoldsAt scan.file offset block.frame) :
    ∃ batch : RecordBatch, batch.rows = block.rows.rows ∧ batch.schema = scan.schema ∧
      ∀ limits : Limits, limits.CoversDefault → ∃ layout,
        DataFrame.readLayout scan.file (Frame.metadataAt block.frame offset) scan.schema
            scan.prologue.featureFlags (block.metadata schema rowIds position).baseRowId limits =
              .ok layout ∧
          Read.decodeBlock zstd scan.file scan.fileSize (Frame.metadataAt block.frame offset) layout
              scan.schema limits =
            if block.rows.decodePrice zstd schema block.options ≤ limits.maxDecodedBlockBytes then
              .ok batch
            else .error (Budget.exceeded.withContext
              (.frame (Frame.metadataAt block.frame offset).sequence)) := by
  obtain ⟨assembly, hbuilt⟩ := h.exists_built
  have hnumbered := h.numbered
  obtain ⟨batch, hschema, hrows, hdecodes⟩ :=
    hbuilt.decodeBlock_eq hnumbered h.encodes hzstd h.length_rows
  have hfeatures : scan.prologue.featureFlags = featuresOf block.options.rowIds := by
    rw [hscan.features, h.rowIds_eq]
  have hbase : CarriesBase block.options.rowIds (block.metadata schema rowIds position).baseRowId
      (position.baseRowId rowIds) := by
    rw [h.rowIds_eq]
    cases rowIds <;> rfl
  have hstands : StandsAt scan.file scan.fileSize offset block.frame :=
    ⟨hholds, hscan.fileSize ▸ hholds.fits, hscan.fileSize.le, hscan.fileSize ▸ hscan.fileSize_le⟩
  refine ⟨batch, hrows, hschema.trans hscan.schema_eq.symm, fun limits hlimits ↦
    ⟨builtLayout schema block.rows block.options (position.baseRowId rowIds) assembly
      (block.primary schema), ?_, ?_⟩⟩
  · rw [hscan.schema_eq, hfeatures]
    exact hbuilt.readBlockLayout_eq hnumbered hlimits h.encodes hholds hbase none
  · have hsequence : (Frame.metadataAt block.frame offset).sequence = position.sequence := by
      rw [metadataAt_of_buildFrame hbuilt.buildFrame_eq (hbuilt.framable hnumbered hlimits)]
    rw [hscan.schema_eq, hsequence, ← hbuilt.selectionCost_eq h.encodes.valid]
    exact hdecodes limits _ _ _ hlimits hstands

/-- A stored block is decoded by every reader whose allowance covers its price. -/
theorem PublishedBlock.StoredAt.decodes {block : PublishedBlock}
    (h : block.StoredAt zstd schema rowIds position) (hzstd : zstd.RoundTrips)
    (hscan : scan.Of schema rowIds) (hholds : HoldsAt scan.file offset block.frame) :
    ∃ batch, batch.rows = block.rows.rows ∧
      scan.Decodes zstd (Frame.metadataAt block.frame offset,
        block.metadata schema rowIds position) batch := by
  obtain ⟨assembly, hbuilt⟩ := h.exists_built
  obtain ⟨batch, hrows, hschema, hreads⟩ := h.decodesAtPrice hzstd hscan hholds
  have hcount : batch.rowCount = block.rows.rowCount := by
    have hlength := congrArg List.length hrows
    rwa [h.length_rows, RecordBatch.rows, List.length_map, List.length_range] at hlength
  have hcost := hbuilt.selectionCost_le h.encodes
  rw [hbuilt.selectionCost_eq h.encodes.valid] at hcost
  exact ⟨batch, hrows, hschema, hcount, _, hcost, hreads⟩

/-- **Stored blocks are read back one after another.** -/
theorem Stored.decodes (h : Stored zstd schema rowIds position blocks) (hzstd : zstd.RoundTrips)
    (hscan : scan.Of schema rowIds)
    (hholds : HoldsAt scan.file offset (blocks.flatMap (·.frame))) :
    ∃ batches : List RecordBatch, batches.map (·.rows) = blocks.map (·.rows.rows) ∧
      List.Forall₂ (scan.Decodes zstd) (inventory schema rowIds offset position blocks)
        batches := by
  induction blocks generalizing position offset with
  | nil => exact ⟨[], rfl, .nil⟩
  | cons block blocks ih =>
    obtain ⟨hblock, hrest⟩ := h
    rw [List.flatMap_cons] at hholds
    obtain ⟨batch, hrows, hdecodes⟩ := hblock.decodes hzstd hscan hholds.left
    obtain ⟨batches, hmore, hall⟩ := ih hrest hholds.right
    refine ⟨batch :: batches, ?_, .cons hdecodes hall⟩
    rw [List.map_cons, List.map_cons, hrows, hmore]

/-- The entries of stored blocks are numbered from their position on. -/
theorem Stored.numberedFrom (h : Stored zstd schema rowIds position blocks) {rowId : ℕ}
    (hrowId : rowIds = true → rowId = position.rowId) :
    FileScan.NumberedFrom rowIds position.sequence rowId
      (inventory schema rowIds offset position blocks) := by
  induction blocks generalizing position rowId offset with
  | nil => trivial
  | cons block blocks ih =>
    obtain ⟨hblock, hrest⟩ := h
    obtain ⟨assembly, hbuilt⟩ := hblock.exists_built
    refine ⟨?_, ?_, ih hrest fun hrowIds ↦ ?_⟩
    · show (Frame.metadataAt block.frame offset).sequence = position.sequence
      rw [metadataAt_of_buildFrame hbuilt.buildFrame_eq
        (hbuilt.framable hblock.numbered Limits.coversDefault_default)]
    · cases hcase : rowIds with
      | true =>
        show some position.rowId = some rowId
        rw [hrowId hcase]
      | false => rfl
    · subst hrowIds
      show rowId + block.rows.rowCount = position.rowId + block.rows.rowCount
      rw [hrowId rfl]

theorem length_inventory : (inventory schema rowIds offset position blocks).length =
    blocks.length := by
  induction blocks generalizing position offset with
  | nil => rfl
  | cons block blocks ih => rw [inventory, List.length_cons, ih, List.length_cons]

theorem rowCounts_inventory : (inventory schema rowIds offset position blocks).map (·.2.rowCount) =
    blocks.map (·.rows.rowCount) := by
  induction blocks generalizing position offset with
  | nil => rfl
  | cons block blocks ih =>
    rw [inventory, List.map_cons, ih, List.map_cons]
    rfl

end Inventory

/-! ### What a writer has stored -/

namespace Writer

variable {zstd : Zstd} {start writer : Writer} {blocks : List PublishedBlock}
  {taken : List Row}

/-- A writer that mirrors its file stands where the walk of its file ends. -/
theorem Mirrors.walkState_at {scan : FileScan} {state : WalkState (List DataFrameMetadata)}
    (h : Mirrors writer scan state) : state.At writer.options.rowIds writer.position := by
  have htallied := h.complete.tallied
  refine ⟨h.nextSequence.symm, ?_, ?_, htallied.scanned⟩
  · cases hrowIds : writer.options.rowIds with
    | true => exact h.nextRowId hrowIds
    | false =>
      have hnone : state.expectedBaseRowId.isSome = false := by
        rw [htallied.rowIds, h.rowIds, hrowIds]
      exact Option.isNone_iff_eq_none.mp (by rw [← Option.not_isSome, hnone]; rfl)
  · rw [htallied.frameCount, ← h.nextSequence]
    rfl

/-- The scan of the file of a writer. -/
theorem Mirrors.scan_of {scan : FileScan} {state : WalkState (List DataFrameMetadata)}
    (h : Mirrors writer scan state) : scan.Of writer.schema writer.options.rowIds := by
  obtain ⟨frame, hopens⟩ := FileScan.fromFile_eq_ok.mp h.complete.opens
  have htallied := h.complete.tallied
  have hend := h.complete.isEnd
  have hmax := htallied.offset_le
  refine ⟨h.schema, ?_, ?_, ?_, ?_⟩
  · rw [FileScan.featureFlags_of_opens h.complete.opens, h.rowIds]
    rfl
  · rw [hopens.isSize, hopens.isFile]
  · rw [hopens.isFile]
    omega
  · rw [hopens.isLimits]
    exact Limits.coversDefault_default

/-- What a walk of the file of a writer sees: the file is whole, and the writer goes on where the
walk ends. -/
structure Walked (writer : Writer) (scan : FileScan) (walk : Walk) (entries : List Entry) :
    Prop where
  opens : FileScan.fromFile writer.sink.stored Limits.default = .ok scan
  schema : scan.schema = writer.schema
  rowIds : scan.rowIdsEnabled = writer.options.rowIds
  walks : scan.walkDataFrames FileScan.record [] = .ok (walk, entries)
  whole : walk.incompleteTail = false
  fileLength : writer.state.fileLength = writer.sink.stored.length
  nextSequence : writer.state.nextSequence = walk.nextSequence
  nextRowId : writer.options.rowIds = true → walk.nextRowId = some writer.state.nextRowId

theorem Mirrors.walked {scan : FileScan} {state : WalkState (List DataFrameMetadata)}
    (h : Mirrors writer scan state) {seen : WalkState (List Entry)}
    (hcomplete : FileScan.Complete FileScan.record [] writer.sink.stored Limits.default scan seen)
    (hat : seen.At writer.options.rowIds writer.position) :
    Walked writer scan (FileScan.walkOf seen false) seen.visited where
  opens := hcomplete.opens
  schema := h.schema
  rowIds := h.rowIds
  walks := hcomplete.walk
  whole := rfl
  fileLength := h.fileLength
  nextSequence := hat.sequence.symm
  nextRowId hrowIds := by
    show seen.expectedBaseRowId = _
    rw [hat.expected, if_pos hrowIds]
    rfl

/-- **The blocks of a session are walked behind those that were there before.** -/
theorem Chronicle.walked (h : Chronicle zstd start taken blocks writer) (hlive : Live start) :
    ∃ scan walk earlier, Walked writer scan walk
        (earlier ++ inventory start.schema start.options.rowIds start.sink.stored.length
          start.position blocks) ∧
      (∃ scan walk, Walked start scan walk earlier) ∧
        scan.Of start.schema start.options.rowIds ∧ scan.file = writer.sink.stored := by
  obtain ⟨-, scan, state, hmirrors⟩ := hlive
  obtain ⟨scan', state', hmirrors', -⟩ := h.recorded.mirrors hmirrors
  obtain ⟨seen, hcomplete, hforget⟩ := hmirrors.complete.revisit FileScan.record
    (fun _ _ _ ↦ ⟨_, rfl⟩) []
  have hstored := h.recorded.stored
  -- The file has grown since the session started, and its scan has grown with it.
  have hopens := FileScan.fromFile_append hcomplete.opens (blocks.flatMap (·.frame))
  rw [← hstored] at hopens
  obtain rfl : scan' = scan.withFile writer.sink.stored :=
    Except.ok.inj (hmirrors'.complete.opens.symm.trans hopens)
  have hof : (scan.withFile writer.sink.stored).Of start.schema start.options.rowIds := by
    have hscan := hmirrors'.scan_of
    rwa [h.recorded.schema_eq, h.recorded.options_eq] at hscan
  have hat : seen.At start.options.rowIds start.position := by
    obtain ⟨hsequence, hexpected, hcount, hscanned⟩ := hmirrors.walkState_at
    cases seen
    cases state
    cases hforget
    exact ⟨hsequence, hexpected, hcount, hscanned⟩
  have hreaches := FileScan.reaches_append hcomplete.opens hcomplete.reaches hcomplete.isEnd
    (blocks.flatMap (·.frame))
  rw [← hstored] at hreaches
  have hholds : HoldsAt writer.sink.stored start.sink.stored.length (blocks.flatMap (·.frame)) := by
    rw [hstored]
    exact holdsAt_append_right _ _
  obtain ⟨last, hlast, hvisited, hend, hposition⟩ := h.stored.reaches hof hat
    (by rw [hcomplete.isEnd]; exact hholds) (FileScan.foldlM_record seen.visited _)
  have hwhole : FileScan.Complete FileScan.record [] writer.sink.stored Limits.default
      (scan.withFile writer.sink.stored) last := by
    refine ⟨hopens, hreaches.trans hlast, ?_⟩
    rw [hend, hcomplete.isEnd, hstored, List.length_append]
  have hlastAt : last.At writer.options.rowIds writer.position := by
    rw [h.recorded.options_eq, h.recorded.position_eq]
    exact hposition
  have hwalked := hmirrors'.walked hwhole hlastAt
  rw [hvisited, hcomplete.isEnd] at hwalked
  exact ⟨_, _, _, hwalked, ⟨_, _, hmirrors.walked hcomplete hat⟩, hof, rfl⟩

/-! ### One session -/

/-- Calls made one after another are a session, whatever they return. -/
theorem Runs.runCalls {before : List (Call × Result Unit)} {reached : Writer}
    (h : Runs zstd (fun _ _ ↦ True) start before reached) (calls : List Call) :
    Runs zstd (fun _ _ ↦ True) start (before ++ calls.zip (Writer.runCalls zstd calls reached).1)
      (Writer.runCalls zstd calls reached).2 := by
  induction calls generalizing before reached with
  | nil =>
    rw [List.zip_nil_left, List.append_nil]
    exact h
  | cons c calls ih =>
    have hnext := ih (.call h trivial (Prod.mk.eta (p := Writer.call zstd c reached)).symm)
    rwa [List.append_assoc] at hnext

/-- A session begins with a schema and an encoding that were checked. -/
theorem Opened.begins (h : Opened zstd start) : Begins start := by
  have hlive := h.live
  obtain ⟨-, scan, state, hmirrors⟩ := hlive
  have hpos : 0 < start.state.nextSequence := by
    rw [hmirrors.nextSequence]
    exact hmirrors.complete.tallied.sequence_pos
  cases h with
  | created hcreate =>
    obtain ⟨_, _, hcreated, -⟩ := create_eq_ok zstd hcreate
    obtain ⟨_, rfl⟩ := startSession_eq_ok hcreated.starts
    exact ⟨validateSchema_eq_ok.mp hcreated.schemaValid, hcreated.encodingValid, hpos⟩
  | reopened hopen =>
    obtain ⟨_, _, _, hreopened, -⟩ := openInternal_eq_ok zstd hopen
    obtain ⟨_, rfl⟩ := startSession_eq_ok hreopened.starts
    obtain ⟨_, -, hchecked⟩ := bind_eq_ok.mp hreopened.checked
    obtain ⟨_, hschema, hchecked⟩ := bind_eq_ok.mp hchecked
    obtain ⟨_, hencoding, -⟩ := bind_eq_ok.mp hchecked
    exact ⟨validateSchema_eq_ok.mp hschema, hencoding, hpos⟩

/-- A session begins with nothing written and nothing buffered. -/
theorem Opened.fresh (h : Opened zstd start) :
    start.buffer.blockRows.rows = [] ∧ start.blocksWritten = 0 ∧ start.publishedRows = 0 ∧
      start.durableRows = 0 := by
  cases h with
  | created hcreate =>
    obtain ⟨_, _, hcreated, -⟩ := create_eq_ok zstd hcreate
    obtain ⟨_, rfl⟩ := startSession_eq_ok hcreated.starts
    exact ⟨rfl, rfl, rfl, rfl⟩
  | reopened hopen =>
    obtain ⟨_, _, _, hreopened, -⟩ := openInternal_eq_ok zstd hopen
    obtain ⟨_, rfl⟩ := startSession_eq_ok hreopened.starts
    exact ⟨rfl, rfl, rfl, rfl⟩

/-- The chronicle of a session that has done nothing yet. -/
theorem Opened.chronicle (h : Opened zstd start) : Chronicle zstd start [] [] start := by
  have hsettled := h.starts.settled
  obtain ⟨hbuffer, -, hpublished, hdurable⟩ := h.fresh
  exact ⟨recorded_start hsettled.assembled, hsettled.hasRoom.bounded, hsettled.byteBlockTarget_pos,
    hsettled.healthy, trivial, hbuffer, by rw [hpublished, hdurable]⟩

/-- What the file of a writer and its counters say of its session: the blocks that it added stand
behind those that were there, and the rows decoded from them, followed by the rows still buffered,
are the rows that were taken in. -/
structure Ledger (zstd : Zstd) (start writer : Writer) (taken : List Row) (scan : FileScan)
    (walk : Walk) (earlier added : List Entry) (batches : List RecordBatch) : Prop where
  walked : Walked writer scan walk (earlier ++ added)
  begins : ∃ scan walk, Walked start scan walk earlier
  decodes : List.Forall₂ (scan.Decodes zstd) added batches
  numbered : FileScan.NumberedFrom start.options.rowIds start.state.nextSequence
    start.state.nextRowId added
  blocksWritten : writer.blocksWritten = added.length
  publishedRows : writer.publishedRows = (added.map (·.2.rowCount)).sum
  durable_le : writer.durableRows ≤ writer.publishedRows
  rows : batches.flatMap (·.rows) ++ writer.buffer.blockRows.rows = taken

/-- **A session that is chronicled has a ledger.** -/
theorem Chronicle.exists_ledger (h : Chronicle zstd start taken blocks writer)
    (hopened : Opened zstd start) (hzstd : zstd.RoundTrips) :
    ∃ scan walk earlier added batches,
      Ledger zstd start writer taken scan walk earlier added batches := by
  obtain ⟨scan, walk, earlier, hwalked, hstart, hof, hfile⟩ := h.walked hopened.live
  obtain ⟨-, hblocks, hpublished, -⟩ := hopened.fresh
  have hholds : HoldsAt scan.file start.sink.stored.length (blocks.flatMap (·.frame)) := by
    rw [hfile, h.recorded.stored]
    exact holdsAt_append_right _ _
  obtain ⟨batches, hbatches, hdecodes⟩ := h.stored.decodes hzstd hof hholds
  refine ⟨scan, walk, earlier, _, batches, hwalked, hstart, hdecodes,
    h.stored.numberedFrom fun _ ↦ rfl, ?_, ?_, h.durable_le, ?_⟩
  · rw [h.recorded.blocksWritten, hblocks, Nat.zero_add, length_inventory]
  · rw [h.recorded.publishedRows, hpublished, Nat.zero_add, rowCounts_inventory]
  · rw [← h.rows, List.flatMap_def, List.flatMap_def, hbatches]

/-- Right after a synchronization, everything that was published is durable. -/
theorem Runs.durable_of_sync {allowed : Writer → Call → Prop} {calls : List (Call × Result Unit)}
    (h : Runs zstd allowed start calls writer) (hhealthy : writer.poisoned = false)
    (hlast : calls.getLast? = some (.sync, .ok ())) :
    writer.durableRows = writer.publishedRows := by
  cases h with
  | start => cases hlast
  | call before hallowed hcall =>
    rw [List.getLast?_concat] at hlast
    cases hlast
    exact (publication_of_sync hcall hhealthy).2 rfl

/-- **The ledger of a session.**  As long as nothing poisons the writer, and whatever its calls
return, the file is whole; the writer goes on where the walk of it ends; the blocks that the session
added stand behind those that were there, numbered on from them, as many as the writer counts; and
the rows decoded from them, followed by the rows still buffered, are the rows that the calls took
in: all that a call brought where it returned success, and the first of them where it did not. -/
theorem Opened.ledger (hopened : Opened zstd start) {calls : List (Call × Result Unit)}
    (hruns : Runs zstd (fun _ _ ↦ True) start calls writer) (hhealthy : writer.poisoned = false)
    (hzstd : zstd.RoundTrips) :
    ∃ scan walk earlier added batches taken,
      Walked writer scan walk (earlier ++ added) ∧ (∃ scan walk, Walked start scan walk earlier) ∧
        List.Forall₂ (scan.Decodes zstd) added batches ∧
        FileScan.NumberedFrom start.options.rowIds start.state.nextSequence start.state.nextRowId
          added ∧
        writer.blocksWritten = added.length ∧
        writer.publishedRows = (added.map (·.2.rowCount)).sum ∧
        writer.durableRows ≤ writer.publishedRows ∧
        (calls.getLast? = some (.sync, .ok ()) → writer.durableRows = writer.publishedRows) ∧
        List.Forall₂ (fun call rows ↦ call.1.Took call.2 rows) calls taken ∧
        batches.flatMap (·.rows) ++ writer.buffer.blockRows.rows = taken.flatten := by
  obtain ⟨taken, blocks, hchronicle, htook⟩ :=
    hopened.chronicle.of_runs hopened.begins hruns hhealthy
  obtain ⟨scan, walk, earlier, added, batches, h⟩ := hchronicle.exists_ledger hopened hzstd
  exact ⟨scan, walk, earlier, added, batches, taken, h.walked, h.begins, h.decodes, h.numbered,
    h.blocksWritten, h.publishedRows, h.durable_le, hruns.durable_of_sync hhealthy, htook, h.rows⟩

/-- A row, a batch that is refused, and a synchronization. -/
theorem ledger_oneNumber :
    ∃ (start : Writer) (calls : List (Call × Result Unit)) (writer : Writer) (scan : FileScan)
      (walk : Walk) (earlier added : List Entry) (batches : List RecordBatch)
      (taken : List (List Row)), calls.map (·.2.isOk) = [true, false, true] ∧
        Walked writer scan walk (earlier ++ added) ∧ (∃ scan walk, Walked start scan walk earlier) ∧
          List.Forall₂ (scan.Decodes storingZstd) added batches ∧
            List.Forall₂ (fun call rows ↦ call.1.Took call.2 rows) calls taken ∧
              batches.flatMap (·.rows) ++ writer.buffer.blockRows.rows = taken.flatten := by
  obtain ⟨start, hcreate, hhealthy, hcalls⟩ : ∃ start,
      (create storingZstd { contents := none } numberSchema {}).1 = .ok start ∧
        (runCalls storingZstd [.append oneNumber, .append (numbers []), .sync]
          start).2.poisoned = false ∧
          ([Call.append oneNumber, .append (numbers []), .sync].zip
            (runCalls storingZstd [.append oneNumber, .append (numbers []), .sync] start).1).map
              (·.2.isOk) = [true, false, true] :=
    exists_ok_and (by decide +kernel) (by decide +kernel)
  obtain ⟨scan, walk, earlier, added, batches, taken, hwalked, hstart, hdecodes, -, -, -, -, -,
    htook, hrows⟩ := Opened.ledger (.created (Prod.ext hcreate rfl))
      (Runs.start.runCalls [.append oneNumber, .append (numbers []), .sync]) hhealthy
      roundTrips_storingZstd
  exact ⟨start, _, _, scan, walk, earlier, added, batches, taken, hcalls, hwalked, hstart, hdecodes,
    htook, hrows⟩

/-- **The counters of a writer mirror its file**, in every state that is reached without poisoning
the writer, and no row that a call took in is lost, doubled or out of its place. -/
theorem Opened.exists_ledger_of_runs (hopened : Opened zstd start)
    {calls : List (Call × Result Unit)} (hruns : Runs zstd (fun _ _ ↦ True) start calls writer)
    (hhealthy : writer.poisoned = false) (hzstd : zstd.RoundTrips) :
    ∃ taken, List.Forall₂ (fun call rows ↦ call.1.Took call.2 rows) calls taken ∧
      (calls.getLast? = some (.sync, .ok ()) → writer.durableRows = writer.publishedRows) ∧
        ∃ scan walk earlier added batches,
          Ledger zstd start writer taken.flatten scan walk earlier added batches := by
  obtain ⟨taken, blocks, hchronicle, htook⟩ :=
    hopened.chronicle.of_runs hopened.begins hruns hhealthy
  exact ⟨taken, htook, hruns.durable_of_sync hhealthy, hchronicle.exists_ledger hopened hzstd⟩

/-- A row, a refused batch, a synchronization, and a row that stays buffered. -/
theorem exists_ledger_of_runs_oneNumber :
    ∃ (start writer : Writer) (calls : List (Call × Result Unit)) (taken : List (List Row)),
      calls.map (·.2.isOk) = [true, false, true, true] ∧
        writer.blocksWritten = 1 ∧ writer.buffer.rows = 1 ∧
          List.Forall₂ (fun call rows ↦ call.1.Took call.2 rows) calls taken ∧
            ∃ scan walk earlier added batches,
              Ledger storingZstd start writer taken.flatten scan walk earlier added batches := by
  let calls : List Call := [.append oneNumber, .append (numbers []), .sync, .append oneNumber]
  obtain ⟨start, hcreate, hhealthy, hcalls, hwritten, hbuffered⟩ : ∃ start,
      (create storingZstd { contents := none } numberSchema {}).1 = .ok start ∧
        (runCalls storingZstd calls start).2.poisoned = false ∧
          (calls.zip (runCalls storingZstd calls start).1).map (·.2.isOk) =
              [true, false, true, true] ∧
            (runCalls storingZstd calls start).2.blocksWritten = 1 ∧
              (runCalls storingZstd calls start).2.buffer.rows = 1 :=
    exists_ok_and (by decide +kernel) (by decide +kernel)
  obtain ⟨taken, htook, -, hledger⟩ := Opened.exists_ledger_of_runs
    (.created (Prod.ext hcreate rfl)) (Runs.start.runCalls calls) hhealthy roundTrips_storingZstd
  exact ⟨start, _, _, taken, hcalls, hwritten, hbuffered, htook, hledger⟩

/-! ### Sessions of a file -/

variable (zstd) in
/-- The rows that have gone into a file, and the bytes of the file, after any number of sessions in
which every call succeeded.  The sessions agree on the schema and on whether there are row IDs; each
has its other options. -/
inductive Sessions (schema : Schema) (rowIds : Bool) : List Row → Bytes → Prop
  | created {disk : Disk} {options : WriterOptions} {contents : Option Bytes}
      {start last : Writer} {calls : List Call}
      (hcreate : create zstd disk schema options = (.ok start, contents))
      (hrowIds : options.rowIds = rowIds)
      (hcalls : Succeeds zstd (calls ++ [.finish]) start last) :
      Sessions schema rowIds (calls.flatMap Call.appended) last.sink.stored
  | reopened {rows : List Row} {file : Bytes} {disk : Disk} {options : WriterOptions}
      {contents : Option Bytes} {start last : Writer} {calls : List Call}
      (before : Sessions schema rowIds rows file) (hdisk : disk.contents = some file)
      (hopen : «open» zstd disk options = (.ok start, contents))
      (hcalls : Succeeds zstd (calls ++ [.finish]) start last) :
      Sessions schema rowIds (rows ++ calls.flatMap Call.appended) last.sink.stored

/-- Where the first block of a file is written. -/
def firstPosition : Position where
  sequence := firstDataFrameSequence
  rowId := firstBaseRowId

variable (zstd) in
/-- What the bytes of a file are: a prologue, the frame of a schema, and blocks. -/
structure Holds (schema : Schema) (rowIds : Bool) (blocks : List PublishedBlock) (file : Bytes) :
    Prop where
  schemaValid : SchemaValid schema
  bytes : ∃ schemaFrame, buildSchemaFrame schema = .ok schemaFrame ∧
    file = buildPrologue (featuresOf rowIds) ++ schemaFrame ++ blocks.flatMap (·.frame)
  stored : Stored zstd schema rowIds firstPosition blocks
  length_le : file.length ≤ u64Max

section Holds

variable {schema : Schema} {rowIds : Bool} {file : Bytes}

/-- **A walk visits the blocks of a file**, whatever it records of them, and ends behind them. -/
theorem Holds.visits (h : Holds zstd schema rowIds blocks file) {limits : Limits}
    (hlimits : limits.CoversDefault) :
    ∃ scan : FileScan, scan.Of schema rowIds ∧ scan.rowIdsEnabled = rowIds ∧
      HoldsAt scan.file scan.firstDataFrameOffset (blocks.flatMap (·.frame)) ∧
        ∀ {σ : Type} {visit : Visit σ} {before after : σ},
          (inventory schema rowIds scan.firstDataFrameOffset firstPosition blocks).foldlM
              (fun visited entry ↦ visit visited entry.1 entry.2) before = .ok after →
            ∃ state, FileScan.Complete visit before file limits scan state ∧
              state.visited = after ∧
                state.At rowIds (blocks.foldl (Position.next rowIds) firstPosition) := by
  obtain ⟨schemaFrame, hbuild, hbytes⟩ := h.bytes
  let options : WriterOptions := { rowIds }
  have hopens : FileScan.fromFile file limits =
      .ok (initialScan schema options limits schemaFrame file) := by
    rw [hbytes]
    exact @fromFile_initial _ options _ _ h.schemaValid hbuild hlimits _
  have hrowIds := rowIdsEnabled_initialScan schema options limits schemaFrame file
  generalize hscan : initialScan schema options limits schemaFrame file = scan at hopens hrowIds
  have hfirst : (buildPrologue (featuresOf rowIds) ++ schemaFrame).length =
      scan.firstDataFrameOffset := by
    rw [List.length_append, length_buildPrologue, ← hscan]
    rfl
  have hfile : scan.file = file := hscan ▸ rfl
  have hof : scan.Of schema rowIds := by
    rw [← hscan]
    exact ⟨rfl, rfl, rfl, h.length_le, hlimits⟩
  have hholds : HoldsAt scan.file scan.firstDataFrameOffset (blocks.flatMap (·.frame)) := by
    rw [hfile, ← hfirst, hbytes]
    exact holdsAt_append_right _ _
  refine ⟨scan, hof, hrowIds, hholds, fun {σ visit before after} hvisits ↦ ?_⟩
  have hat : (FileScan.startAt scan.initialResumePoint before).At rowIds firstPosition := by
    refine ⟨rfl, ?_, rfl, Nat.zero_le _⟩
    show (if scan.rowIdsEnabled then some 0 else none) = _
    rw [hrowIds]
    rfl
  obtain ⟨state, hreaches, hvisited, hend, hposition⟩ := h.stored.reaches hof hat hholds hvisits
  refine ⟨state, ⟨hopens, hreaches, ?_⟩, hvisited, hposition⟩
  rw [hend, hbytes, List.length_append, hfirst]
  rfl

/-- **A walk sees the blocks of a file**, and ends behind them. -/
theorem Holds.walk (h : Holds zstd schema rowIds blocks file) {limits : Limits}
    (hlimits : limits.CoversDefault) :
    ∃ scan state, FileScan.Complete FileScan.record [] file limits scan state ∧
      scan.Of schema rowIds ∧ scan.rowIdsEnabled = rowIds ∧
        state.visited = inventory schema rowIds scan.firstDataFrameOffset firstPosition blocks ∧
          state.At rowIds (blocks.foldl (Position.next rowIds) firstPosition) ∧
            HoldsAt scan.file scan.firstDataFrameOffset (blocks.flatMap (·.frame)) := by
  obtain ⟨scan, hof, hrowIds, hholds, hvisits⟩ := h.visits hlimits
  obtain ⟨state, hcomplete, hvisited, hat⟩ := hvisits (FileScan.foldlM_record [] _)
  exact ⟨scan, state, hcomplete, hof, hrowIds, hvisited, hat, hholds⟩

theorem rowId_foldl_next (blocks : List PublishedBlock) (position : Position) :
    (blocks.foldl (Position.next false) position).rowId = position.rowId := by
  induction blocks generalizing position with
  | nil => rfl
  | cons block blocks ih =>
    rw [List.foldl_cons, ih]
    rfl

/-- A walk stands at one position. -/
theorem position_eq_of_at {state : WalkState (List Entry)} {position : Position}
    (hat : state.At rowIds position) (hrowId : rowIds = false → position.rowId = firstBaseRowId) :
    position = ⟨state.sequence, state.expectedBaseRowId.getD firstBaseRowId⟩ := by
  obtain ⟨hsequence, hexpected, -, -⟩ := hat
  obtain ⟨sequence, rowId⟩ := position
  rw [hsequence, hexpected]
  cases rowIds with
  | true => rfl
  | false =>
    obtain rfl : rowId = firstBaseRowId := hrowId rfl
    rfl

/-- **A session goes on behind the blocks of its file.** -/
theorem position_of_reopened {disk : Disk} {options : WriterOptions} {walk : Walk}
    {scan : FileScan} (h : Holds zstd schema rowIds blocks file)
    (hreopened : Reopened zstd disk none Limits.default options file scan walk start) :
    start.schema = schema ∧ start.options.rowIds = rowIds ∧ start.sink.stored = file ∧
      start.position = blocks.foldl (Position.next rowIds) firstPosition := by
  obtain ⟨scan', state, hcomplete, hof, hrowIds, -, hat, -⟩ := h.walk Limits.coversDefault_default
  obtain rfl : scan' = scan := Except.ok.inj (hcomplete.opens.symm.trans hreopened.opens)
  -- What a writer that reopens the file records of its blocks is nothing.
  obtain ⟨state', hcomplete', hforget⟩ := hcomplete.revisit (fun _ _ _ ↦ .ok ())
    (fun _ _ _ ↦ ⟨_, rfl⟩) ()
  have hwalk := hcomplete'.walk.symm.trans hreopened.walked
  obtain ⟨rfl, -⟩ := Prod.mk.inj (Except.ok.inj hwalk)
  have hposition := position_eq_of_at hat fun hdisabled ↦ by
    rw [hdisabled, rowId_foldl_next]
    rfl
  have henabled : options.rowIds = scan'.rowIdsEnabled := by
    obtain ⟨_, -, hchecked⟩ := bind_eq_ok.mp hreopened.checked
    obtain ⟨_, -, hchecked⟩ := bind_eq_ok.mp hchecked
    obtain ⟨_, -, hchecked⟩ := bind_eq_ok.mp hchecked
    exact not_not.mp (failIf_eq_ok.mp hchecked)
  obtain ⟨_, rfl⟩ := startSession_eq_ok hreopened.starts
  refine ⟨hof.schema_eq, henabled.trans hrowIds, rfl, ?_⟩
  rw [hposition]
  have hsequence : state'.sequence = state.sequence := congrArg WalkState.sequence hforget
  have hexpected : state'.expectedBaseRowId = state.expectedBaseRowId :=
    congrArg WalkState.expectedBaseRowId hforget
  rw [← hsequence, ← hexpected]
  rfl

/-- Calls that succeed are a session. -/
theorem runs_of_succeeds {calls : List Call} {last : Writer}
    (h : Succeeds zstd calls start last) :
    Runs zstd (fun _ _ ↦ True) start (calls.map (·, .ok ())) last := by
  have hruns : Runs zstd (fun _ _ ↦ True) start [] start := .start
  have hall := hruns.runCalls calls
  have hzip : calls.zip (calls.map fun _ ↦ .ok ()) = calls.map (·, (.ok () : Result Unit)) := by
    rw [← List.zip_map', List.map_id']
  rwa [h, List.nil_append, hzip] at hall

/-- Calls that succeed take in all they bring. -/
theorem flatten_eq_of_took {calls : List Call} {taken : List (List Row)}
    (h : List.Forall₂ (fun call rows ↦ call.1.Took call.2 rows) (calls.map (·, .ok ())) taken) :
    taken.flatten = calls.flatMap Call.appended := by
  have hsame : List.Forall₂ (· = ·) taken (calls.map Call.appended) := by
    refine List.forall₂_map_right_iff.mpr
      (List.Forall₂.imp ?_ (List.forall₂_map_left_iff.mp h).flip)
    exact fun rows c htook ↦ htook.2 rfl
  rw [List.forall₂_eq_eq_eq] at hsame
  rw [hsame, List.flatMap_def]

/-- **A session that ends has stored what it was given.** -/
theorem exists_chronicle_of_finish (hopened : Opened zstd start) {calls : List Call} {last : Writer}
    (hcalls : Succeeds zstd (calls ++ [.finish]) start last) :
    ∃ blocks published, Chronicle zstd start (calls.flatMap Call.appended) blocks published ∧
      last.sink.stored = published.sink.stored ∧
        blocks.flatMap (·.rows.rows) = calls.flatMap Call.appended := by
  obtain ⟨middle, hmiddle, hfinish⟩ := (succeeds_append zstd).mp hcalls
  obtain ⟨hhealthy, published, hpublish, hstored⟩ :=
    finish_eq_ok zstd ((succeeds_singleton zstd).mp hfinish)
  obtain ⟨taken, blocks, hchronicle, htook⟩ := hopened.chronicle.of_runs hopened.begins
    (runs_of_succeeds hmiddle) hhealthy
  have hends := hchronicle.publishBuffer hopened.begins hpublish
  rw [flatten_eq_of_took htook] at hends
  have hempty : published.buffer.blockRows.rows = [] := by
    rw [hchronicle.recorded.assembled.buffer_of_publishBuffer zstd hpublish]
    rfl
  have hrows := hends.rows
  rw [hempty, List.append_nil] at hrows
  exact ⟨_, published, hends, hstored, hrows⟩

/-- **What sessions have written into a file** is a prologue, the frame of the schema, and blocks of
the rows that went in. -/
theorem Sessions.holds {rows : List Row} (h : Sessions zstd schema rowIds rows file) :
    ∃ blocks, Holds zstd schema rowIds blocks file ∧ blocks.flatMap (·.rows.rows) = rows := by
  have hlength {start last : Writer} {taken : List Row} {blocks : List PublishedBlock}
      (hopened : Opened zstd start) (hchronicle : Chronicle zstd start taken blocks last) :
      last.sink.stored.length ≤ u64Max := by
    obtain ⟨scan, -, -, -, -, hof, hfile⟩ := hchronicle.walked hopened.live
    rw [← hfile]
    exact hof.fileSize_le
  induction h with
  | created hcreate hrowIds hcalls =>
    have hopened := Opened.created hcreate
    obtain ⟨blocks, published, hchronicle, hstored, hrows⟩ :=
      exists_chronicle_of_finish hopened hcalls
    obtain ⟨schemaFrame, sink, hcreated, -⟩ := create_eq_ok zstd hcreate
    have hmax := hlength hopened hchronicle
    have hbytes := hchronicle.recorded.stored
    have hblocks := hchronicle.stored
    obtain ⟨_, rfl⟩ := startSession_eq_ok hcreated.starts
    subst hrowIds
    refine ⟨blocks, ⟨validateSchema_eq_ok.mp hcreated.schemaValid,
      ⟨schemaFrame, hcreated.frame, ?_⟩, hblocks, ?_⟩, hrows⟩
    · rw [hstored, hbytes]
      show sink.stored ++ _ = _
      rw [hcreated.stored]
      rfl
    · rwa [hstored]
  | reopened before hdisk hopen hcalls ih =>
    rename_i rows file disk options contents start last calls
    obtain ⟨earlier, hearlier, hrows⟩ := ih
    have hopened := Opened.reopened hopen
    obtain ⟨blocks, published, hchronicle, hstored, hmore⟩ :=
      exists_chronicle_of_finish hopened hcalls
    obtain ⟨file', scan, walk, hreopened, -⟩ := openInternal_eq_ok zstd hopen
    obtain rfl : file = file' := Option.some.inj (hdisk.symm.trans hreopened.present)
    obtain ⟨hschema, hrowIds, hfile, hposition⟩ := position_of_reopened hearlier hreopened
    have hmax := hlength hopened hchronicle
    have hblocks := hchronicle.stored
    rw [hschema, hrowIds, hposition] at hblocks
    obtain ⟨schemaFrame, hbuild, hbytes⟩ := hearlier.bytes
    refine ⟨earlier ++ blocks, ⟨hearlier.schemaValid, ⟨schemaFrame, hbuild, ?_⟩,
      stored_append.mpr ⟨hearlier.stored, hblocks⟩, ?_⟩, ?_⟩
    · rw [hstored, hchronicle.recorded.stored, hfile, hbytes, List.flatMap_append,
        List.append_assoc]
    · rwa [hstored]
    · rw [List.flatMap_append, hrows, hmore]

set_option maxRecDepth 100000 in
/-- Two sessions of one row each. -/
theorem sessions_numberFile :
    Sessions storingZstd numberSchema false (oneNumber.rows ++ oneNumber.rows) (numberFile 2) := by
  obtain ⟨start, hcreate, hcalls, hstored⟩ : ∃ start,
      (create storingZstd { contents := none } numberSchema {}).1 = .ok start ∧
        let calls := runCalls storingZstd [.append oneNumber, .flush, .append oneNumber, .finish]
        (calls start).1 = [.ok (), .ok (), .ok (), .ok ()] ∧
          (calls start).2.sink.stored = numberFile 2 :=
    exists_ok_and (by decide +kernel) (by decide +kernel)
  have hone : WritesInOne storingZstd numberSchema {} [oneNumber] [oneNumber] (numberFile 2) :=
    ⟨{ contents := none }, _, start, _, Prod.ext hcreate rfl, Prod.ext hcalls rfl, hstored⟩
  obtain ⟨_, _, _, _, _, ended, hready, hfile⟩ := exists_ready storingZstd hone
  obtain ⟨_, _, _, _, hcreate, hfirst, _, _, _, _, hdisk, hopen, hlast, hended⟩ :=
    hready.writesInTwo storingZstd
  rw [← hfile, ← hended]
  exact .reopened (.created hcreate rfl hfirst) hdisk hopen hlast

/-- **Whole-file round trip.**  A file that sessions wrote, each call of which succeeded, is walked
to its end under the default limits, with the schema it was created with; its blocks are numbered
from the first on and based where the rows ahead of them end; and the rows decoded from them, block
by block, are the rows that the calls appended. -/
theorem Sessions.readsBack {rows : List Row} (h : Sessions zstd schema rowIds rows file)
    (hzstd : zstd.RoundTrips) :
    ∃ scan walk entries batches, FileScan.fromFile file Limits.default = .ok scan ∧
      scan.schema = schema ∧ scan.rowIdsEnabled = rowIds ∧
        scan.walkDataFrames FileScan.record [] = .ok (walk, entries) ∧
          walk.incompleteTail = false ∧ walk.lastGoodOffset = file.length ∧
            FileScan.NumberedFrom rowIds firstDataFrameSequence firstBaseRowId entries ∧
              List.Forall₂ (scan.Decodes zstd) entries batches ∧
                batches.flatMap (·.rows) = rows := by
  obtain ⟨blocks, hholds, rfl⟩ := h.holds
  obtain ⟨scan, state, hcomplete, hof, hrowIds, hvisited, -, hstands⟩ :=
    hholds.walk Limits.coversDefault_default
  obtain ⟨batches, hbatches, hdecodes⟩ := hholds.stored.decodes hzstd hof hstands
  have hwalk := hcomplete.walk
  rw [hvisited] at hwalk
  refine ⟨scan, _, _, batches, hcomplete.opens, hof.schema_eq, hrowIds, hwalk, rfl,
    hcomplete.isEnd, hholds.stored.numberedFrom fun _ ↦ rfl, hdecodes, ?_⟩
  rw [List.flatMap_def, List.flatMap_def, hbatches]

/-- **Every column comes back.**  A file that sessions wrote, each call of which succeeded, is
walked to its end under the default limits, with the schema it was created with; its blocks are
numbered from the first on and based where the rows ahead of them end; and under limits that do not
bound what a block decodes to, the blocks are decoded, in order, into batches whose columns are, one
behind the other, the columns of what the calls appended. -/
theorem Sessions.decodes_columns {rows : List Row} (h : Sessions zstd schema rowIds rows file)
    (hzstd : zstd.RoundTrips) :
    ∃ scan walk entries batches, FileScan.fromFile file Limits.default = .ok scan ∧
      scan.schema = schema ∧ scan.walkDataFrames FileScan.record [] = .ok (walk, entries) ∧
        walk.incompleteTail = false ∧
          FileScan.NumberedFrom rowIds firstDataFrameSequence firstBaseRowId entries ∧
            (∀ limits : Limits, limits.CoversDefault → limits.maxDecodedBlockBytes = u64Max →
              List.Forall₂ (scan.ReadsInto zstd limits) entries batches) ∧
              ∀ index < schema.columns.length,
                batches.flatMap (·.columnRows index) = rows.filterMap (·[index]?) := by
  obtain ⟨blocks, hholds, rfl⟩ := h.holds
  obtain ⟨scan, state, hcomplete, hof, -, hvisited, -, hstands⟩ :=
    hholds.walk Limits.coversDefault_default
  obtain ⟨batches, hbatches, hdecodes⟩ := hholds.stored.decodes hzstd hof hstands
  have hwalk := hcomplete.walk
  rw [hvisited] at hwalk
  refine ⟨scan, _, _, batches, hcomplete.opens, hof.schema_eq, hwalk, rfl,
    hholds.stored.numberedFrom fun _ ↦ rfl, fun limits hlimits hall ↦
      hdecodes.imp fun _ _ hdecoded ↦ hdecoded.readsInto hlimits hall, fun index _ ↦ ?_⟩
  rw [List.flatMap_def (l := blocks), ← hbatches, ← List.flatMap_def, List.filterMap_flatMap]
  exact List.flatMap_congr fun batch _ ↦ (batch.filterMap_rows index).symm

end Holds

/-- The file of two sessions. -/
theorem readsBack_oneNumber :
    ∃ file scan walk entries batches, FileScan.fromFile file Limits.default = .ok scan ∧
      scan.schema = numberSchema ∧ scan.rowIdsEnabled = false ∧
        scan.walkDataFrames FileScan.record [] = .ok (walk, entries) ∧
          walk.incompleteTail = false ∧ walk.lastGoodOffset = file.length ∧
            FileScan.NumberedFrom false firstDataFrameSequence firstBaseRowId entries ∧
              List.Forall₂ (scan.Decodes storingZstd) entries batches ∧
                batches.flatMap (·.rows) = oneNumber.rows ++ oneNumber.rows := by
  exact ⟨numberFile 2, sessions_numberFile.readsBack roundTrips_storingZstd⟩

/-- The column of the file of two sessions, decoded without a bound. -/
theorem decodes_columns_numberFile :
    ∃ scan walk entries batches, FileScan.fromFile (numberFile 2) Limits.default = .ok scan ∧
      scan.schema = numberSchema ∧
        scan.walkDataFrames FileScan.record [] = .ok (walk, entries) ∧
          walk.incompleteTail = false ∧
            FileScan.NumberedFrom false firstDataFrameSequence firstBaseRowId entries ∧
              List.Forall₂ (scan.ReadsInto storingZstd { maxDecodedBlockBytes := u64Max }) entries
                batches ∧
                batches.flatMap (·.columnRows 0) =
                  oneNumber.columnRows 0 ++ oneNumber.columnRows 0 := by
  obtain ⟨scan, walk, entries, batches, hopens, hschema, hwalk, hwhole, hnumbered, hreads,
    hcolumns⟩ := sessions_numberFile.decodes_columns roundTrips_storingZstd
  have hlimits : Limits.CoversDefault { maxDecodedBlockBytes := u64Max } :=
    ⟨le_rfl, le_rfl, le_rfl, le_rfl, le_rfl⟩
  have hcolumn := hcolumns 0 (by decide)
  rw [List.filterMap_append, RecordBatch.filterMap_rows] at hcolumn
  exact ⟨scan, walk, entries, batches, hopens, hschema, hwalk, hwhole, hnumbered,
    hreads _ hlimits rfl, hcolumn⟩

end Writer

end Acta
