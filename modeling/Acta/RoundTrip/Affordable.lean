import Acta.RoundTrip.File
import Acta.Write.Splitting

/-!
# Blocks that a reader cannot afford

Every block that a session has stored is read back under the default limits exactly where its price
is no more than they allow (`Opened.readsBack_iff_price`).

A writer bounds its blocks by another measure, their raw bytes, and the two disagree.  Every row of a
column of runs is charged as a copy of the longest value, however short it is, so one long value
among empty ones is written as a block that no reader decodes under the default limits
(`longThenEmpty_unread`).
-/

namespace Acta

open Machine Wire Candidates Write

namespace FileScan

/-- The default limits read the block of an entry where its price is no more than they allow, and
nothing else of it than its rows. -/
structure ReadsAtPrice (zstd : Zstd) (scan : FileScan) (options : WriterOptions) (entry : Entry)
    (rows : BlockRows) : Prop where
  reads_iff : (∃ batch, scan.ReadsInto zstd Limits.default entry batch) ↔
    rows.decodePrice zstd scan.schema options ≤ Limits.default.maxDecodedBlockBytes
  rows_eq : ∀ batch, scan.ReadsInto zstd Limits.default entry batch → batch.rows = rows.rows

end FileScan

section Stored

variable {zstd : Zstd} {schema : Schema} {options : WriterOptions} {position : Position}
  {blocks : List PublishedBlock} {scan : FileScan} {offset : ℕ}

/-- **A stored block is read where its price is within the limits.**  The frame is what the options
make of the rows, whatever the block says of its own. -/
theorem PublishedBlock.StoredAt.readsAtPrice {block : PublishedBlock}
    (h : StoredAt zstd schema options.rowIds position { block with options })
    (hzstd : zstd.RoundTrips) (hscan : scan.Of schema options.rowIds)
    (hholds : HoldsAt scan.file offset block.frame) :
    scan.ReadsAtPrice zstd options (Frame.metadataAt block.frame offset,
      block.metadata schema options.rowIds position) block.rows := by
  obtain ⟨batch, hrows, -, hreads⟩ := h.decodesAtPrice hzstd hscan hholds
  obtain ⟨layout, hlayout, hdecode⟩ := hreads Limits.default Limits.coversDefault_default
  rw [← hscan.schema_eq] at hdecode
  constructor
  · constructor
    · rintro ⟨read, layout', hlayout', hdecode'⟩
      obtain rfl : layout' = layout := Except.ok.inj (hlayout'.symm.trans hlayout)
      by_contra hprice
      rw [if_neg hprice, hdecode'] at hdecode
      cases hdecode
    · intro hprice
      rw [if_pos hprice] at hdecode
      exact ⟨batch, layout, hlayout, hdecode⟩
  · rintro read ⟨layout', hlayout', hdecode'⟩
    obtain rfl : layout' = layout := Except.ok.inj (hlayout'.symm.trans hlayout)
    rw [hdecode'] at hdecode
    split at hdecode
    · cases hdecode
      exact hrows
    · cases hdecode

/-- **Blocks stored one after another are read where their prices are within the limits.** -/
theorem Stored.readsAtPrice (h : Stored zstd schema options.rowIds position blocks)
    (hchained : Chained zstd schema options position blocks)
    (hencoding : validateEncoding schema options.encoding = .ok ()) (hzstd : zstd.RoundTrips)
    (hscan : scan.Of schema options.rowIds)
    (hholds : HoldsAt scan.file offset (blocks.flatMap (·.frame))) :
    List.Forall₂ (fun entry block ↦ scan.ReadsAtPrice zstd options entry block.rows)
      (inventory schema options.rowIds offset position blocks) blocks := by
  induction blocks generalizing position offset with
  | nil => exact .nil
  | cons block blocks ih =>
    obtain ⟨hblock, hrest⟩ := h
    obtain ⟨hwritten, hchain⟩ := hchained
    rw [List.flatMap_cons] at hholds
    have hstored : PublishedBlock.StoredAt zstd schema options.rowIds position
        { block with options } :=
      { hblock with
        rowIds_eq := rfl
        encodes := { hblock.encodes with encoding := hencoding }
        frame := hwritten.frame }
    exact .cons (hstored.readsAtPrice hzstd hscan hholds.left) (ih hrest hchain hholds.right)

end Stored

namespace Writer

variable {zstd : Zstd} {start writer : Writer}

/-- **What a writer commits is read back exactly where its price is within the limits.**  In every
session, and whatever its calls return, each block that it has stored is decoded under the default
limits if and only if the price of its rows under the options of the session is no more than a block
may decode to; and what is decoded are these rows. -/
theorem Opened.readsBack_iff_price (hopened : Opened zstd start)
    {calls : List (Call × Result Unit)} (hruns : Runs zstd (fun _ _ ↦ True) start calls writer)
    (hhealthy : writer.poisoned = false) (hzstd : zstd.RoundTrips) :
    ∃ taken blocks scan walk earlier added,
      List.Forall₂ (fun call rows ↦ call.1.Took call.2 rows) calls taken ∧
        Chained zstd start.schema start.options start.position blocks ∧
        blocks.flatMap (·.rows.rows) ++ writer.buffer.blockRows.rows = taken.flatten ∧
        writer.blocksWritten = blocks.length ∧
        Walked writer scan walk (earlier ++ added) ∧ (∃ scan walk, Walked start scan walk earlier) ∧
        List.Forall₂ (fun entry block ↦ scan.ReadsAtPrice zstd start.options entry block.rows) added
          blocks := by
  have hbegins := hopened.begins
  obtain ⟨taken, blocks, hchronicle, htook⟩ := hopened.chronicle.of_runs hbegins hruns hhealthy
  obtain ⟨scan, walk, earlier, hwalked, hstart, hof, hfile⟩ := hchronicle.walked hopened.live
  have hholds : HoldsAt scan.file start.sink.stored.length (blocks.flatMap (·.frame)) := by
    rw [hfile, hchronicle.recorded.stored]
    exact holdsAt_append_right _ _
  have hwritten := hchronicle.recorded.blocksWritten
  rw [hopened.fresh.2.1, Nat.zero_add] at hwritten
  exact ⟨taken, blocks, scan, walk, earlier, _, htook, hchronicle.recorded.chained, hchronicle.rows,
    hwritten, hwalked, hstart, hchronicle.stored.readsAtPrice hchronicle.recorded.chained
      hbegins.encoding hzstd hof hholds⟩

set_option maxRecDepth 100000 in
/-- The block of a row, which is read. -/
theorem readsBack_iff_price_numberFile :
    ∃ (scan : FileScan) (entry : Entry) (batch : RecordBatch) (rows : BlockRows),
      FileScan.fromFile (numberFile 1) Limits.default = .ok scan ∧
      scan.ReadsInto storingZstd Limits.default entry batch ∧ batch.rows = oneNumber.rows ∧
        rows.rows = oneNumber.rows ∧
          rows.decodePrice storingZstd numberSchema { rowBlockTarget := 1 } ≤
            Limits.default.maxDecodedBlockBytes := by
  let calls : List Call := List.replicate 1 (.append oneNumber)
  obtain ⟨start, hcreate, hhealthy, hwritten⟩ : ∃ start,
      (create storingZstd { contents := none } numberSchema { rowBlockTarget := 1 }).1 = .ok start ∧
        (runCalls storingZstd calls start).2.poisoned = false ∧
          (runCalls storingZstd calls start).2.blocksWritten = 1 :=
    exists_ok_and (by decide +kernel) (by decide +kernel)
  have hstored : numberFile 1 = (runCalls storingZstd calls start).2.sink.stored := by
    rw [numberFile, hcreate]
  obtain ⟨scan, hscan, hschema, seen, hwalk, hreads⟩ : ∃ scan,
      FileScan.fromFile (numberFile 1) Limits.default = .ok scan ∧ scan.schema = numberSchema ∧
        ∃ seen ∈ (scan.walkDataFrames FileScan.record []).toOption, ∀ entry ∈ seen.2,
          ∃ layout ∈ (DataFrame.readLayout scan.file entry.1 scan.schema scan.prologue.featureFlags
              entry.2.baseRowId Limits.default).toOption,
            ∃ batch ∈ (Read.decodeBlock storingZstd scan.file scan.fileSize entry.1 layout
              scan.schema Limits.default).toOption, batch.rows = oneNumber.rows :=
    exists_ok_and (by decide +kernel) (by decide +kernel)
  obtain ⟨_, blocks, _, walk, earlier, added, -, -, -, hcount, hwalked, -, hprices⟩ :=
    Opened.readsBack_iff_price (.created (Prod.ext hcreate rfl)) (Runs.start.runCalls calls)
      hhealthy roundTrips_storingZstd
  obtain rfl : _ = scan := Except.ok.inj (hwalked.opens.symm.trans (hstored ▸ hscan))
  obtain rfl : _ = seen := Except.ok.inj (hwalked.walks.symm.trans (mem_toOption.mp hwalk))
  obtain ⟨block, rfl⟩ := List.length_eq_one_iff.mp (hcount.symm.trans hwritten)
  obtain ⟨entry, hentry, hprice⟩ := Related.exists_left hprices (List.mem_singleton_self block)
  obtain ⟨layout, hlayout, batch, hbatch, hrows⟩ := hreads entry (List.mem_append_right _ hentry)
  have hread : FileScan.ReadsInto storingZstd _ Limits.default entry batch :=
    ⟨layout, mem_toOption.mp hlayout, mem_toOption.mp hbatch⟩
  obtain ⟨_, _, hcreated, -⟩ := create_eq_ok storingZstd (Prod.ext hcreate rfl)
  obtain ⟨_, hstart⟩ := startSession_eq_ok hcreated.starts
  have haffordable := hprice.reads_iff.mp ⟨batch, hread⟩
  rw [hschema, show start.options = { rowBlockTarget := 1 } by rw [hstart]; rfl] at haffordable
  exact ⟨_, entry, batch, block.rows, hscan, hread, hrows,
    (hprice.rows_eq batch hread).symm.trans hrows, haffordable⟩

/-! ### A long value among empty ones -/

def stringColumn : Column := { id := 1, name := "s", logicalType := .binary, nullable := false }

def stringSchema : Schema where
  schemaId := 1
  columns := [stringColumn]
  primaryColumnId := none

/-- Runs, and the default targets. -/
def runOptions : WriterOptions where
  encoding := .fixed .runLength

/-- A value, and thirty-two empty ones. -/
def thenEmpty (value : Bytes) : RecordBatch where
  schema := stringSchema
  columns := [{ type := .binary, values := value :: List.replicate 32 [], validity := none }]
  rowCount := 33
  fits := .cons ⟨rfl, rfl, by rintro _ ⟨⟩⟩ .nil

/-- The block of these rows. -/
def thenEmptyRows (value : Bytes) : BlockRows where
  chunks := [thenEmpty value]
  rowCount := 33

variable {value : Bytes}

theorem validityBits_thenEmptyRows :
    validityBits (thenEmptyRows value) 0 = List.replicate 33 true := rfl

theorem denseValues_thenEmptyRows :
    denseValues stringColumn (thenEmptyRows value) 0 (validityBits (thenEmptyRows value) 0) =
      presentValues .binary (value :: List.replicate 32 []) := rfl

theorem runs_thenEmpty (hne : value ≠ []) :
    Runs.runs (value :: List.replicate 32 []) = [(value, 1), ([], 32)] := by
  have hrest : Runs.runs (List.replicate 32 ([] : Bytes)) = [([], 32)] := by decide
  rw [Runs.runs, hrest]
  exact if_neg hne

/-- The streams that are selected for the values. -/
def thenEmptyStreams (value : Bytes) : List CandidateStream :=
  byteStringStreams (LogicalType.binary.prepared (value :: List.replicate 32 []))
      streamKindRunValues streamKindLengths [value, []] ++
    [packedBeside streamKindRunLengths (bitWidth 32) [1, 32]]

/-- The streams as they are stored. -/
def thenEmptyStored (value : Bytes) : List StoredStream :=
  (thenEmptyStreams value).map fun stream ↦
    { kind := stream.kind, transform := stream.transform, elementCount := stream.elementCount,
      transformedLength := stream.bytes.length, stored := stream.bytes }

theorem selectColumn_thenEmptyRows (hne : value ≠ []) (hlength : value.length ≤ u32Max) :
    selectColumn storingZstd stringColumn (thenEmptyRows value) 0
        (validityBits (thenEmptyRows value) 0) runOptions =
      .ok { layout := columnLayoutRunLength, streams := thenEmptyStored value } := by
  have hwidth : LogicalType.binary.HasWidth := LogicalType.noConfusion
  have hfits : ∀ bytes ∈ value :: List.replicate 32 [],
      LogicalType.binary.FitsKey (LogicalType.binary.storedType.key bytes) := by
    refine List.forall_mem_cons.mpr ⟨hlength, fun bytes hbytes ↦ ?_⟩
    rw [List.eq_of_mem_replicate hbytes]
    exact Nat.zero_le _
  have hfit : BlockDecoder.FitBlock .binary (value :: List.replicate 32 []) :=
    ⟨hwidth, show 33 ≤ defaultMaxRowsPerBlock by decide, hfits⟩
  generalize hprepared : LogicalType.binary.prepared (value :: List.replicate 32 []) = prepared
  have hprepare : prepare .binary (presentValues .binary (value :: List.replicate 32 [])) =
      .ok (prepared, profile prepared) := hprepared ▸ prepare_eq hwidth hfits
  have hruns : Runs.runs prepared.keys = [(value, 1), ([], 32)] := by
    rw [← hprepared, keys_prepared hwidth hfits]
    exact runs_thenEmpty hne
  have hvalid : isValid .runLength .binary prepared (profile prepared) = true := by
    have hcount : (profile prepared).count = 33 := by rw [← hprepared]; rfl
    rw [isValid, hcount, if_neg (by decide)]
    show (true && !((Runs.runs prepared.keys).map Prod.snd).isEmpty) = true
    rw [hruns]
    rfl
  have hencode : encode .binary prepared (profile prepared) .runLength =
      .ok { layout := columnLayoutRunLength, streams := thenEmptyStreams value } := by
    have hstreams := encodeStreams_runLength hfit LogicalType.noConfusion
    rw [← keys_prepared hwidth hfits, hprepared, hruns] at hstreams
    rw [encode, hvalid, failIf_neg (not_not.mpr rfl), ok_bind, hstreams]
    exact hprepared ▸ rfl
  have hbits : ¬(validityBits (thenEmptyRows value) 0).all (!·) = true := by
    rw [validityBits_thenEmptyRows]
    decide
  show fixedColumnCandidate _ _ _ _ _ .runLength .none _ = _
  rw [fixedColumnCandidate, if_neg hbits, if_neg WriterTransform.noConfusion,
    denseValues_thenEmptyRows]
  exact bind_eq_ok.mpr ⟨_, mapError_eq_ok.mpr hprepare,
    bind_eq_ok.mpr ⟨_, mapError_eq_ok.mpr hencode, rfl⟩⟩

/-- The block that the rows are assembled into. -/
def thenEmptyAssembly (value : Bytes) : BlockAssembly where
  streamCount := 3
  payload := (appendStreams (thenEmptyStored value) []).2
  columns := [{ columnId := 1, layout := columnLayoutRunLength, flags := 0, nullCount := 0,
                denseCount := 33, firstStream := 0,
                streams := (appendStreams (thenEmptyStored value) []).1, pendingStreams := [],
                statistics := none }]

theorem assembled_thenEmpty (hne : value ≠ []) (hlength : value.length ≤ u32Max) :
    (sortedColumns stringSchema).foldlM
      (assembleColumn storingZstd stringSchema (thenEmptyRows value) runOptions) {} =
        .ok (thenEmptyAssembly value) := by
  have hsorted : sortedColumns stringSchema = [(stringColumn, 0)] := by decide +kernel
  have hcolumn : assembleColumn storingZstd stringSchema (thenEmptyRows value) runOptions {}
      (stringColumn, 0) = .ok (thenEmptyAssembly value) :=
    bind_eq_ok.mpr ⟨_, bind_eq_ok.mpr ⟨(), rfl, bind_eq_ok.mpr ⟨none, rfl,
      bind_eq_ok.mpr ⟨_, selectColumn_thenEmptyRows hne hlength, rfl⟩⟩⟩, rfl⟩
  rw [hsorted, List.foldlM_cons, hcolumn, ok_bind]
  rfl

/-- What the three streams come to in the payload. -/
theorem length_appendStreams_thenEmpty (hlength : value.length = 33554432) :
    (appendStreams (thenEmptyStored value) []).1.length = 3 ∧
      (thenEmptyAssembly value).payload.length = 33554448 := by
  have hsizes : (thenEmptyStored value).map (·.stored.length) = [33554432, 8, 3] := by
    show [(value ++ ([] ++ [])).length, _, _] = _
    rw [List.append_nil, List.append_nil, hlength]
    rfl
  obtain ⟨hstreams, hpayload⟩ := @length_appendStreams (thenEmptyStored value) [] rfl
  rw [hsizes] at hpayload
  exact ⟨hstreams, hpayload⟩

theorem length_headerTables_thenEmpty (hlength : value.length = 33554432) (baseRowId : ℕ) :
    (headerTables stringSchema (thenEmptyRows value) runOptions baseRowId (thenEmptyAssembly value)
      (0, 0, false)).length = 240 := by
  have hdescriptors := length_flatMap_of_forall fun stream
      (_ : stream ∈ (appendStreams (thenEmptyStored value) []).1) ↦
    length_streamDescriptorBytes runOptions.codec stream
  rw [(length_appendStreams_thenEmpty hlength).1] at hdescriptors
  rw [headerTables, List.length_append, List.length_append, length_blockHeader]
  show 64 + (columnDescriptorBytes _ _ ++ []).length +
    (((appendStreams (thenEmptyStored value) []).1 ++ []).flatMap _).length = 240
  rw [List.append_nil, List.append_nil, hdescriptors, length_columnDescriptorBytes]
  rfl

/-- The frame is built. -/
theorem exists_built_thenEmpty (hlength : value.length = 33554432) (baseRowId sequence : ℕ) :
    ∃ image, Built storingZstd stringSchema (thenEmptyRows value) runOptions baseRowId sequence
      (thenEmptyAssembly value) (0, 0, false) image := by
  have hne : value ≠ [] := List.ne_nil_of_length_pos (by omega)
  have hassembled := assembled_thenEmpty hne (by rw [hlength]; decide)
  obtain ⟨hstreams, hpayload⟩ := length_appendStreams_thenEmpty hlength
  have htables := length_headerTables_thenEmpty hlength baseRowId
  have hstart : statisticsStart stringSchema (thenEmptyAssembly value) = 240 := rfl
  have harea : statisticsArea stringSchema (thenEmptyAssembly value) = [] := rfl
  have hheader : (headerTables stringSchema (thenEmptyRows value) runOptions baseRowId
      (thenEmptyAssembly value) (0, 0, false) ++
        statisticsArea stringSchema (thenEmptyAssembly value)).length = 240 := by
    rw [harea, List.append_nil, htables]
  have hframe := (buildFrame_eq_ok dataFrameType sequence _ _).mpr
    ⟨⟨(congrArg (· % _) hheader).trans (by decide), (congrArg (· % _) hpayload).trans (by decide)⟩,
      hheader.le.trans (by decide), by rw [frameLength, hheader, hpayload]; decide, rfl⟩
  refine ⟨_, show 33 ≤ defaultMaxRowsPerBlock by decide, hassembled, rfl, ?_, ?_, by decide, ?_,
    htables.trans hstart.symm, hframe⟩
  · rw [hstart, harea]
    decide
  · rw [hpayload]
    decide
  · refine List.forall_mem_singleton.mpr ⟨?_, Nat.zero_le _, Nat.zero_le _⟩
    show (appendStreams (thenEmptyStored value) []).1.length < 2 ^ 16
    rw [hstreams]
    decide

/-- Every empty value is charged as a copy of the long one. -/
theorem decodePrice_thenEmpty (hlength : value.length = 33554432) :
    Limits.default.maxDecodedBlockBytes <
      (thenEmptyRows value).decodePrice storingZstd stringSchema runOptions := by
  have hne : value ≠ [] := List.ne_nil_of_length_pos (by omega)
  have hselected := selectColumn_thenEmptyRows hne (by rw [hlength]; decide)
  have hprice : (thenEmptyRows value).decodePrice storingZstd stringSchema runOptions =
      SelectedColumn.decodePrice
        { layout := columnLayoutRunLength, streams := thenEmptyStored value } .none stringColumn
        ((thenEmptyRows value).logical 0) := by
    have hcolumns : stringSchema.columns.zipIdx = [(stringColumn, 0)] := rfl
    have hprimary : primaryIndex stringSchema = none := rfl
    rw [BlockRows.decodePrice, hcolumns, hprimary, List.map_singleton, List.sum_singleton]
    dsimp only
    rw [hselected, Option.isSome_none, if_neg Bool.false_ne_true, Nat.add_zero]
    rfl
  have hexpansion : expansionCost .binary columnLayoutRunLength (value :: List.replicate 32 []) =
      33 * 33554456 := by
    have hempty : ((List.replicate 32 ([] : Bytes)).map List.length).foldl max 33554432 =
        33554432 := by
      decide
    show (32 + 1) * saturatingAdd (((value :: List.replicate 32 []).map List.length).foldl max 0)
      Read.valueHandleBytes = _
    rw [List.map_cons, List.foldl_cons, hlength, Nat.zero_max, hempty]
    rfl
  rw [hprice]
  show 1073741824 <
    _ + expansionCost .binary columnLayoutRunLength (value :: List.replicate 32 []) + _
  rw [hexpansion]
  omega

/-- A new writer of these rows. -/
def stringWriter (sink : Sink) : Writer :=
  fromAppendSession sink stringSchema runOptions (AppendState.new sink.stored.length) (by decide)

theorem size_thenEmpty (sink : Sink) (hlength : value.length = 33554432) :
    ((stringWriter sink).push (thenEmpty value)).buffer.size =
      { headerBytes := 192, payloadBytes := 33554568, frameBytes := 33554840 } := by
  have hsize : ((stringWriter sink).push (thenEmpty value)).buffer.size =
      blockSizeWithStatistics stringSchema [{ denseCount := 33, variableBytes := 0 + value.length }] 33
        .none := rfl
  rw [hsize, hlength]
  decide

/-- The checks made up front have nothing to say against the values. -/
theorem checkBatch_thenEmpty (sink : Sink) (hlength : value.length ≤ u32Max) :
    (stringWriter sink).checkBatch (thenEmpty value) = .ok () := by
  have hscalar (bytes : Bytes) (hbytes : bytes.length ≤ u32Max) :
      validateScalar stringColumn ⟨.binary, bytes⟩ = .ok () :=
    bind_eq_ok.mpr ⟨(), rfl, failIf_neg (Nat.not_lt.mpr hbytes)⟩
  have hvalues : validateValues stringColumn
      { type := .binary, values := value :: List.replicate 32 [], validity := none } 33 =
        .ok () := by
    refine forM_eq_ok.mpr fun row hrow ↦ ?_
    obtain ⟨bytes, hbytes, hat⟩ : ∃ bytes : Bytes, bytes.length ≤ u32Max ∧
        LogicalArray.valueAt
          { type := .binary, values := value :: List.replicate 32 [], validity := none } row =
            some ⟨.binary, bytes⟩ := by
      rcases row with - | row
      · exact ⟨value, hlength, rfl⟩
      · have hempty : (List.replicate 32 ([] : Bytes))[row]? = some [] :=
          List.getElem?_replicate_of_lt (by have := List.mem_range.mp hrow; omega)
        refine ⟨[], Nat.zero_le _, ?_⟩
        show ((List.replicate 32 ([] : Bytes))[row]?).map (ScalarValue.mk .binary) = _
        rw [hempty]
        rfl
    rw [hat]
    exact hscalar bytes hbytes
  refine bind_eq_ok.mpr ⟨(), rfl, bind_eq_ok.mpr ⟨(), rfl, ?_⟩⟩
  exact forM_eq_ok.mpr (List.forall_mem_singleton.mpr
    (bind_eq_ok.mpr ⟨_, rfl, bind_eq_ok.mpr ⟨(), rfl, hvalues⟩⟩))

theorem bounded_thenEmpty (sink : Sink) (hlength : value.length = 33554432) :
    Bounded ((stringWriter sink).push (thenEmpty value)) := by
  have hsize := size_thenEmpty sink hlength
  refine ⟨show 33 ≤ 65536 by decide, ?_, .inl ?_⟩
  · rw [hsize]
    exact show BlockSize.withinFormatLimits _ 33 = true by decide
  · rw [BlockBuffer.frameBytes, hsize]
    exact show 33554840 ≤ 64 * 1024 * 1024 by decide

/-- The rows fit one block. -/
theorem fittingPrefix_thenEmpty (sink : Sink) (hlength : value.length = 33554432) :
    (stringWriter sink).fittingPrefix (thenEmpty value) 0 = .ok 33 := by
  have hcheck : (stringWriter sink).checkBatch (thenEmpty value) = .ok () :=
    checkBatch_thenEmpty sink (by rw [hlength]; decide)
  have hassembled : Assembled (stringWriter sink) := assembled_of_new rfl
  have htakes : (stringWriter sink).Takes (thenEmpty value) 0 33 := by
    refine ⟨le_rfl, fun _ ↦ ?_⟩
    rw [show (thenEmpty value).slice 0 (0 + 33) = thenEmpty value from RecordBatch.slice_whole _]
    exact bounded_thenEmpty sink hlength
  obtain ⟨count, hfit, hgreatest⟩ | ⟨-, -, hnone⟩ :=
    hassembled.fittingPrefix_cases (checked_of_checkBatch hcheck).declares (Nat.zero_le _)
  · have hle : 0 + count ≤ 33 := hgreatest.1.1
    have hge := hgreatest.2 htakes
    rw [hfit, show count = 33 by omega]
  · exact absurd (htakes.of_le rfl (by decide)) hnone

/-- The rows are buffered. -/
theorem append_thenEmpty (sink : Sink) (hlength : value.length = 33554432) :
    append storingZstd (thenEmpty value) (stringWriter sink) =
      (.ok (), (stringWriter sink).push (thenEmpty value)) := by
  have hcheck : (stringWriter sink).checkBatch (thenEmpty value) = .ok () :=
    checkBatch_thenEmpty sink (by rw [hlength]; decide)
  have hopen : ¬((stringWriter sink).push (thenEmpty value)).IsComplete := by
    rw [IsComplete, BlockBuffer.frameBytes, size_thenEmpty sink hlength]
    exact show ¬(65536 ≤ 33 ∨ 64 * 1024 * 1024 ≤ 33554840) by decide
  rw [append_of_healthy storingZstd rfl, hcheck]
  dsimp only
  rw [appendChecked, fittingPrefix_thenEmpty sink hlength]
  dsimp only
  rw [if_pos (show 33 = (thenEmpty value).rowCount from rfl)]
  show publishIfComplete storingZstd ((stringWriter sink).push (thenEmpty value)) = _
  rw [publishIfComplete_eq, if_neg hopen]

/-- The rows are published. -/
theorem exists_publishBuffer_thenEmpty {sink : Sink} (hlength : value.length = 33554432)
    (hgranted : sink.replies sink.calls = .done) (hstored : sink.stored.length ≤ 1000) :
    ∃ next, publishBuffer storingZstd ((stringWriter sink).push (thenEmpty value)) =
        (.ok (), next) ∧ next.sink.replies = sink.replies ∧ next.poisoned = false ∧
          ∃ block, published storingZstd ((stringWriter sink).push (thenEmpty value)) = [block] ∧
            block.rows = thenEmptyRows value := by
  obtain ⟨frame, hbuilt⟩ := exists_built_thenEmpty hlength unavailableBaseRowId 1
  have hframe : ((stringWriter sink).push (thenEmpty value)).bufferedFrame storingZstd = .ok frame :=
    hbuilt.buildDataFrame_eq
  have hsize := size_thenEmpty sink hlength
  have himage := hbuilt.length_image
  have hheader := hbuilt.length_frameHeader
  have hheaderLe := hbuilt.header_le
  have hpayloadLe := hbuilt.payload_le
  simp only [prefixSize, trailerSize, defaultMaxFrameHeaderLength,
    defaultMaxFramePayloadLength] at himage hheaderLe hpayloadLe
  have hadvance : ((stringWriter sink).push (thenEmpty value)).advance frame.length
      ((stringWriter sink).push (thenEmpty value)).buffer.frameBytes 33 =
        some (((stringWriter sink).push (thenEmpty value)).counted frame.length
          ((stringWriter sink).push (thenEmpty value)).buffer.frameBytes 33) := by
    refine advance_iff.mpr ⟨rfl, ?_, ?_, ?_, ?_, ?_, ?_⟩
    · show sink.stored.length + frame.length ≤ u64Max
      simp only [u64Max]
      omega
    · exact show 0 + 1 ≤ u64Max by decide
    · exact show 1 + 1 ≤ u64Max by decide
    · exact fun h ↦ by cases h
    · exact show 0 + 33 ≤ u64Max by decide
    · show 0 + ((stringWriter sink).push (thenEmpty value)).buffer.size.frameBytes ≤ u64Max
      rw [hsize]
      decide
  obtain ⟨next, hpublish, hwrote⟩ := exists_wrote storingZstd rfl hframe hgranted hadvance
  refine ⟨next, hpublish, by rw [hwrote.next_eq]; rfl, by rw [hwrote.next_eq]; rfl, ?_⟩
  rw [published, hframe]
  exact ⟨_, rfl, rfl⟩

/-- **A committed block that no reader decodes under the default limits**: a value of thirty-two
mebibytes and thirty-two empty ones, as runs. -/
theorem longThenEmpty_unread :
    ∃ opened pushed flushed scan walk entries entry,
      (create storingZstd { contents := none } stringSchema runOptions).1 = .ok opened ∧
        append storingZstd (thenEmpty (List.replicate 33554432 0)) opened = (.ok (), pushed) ∧
        flush storingZstd pushed = (.ok (), flushed) ∧ Walked flushed scan walk entries ∧
        entry ∈ entries ∧ ¬∃ batch, scan.ReadsInto storingZstd Limits.default entry batch := by
  obtain ⟨opened, hcreate, hstored⟩ : ∃ opened,
      (create storingZstd { contents := none } stringSchema runOptions).1 = .ok opened ∧
        opened.sink.stored.length ≤ 1000 :=
    exists_ok_and (by decide +kernel) (by decide +kernel)
  have hopened : Opened storingZstd opened := .created (Prod.ext hcreate rfl)
  obtain ⟨schemaFrame, sink, hcreated, -⟩ := create_eq_ok storingZstd (Prod.ext hcreate rfl)
  obtain ⟨hpos, heq⟩ := startSession_eq_ok hcreated.starts
  obtain rfl : opened = stringWriter sink := heq
  have hlength : (List.replicate 33554432 (0 : UInt8)).length = 33554432 := List.length_replicate
  generalize List.replicate 33554432 (0 : UInt8) = value at hlength ⊢
  have hgranted (index : ℕ) : sink.replies index = .done := by
    rw [hcreated.replies]
  obtain ⟨next, hpublish, hreplies, hhealthy, block, hblock, hrows⟩ :=
    exists_publishBuffer_thenEmpty hlength (hgranted _) hstored
  have hrequest : requestSink next =
      (.ok (), { next with sink := { next.sink with calls := next.sink.calls + 1 } }) := by
    have hdone : next.sink.replies next.sink.calls = .done := by rw [hreplies, hgranted]
    rw [requestSink, Sink.request, hdone]
  have hflush : flush storingZstd ((stringWriter sink).push (thenEmpty value)) = _ :=
    (andThen_eq_of_ok (ensureHealthy_eq_ok.mpr ⟨rfl, rfl⟩)).trans
      ((andThen_eq_of_ok hpublish).trans hrequest)
  -- The session stores one block, and it is priced beyond what the default limits allow.
  have hchecked : (thenEmpty value).Checked stringSchema :=
    checked_of_checkBatch (checkBatch_thenEmpty sink (by rw [hlength]; decide))
  have hpushed := hopened.chronicle.push hchecked (fittingPrefix_thenEmpty sink hlength)
    (show 0 < 33 by decide)
  rw [show (thenEmpty value).slice 0 (0 + (32 + 1)) = thenEmpty value from
    RecordBatch.slice_whole _] at hpushed
  have hchronicle := (hpushed.publishBuffer hopened.begins hpublish).quiet
    (quiet_requestSink hrequest hhealthy).2
  rw [List.nil_append, hblock] at hchronicle
  obtain ⟨scan, walk, earlier, hwalked, -, hof, hfile⟩ := hchronicle.walked hopened.live
  have hholds : HoldsAt scan.file (stringWriter sink).sink.stored.length
      ([block].flatMap (·.frame)) := by
    rw [hfile, hchronicle.recorded.stored]
    exact holdsAt_append_right _ _
  have hreads := hchronicle.stored.readsAtPrice hchronicle.recorded.chained hopened.begins.encoding
    roundTrips_storingZstd hof hholds
  obtain ⟨entry, hentry, hread⟩ := Related.exists_left hreads (List.mem_singleton_self block)
  refine ⟨_, _, _, scan, walk, _, entry, hcreate, append_thenEmpty sink hlength, hflush, hwalked,
    List.mem_append_right _ hentry, fun hdecodes ↦ ?_⟩
  have hprice := hread.reads_iff.mp hdecodes
  rw [hrows, hof.schema_eq] at hprice
  exact absurd hprice (Nat.not_le.mpr (decodePrice_thenEmpty hlength))

end Writer

end Acta
