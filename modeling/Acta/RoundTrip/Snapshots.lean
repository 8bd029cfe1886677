import Acta.Read.Agreement
import Acta.Refresh
import Acta.Read.Extent
import Acta.RoundTrip.File

/-!
# Snapshots of a file that was written

A reader sees a part of a file: what there was when it was opened, or when it was last refreshed.
If that is the beginning of a file that holds blocks (`Writer.Holds`), then the reader has the first
of these blocks, and each that it has is read, plainly and by any selection, into the rows that were
stored (`Reader.Knows`, `Attached.knows`).  The files that sessions wrote are such, and they are
opened as long as a reader counts that many rows (`Sessions.exists_open`).
-/

namespace Acta

open Machine Wire Write

/-- What a snapshot keeps of an entry. -/
def blockOf (entry : Entry) : BlockMetadata :=
  Reader.blockMetadata entry.1 entry.2

/-- A walk that collects what blocks carry has it from the entries of the blocks. -/
theorem FileScan.foldlM_collect (before : List DataFrameMetadata) (entries : List Entry) :
    entries.foldlM (fun seen entry ↦ FileScan.collect seen entry.1 entry.2) before =
      .ok (before ++ entries.map (·.2)) := by
  induction entries generalizing before with
  | nil => rw [List.map_nil, List.append_nil]; rfl
  | cons entry entries ih =>
    rw [List.foldlM_cons]
    exact (ih _).trans (by rw [List.append_assoc]; rfl)

namespace Reader

/-- A walk that records the blocks of a snapshot passes the entries of these blocks. -/
theorem exists_reaches_record {scan : FileScan} {limits : Limits} {size : ℕ} {resume : ResumePoint}
    {state : WalkState Discovered}
    (h : (scan.frames (visitBlock limits)).Reaches size (FileScan.startAt resume {}) state) :
    ∃ state', (scan.frames FileScan.record).Reaches size (FileScan.startAt resume []) state' ∧
      state'.forget = state.forget ∧ state.visited.blocks = state'.visited.map blockOf := by
  induction h with
  | refl => exact ⟨_, .refl, rfl, rfl⟩
  | tail hbefore hadvance ih =>
    rename_i before state
    obtain ⟨before', hreach, hsame, hblocks⟩ := ih
    obtain ⟨hinside, hstep⟩ := hadvance
    obtain ⟨frame, block, hsteps⟩ := FileScan.stepFrame_eq_some.mp hstep
    obtain ⟨-, hrecord⟩ := visitBlock_eq_ok hsteps.visit
    obtain ⟨-, hvisited⟩ := recordBlock_eq_ok.mp hrecord
    obtain ⟨offset, sequence, frameCount, expected, scanned, visited⟩ := before
    obtain ⟨offset', sequence', frameCount', expected', scanned', entries⟩ := before'
    cases hsame
    refine ⟨{ state with visited := entries ++ [(frame, block)] },
      hreach.tail ⟨hinside, FileScan.stepFrame_eq_some.mpr
        ⟨frame, block, { hsteps with visit := rfl }⟩⟩, rfl, ?_⟩
    show state.visited.blocks = _
    rw [hvisited, List.map_append]
    exact congrArg (· ++ _) hblocks

/-- What a walk has recorded stays recorded. -/
theorem isPrefix_of_reaches {scan : FileScan} {size : ℕ} {state last : WalkState (List Entry)}
    (h : (scan.frames FileScan.record).Reaches size state last) :
    state.visited <+: last.visited := by
  refine h.invariant (P := fun reached ↦ state.visited <+: reached.visited)
    (fun _ _ hadvance hinitial ↦ ?_) List.prefix_rfl
  obtain ⟨_, _, hsteps⟩ := FileScan.stepFrame_eq_some.mp hadvance.2
  rw [← Except.ok.inj hsteps.visit]
  exact hinitial.trans (List.prefix_append _ _)

section Discovery

variable {past more : Bytes} {limits : Limits} {schema : Schema} {metadata : FileMetadata}
  {blocks : List BlockMetadata} {scan whole : FileScan} {state : WalkState Discovered}
  {final : WalkState (List Entry)} {incompleteTail : Bool}

/-- A walk of a whole file goes on from where a snapshot of its beginning ended. -/
theorem Discovery.exists_run
    (h : Discovery past limits schema metadata blocks scan state incompleteTail)
    (hcomplete : FileScan.Complete FileScan.record [] (past ++ more) limits
      (scan.withFile (past ++ more)) final) :
    ∃ state', ((scan.withFile (past ++ more)).frames FileScan.record).run (past ++ more).length
        state' = .ok (final, false) ∧
      state'.forget = state.forget ∧ blocks = state'.visited.map blockOf := by
  obtain ⟨frame, hopens⟩ := FileScan.fromFile_eq_ok.mp h.fromFile
  have hsize : scan.fileSize = past.length := hopens.isSize
  -- What the snapshot read is there in the whole file.
  have hreach : ((scan.withFile (past ++ more)).frames (visitBlock limits)).Reaches
      (past ++ more).length (FileScan.startAt scan.initialResumePoint {}) state := by
    refine FileScan.reaches_of_agreeOn (hopens.isFile ▸ hsize) h.reaches ?_ ?_
    · rw [hopens.isFile]
      exact agreeOn_append more h.offset_le
    · rw [List.length_append]
      exact h.offset_le.trans (Nat.le_add_right _ _)
  obtain ⟨state', hreach', hforget, hblocks⟩ := exists_reaches_record hreach
  refine ⟨state', ?_, hforget, h.isBlocks.trans hblocks⟩
  rw [← LogScan.run_eq_of_reaches hreach']
  exact LogScan.run_eq_ok.mpr ⟨hcomplete.reaches, hcomplete.isEnd.ge⟩

/-- A walk that goes on from where a snapshot ended finds no more in the file that was seen. -/
theorem Discovery.eq_of_run
    (h : Discovery past limits schema metadata blocks scan state incompleteTail)
    {state' : WalkState (List Entry)} (hforget : state'.forget = state.forget)
    (hrun : ((scan.withFile past).frames FileScan.record).run past.length state' =
      .ok (final, false)) : state' = final := by
  obtain ⟨frame, hopens⟩ := FileScan.fromFile_eq_ok.mp h.fromFile
  have hsize : scan.fileSize = past.length := hopens.isSize
  have hoffset : state'.offset = state.offset := congrArg WalkState.offset hforget
  have hsequence : state'.sequence = state.sequence := congrArg WalkState.sequence hforget
  have hended := h.ended
  split at hended
  · -- The snapshot has an incomplete tail, at which the walk of the whole file stops as well.
    obtain ⟨hinside, hstep⟩ := hended
    have hnone : ((scan.withFile past).frames FileScan.record).step state' = .ok none := by
      refine FileScan.stepFrame_eq_none.mpr ?_
      have hread := FileScan.stepFrame_eq_none.mp hstep
      rw [hopens.isFile, hsize] at hread
      rw [hoffset, hsequence]
      exact hread
    rw [LogScan.run_of_none (by show state'.offset < _; omega) hnone] at hrun
    cases hrun
  · rw [LogScan.run_of_le (by show _ ≤ state'.offset; omega)] at hrun
    cases hrun
    rfl

/-- **A snapshot of the beginning of a file** has the first of the blocks of the file, and all of
them where it has seen the whole file. -/
theorem Discovery.entries
    (h : Discovery past limits schema metadata blocks scan state incompleteTail)
    (hcomplete : FileScan.Complete FileScan.record [] (past ++ more) limits whole final) :
    schema = whole.schema ∧ metadata.featureFlags = whole.prologue.featureFlags ∧
      blocks <+: final.visited.map blockOf ∧
        (more = [] → blocks = final.visited.map blockOf) := by
  obtain rfl : scan.withFile (past ++ more) = whole :=
    Except.ok.inj ((FileScan.fromFile_append h.fromFile more).symm.trans hcomplete.opens)
  obtain ⟨state', hrun, hforget, rfl⟩ := h.exists_run hcomplete
  refine ⟨h.isSchema, by rw [h.isMetadata]; rfl,
    (isPrefix_of_reaches (LogScan.run_eq_ok.mp hrun).1).map blockOf, fun hmore ↦ ?_⟩
  subst hmore
  rw [List.append_nil] at hrun
  rw [h.eq_of_run hforget hrun]

end Discovery

end Reader

/-- Every stored block has a row. -/
theorem Stored.length_le {zstd : Zstd} {schema : Schema} {rowIds : Bool} {position : Position}
    {blocks : List PublishedBlock}
    (h : Stored zstd schema rowIds position blocks) :
    blocks.length ≤ (blocks.flatMap (·.rows.rows)).length ∧
      (blocks.map (·.rows.rowCount)).sum = (blocks.flatMap (·.rows.rows)).length := by
  induction blocks generalizing position with
  | nil => exact ⟨le_rfl, rfl⟩
  | cons block blocks ih =>
    obtain ⟨hblock, hrest⟩ := h
    obtain ⟨hle, hsum⟩ := ih hrest
    have hpos := hblock.rows_pos
    have hlength := hblock.length_rows
    rw [List.flatMap_cons, List.length_append, List.map_cons, List.sum_cons, List.length_cons,
      hsum, hlength]
    exact ⟨by omega, rfl⟩

/-- The entry of a stored block, where the block stands. -/
theorem Stored.exists_storedAt {zstd : Zstd} {schema : Schema} {rowIds : Bool}
    {position : Position} {blocks : List PublishedBlock} {file : Bytes} {offset : ℕ}
    (h : Stored zstd schema rowIds position blocks)
    (hholds : HoldsAt file offset (blocks.flatMap (·.frame))) {index : ℕ} {entry : Entry}
    (hentry : (inventory schema rowIds offset position blocks)[index]? = some entry) :
    ∃ block start reached, blocks[index]? = some block ∧
      block.StoredAt zstd schema rowIds reached ∧ HoldsAt file start block.frame ∧
        entry = (Frame.metadataAt block.frame start, block.metadata schema rowIds reached) := by
  induction blocks generalizing position offset index with
  | nil => cases hentry
  | cons block blocks ih =>
    obtain ⟨hblock, hrest⟩ := h
    rw [List.flatMap_cons] at hholds
    rw [inventory] at hentry
    cases index with
    | zero =>
      exact ⟨block, offset, position, rfl, hblock, hholds.left, (Option.some.inj hentry).symm⟩
    | succ index => exact ih hrest hholds.right hentry

namespace Reader

section Recorded

variable {reader : Reader} {zstd : Zstd} {rowIds : Bool} {position : Position}
  {file whole : Bytes} {index offset : ℕ} {block : PublishedBlock} {known : BlockMetadata}
  {frame : FrameMetadata} {metadata : DataFrameMetadata}

/-- The frame that a snapshot reads is the one that was stored, and the snapshot has seen all of
it. -/
theorem Recorded.standsAt (h : reader.Recorded file index known frame metadata)
    (hknown : reader.blocks[index]? = some known)
    (hstored : block.StoredAt zstd reader.schema rowIds position)
    (hlimits : reader.limits.CoversDefault) (hinitial : file <+: whole)
    (hsize : reader.fileMetadata.fileSize ≤ file.length) (hmax : whole.length ≤ u64Max)
    (hholds : HoldsAt whole offset block.frame)
    (hentry : known = blockOf (Frame.metadataAt block.frame offset,
      block.metadata reader.schema rowIds position)) :
    frame = Frame.metadataAt block.frame offset ∧
      StandsAt file reader.fileMetadata.fileSize offset block.frame := by
  obtain ⟨assembly, hbuilt⟩ := hstored.exists_built
  have hnumbered := hstored.numbered
  have hmeta := metadataAt_of_buildFrame hbuilt.buildFrame_eq (hbuilt.framable hnumbered hlimits)
    offset
  obtain ⟨found, hfound, hread⟩ := frameAt_eq_ok.mp h.frameAt
  obtain rfl : known = found := Option.some.inj (hknown.symm.trans hfound)
  have hoffset : known.fileOffset = offset := by rw [hentry, blockOf, hmeta]; rfl
  have hsequence : known.sequence = position.sequence := by rw [hentry, blockOf, hmeta]; rfl
  rw [hoffset, hsequence] at hread
  -- A complete read of the beginning of a file is one of the whole, and there is only one.
  have hlength := hinitial.length_le
  have hgrown := hread
  rw [← Frame.readFrame_of_isPrefix hinitial hsize] at hgrown
  obtain rfl : frame = Frame.metadataAt block.frame offset :=
    Frame.complete_unique (hsize.trans hlength) le_rfl hgrown
      (hbuilt.readFrame_eq hnumbered hlimits ⟨hholds, hholds.fits, le_rfl, hmax⟩)
  have hinside : offset + block.frame.length ≤ reader.fileMetadata.fileSize := by
    have hfits := (Frame.totalLength_of_complete hread).2.2.2
    rwa [hmeta, ← length_of_buildFrame hbuilt.buildFrame_eq] at hfits
  have hfits := hinside.trans hsize
  refine ⟨rfl, ⟨?_, hfits⟩, hinside, hsize, hsize.trans (hlength.trans hmax)⟩
  rw [← slice_eq_of_isPrefix hinitial hfits]
  exact hholds.slice_eq

/-- **A stored block that a snapshot knows is read**, plainly and by any selection. -/
theorem Recorded.exists_reads (h : reader.Recorded file index known frame metadata)
    (hknown : reader.blocks[index]? = some known)
    (hstored : block.StoredAt zstd reader.schema rowIds position) (hzstd : zstd.RoundTrips)
    (hflags : reader.fileMetadata.featureFlags = featuresOf rowIds)
    (hlimits : reader.limits.CoversDefault) (hinitial : file <+: whole)
    (hsize : reader.fileMetadata.fileSize ≤ file.length) (hmax : whole.length ≤ u64Max)
    (hholds : HoldsAt whole offset block.frame)
    (hentry : known = blockOf (Frame.metadataAt block.frame offset,
      block.metadata reader.schema rowIds position)) :
    ∃ (batch : RecordBatch) (layout : BlockLayout), reader.Reads zstd file index batch known
        metadata (decodedAt reader.schema block.rows) (layout.costAt reader.schema block.rows) ∧
      batch.rows = block.rows.rows := by
  obtain ⟨rfl, hstands⟩ :=
    h.standsAt hknown hstored hlimits hinitial hsize hmax hholds hentry
  obtain ⟨assembly, hbuilt⟩ := hstored.exists_built
  have hnumbered := hstored.numbered
  obtain rfl := hstored.rowIds_eq
  have hbase : CarriesBase block.options.rowIds (reader.expectedBaseRowId index)
      (position.baseRowId block.options.rowIds) := by
    rw [expectedBaseRowId, hknown, hentry]
    cases block.options.rowIds <;> rfl
  have hlayout := hbuilt.readBlockLayout_eq hnumbered hlimits hstored.encodes hstands.holds hbase
    none
  rw [← hflags] at hlayout
  obtain rfl := h.layout hlayout
  have hyields := (hbuilt.decoderOf hnumbered hlimits hzstd hstands).yields hbuilt hstored.encodes
  obtain ⟨batch, hreads⟩ := exists_reads_of_yields h hlayout hyields
  refine ⟨batch, _, hreads, ?_⟩
  obtain ⟨full, rfl, hfull⟩ := hreads.full
  refine rows_of_decodedAt hfull.columns hfull.rowCount hstored.encodes.of hstored.length_rows
    fun index hindex ↦ ?_
  obtain ⟨array, harray, hvalues, hfits⟩ :=
    DecoderOf.fits_decodedAt hbuilt hstored.encodes (List.getElem?_eq_getElem hindex)
  exact ⟨array, harray, hvalues, hfits.len⟩

end Recorded

/-- What a snapshot knows of the blocks that a file holds: it has the first of them, and each that
it has is read, plainly and by any selection, into the rows that were stored. -/
structure Knows (reader : Reader) (zstd : Zstd) (schema : Schema) (blocks : List PublishedBlock)
    (file : Bytes) : Prop where
  schema_eq : reader.schema = schema
  length_le : reader.blocks.length ≤ blocks.length
  reads : ∀ {index : ℕ} {known : BlockMetadata}, reader.blocks[index]? = some known →
    ∃ (block : PublishedBlock) (batch : RecordBatch) (metadata : DataFrameMetadata)
      (layout : BlockLayout), blocks[index]? = some block ∧
        known.rowCount = block.rows.rows.length ∧ batch.rows = block.rows.rows ∧
          reader.Reads zstd file index batch known metadata (decodedAt schema block.rows)
            (layout.costAt schema block.rows)

section Holds

variable {zstd : Zstd} {schema : Schema} {rowIds : Bool} {blocks : List PublishedBlock}
  {file : Bytes} {path : String} {limits : Limits} {system : FileSystem} {reader : Reader}

/-- **A snapshot of the beginning of a file** knows the blocks that it has of the file. -/
theorem Attached.knows (h : Attached path limits system reader)
    (hholds : Writer.Holds zstd schema rowIds blocks file) (hzstd : zstd.RoundTrips)
    (hlimits : limits.CoversDefault) (hinitial : system.contents reader.identity <+: file) :
    reader.Knows zstd schema blocks (system.contents reader.identity) := by
  obtain ⟨past, hpast, hdiscover⟩ := h.follows
  obtain ⟨_, _, _, hdiscovery⟩ := discover_eq_ok.mp hdiscover
  obtain ⟨more, rfl⟩ := hpast.trans hinitial
  obtain rfl := h.isLimits
  obtain ⟨scan, final, hcomplete, hof, -, hvisited, -, hstands⟩ := hholds.walk hlimits
  obtain ⟨hschema, hflags, hfirst, -⟩ := hdiscovery.entries hcomplete
  obtain ⟨schemaFrame, hopens⟩ := FileScan.fromFile_eq_ok.mp hcomplete.opens
  rw [hof.schema_eq] at hschema
  rw [hof.features] at hflags
  rw [hopens.isFile] at hstands
  rw [hvisited] at hfirst
  refine ⟨hschema, ?_, fun {index known} hknown ↦ ?_⟩
  · have hlength := hfirst.length_le
    rwa [List.length_map, length_inventory] at hlength
  obtain ⟨frame, metadata, hrecorded⟩ := h.recorded hknown
  have hseen : ((inventory schema rowIds scan.firstDataFrameOffset Writer.firstPosition
      blocks).map blockOf)[index]? = some known := by
    obtain ⟨others, hothers⟩ := hfirst
    rw [← hothers, List.getElem?_append_left (List.getElem?_eq_some_iff.mp hknown).1, hknown]
  rw [List.getElem?_map] at hseen
  obtain ⟨entry, hentry, hblock⟩ := Option.map_eq_some_iff.mp hseen
  obtain ⟨block, start, position, hpublished, hstored, hframe, rfl⟩ :=
    hholds.stored.exists_storedAt hstands hentry
  subst hschema
  obtain ⟨batch, layout, hreads, hrows⟩ := hrecorded.exists_reads hknown hstored hzstd hflags
    hlimits hinitial h.fileSize_le hholds.length_le hframe hblock.symm
  refine ⟨block, batch, metadata, layout, hpublished, ?_, hrows, hreads⟩
  rw [← hblock, hstored.length_rows]
  rfl

/-- A snapshot says how many rows were stored in each block it knows. -/
theorem Knows.rowCounts (h : reader.Knows zstd schema blocks file) {count : ℕ}
    (hcount : count ≤ reader.blocks.length) :
    (reader.blocks.take count).map (·.rowCount) =
      ((blocks.map (·.rows.rows)).take count).map List.length := by
  refine List.ext_getElem? fun index ↦ ?_
  rw [List.getElem?_map, List.getElem?_map]
  by_cases hindex : index < count
  · obtain ⟨block, -, -, -, hblock, hrows, -, -⟩ :=
      h.reads (List.getElem?_eq_getElem (hindex.trans_le hcount))
    rw [List.getElem?_take_of_lt hindex, List.getElem?_take_of_lt hindex, List.getElem?_map,
      hblock, List.getElem?_eq_getElem (hindex.trans_le hcount)]
    exact congrArg some hrows
  · rw [List.getElem?_eq_none (by rw [List.length_take]; omega),
      List.getElem?_eq_none (by rw [List.length_take]; omega)]
    rfl

/-- The rows of the first blocks that a snapshot knows are the first rows of the file. -/
theorem Knows.rows_take (h : reader.Knows zstd schema blocks file) {count : ℕ}
    (hcount : count ≤ reader.blocks.length) :
    ((blocks.map (·.rows.rows)).take count).flatten =
      (blocks.flatMap (·.rows.rows)).take
        ((reader.blocks.take count).map (·.rowCount)).sum := by
  rw [h.rowCounts hcount, ← List.length_flatten, List.flatMap_def]
  exact List.prefix_iff_eq_take.mp (List.take_prefix _ _).flatten

/-- The rows of the blocks between two that a snapshot knows. -/
theorem Knows.rows_between (h : reader.Knows zstd schema blocks file) {first last : ℕ}
    (hfirst : first ≤ last) (hlast : last ≤ reader.blocks.length) :
    (((blocks.map (·.rows.rows)).take last).drop first).flatten =
      ((blocks.flatMap (·.rows.rows)).take
        ((reader.blocks.take last).map (·.rowCount)).sum).drop
          ((reader.blocks.take first).map (·.rowCount)).sum := by
  have hsplit := List.take_append_drop first ((blocks.map (·.rows.rows)).take last)
  rw [List.take_take, Nat.min_eq_left hfirst] at hsplit
  rw [← h.rows_take hlast, h.rowCounts (hfirst.trans hlast), ← List.length_flatten]
  conv_rhs => rw [← hsplit, List.flatten_append, List.drop_left]

/-- A snapshot counts the rows of its blocks. -/
theorem Attached.totalRows_eq (h : Attached path limits system reader) :
    reader.fileMetadata.totalRows = (reader.blocks.map (·.rowCount)).sum := by
  obtain ⟨past, -, hdiscover⟩ := h.follows
  obtain ⟨_, state, _, hdiscovery⟩ := discover_eq_ok.mp hdiscover
  have hcounted := hdiscovery.counted.rows
  rw [hdiscovery.isBlocks, ← hcounted, hdiscovery.isMetadata]
  rfl

/-- A snapshot of a whole file has all of its blocks. -/
theorem length_blocks_of_open (h : openWithLimits system path limits = .ok reader)
    (hholds : Writer.Holds zstd schema rowIds blocks file) (hlimits : limits.CoversDefault)
    (hfile : system.contents reader.identity = file) : reader.blocks.length = blocks.length := by
  obtain ⟨-, -, rfl, hdiscover⟩ := openWithLimits_eq_ok.mp h
  obtain ⟨_, _, _, hdiscovery⟩ := discover_eq_ok.mp hdiscover
  obtain ⟨scan, final, hcomplete, -, -, hvisited, -⟩ := hholds.walk hlimits
  rw [← hfile, ← List.append_nil (system.contents reader.identity)] at hcomplete
  obtain ⟨-, -, -, hall⟩ := hdiscovery.entries hcomplete
  rw [hall rfl, hvisited, List.length_map, length_inventory]

end Holds

end Reader

namespace Writer

variable {zstd : Zstd} {schema : Schema} {rowIds : Bool} {blocks : List PublishedBlock}
  {rows : List Row} {file : Bytes} {path : String} {limits : Limits} {system : FileSystem}
  {identity : FileIdentity}

/-- A file of no more blocks and rows than a reader counts is opened. -/
theorem Holds.exists_open (h : Holds zstd schema rowIds blocks file)
    (hlimits : limits.CoversDefault) (hblocks : blocks.length ≤ limits.maxBlocks)
    (hrows : (blocks.map (·.rows.rowCount)).sum ≤ u64Max)
    (hpath : system.identityOf path = .ok identity) (hfile : system.contents identity = file) :
    ∃ reader, Reader.openWithLimits system path limits = .ok reader ∧
      reader.identity = identity := by
  obtain ⟨scan, -, -, -, hvisits⟩ := h.visits hlimits
  obtain ⟨state, hcomplete, hvisited, -⟩ := hvisits (FileScan.foldlM_collect [] _)
  obtain ⟨reader, hopen, hidentity, -⟩ := Reader.exists_open_of_complete hcomplete
    (by rwa [hvisited, List.nil_append, List.length_map, length_inventory])
    (by
      rw [hvisited, List.nil_append, List.map_map]
      exact rowCounts_inventory ▸ hrows) hpath hfile
  exact ⟨reader, hopen, hidentity⟩

/-- **A file of no more rows than a reader counts is opened.** -/
theorem Sessions.exists_open (h : Sessions zstd schema rowIds rows file)
    (hlimits : limits.CoversDefault) (hblocks : rows.length ≤ limits.maxBlocks)
    (hrows : rows.length ≤ u64Max)
    (hpath : system.identityOf path = .ok identity) (hfile : system.contents identity = file) :
    ∃ reader, Reader.openWithLimits system path limits = .ok reader ∧
      reader.identity = identity := by
  obtain ⟨blocks, hholds, rfl⟩ := h.holds
  obtain ⟨hle, hsum⟩ := hholds.stored.length_le
  exact hholds.exists_open hlimits (hle.trans hblocks) (hsum.trans_le hrows) hpath hfile

end Writer

end Acta
