import Acta.Format.StreamTable
import Acta.Isolation

/-!
# The blocks of a snapshot

A snapshot remembers what a walk read of each block.  The frame of a block is there to be read
again, and its header says again what the snapshot remembers: whatever part of the header is read,
its metadata is the one that was recorded (`Reader.Recorded`, `Attached.recorded`).
-/

namespace Acta

open Machine Wire

namespace DataFrame

/-- A base row ID that was accepted is accepted again where it is the expected one. -/
theorem resolveBaseRowId_own {fields : BlockHeaderFields} {featureFlags : ℕ}
    {expected base : Option ℕ} {frame : FrameMetadata}
    (h : resolveBaseRowId fields featureFlags expected frame = .ok base) :
    resolveBaseRowId fields featureFlags base frame = .ok base := by
  obtain ⟨_, hflag, h⟩ := bind_eq_ok.mp h
  refine bind_eq_ok.mpr ⟨(), hflag, ?_⟩
  by_cases henabled : decide (featureFlags &&& rowIdsFeature ≠ 0) = true
  · rw [if_pos henabled] at h ⊢
    obtain ⟨_, -, h⟩ := bind_eq_ok.mp h
    cases h
    exact bind_eq_ok.mpr ⟨(), failIf_neg (not_not.mpr rfl), rfl⟩
  · rw [if_neg henabled] at h ⊢
    exact h

/-- A block header that was accepted is accepted again under the base row ID it carries. -/
theorem checkBlockHeader_own {fields : BlockHeaderFields} {frame : FrameMetadata} {schema : Schema}
    {featureFlags : ℕ} {expected : Option ℕ} {metadata : DataFrameMetadata}
    (h : checkBlockHeader fields frame schema featureFlags expected = .ok metadata) :
    checkBlockHeader fields frame schema featureFlags metadata.baseRowId = .ok metadata := by
  obtain ⟨count, hagreement, h⟩ := bind_eq_ok.mp h
  obtain ⟨_, hlayout, h⟩ := bind_eq_ok.mp h
  obtain ⟨_, hflags, h⟩ := bind_eq_ok.mp h
  obtain ⟨base, hbase, h⟩ := bind_eq_ok.mp h
  obtain ⟨bounds, hbounds, h⟩ := bind_eq_ok.mp h
  cases h
  refine bind_eq_ok.mpr ⟨count, hagreement, bind_eq_ok.mpr ⟨(), hlayout,
    bind_eq_ok.mpr ⟨(), hflags, bind_eq_ok.mpr ⟨base, resolveBaseRowId_own hbase,
      bind_eq_ok.mpr ⟨bounds, hbounds, rfl⟩⟩⟩⟩⟩

/-- The metadata of a block has a row, and bounds exactly where there is a primary column. -/
theorem primaryBounds_of_checkBlockHeader {fields : BlockHeaderFields} {frame : FrameMetadata}
    {schema : Schema} {featureFlags : ℕ} {expected : Option ℕ} {metadata : DataFrameMetadata}
    (h : checkBlockHeader fields frame schema featureFlags expected = .ok metadata) :
    metadata.rowCount ≠ 0 ∧
      metadata.primaryBounds.isSome = schema.primaryColumnId.isSome := by
  obtain ⟨count, hagreement, h⟩ := bind_eq_ok.mp h
  obtain ⟨_, -, h⟩ := bind_eq_ok.mp h
  obtain ⟨_, -, h⟩ := bind_eq_ok.mp h
  obtain ⟨base, -, h⟩ := bind_eq_ok.mp h
  obtain ⟨bounds, hbounds, h⟩ := bind_eq_ok.mp h
  cases h
  obtain ⟨_, -, hagreement⟩ := bind_eq_ok.mp hagreement
  obtain ⟨_, -, hagreement⟩ := bind_eq_ok.mp hagreement
  obtain ⟨_, hrows, -⟩ := bind_eq_ok.mp hagreement
  refine ⟨failIf_eq_ok.mp hrows, ?_⟩
  rw [resolvePrimaryBounds] at hbounds
  split at hbounds
  · rename_i hprimary
    obtain ⟨_, -, hbounds⟩ := bind_eq_ok.mp hbounds
    cases hbounds
    exact hprimary.symm
  · rename_i hprimary
    obtain ⟨_, -, hbounds⟩ := bind_eq_ok.mp hbounds
    obtain ⟨_, -, hbounds⟩ := bind_eq_ok.mp hbounds
    cases hbounds
    exact (Bool.not_eq_true _ ▸ hprimary).symm

theorem inHeader_eq_ok {α : Type} {frame : FrameMetadata} {result : Result α} {a : α} :
    inHeader frame result = .ok a ↔ result = .ok a := by
  rw [inHeader, mapError_eq_ok]

theorem readExactAt_eq_ok {file bytes : Bytes} {offset length : ℕ}
    (h : readExactAt file offset length = .ok bytes) : bytes = slice file offset length := by
  rw [readExactAt] at h
  split at h
  · exact (Except.ok.inj h).symm
  · cases h

/-- **The whole header says of a block what its fixed part says.** -/
theorem metadata_of_readBlockLayout {file : Bytes} {frame : FrameMetadata} {schema : Schema}
    {featureFlags : ℕ} {expected : Option ℕ} {metadata : DataFrameMetadata} {limits : Limits}
    {selected : Option (List UInt32)} {layout : BlockLayout}
    (h : parse file frame schema featureFlags expected = .ok metadata)
    (hlayout : readBlockLayout file frame schema featureFlags metadata.baseRowId limits selected =
      .ok layout) : layout.metadata = metadata := by
  obtain ⟨_, -, h⟩ := bind_eq_ok.mp h
  obtain ⟨fields, hfields, h⟩ := bind_eq_ok.mp h
  obtain ⟨bytes, hbytes, hfields⟩ := bind_eq_ok.mp hfields
  obtain ⟨header, hheader, hlayout⟩ := bind_eq_ok.mp hlayout
  obtain ⟨fields', count, hcolumns, -, -⟩ := parseLayout_eq_ok.mp hlayout
  obtain rfl := readExactAt_eq_ok (inHeader_eq_ok.mp hbytes)
  obtain rfl := readExactAt_eq_ok (inHeader_eq_ok.mp hheader)
  have hlength : dataBlockHeaderSize ≤ frame.headerLength := by
    have hsize := hcolumns.size
    rw [length_slice] at hsize
    omega
  have hfixed := hcolumns.fixed
  rw [take_slice _ hlength, hfields] at hfixed
  cases hfixed
  exact Except.ok.inj (hcolumns.block.symm.trans (checkBlockHeader_own h))

end DataFrame

namespace Reader

/-- What a snapshot knows of one of its blocks: the frame is read again where the block was found,
and its metadata is what the snapshot recorded, whatever part of its header is read. -/
structure Recorded (reader : Reader) (file : Bytes) (index : ℕ) (block : BlockMetadata)
    (frame : FrameMetadata) (metadata : DataFrameMetadata) : Prop where
  isBlock : block = blockMetadata frame metadata
  frameAt : reader.frameAt file index = .ok frame
  layout : ∀ {selected : Option (List UInt32)} {layout : BlockLayout},
    DataFrame.readBlockLayout file frame reader.schema reader.fileMetadata.featureFlags
        (reader.expectedBaseRowId index) reader.limits selected = .ok layout →
      layout.metadata = metadata
  rowCount_ne : metadata.rowCount ≠ 0
  bounds : metadata.primaryBounds.isSome = reader.schema.primaryColumnId.isSome

/-- A block as the walk over a file read it. -/
def Found (scan : FileScan) (block : BlockMetadata) : Prop :=
  ∃ frame metadata expected, block = blockMetadata frame metadata ∧
    Frame.readFrame scan.file scan.fileSize block.fileOffset block.sequence scan.limits =
        .ok (.complete frame) ∧
      DataFrame.parse scan.file frame scan.schema scan.prologue.featureFlags expected =
        .ok metadata

/-- One more frame is one more block found. -/
theorem found_step {scan : FileScan} {limits : Limits} {state next : WalkState Discovered}
    (h : ∀ block ∈ state.visited.blocks, Found scan block)
    (hstep : scan.stepFrame (visitBlock limits) state = .ok (some next)) :
    ∀ block ∈ next.visited.blocks, Found scan block := by
  obtain ⟨frame, metadata, hsteps⟩ := FileScan.stepFrame_eq_some.mp hstep
  obtain ⟨-, hrecord⟩ := visitBlock_eq_ok hsteps.visit
  obtain ⟨-, hnext⟩ := recordBlock_eq_ok.mp hrecord
  rw [hnext]
  intro block hblock
  rcases List.mem_append.mp hblock with hblock | hblock
  · exact h block hblock
  · obtain rfl := List.mem_singleton.mp hblock
    obtain ⟨hoffset, hsequence, -, -⟩ := Frame.totalLength_of_complete hsteps.read
    refine ⟨frame, metadata, state.expectedBaseRowId, rfl, ?_, hsteps.parse⟩
    show Frame.readFrame scan.file scan.fileSize frame.frameOffset frame.sequence scan.limits = _
    rw [hoffset, hsequence, hsteps.read]

/-- **The blocks of a discovered snapshot** are found in the bytes it was discovered in. -/
theorem Discovery.found {past : Bytes} {limits : Limits} {schema : Schema}
    {metadata : FileMetadata} {blocks : List BlockMetadata} {scan : FileScan}
    {state : WalkState Discovered} {incompleteTail : Bool}
    (h : Discovery past limits schema metadata blocks scan state incompleteTail) :
    ∀ block ∈ blocks, Found scan block := by
  rw [h.isBlocks]
  exact h.reaches.invariant (P := fun state ↦ ∀ block ∈ state.visited.blocks, Found scan block)
    (fun _ _ hadv hfound ↦ found_step hfound hadv.2) (fun _ hblock ↦ absurd hblock List.not_mem_nil)

/-- The frame of a block is the complete one where the snapshot found it. -/
theorem frameAt_eq_ok {reader : Reader} {file : Bytes} {index : ℕ} {frame : FrameMetadata} :
    reader.frameAt file index = .ok frame ↔ ∃ block, reader.blocks[index]? = some block ∧
      Frame.readFrame file reader.fileMetadata.fileSize block.fileOffset block.sequence
        reader.limits = .ok (.complete frame) := by
  rw [frameAt, bind_eq_ok]
  refine exists_congr fun block ↦ and_congr okOr_eq_ok ?_
  rw [bind_eq_ok]
  constructor
  · rintro ⟨read, hread, h⟩
    cases read with
    | incompleteTail => cases h
    | complete found =>
      cases h
      exact hread
  · exact fun hread ↦ ⟨.complete frame, hread, rfl⟩

/-- What a snapshot knows of its blocks, in the bytes it was discovered in. -/
theorem exists_recorded {reader : Reader} {past : Bytes} {scan : FileScan}
    {state : WalkState Discovered} {incompleteTail : Bool}
    (h : Discovery past reader.limits reader.schema reader.fileMetadata reader.blocks scan state
      incompleteTail) {index : ℕ} {block : BlockMetadata}
    (hblock : reader.blocks[index]? = some block) :
    ∃ frame metadata, reader.Recorded past index block frame metadata := by
  obtain ⟨frame, metadata, expected, hmeta, hread, hparse⟩ :=
    h.found block (List.mem_of_getElem? hblock)
  obtain ⟨schemaFrame, hopens⟩ := FileScan.fromFile_eq_ok.mp h.fromFile
  have hflags : reader.fileMetadata.featureFlags = scan.prologue.featureFlags := by
    rw [h.isMetadata]
    rfl
  have hsize : reader.fileMetadata.fileSize = scan.fileSize := by
    rw [h.isMetadata]
    rfl
  have hframe : reader.frameAt past index = .ok frame := by
    rw [hopens.isFile, hopens.isLimits, ← hsize] at hread
    exact frameAt_eq_ok.mpr ⟨block, hblock, hread⟩
  have hbase : reader.expectedBaseRowId index = metadata.baseRowId := by
    rw [Reader.expectedBaseRowId, hblock, hmeta]
    rfl
  rw [hopens.isFile, ← h.isSchema, ← hflags] at hparse
  have hchecked := hparse
  obtain ⟨_, -, hchecked⟩ := bind_eq_ok.mp hchecked
  obtain ⟨fields, -, hchecked⟩ := bind_eq_ok.mp hchecked
  obtain ⟨hrows, hbounds⟩ := DataFrame.primaryBounds_of_checkBlockHeader hchecked
  refine ⟨frame, metadata, hmeta, hframe, fun hlayout ↦ ?_, hrows, hbounds⟩
  rw [hbase] at hlayout
  exact DataFrame.metadata_of_readBlockLayout hparse hlayout

/-- **What an attached reader knows of its blocks**, in the file as it is now. -/
theorem Attached.recorded {path : String} {limits : Limits} {system : FileSystem} {reader : Reader}
    (h : Attached path limits system reader) {index : ℕ} {block : BlockMetadata}
    (hblock : reader.blocks[index]? = some block) :
    ∃ frame metadata, reader.Recorded (system.contents reader.identity) index block frame
      metadata := by
  obtain ⟨past, hpast, hdiscover⟩ := h.follows
  obtain ⟨scan, state, incompleteTail, hdiscovery⟩ := discover_eq_ok.mp hdiscover
  obtain ⟨schemaFrame, hopens⟩ := FileScan.fromFile_eq_ok.mp hdiscovery.fromFile
  have hsize : reader.fileMetadata.fileSize = past.length := by
    rw [hdiscovery.isMetadata]
    exact hopens.isSize
  obtain ⟨frame, metadata, hrecorded⟩ := exists_recorded hdiscovery hblock
  refine ⟨frame, metadata, hrecorded.isBlock, ?_, fun {selected layout} hlayout ↦ ?_,
    hrecorded.rowCount_ne, hrecorded.bounds⟩
  · rw [frameAt_of_isPrefix hpast hsize.le, hrecorded.frameAt]
  · rw [readBlockLayout_of_isPrefix hpast hsize.le hrecorded.frameAt] at hlayout
    exact hrecorded.layout hlayout

end Reader

end Acta
