import Acta.Format.Scan
import Acta.Read.Decode

/-!
# The reader

Discovery of a stable metadata snapshot, its incremental refresh, and reading a block of it.  A
reader keeps no descriptor: it keeps the identity the path named when it was opened, and every later
operation looks the path up again.

An operation sees one state of the file system.  What the file system holds may be anything else at
the next.
-/

namespace Acta

open Machine Wire

/-- The device and inode of a file. -/
structure FileIdentity where
  device : ℕ
  inode : ℕ
  deriving DecidableEq, Repr

/-- What paths name, and what the files hold. -/
structure FileSystem where
  /-- The file a path names, or why the system cannot say. -/
  identityOf : String → Except String FileIdentity
  contents : FileIdentity → Bytes

/-- Read-only metadata for one complete, committed data block. -/
structure BlockMetadata where
  sequence : ℕ
  fileOffset : ℕ
  totalLength : ℕ
  rowCount : ℕ
  baseRowId : Option ℕ
  primaryBounds : Option (ℤ × ℤ)
  tsSorted : Bool
  deriving DecidableEq, Repr

/-- File-level metadata retained by a snapshot. -/
structure FileMetadata where
  formatVersion : ℕ × ℕ
  featureFlags : ℕ
  fileId : Bytes
  schemaId : UInt64
  fileSize : ℕ
  lastGoodOffset : ℕ
  frameCount : ℕ
  blockCount : ℕ
  totalRows : ℕ
  incompleteTail : Bool
  nextSequence : ℕ
  nextRowId : Option ℕ
  /-- The commit trailer of the last frame this snapshot committed, exactly as stored. -/
  commitAnchor : Bytes
  deriving DecidableEq, Repr

/-- A metadata-first snapshot of a file. -/
structure Reader where
  path : String
  limits : Limits
  schema : Schema
  fileMetadata : FileMetadata
  blocks : List BlockMetadata
  identity : FileIdentity
  deriving DecidableEq

/-- What one refresh added to a snapshot. -/
structure RefreshReport where
  blocksAdded : ℕ
  rowsAdded : ℕ
  previousFileSize : ℕ
  observedFileSize : ℕ
  incompleteTail : Bool
  frameBytesScanned : ℕ
  deriving DecidableEq, Repr

namespace FileIdentity

/-- Capture the identity of the file a path names right now. -/
def capture (system : FileSystem) (path : String) : Result FileIdentity :=
  (system.identityOf path).mapError fun message ↦ (Error.io message none).withContext .file

/-- The one shape a refusal to adopt the file at a path takes. -/
def replaced (path : String) : Error :=
  (Error.fileReplaced
    s!"the file at {path} is not the file this reader opened; it was replaced and refresh refuses to adopt it").withContext
    .file

/-- Refuse the current file at a path if it is not the file this identity was captured from. -/
def expectUnchanged (identity : FileIdentity) (system : FileSystem) (path : String) :
    Result Unit := do
  let current ← capture system path
  failIf (current ≠ identity) (replaced path)

end FileIdentity

/-- Open the file a path names for reading. -/
def FileSystem.openFile (system : FileSystem) (path : String) : Result FileIdentity :=
  (system.identityOf path).mapError fun message ↦ (Error.io message none).withContext .file

namespace Reader

/-! ### Discovery -/

/-- The blocks a walk has recorded, and the rows they hold. -/
structure Discovered where
  blocks : List BlockMetadata := []
  totalRows : ℕ := 0

def fileError (error : Error) : Error := error.withContext .file

def tooManyBlocks (limits : Limits) (offset : Option ℕ) : Error :=
  fileError (Error.resourceLimit s!"data block count exceeds the {limits.maxBlocks}-block limit"
    offset)

def blockMetadata (frame : FrameMetadata) (block : DataFrameMetadata) : BlockMetadata where
  sequence := frame.sequence
  fileOffset := frame.frameOffset
  totalLength := frame.totalLength
  rowCount := block.rowCount
  baseRowId := block.baseRowId
  primaryBounds := block.primaryBounds
  tsSorted := block.tsSorted

/-- Record one more block, whose rows are counted. -/
def recordBlock (discovered : Discovered) (frame : FrameMetadata) (block : DataFrameMetadata) :
    Result Discovered := do
  let totalRows ← okOr (checkedAdd discovered.totalRows block.rowCount)
    (fileError (Error.corruption "total row count overflow" (some frame.frameOffset)))
  return { blocks := discovered.blocks ++ [blockMetadata frame block], totalRows }

/-- What an open records of each data frame. -/
def visitBlock (limits : Limits) : Visit Discovered := fun discovered frame block ↦ do
  failIf (limits.maxBlocks ≤ discovered.blocks.length)
    (tooManyBlocks limits (some frame.frameOffset))
  recordBlock discovered frame block

/-- What a refresh stages of each data frame, after the blocks the snapshot already holds. -/
def stageBlock (limits : Limits) (blockCount : ℕ) : Visit Discovered :=
  fun staged frame block ↦ do
    let totalCount ← okOr (checkedAdd blockCount staged.blocks.length)
      (fileError (Error.corruption "block count overflow" (some frame.frameOffset)))
    failIf (limits.maxBlocks ≤ totalCount) (tooManyBlocks limits (some frame.frameOffset))
    recordBlock staged frame block

/-- The metadata of a snapshot after a walk. -/
def metadataAfter (scan : FileScan) (walk : Walk) (blockCount totalRows : ℕ)
    (commitAnchor : Bytes) : FileMetadata where
  formatVersion := scan.prologue.formatVersion
  featureFlags := scan.prologue.featureFlags
  fileId := scan.prologue.fileId
  schemaId := scan.schema.schemaId
  fileSize := scan.fileSize
  lastGoodOffset := walk.lastGoodOffset
  frameCount := walk.frameCount
  blockCount := blockCount
  totalRows := totalRows
  incompleteTail := walk.incompleteTail
  nextSequence := walk.nextSequence
  nextRowId := walk.nextRowId
  commitAnchor := commitAnchor

/-- Discover the snapshot a byte string holds. -/
def discover (file : Bytes) (limits : Limits) :
    Result (Schema × FileMetadata × List BlockMetadata) := do
  let scan ← FileScan.fromFile file limits
  let (walk, discovered) ← scan.walkDataFrames (visitBlock limits) {}
  let commitAnchor ← Frame.readCommitTrailer scan.file scan.fileSize walk.lastGoodOffset
  return (scan.schema,
    metadataAfter scan walk discovered.blocks.length discovered.totalRows commitAnchor,
    discovered.blocks)

/-- Open a file with explicit limits. -/
def openWithLimits (system : FileSystem) (path : String) (limits : Limits) : Result Reader := do
  let identity ← FileIdentity.capture system path
  let opened ← system.openFile path
  let (schema, fileMetadata, blocks) ← discover (system.contents opened) limits
  return { path, limits, schema, fileMetadata, blocks, identity }

def «open» (system : FileSystem) (path : String) : Result Reader :=
  openWithLimits system path Limits.default

/-! ### Refresh -/

variable (reader : Reader)

/-- The boundary a refresh resumes from, carried forward from the walk that produced the
snapshot. -/
def resumePoint : ResumePoint where
  offset := reader.fileMetadata.lastGoodOffset
  sequence := reader.fileMetadata.nextSequence
  expectedBaseRowId := reader.fileMetadata.nextRowId
  frameCount := reader.fileMetadata.frameCount

/-- Refuse to continue unless the last frame this snapshot committed is still the frame at its
committed boundary. -/
def expectOwnCommittedBytes (file : Bytes) (fileSize : ℕ) : Result Unit := do
  let anchor ← Frame.readCommitTrailer file fileSize reader.fileMetadata.lastGoodOffset
  failIf (anchor ≠ reader.fileMetadata.commitAnchor) (FileIdentity.replaced reader.path)

/-- Refuse to continue unless the prologue and the schema are the ones this snapshot was built
from. -/
def expectOwnFileHeader (scan : FileScan) : Result Unit :=
  failIf (¬(scan.prologue.formatVersion = reader.fileMetadata.formatVersion ∧
      scan.prologue.featureFlags = reader.fileMetadata.featureFlags ∧
        scan.prologue.fileId = reader.fileMetadata.fileId ∧ scan.schema = reader.schema))
    (FileIdentity.replaced reader.path)

/-- The file ends exactly at the committed boundary, so only the extent and the tail state
change. -/
def withoutGrowth (fileSize : ℕ) : RefreshReport × Reader :=
  ({ blocksAdded := 0, rowsAdded := 0, previousFileSize := reader.fileMetadata.fileSize,
     observedFileSize := fileSize, incompleteTail := false, frameBytesScanned := 0 },
   { reader with fileMetadata := { reader.fileMetadata with fileSize, incompleteTail := false } })

/-- Walk what follows the committed boundary, and extend the snapshot in one step. -/
def extend (file : Bytes) : Result (RefreshReport × Reader) := do
  let scan ← FileScan.fromFile file reader.limits
  reader.expectOwnFileHeader scan
  let (walk, staged) ← scan.walkDataFramesFrom reader.resumePoint
    (stageBlock reader.limits reader.fileMetadata.blockCount)
    { totalRows := reader.fileMetadata.totalRows }
  let blocksAdded := staged.blocks.length
  let rowsAdded := staged.totalRows - reader.fileMetadata.totalRows
  let blockCount ← okOr (checkedAdd reader.fileMetadata.blockCount blocksAdded)
    (fileError (Error.corruption "block count overflow" (some walk.lastGoodOffset)))
  let commitAnchor ← Frame.readCommitTrailer scan.file scan.fileSize walk.lastGoodOffset
  return ({ blocksAdded, rowsAdded, previousFileSize := reader.fileMetadata.fileSize,
            observedFileSize := scan.fileSize, incompleteTail := walk.incompleteTail,
            frameBytesScanned := walk.frameBytesScanned },
    { reader with
      blocks := reader.blocks ++ staged.blocks
      fileMetadata := metadataAfter scan walk blockCount staged.totalRows commitAnchor })

/-- The discovery pass of a refresh, and the snapshot it would leave. -/
def refreshed (system : FileSystem) : Result (RefreshReport × Reader) := do
  let boundary := reader.fileMetadata.lastGoodOffset
  reader.identity.expectUnchanged system reader.path
  let opened ← system.openFile reader.path
  let file := system.contents opened
  let observedSize := file.length
  failIf (observedSize < boundary)
    ((Error.fileTruncated
      s!"the file is {observedSize} bytes, below the committed boundary {boundary}"
      (some observedSize)).withContext .file)
  reader.expectOwnCommittedBytes file observedSize
  if observedSize = boundary then
    return reader.withoutGrowth observedSize
  else
    reader.extend file

/-- Extend this snapshot with frames committed since it was opened or last refreshed.  The snapshot
is changed only once everything that can fail has succeeded. -/
def refresh (system : FileSystem) : Result RefreshReport × Reader :=
  match reader.refreshed system with
  | .error e => (.error e, reader)
  | .ok (report, next) => (.ok report, next)

/-! ### Reading a block -/

/-- Read and validate the frame holding the block at `index`. -/
def frameAt (file : Bytes) (index : ℕ) : Result FrameMetadata := do
  let block ← okOr reader.blocks[index]?
    (Error.invalidArgument
      s!"block index {index} is past the {reader.blocks.length} blocks in this snapshot")
  match ← Frame.readFrame file reader.fileMetadata.fileSize block.fileOffset block.sequence
      reader.limits with
  | .complete frame => return frame
  | .incompleteTail =>
    .error ((Error.io "snapshot frame is no longer complete" (some block.fileOffset)).withContext
      .file)

/-- The base row ID the block at `index` must declare. -/
def expectedBaseRowId (index : ℕ) : Option ℕ :=
  reader.blocks[index]?.bind (·.baseRowId)

variable (zstd : Zstd)

/-- Decode one complete data block using an open file. -/
def decodeBlockAt (file : Bytes) (index : ℕ) : Result RecordBatch := do
  let frame ← reader.frameAt file index
  let layout ← DataFrame.readLayout file frame reader.schema reader.fileMetadata.featureFlags
    (reader.expectedBaseRowId index) reader.limits
  Read.decodeBlock zstd file reader.fileMetadata.fileSize frame layout reader.schema reader.limits

/-- Decode one complete data block in schema column order. -/
def readBlock (system : FileSystem) (index : ℕ) : Result RecordBatch := do
  let opened ← system.openFile reader.path
  reader.decodeBlockAt zstd (system.contents opened) index

/-- The column IDs a selection reads. -/
def selectedColumnIds (selection : Selection) : Result (List UInt32) := do
  let columns ← (selection.selected ++ selection.primary.toList).mapM fun position ↦
    okOr reader.schema.columns[position]? (Error.internal "column index is outside the schema")
  return (columns.map Column.id).eraseDups

/-- The layout of a block, as far as a selection needs it. -/
def selectedLayout (file : Bytes) (index : ℕ) (selection : Selection) (frame : FrameMetadata) :
    Result BlockLayout := do
  let selectedColumnIds ← reader.selectedColumnIds selection
  DataFrame.readSelectedLayout file frame reader.schema reader.fileMetadata.featureFlags
    (reader.expectedBaseRowId index) reader.limits selectedColumnIds

/-- Decode a selected set of columns from one complete data block, with a shared cumulative scan
budget. -/
def decodeSelectedBlockAt (file : Bytes) (index : ℕ) (selection : Selection) (scan : ScanBudget) :
    Result DecodedBlock × ScanBudget :=
  match reader.frameAt file index with
  | .error e => (.error e, scan)
  | .ok frame =>
    match (ScanBudget.recordBytesRead frame.totalLength).andThen
        (ScanBudget.recordBytesRead frame.headerLength) scan with
    | (.error e, scan) => (.error e, scan)
    | (.ok (), scan) =>
      match reader.selectedLayout file index selection frame with
      | .error e => (.error e, scan)
      | .ok layout =>
        match Read.decodeSelectedBlock zstd file reader.fileMetadata.fileSize frame layout selection
            (some scan) reader.limits with
        | (decoded, spent) => (decoded, spent.getD scan)

end Reader

end Acta
