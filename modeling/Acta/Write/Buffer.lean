import Acta.Lib.Bits
import Acta.Lib.Checked
import Acta.Lib.Utf8
import Acta.Limits
import Acta.RecordBatch
import Acta.Write.Api

/-!
# The block buffer

The rows accepted for the next block, held as the batches they arrived in, with what each column
costs in a raw block.  The footprints price the block as it grows, so a block can be bounded without
being serialized.
-/

namespace Acta

open Machine Wire

/-- What one column's rows cost in a raw block. -/
structure ColumnFootprint where
  denseCount : ℕ := 0
  nullCount : ℕ := 0
  variableBytes : ℕ := 0
  deriving DecidableEq, Repr

/-- The raw serialized geometry of one block. -/
structure BlockSize where
  headerBytes : ℕ := 0
  payloadBytes : ℕ := 0
  frameBytes : ℕ := 0
  deriving DecidableEq, Repr

/-- One block's rows, in file order across the batches they were appended in. -/
structure BlockRows where
  chunks : List RecordBatch
  rowCount : ℕ

/-- One column's rows, in file order, each as the array holding it. -/
def BlockRows.column (rows : BlockRows) (index : ℕ) : List (LogicalArray × ℕ) :=
  (rows.chunks.filterMap (·.column index)).flatMap fun array ↦
    (List.range array.len).map fun row ↦ (array, row)

namespace Write

/-- The bytes one variable-width value contributes to its lengths stream. -/
def lengthEntryBytes : ℕ := 4

/-- The stored bytes of a variable-width value.  Fixed-width types are priced from their row
count. -/
def variableByteLength : ScalarValue → ℕ
  | ⟨.utf8, text⟩ => (utf8Bytes text).length
  | ⟨.categorical, text⟩ => (utf8Bytes text).length
  | ⟨.binary, bytes⟩ => bytes.length
  | _ => 0

/-- Round up to the frame alignment, stopping at the largest multiple. -/
def alignUp (length : ℕ) : ℕ :=
  saturatingAdd length (frameAlignment - 1) / frameAlignment * frameAlignment

/-- The payload bytes one stream occupies, including its alignment padding.  An empty stream is
given a whole alignment unit. -/
def streamPayloadBytes (length : ℕ) : ℕ :=
  if length = 0 then frameAlignment else alignUp length

/-- Whether a logical type stores its values alongside a lengths stream. -/
def isVariableWidth : LogicalType → Bool
  | .utf8 | .categorical _ | .binary => true
  | _ => false

/-- The canonical statistic widths, with zero standing for the types that carry no statistic. -/
def statisticsWidth : LogicalType → ℕ
  | .bool => 1
  | .integer type => type.width
  | .float32 | .date32 => 4
  | .float64 | .decimal _ _ | .timestamp _ _ => 8
  | .fixedBinary byteWidth => byteWidth.toNat
  | .utf8 | .categorical _ | .binary => 0

end Write

namespace ColumnFootprint

/-- Add one row, which is either null or contributes a stored value. -/
def addRow (footprint : ColumnFootprint) (array : LogicalArray) (row : ℕ) : ColumnFootprint :=
  match array.valueAt row with
  | none => { footprint with nullCount := footprint.nullCount + 1 }
  | some value =>
    { footprint with
      denseCount := footprint.denseCount + 1
      variableBytes := footprint.variableBytes + Write.variableByteLength value }

/-- Whether this column's validity needs no stream of its own. -/
def hasImplicitValidity (footprint : ColumnFootprint) : Bool :=
  footprint.nullCount = 0 ∨ footprint.denseCount = 0

end ColumnFootprint

namespace Write

/-- The raw bytes a column's values stream holds for its dense rows. -/
def valuesBytes (logicalType : LogicalType) (footprint : ColumnFootprint) : ℕ :=
  match logicalType with
  | .bool => bitmapBytes footprint.denseCount
  | .utf8 | .categorical _ | .binary => footprint.variableBytes
  | .integer type => saturatingMul type.width footprint.denseCount
  | .float32 | .date32 => saturatingMul 4 footprint.denseCount
  | .float64 | .decimal _ _ | .timestamp _ _ => saturatingMul 8 footprint.denseCount
  | .fixedBinary byteWidth => saturatingMul byteWidth.toNat footprint.denseCount

/-- The payload bytes and stream count of a column's validity. -/
def validitySize (footprint : ColumnFootprint) (rows : ℕ) : ℕ × ℕ :=
  if footprint.hasImplicitValidity then (0, 0) else (streamPayloadBytes (bitmapBytes rows), 1)

/-- The payload bytes and stream count of a column's values. -/
def valuesSize (column : Column) (footprint : ColumnFootprint) : ℕ × ℕ :=
  if footprint.denseCount = 0 then
    (0, 0)
  else
    let values := streamPayloadBytes (valuesBytes column.logicalType footprint)
    if isVariableWidth column.logicalType then
      let lengths := saturatingMul lengthEntryBytes footprint.denseCount
      (saturatingAdd values (streamPayloadBytes lengths), 2)
    else
      (values, 1)

/-- The payload bytes and stream count one column contributes to a raw block. -/
def columnSize (column : Column) (footprint : ColumnFootprint) (rows : ℕ) : ℕ × ℕ :=
  let validity := validitySize footprint rows
  let values := valuesSize column footprint
  (saturatingAdd validity.1 values.1, validity.2 + values.2)

/-- Whether the header has to leave room for a column's statistics. -/
def shouldReserveStatistics (schema : Schema) (column : Column) (footprint : ColumnFootprint)
    (statistics : WriterStatistics) : Bool :=
  let width := statisticsWidth column.logicalType
  if footprint.denseCount = 0 ∨ width = 0 then
    false
  else
    match statistics with
    | .minMax => true
    | .none => false
    | .automatic =>
      if schema.primaryColumnId = some column.id ∨ footprint.denseCount < 64 then
        false
      else
        let valueBytes :=
          if column.logicalType = .bool then bitmapBytes footprint.denseCount
          else saturatingMul width footprint.denseCount
        saturatingMul (saturatingMul width 2) 8 ≤ valueBytes

/-- The header bytes the statistics of one column may take. -/
def statisticsReserve (schema : Schema) (statistics : WriterStatistics) (column : Column)
    (footprint : ColumnFootprint) : ℕ :=
  if shouldReserveStatistics schema column footprint statistics then
    saturatingMul (statisticsWidth column.logicalType) 2
  else 0

/-- Price the raw frame while reserving the header statistics the policy may select. -/
def blockSizeWithStatistics (schema : Schema) (footprints : List ColumnFootprint) (rows : ℕ)
    (statistics : WriterStatistics) : BlockSize :=
  let pairs := schema.columns.zip footprints
  let payloadBytes := pairs.foldl (fun total (column, footprint) ↦
    saturatingAdd total (columnSize column footprint rows).1) 0
  let streamCount := pairs.foldl (fun total (column, footprint) ↦
    saturatingAdd total (columnSize column footprint rows).2) 0
  let reserved := pairs.foldl (fun total (column, footprint) ↦
    saturatingAdd total (statisticsReserve schema statistics column footprint)) 0
  let statisticsBytes := if reserved ≠ 0 then alignUp reserved else 0
  let tables := saturatingAdd dataBlockHeaderSize
    (saturatingMul schema.columns.length blockColumnDescriptorSize)
  let streams := saturatingAdd tables (saturatingMul streamCount blockStreamDescriptorSize)
  let headerBytes := saturatingAdd streams statisticsBytes
  let frameBytes := saturatingAdd
    (saturatingAdd (saturatingAdd prefixSize headerBytes) payloadBytes)
    trailerSize
  { headerBytes, payloadBytes, frameBytes }

end Write

/-- Whether a block this large can be written at all. -/
def BlockSize.withinFormatLimits (size : BlockSize) (rows : ℕ) : Bool :=
  rows ≤ Limits.default.maxRowsPerBlock ∧ rows ≤ u32Max ∧
    size.headerBytes ≤ Limits.default.maxFrameHeaderLength ∧
      size.payloadBytes ≤ Limits.default.maxFramePayloadLength

/-- The rows accepted for the next block. -/
structure BlockBuffer where
  chunks : List RecordBatch
  rows : ℕ
  footprints : List ColumnFootprint
  size : BlockSize
  statistics : WriterStatistics

namespace BlockBuffer

def newWithStatistics (columnCount : ℕ) (statistics : WriterStatistics) : BlockBuffer where
  chunks := []
  rows := 0
  footprints := List.replicate columnCount {}
  size := {}
  statistics := statistics

def isEmpty (buffer : BlockBuffer) : Bool := buffer.rows = 0

/-- The raw frame length these rows would serialize to. -/
def frameBytes (buffer : BlockBuffer) : ℕ := buffer.size.frameBytes

/-- The buffered rows in file order, as one block's worth of columns. -/
def blockRows (buffer : BlockBuffer) : BlockRows where
  chunks := buffer.chunks
  rowCount := buffer.rows

/-- Price every row of an array. -/
def addRows (footprint : ColumnFootprint) (array : LogicalArray) (rowCount : ℕ) :
    ColumnFootprint :=
  (List.range rowCount).foldl (fun footprint row ↦ footprint.addRow array row) footprint

/-- Accept a batch whose rows the assembler has already priced. -/
def push (buffer : BlockBuffer) (schema : Schema) (chunk : RecordBatch) : BlockBuffer :=
  let footprints := buffer.footprints.zipWith (addRows · · chunk.rowCount) chunk.columns
  let rows := buffer.rows + chunk.rowCount
  { buffer with
    chunks := buffer.chunks ++ [chunk]
    rows
    footprints
    size := Write.blockSizeWithStatistics schema footprints rows buffer.statistics }

/-- Drop every buffered row, which the caller has just published. -/
def clear (buffer : BlockBuffer) : BlockBuffer :=
  { buffer with
    chunks := []
    rows := 0
    footprints := buffer.footprints.map fun _ ↦ {}
    size := {} }

end BlockBuffer

end Acta
