import Acta.Format.Frame
import Acta.Schema
import Mathlib.Data.List.Sort

/-!
# Data frames

Checked parsing of a data frame's header: the fixed block header, the column table and the stream
table.  `parse` reads only the fixed part, which is all that discovery needs; `readLayout` reads the
whole header for a decode, and `readSelectedLayout` does the same while deferring unsupported
transforms and codecs in columns the caller will not decode.
-/

namespace Acta

open Machine Wire

/-- Metadata extracted from the fixed block header. -/
structure DataFrameMetadata where
  rowCount : ℕ
  baseRowId : Option ℕ
  primaryBounds : Option (ℤ × ℤ)
  tsSorted : Bool
  deriving DecidableEq, Repr

/-- A validated logical-column descriptor and its contiguous stream range. -/
structure ColumnBlockDescriptor where
  columnId : UInt32
  layout : ℕ
  flags : ℕ
  nullCount : ℕ
  denseCount : ℕ
  firstStream : ℕ
  streamCount : ℕ
  statsKind : ℕ
  statsOffset : ℕ
  statsLength : ℕ
  deriving DecidableEq, Repr

/-- A validated physical stream descriptor.  Its bytes remain in the file and are read only when a
block is decoded. -/
structure StreamDescriptor where
  kind : ℕ
  transform : ℕ
  codec : ℕ
  payloadOffset : ℕ
  storedLength : ℕ
  transformedLength : ℕ
  elementCount : ℕ
  crc : ℕ
  deriving DecidableEq, Repr

/-- The checked descriptor tables needed to decode one block. -/
structure BlockLayout where
  metadata : DataFrameMetadata
  columns : List ColumnBlockDescriptor
  streams : List StreamDescriptor
  deriving DecidableEq, Repr

/-- The fixed block header, as stored. -/
structure BlockHeaderFields where
  schemaId : ℕ
  baseRowId : ℕ
  rowCount : ℕ
  columnCount : ℕ
  primaryMin : ℤ
  primaryMax : ℤ
  columnTableOffset : ℕ
  streamTableOffset : ℕ
  statisticsOffset : ℕ
  statisticsLength : ℕ
  flags : ℕ

namespace DataFrame

def dataError (error : Error) (sequence : ℕ) (region : ErrorContext) : Error :=
  (error.withContext (.frame sequence)).withContext region

/-- An error in the header of a frame. -/
def headerError (frame : FrameMetadata) (error : Error) : Error :=
  dataError error frame.sequence .header

/-- Place every failure in the header of a frame. -/
def inHeader {α : Type} (frame : FrameMetadata) (result : Result α) : Result α :=
  result.mapError (headerError frame)

/-! ### The fixed block header -/

def checkFrameType (frame : FrameMetadata) : Result Unit :=
  failIf (frame.frameType ≠ dataFrameType)
    ((Error.corruption "expected a data frame" (some frame.frameOffset)).withContext
      (.frame frame.sequence))

open Cursor in
/-- The block header fields in declaration order. -/
def blockHeaderFields : CursorM BlockHeaderFields := do
  let schemaId ← readU64 "data frame schema ID"
  let baseRowId ← readU64 "data frame base row ID"
  let rowCount ← readU32 "data frame row count"
  let columnCount ← readU32 "data frame column count"
  let primaryMin ← readU64 "primary timestamp minimum"
  let primaryMax ← readU64 "primary timestamp maximum"
  let columnTableOffset ← readU32 "column table offset"
  let streamTableOffset ← readU32 "stream table offset"
  let statisticsOffset ← readU32 "statistics area offset"
  let statisticsLength ← readU32 "statistics area length"
  let flags ← readU32 "data block flags"
  skip blockReservedSize "data block reserved field"
  return { schemaId, baseRowId, rowCount, columnCount, primaryMin := ofTwos 64 primaryMin,
           primaryMax := ofTwos 64 primaryMax, columnTableOffset, streamTableOffset,
           statisticsOffset, statisticsLength, flags }

def parseHeader (bytes : Bytes) (offset : ℕ) : Result BlockHeaderFields :=
  blockHeaderFields.run' (Cursor.new bytes offset)

def readHeader (file : Bytes) (frame : FrameMetadata) : Result BlockHeaderFields := do
  let bytes ← inHeader frame (readExactAt file frame.headerOffset dataBlockHeaderSize)
  inHeader frame (parseHeader bytes frame.headerOffset)

/-- Check the block against the one schema every frame shares, and return the schema's column
count. -/
def checkSchemaAgreement (fields : BlockHeaderFields) (schema : Schema) (frame : FrameMetadata) :
    Result ℕ := do
  let offsetOf := fieldOffset frame.headerOffset
  failIf (fields.schemaId ≠ schema.schemaId.toNat)
    (headerError frame (Error.corruption
      s!"data frame schema ID {fields.schemaId} does not match schema {schema.schemaId}"
      (offsetOf blockSchemaIdField)))
  let schemaColumnCount := schema.columns.length
  failIf (fields.columnCount ≠ schemaColumnCount)
    (headerError frame (Error.corruption
      s!"data frame column count {fields.columnCount} does not match schema {schemaColumnCount}"
      (offsetOf blockColumnCountField)))
  failIf (fields.rowCount = 0)
    (headerError frame (Error.corruption "data frame row count must be nonzero"
      (offsetOf blockRowCountField)))
  return schemaColumnCount

def validateLayout (fields : BlockHeaderFields) (headerLength schemaColumnCount : ℕ)
    (frame : FrameMetadata) : Result Unit := do
  let headerOffset := frame.headerOffset
  failIf (fields.columnTableOffset ≠ dataBlockHeaderSize)
    (headerError frame (Error.corruption
      s!"column table offset must be {dataBlockHeaderSize}, found {fields.columnTableOffset}"
      (fieldOffset headerOffset blockColumnTableOffsetField)))
  let descriptorBytes ← okOr (checkedMul schemaColumnCount blockColumnDescriptorSize)
    (headerError frame (Error.corruption "column table length overflow" (some headerOffset)))
  let expectedStreamOffset ← okOr (checkedAdd fields.columnTableOffset descriptorBytes)
    (headerError frame (Error.corruption "stream table offset overflow" (some headerOffset)))
  failIf (fields.streamTableOffset ≠ expectedStreamOffset)
    (headerError frame (Error.corruption
      s!"stream table offset must be {expectedStreamOffset}, found {fields.streamTableOffset}"
      (fieldOffset headerOffset blockStreamTableOffsetField)))
  failIf (fields.statisticsOffset < fields.streamTableOffset)
    (headerError frame (Error.corruption "statistics area begins before the stream table ends"
      (fieldOffset headerOffset blockStatisticsOffsetField)))
  failIf ((fields.statisticsOffset - fields.streamTableOffset) % blockStreamDescriptorSize ≠ 0)
    (headerError frame (Error.corruption "stream table length is not a multiple of 48 bytes"
      (fieldOffset headerOffset blockStatisticsOffsetField)))
  let statisticsEnd ← okOr (checkedAdd fields.statisticsOffset fields.statisticsLength)
    (headerError frame (Error.corruption "statistics area offset overflow" (some headerOffset)))
  failIf (headerLength < statisticsEnd)
    (headerError frame (Error.corruption
      "statistics area extends beyond the padded frame header"
      (fieldOffset headerOffset blockStatisticsLengthField)))

def checkFlags (fields : BlockHeaderFields) (frame : FrameMetadata) : Result Unit :=
  failIf (fields.flags &&& (2 ^ 32 - 1 - (rowIdsBlockFlag ||| tsSortedBlockFlag)) ≠ 0)
    (headerError frame (Error.corruption s!"unknown data block flags 0x{toHex fields.flags}"
      (fieldOffset frame.headerOffset blockFlagsField)))

/-- With row IDs enabled the first block starts at zero and every later base continues the previous
block; with them disabled every base is the unavailable sentinel. -/
def resolveBaseRowId (fields : BlockHeaderFields) (featureFlags : ℕ)
    (expectedBaseRowId : Option ℕ) (frame : FrameMetadata) : Result (Option ℕ) := do
  let offsetOf := fieldOffset frame.headerOffset
  let rowIdsEnabled : Bool := featureFlags &&& rowIdsFeature ≠ 0
  failIf (rowIdsEnabled ≠ decide (fields.flags &&& rowIdsBlockFlag ≠ 0))
    (headerError frame (Error.corruption
      "data block ROW_IDS flag does not match the file feature flags"
      (offsetOf blockFlagsField)))
  if rowIdsEnabled then
    let expected := expectedBaseRowId.getD firstBaseRowId
    failIf (fields.baseRowId ≠ expected)
      (headerError frame (Error.corruption
        s!"data block base row ID {fields.baseRowId} does not match expected {expected}"
        (offsetOf blockBaseRowIdField)))
    return some fields.baseRowId
  else
    failIf (fields.baseRowId ≠ unavailableBaseRowId)
      (headerError frame (Error.corruption
        "data block base row ID must be UINT64_MAX when ROW_IDS is disabled"
        (offsetOf blockBaseRowIdField)))
    return none

/-- Bounds are meaningful only with a primary column.  Without one they must be zero, and the block
must not claim to be sorted. -/
def resolvePrimaryBounds (fields : BlockHeaderFields) (schema : Schema) (tsSorted : Bool)
    (frame : FrameMetadata) : Result (Option (ℤ × ℤ)) := do
  let offsetOf := fieldOffset frame.headerOffset
  if schema.primaryColumnId.isSome then
    failIf (fields.primaryMax < fields.primaryMin)
      (headerError frame (Error.corruption "primary bounds have minimum greater than maximum"
        (offsetOf blockPrimaryMinField)))
    return some (fields.primaryMin, fields.primaryMax)
  else
    failIf (fields.primaryMin ≠ 0 ∨ fields.primaryMax ≠ 0)
      (headerError frame (Error.corruption
        "a schema without a primary column must have zero bounds"
        (offsetOf blockPrimaryMinField)))
    failIf (tsSorted = true)
      (headerError frame (Error.corruption
        "TS_SORTED requires a primary timestamp/date column" (offsetOf blockFlagsField)))
    return none

/-- The checks over a decoded block header, in the order both entry points make them. -/
def checkBlockHeader (fields : BlockHeaderFields) (frame : FrameMetadata) (schema : Schema)
    (featureFlags : ℕ) (expectedBaseRowId : Option ℕ) : Result DataFrameMetadata := do
  let schemaColumnCount ← checkSchemaAgreement fields schema frame
  validateLayout fields frame.headerLength schemaColumnCount frame
  checkFlags fields frame
  let baseRowId ← resolveBaseRowId fields featureFlags expectedBaseRowId frame
  let tsSorted : Bool := fields.flags &&& tsSortedBlockFlag ≠ 0
  let primaryBounds ← resolvePrimaryBounds fields schema tsSorted frame
  return { rowCount := fields.rowCount, baseRowId, primaryBounds, tsSorted }

/-- Parse the fixed block header after generic frame validation has completed. -/
def parse (file : Bytes) (frame : FrameMetadata) (schema : Schema) (featureFlags : ℕ)
    (expectedBaseRowId : Option ℕ) : Result DataFrameMetadata := do
  checkFrameType frame
  let fields ← readHeader file frame
  checkBlockHeader fields frame schema featureFlags expectedBaseRowId

/-! ### The column table -/

open Cursor in
/-- One column descriptor in declaration order. -/
def columnDescriptor : CursorM ColumnBlockDescriptor := do
  let columnId ← readU32 "data column ID"
  let layout ← readU16 "column layout"
  let flags ← readU16 "column flags"
  let nullCount ← readU32 "column null count"
  let denseCount ← readU32 "column dense count"
  let firstStream ← readU32 "column first stream"
  let streamCount ← readU16 "column stream count"
  let statsKind ← readU16 "column statistics kind"
  let statsOffset ← readU32 "column statistics offset"
  let statsLength ← readU32 "column statistics length"
  return { columnId := UInt32.ofNat columnId, layout, flags, nullCount, denseCount, firstStream,
           streamCount, statsKind, statsOffset, statsLength }

/-- Check one column's descriptor against its schema column. -/
def validateColumnDescriptor (descriptor : ColumnBlockDescriptor) (column : Column)
    (rowCount statisticsOffset statisticsLength streamCount : ℕ) (frame : FrameMetadata) :
    Result Unit := do
  let offset := some frame.headerOffset
  let named := fun (message : String) ↦ s!"column {column.name}: {message}"
  failIf (descriptor.flags &&& (2 ^ 16 - 1 - (columnImplicitValidityFlag ||| columnHasStatsFlag))
      ≠ 0)
    (headerError frame (Error.corruption
      (named s!"unknown column flags 0x{toHex descriptor.flags}") offset))
  failIf (columnLayoutRunLength < descriptor.layout)
    (headerError frame (Error.unsupportedFrame
      (named s!"unsupported column layout {descriptor.layout}") offset))
  failIf (rowCount < descriptor.nullCount ∨
      descriptor.denseCount ≠ rowCount - descriptor.nullCount)
    (headerError frame (Error.corruption
      (named "dense count does not equal rows minus nulls") offset))
  failIf (¬column.nullable ∧ descriptor.nullCount ≠ 0)
    (headerError frame (Error.corruption
      (named "a non-nullable column has nulls") offset))
  let streamEnd ← okOr (checkedAdd descriptor.firstStream descriptor.streamCount)
    (headerError frame (Error.corruption (named "stream range overflow") offset))
  failIf (streamCount < streamEnd)
    (headerError frame (Error.corruption
      (named "stream range exceeds the stream table") offset))
  failIf (statsMinMax < descriptor.statsKind)
    (headerError frame (Error.unsupportedFrame
      (named s!"unsupported statistics kind {descriptor.statsKind}") offset))
  let hasStats : Bool := descriptor.flags &&& columnHasStatsFlag ≠ 0
  failIf (hasStats ≠ decide (descriptor.statsKind ≠ statsNone))
    (headerError frame (Error.corruption
      (named "statistics flag and kind disagree") offset))
  failIf (¬hasStats ∧ (descriptor.statsOffset ≠ 0 ∨ descriptor.statsLength ≠ 0))
    (headerError frame (Error.corruption
      (named "a column without statistics must have zero statistics offset and length") offset))
  if hasStats then
    let statsEnd ← okOr (checkedAdd descriptor.statsOffset descriptor.statsLength)
      (headerError frame (Error.corruption (named "statistics range overflow") offset))
    let areaEnd ← okOr (checkedAdd statisticsOffset statisticsLength)
      (headerError frame (Error.corruption (named "statistics area range overflow") offset))
    failIf (descriptor.statsOffset < statisticsOffset ∨ areaEnd < statsEnd)
      (headerError frame (Error.corruption
        (named "statistics lie outside the statistics area") offset))

/-- The schema's columns in the order the column table holds them. -/
def tableColumns (schema : Schema) : List Column :=
  schema.columns.mergeSort fun a b ↦ a.id ≤ b.id

/-- The column table, one descriptor for each schema column in ID order. -/
def parseColumns (header : Bytes) (fields : BlockHeaderFields) (schema : Schema)
    (streamCount : ℕ) (frame : FrameMetadata) (limits : Limits) :
    Result (List ColumnBlockDescriptor) := do
  let columnCount := fields.columnCount
  failIf (limits.maxSchemaColumns < columnCount)
    (headerError frame (Error.resourceLimit
      "data frame column count exceeds the configured limit" none))
  let tableOffset := fields.columnTableOffset
  let tableBytes ← okOr (checkedMul columnCount blockColumnDescriptorSize)
    (headerError frame (Error.corruption "column table length overflow" none))
  let tableEnd ← okOr (checkedAdd tableOffset tableBytes)
    (headerError frame (Error.corruption "column table end overflow" none))
  failIf (header.length < tableEnd)
    (headerError frame (Error.corruption "column table exceeds the frame header" none))
  (tableColumns schema).zipIdx.mapM fun (column, position) ↦ do
    let offset := tableOffset + position * blockColumnDescriptorSize
    let bytes := slice header offset blockColumnDescriptorSize
    let descriptor ← columnDescriptor.run' (Cursor.new bytes (frame.headerOffset + offset))
    failIf (descriptor.columnId ≠ column.id)
      (headerError frame (Error.corruption
        s!"data column descriptor order does not match schema ID {column.id}"
        (fieldOffset (frame.headerOffset + offset) 0)))
    validateColumnDescriptor descriptor column fields.rowCount fields.statisticsOffset
      fields.statisticsLength streamCount frame
    return descriptor

/-! ### The stream table -/

def streamCount (fields : BlockHeaderFields) (frame : FrameMetadata) : Result ℕ := do
  let length ← okOr (checkedSub fields.statisticsOffset fields.streamTableOffset)
    (headerError frame (Error.corruption "statistics area precedes the stream table" none))
  return length / blockStreamDescriptorSize

/-- Which column owns each stream in a block, and which of those columns the caller will decode. -/
structure StreamOwners where
  columns : List ColumnBlockDescriptor
  schema : Schema
  selectedColumnIds : Option (List UInt32)

namespace StreamOwners

/-- The column whose stream range covers `index`. -/
def ownerOf (owners : StreamOwners) (index : ℕ) : Option ColumnBlockDescriptor :=
  owners.columns.find? fun column ↦
    column.firstStream ≤ index ∧ index < column.firstStream + column.streamCount

/-- Name the stream for an error message. -/
def describe (owners : StreamOwners) (index : ℕ) : String :=
  match (owners.ownerOf index).bind fun column ↦ owners.schema.columnById column.columnId with
  | some column => s!"column {column.name}, stream {index}"
  | none => s!"stream {index} (owned by no column)"

/-- Whether this stream belongs to a column the caller will decode.  A stream owned by no column is
treated as selected. -/
def isSelected (owners : StreamOwners) (index : ℕ) : Bool :=
  match owners.selectedColumnIds with
  | none => true
  | some selected =>
    match owners.ownerOf index with
    | some column => column.columnId ∈ selected
    | none => true

end StreamOwners

open Cursor in
/-- One stream descriptor and its flags, in declaration order. -/
def streamDescriptor : CursorM (StreamDescriptor × ℕ) := do
  let kind ← readU16 "stream kind"
  let transform ← readU16 "stream transform"
  let codec ← readU16 "stream compression codec"
  let flags ← readU16 "stream flags"
  let payloadOffset ← readU64 "stream payload offset"
  let storedLength ← readU64 "stream stored length"
  let transformedLength ← readU64 "stream transformed length"
  let elementCount ← readU64 "stream element count"
  let crc ← readU32 "stream CRC32C"
  skip 4 "stream reserved field"
  return ({ kind, transform, codec, payloadOffset, storedLength, transformedLength, elementCount,
            crc }, flags)

def ensureStreamKind (kind : ℕ) (owners : StreamOwners) (index : ℕ) (frame : FrameMetadata) :
    Result Unit :=
  failIf (¬(streamKindValidity ≤ kind ∧ kind ≤ streamKindRunLengths))
    (headerError frame (Error.unsupportedFrame
      s!"{owners.describe index}: unsupported kind {kind}" none))

def ensureTransform (transform : ℕ) (owners : StreamOwners) (index : ℕ) (frame : FrameMetadata) :
    Result Unit :=
  failIf (¬transform ≤ transformBooleanRle)
    (headerError frame (Error.unsupportedFrame
      s!"{owners.describe index}: unsupported transform {transform}" none))

def ensureCodec (codec : ℕ) (owners : StreamOwners) (index : ℕ) (frame : FrameMetadata) :
    Result Unit :=
  failIf (¬(codec = codecNone ∨ codec = codecZstd))
    (headerError frame (Error.unsupportedFrame
      s!"{owners.describe index}: unsupported codec {codec}" none))

/-- A transform or codec this build cannot apply is only a problem for a stream the read will
decode. -/
def ensureDecodable (stream : StreamDescriptor) (owners : StreamOwners) (index : ℕ)
    (frame : FrameMetadata) : Result Unit :=
  if owners.isSelected index then do
    ensureTransform stream.transform owners index frame
    ensureCodec stream.codec owners index frame
  else
    .ok ()

/-- The checks one stream descriptor passes. -/
def validateStream (stream : StreamDescriptor) (flags offset index : ℕ) (owners : StreamOwners)
    (frame : FrameMetadata) (limits : Limits) : Result Unit := do
  let offsetOf := fieldOffset (frame.headerOffset + offset)
  failIf (flags ≠ 0)
    (headerError frame (Error.corruption
      s!"{owners.describe index}: unknown stream flags 0x{toHex flags}" (offsetOf 6)))
  ensureStreamKind stream.kind owners index frame
  ensureDecodable stream owners index frame
  failIf (stream.payloadOffset % frameAlignment ≠ 0)
    (headerError frame (Error.corruption
      s!"{owners.describe index}: payload offset is not eight-byte aligned" (offsetOf 8)))
  failIf (limits.maxFramePayloadLength < stream.storedLength ∨
      limits.maxFramePayloadLength < stream.transformedLength)
    (headerError frame (Error.resourceLimit
      s!"{owners.describe index}: length exceeds the configured payload limit" (offsetOf 16)))
  failIf (stream.codec = codecNone ∧ stream.storedLength ≠ stream.transformedLength)
    (headerError frame (Error.corruption
      s!"{owners.describe index}: unequal uncompressed lengths" (offsetOf 16)))

def parseStreams (header : Bytes) (fields : BlockHeaderFields) (streamCount : ℕ)
    (frame : FrameMetadata) (limits : Limits) (owners : StreamOwners) :
    Result (List StreamDescriptor) := do
  let tableOffset := fields.streamTableOffset
  let tableBytes ← okOr (checkedMul streamCount blockStreamDescriptorSize)
    (headerError frame (Error.corruption "stream table length overflow" none))
  let tableEnd ← okOr (checkedAdd tableOffset tableBytes)
    (headerError frame (Error.corruption "stream table end overflow" none))
  failIf (header.length < tableEnd)
    (headerError frame (Error.corruption "stream table exceeds the frame header" none))
  (List.range streamCount).mapM fun index ↦ do
    let offset := tableOffset + index * blockStreamDescriptorSize
    let bytes := slice header offset blockStreamDescriptorSize
    let (stream, flags) ← streamDescriptor.run' (Cursor.new bytes (frame.headerOffset + offset))
    validateStream stream flags offset index owners frame limits
    return stream

/-- Neighbouring ranges, in payload order, do not overlap. -/
def validateNeighbours (frame : FrameMetadata) : List StreamDescriptor → Result Unit
  | earlier :: later :: rest => do
    let earlierEnd ← okOr (checkedAdd earlier.payloadOffset earlier.storedLength)
      (headerError frame (Error.corruption "stream range overflow" (some frame.headerOffset)))
    failIf (later.payloadOffset < earlierEnd)
      (headerError frame (Error.corruption "stream ranges overlap" (some frame.headerOffset)))
    validateNeighbours frame (later :: rest)
  | _ => .ok ()

/-- Every range lies inside the payload. -/
def validateExtents (frame : FrameMetadata) : List StreamDescriptor → Result Unit
  | [] => .ok ()
  | stream :: rest => do
    let stop ← okOr (checkedAdd stream.payloadOffset stream.storedLength)
      (headerError frame (Error.corruption "stream range overflow" (some frame.headerOffset)))
    failIf (frame.payloadLength < stop)
      (headerError frame (Error.corruption "stream range exceeds the frame payload"
        (some frame.headerOffset)))
    validateExtents frame rest

def validateStreamRanges (streams : List StreamDescriptor) (frame : FrameMetadata) :
    Result Unit := do
  let order := streams.mergeSort fun a b ↦ a.payloadOffset ≤ b.payloadOffset
  validateNeighbours frame order
  validateExtents frame streams

/-! ### The whole header -/

def parseLayout (header : Bytes) (frame : FrameMetadata) (schema : Schema) (featureFlags : ℕ)
    (expectedBaseRowId : Option ℕ) (limits : Limits) (selectedColumnIds : Option (List UInt32)) :
    Result BlockLayout := do
  checkFrameType frame
  failIf (header.length < dataBlockHeaderSize)
    (headerError frame (Error.corruption "data frame header is shorter than 64 bytes" none))
  let fields ← inHeader frame (parseHeader (header.take dataBlockHeaderSize) frame.headerOffset)
  let metadata ← checkBlockHeader fields frame schema featureFlags expectedBaseRowId
  -- Columns come first only so that a rejected stream can name the column that owns it.
  let count ← streamCount fields frame
  let columns ← parseColumns header fields schema count frame limits
  let streams ← parseStreams header fields count frame limits
    { columns, schema, selectedColumnIds }
  validateStreamRanges streams frame
  return { metadata, columns, streams }

def readBlockLayout (file : Bytes) (frame : FrameMetadata) (schema : Schema) (featureFlags : ℕ)
    (expectedBaseRowId : Option ℕ) (limits : Limits) (selectedColumnIds : Option (List UInt32)) :
    Result BlockLayout := do
  let header ← inHeader frame (readExactAt file frame.headerOffset frame.headerLength)
  parseLayout header frame schema featureFlags expectedBaseRowId limits selectedColumnIds

/-- Read and validate the complete data-frame header for a logical decode. -/
def readLayout (file : Bytes) (frame : FrameMetadata) (schema : Schema) (featureFlags : ℕ)
    (expectedBaseRowId : Option ℕ) (limits : Limits) : Result BlockLayout :=
  readBlockLayout file frame schema featureFlags expectedBaseRowId limits none

/-- Read a block layout while deferring unsupported transforms and codecs in columns the caller will
not decode. -/
def readSelectedLayout (file : Bytes) (frame : FrameMetadata) (schema : Schema)
    (featureFlags : ℕ) (expectedBaseRowId : Option ℕ) (limits : Limits)
    (selectedColumnIds : List UInt32) : Result BlockLayout :=
  readBlockLayout file frame schema featureFlags expectedBaseRowId limits (some selectedColumnIds)

end DataFrame

end Acta
