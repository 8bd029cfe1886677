import Acta.Codec.Compression
import Acta.Codec.Transform
import Acta.Format.DataFrame
import Acta.Read.Statistics
import Acta.Read.Values
import Acta.RecordBatch

/-!
# Decoding a block

The checked descriptor tables of a data frame become schema-order arrays, spending one shared
allowance.  A decode may select columns; the primary column is decoded whenever the block's bounds
have to be confirmed, whether or not it was selected.
-/

namespace Acta

open Machine Wire

/-- The columns one block decode materializes, and the schema its batch carries. -/
structure Selection where
  sourceSchema : Schema
  outputSchema : Schema
  selected : List ℕ
  primary : Option ℕ

/-- The schema position of the primary column, if the schema designates one. -/
def primaryIndex (schema : Schema) : Option ℕ :=
  schema.primaryColumnId.bind fun id ↦ schema.columns.findIdx? (·.id = id)

/-- Every column in schema order, which is what a full block decode reads. -/
def Selection.all (schema : Schema) (selected : List ℕ) : Selection where
  sourceSchema := schema
  outputSchema := schema
  selected := selected
  primary := primaryIndex schema

/-- The result of a decode. -/
structure DecodedBlock where
  batch : RecordBatch
  primaryValues : Option (List ℤ)
  /-- Whether these primary values were verified to be nondecreasing. -/
  primarySorted : Bool

/-- What one block decode works from. -/
structure BlockDecoder where
  zstd : Zstd
  file : Bytes
  fileSize : ℕ
  frame : FrameMetadata
  layout : BlockLayout
  limits : Limits

namespace Read

/-! ### Streams of a column -/

def description (column : Column) (part : String) : String :=
  s!"column {column.name} {part}"

/-- The streams each layout uses. -/
def allowedKinds (layout : ℕ) : List ℕ :=
  if layout = columnLayoutPlain ∨ layout = columnLayoutConstant then
    [streamKindValidity, streamKindValues, streamKindLengths]
  else if layout = columnLayoutDictionary then
    [streamKindValidity, streamKindDictionaryValues, streamKindDictionaryLengths, streamKindIndices]
  else if layout = columnLayoutRunLength then
    [streamKindValidity, streamKindRunValues, streamKindRunLengths, streamKindLengths]
  else
    []

def checkStreamKinds (streams : List StreamDescriptor) (descriptor : ColumnBlockDescriptor)
    (column : Column) : Result Unit :=
  streams.forM fun stream ↦
    failIf (stream.kind ∉ allowedKinds descriptor.layout)
      (corrupt column
        s!"stream kind {stream.kind} does not belong to column layout {descriptor.layout}")

/-- The one stream of a kind, when there is one. -/
def findStream (streams : List StreamDescriptor) (kind : ℕ) (column : Column) :
    Result (Option StreamDescriptor) :=
  match streams.filter (·.kind = kind) with
  | [] => .ok none
  | [stream] => .ok (some stream)
  | _ => .error (corrupt column s!"duplicate stream kind {kind}")

def requiredStream (streams : List StreamDescriptor) (kind : ℕ) (column : Column) :
    Result StreamDescriptor := do
  let found ← findStream streams kind column
  okOr found (corrupt column s!"missing stream kind {kind}")

def expectElements (stream : StreamDescriptor) (expected : ℕ) (column : Column) : Result Unit :=
  failIf (stream.elementCount ≠ expected)
    (corrupt column
      s!"stream kind {stream.kind} declares {stream.elementCount} elements, expected {expected}")

/-- An all-null column uses plain layout and stores no value streams. -/
def allNull (streams : List StreamDescriptor) (descriptor : ColumnBlockDescriptor)
    (column : Column) : Result DenseValues := do
  failIf (descriptor.layout ≠ columnLayoutPlain)
    (corrupt column "an all-null column must use plain layout")
  failIf (∃ stream ∈ streams, stream.kind ≠ streamKindValidity)
    (corrupt column "an all-null column stores no value streams")
  return .empty column

def unsupportedCodec (codec : ℕ) : Error :=
  (Error.unsupportedFrame s!"stream codec {codec} is not available in this build"
    none).withContext .payload

def decompress (zstd : Zstd) (codec : ℕ) (stored : Bytes) (transformedLength : ℕ) :
    Result Bytes :=
  if codec = codecZstd then Compression.zstd zstd stored transformedLength
  else .error (unsupportedCodec codec)

/-- Split a concatenated byte-values stream into its individual values, from `offset` on. -/
def splitFrom (payload : Bytes) (column : Column) : ℕ → List ℕ → Result (ℕ × List Bytes)
  | offset, [] => .ok (offset, [])
  | offset, length :: lengths => do
    let stop ← okOr (checkedAdd offset length)
      (corrupt column "a value length does not fit this platform")
    failIf (payload.length < stop)
      (corrupt column "the value lengths exceed the values stream")
    let (last, values) ← splitFrom payload column stop lengths
    return (last, slice payload offset length :: values)

def splitValues (payload : Bytes) (lengths : List ℕ) (column : Column) : Result DenseValues := do
  let (offset, values) ← splitFrom payload column 0 lengths
  failIf (offset ≠ payload.length)
    (corrupt column "the value lengths do not consume the values stream")
  return { type := .bytes, values }

/-- The float of a bit pattern's width. -/
inductive Float
  | single
  | double
  deriving DecidableEq, Repr

def Float.width : Float → ℕ
  | single => 4
  | double => 8

/-- A byte string cut into values of one width. -/
def chunksExact (width : ℕ) (bytes : Bytes) : List Bytes :=
  Transform.chunks width (bytes.length / width) bytes

/-- Reinterpret canonical little-endian bytes, preserving every stored bit. -/
def Float.values (canonical : Bytes) : Float → DenseValues
  | single => ⟨.float32, (chunksExact 4 canonical).map fun raw ↦ UInt32.ofNat (leNat raw)⟩
  | double => ⟨.float64, (chunksExact 8 canonical).map fun raw ↦ UInt64.ofNat (leNat raw)⟩

/-- The run lengths of a column, which must be positive and sum to the dense count. -/
def checkRunLengths (column : Column) (denseCount : ℕ) : ℕ → List ℕ → Result Unit
  | total, [] =>
    failIf (total ≠ denseCount)
      (corrupt column "run lengths do not sum to the dense value count")
  | total, length :: lengths => do
    failIf (length = 0) (corrupt column "a run length is zero or unrepresentable")
    let total ← okOr ((checkedAdd total length).filter (· ≤ denseCount))
      (corrupt column "run lengths exceed the dense value count")
    checkRunLengths column denseCount total lengths

/-- Boolean streams may arrive run-length encoded, which unpacks its run lengths before expanding
them. -/
def chargeBooleans (count : ℕ) : DecodeM Unit :=
  Budget.chargeElements count (booleanValueBytes + unpackedValueBytes)

/-- Restore the canonical little-endian bytes of a fixed-width stream. -/
def canonicalBytes (payload : Bytes) (stream : StreamDescriptor) (column : Column) (width : ℕ) :
    DecodeM Bytes := do
  let expected ← okOr (checkedMul stream.elementCount width)
    (corrupt column "the value byte count overflows")
  let canonical ←
    if stream.transform = transformRaw then
      pure payload
    else if stream.transform = transformByteStreamSplit then do
      Budget.charge expected
      Transform.byteStreamSplit payload stream.elementCount width (description column "values")
    else
      liftM (m := Result) (.error
        (corrupt column s!"transform {stream.transform} does not apply to these values"))
  failIf (canonical.length ≠ expected)
    (corrupt column s!"the stream holds {canonical.length} value bytes, expected {expected}")
  return canonical

def unsupportedRepresentation (column : Column) : Error :=
  (Error.unsupportedFrame s!"no fixed-width decoder for column {column.name}" none).withContext
    .payload

end Read

open Read

namespace BlockDecoder

variable (decoder : BlockDecoder)

/-! ### Reading a stream -/

/-- The file region of a stream. -/
def streamExtent (stream : StreamDescriptor) (column : Column) : Result ℕ := do
  failIf (decoder.limits.maxRowsPerBlock < stream.elementCount)
    ((Error.resourceLimit
      s!"column {column.name}: stream element count {stream.elementCount} exceeds the decode limit"
      none).withContext .payload)
  let offset ← okOr (checkedAdd decoder.frame.payloadOffset stream.payloadOffset)
    (corrupt column "the stream offset overflows")
  let stop ← okOr (checkedAdd offset stream.storedLength)
    (corrupt column "the stream range overflows")
  failIf (decoder.fileSize < stop) (corrupt column "the stream range leaves the snapshot")
  return offset

/-- The stored bytes of a stream, with their checksum verified. -/
def storedBytes (stream : StreamDescriptor) (column : Column) (offset : ℕ) : Result Bytes := do
  let stored ← readExactAt decoder.file offset stream.storedLength
  failIf (checksum stored ≠ stream.crc)
    ((Error.corruption s!"bad stream CRC32C for column {column.name}" (some offset)).withContext
      .payload)
  return stored

/-- Read one stream's stored bytes, verify its CRC, and decompress them. -/
def streamBytes (stream : StreamDescriptor) (column : Column) : DecodeM Bytes := do
  let offset ← decoder.streamExtent stream column
  Budget.charge stream.storedLength
  let stored ← decoder.storedBytes stream column offset
  if stream.codec = codecNone then
    Budget.recordStream stream.storedLength
    return stored
  else
    Budget.charge stream.transformedLength
    let transformed ← (decompress decoder.zstd stream.codec stored
      stream.transformedLength).withMessagePrefix s!"column {column.name}"
    Budget.recordStream stream.storedLength
    return transformed

/-- Bit packing is the representation of dictionary indices and run lengths. -/
def unpack (stream : StreamDescriptor) (column : Column) (count : ℕ) (what : String) :
    DecodeM (List ℕ) := do
  failIf (stream.transform ≠ transformBitPacked)
    ((Error.unsupportedFrame
      s!"column {column.name}: {what} use transform {stream.transform}, and only bit packing is defined for them"
      none).withContext .payload)
  let payload ← decoder.streamBytes stream column
  Budget.chargeElements count unpackedValueBytes
  Transform.bitUnpack payload count (description column what)

/-! ### Stored values -/

def booleans (stream : StreamDescriptor) (column : Column) : DecodeM DenseValues := do
  let payload ← decoder.streamBytes stream column
  chargeBooleans stream.elementCount
  let values ← Transform.booleans payload stream.elementCount stream.transform
    (description column "values")
  return { type := .bool, values }

def integers (stream : StreamDescriptor) (column : Column) (type : IntType) :
    DecodeM DenseValues := do
  let payload ← decoder.streamBytes stream column
  Budget.chargeElements stream.elementCount type.width
  let values ← Transform.integer type payload stream.elementCount type.width type.signed
    stream.transform (description column "values")
  return { type := .integer type, values }

def floats (stream : StreamDescriptor) (column : Column) (float : Read.Float) :
    DecodeM DenseValues := do
  let payload ← decoder.streamBytes stream column
  let canonical ← canonicalBytes payload stream column float.width
  Budget.chargeElements stream.elementCount float.width
  return float.values canonical

def fixedBinary (stream : StreamDescriptor) (column : Column) (width : ℕ) :
    DecodeM DenseValues := do
  let payload ← decoder.streamBytes stream column
  let canonical ← canonicalBytes payload stream column width
  Budget.chargeElements stream.elementCount (saturatingAdd width valueHandleBytes)
  return { type := .bytes, values := chunksExact width canonical }

/-- Decode one stream of stored values into the column's own value type. -/
def storedValues (stream : StreamDescriptor) (column : Column) : DecodeM DenseValues :=
  match column.logicalType with
  | .bool => decoder.booleans stream column
  | .integer type => decoder.integers stream column type
  | .date32 => decoder.integers stream column .int32
  | .decimal _ _ | .timestamp _ _ => decoder.integers stream column .int64
  | .float32 => decoder.floats stream column .single
  | .float64 => decoder.floats stream column .double
  | .fixedBinary byteWidth => decoder.fixedBinary stream column byteWidth.toNat
  -- Byte-valued columns arrive through `byteValues` instead.
  | .utf8 | .categorical _ | .binary =>
    liftM (m := Result) (.error (unsupportedRepresentation column))

def lengths (streams : List StreamDescriptor) (column : Column) (kind count : ℕ) :
    DecodeM (List ℕ) := do
  let stream ← requiredStream streams kind column
  expectElements stream count column
  let payload ← decoder.streamBytes stream column
  Budget.chargeElements count lengthValueBytes
  let lengths ← Transform.lengths payload stream.elementCount stream.transform
    (description column "lengths")
  return lengths.map fun length ↦ length.val.toNat

/-- Decode a byte-values stream, with its lengths stream when the logical type is
variable-width. -/
def byteValues (streams : List StreamDescriptor) (column : Column)
    (valuesKind lengthsKind count : ℕ) : DecodeM DenseValues := do
  let stream ← requiredStream streams valuesKind column
  expectElements stream count column
  match column.logicalType with
  | .fixedBinary byteWidth => decoder.fixedBinary stream column byteWidth.toNat
  | _ => do
    failIf (stream.transform ≠ transformRaw)
      (corrupt column "variable-width values must use the raw transform")
    let lengths ← decoder.lengths streams column lengthsKind count
    let payload ← decoder.streamBytes stream column
    Budget.charge payload.length
    Budget.chargeElements count valueHandleBytes
    splitValues payload lengths column

/-! ### Layouts -/

def plain (streams : List StreamDescriptor) (column : Column) (count : ℕ) :
    DecodeM DenseValues :=
  if isByteValued column then
    decoder.byteValues streams column streamKindValues streamKindLengths count
  else do
    let stream ← requiredStream streams streamKindValues column
    expectElements stream count column
    decoder.storedValues stream column

/-- A constant column stores one value, exactly as a one-row plain column does. -/
def constant (streams : List StreamDescriptor) (column : Column) (count : ℕ) :
    DecodeM DenseValues := do
  let value ← decoder.plain streams column 1
  value.repeated count column

def indices (streams : List StreamDescriptor) (column : Column) (count : ℕ) :
    DecodeM (List ℕ) := do
  let stream ← requiredStream streams streamKindIndices column
  expectElements stream count column
  decoder.unpack stream column count "dictionary indices"

/-- The values of a dictionary or of runs. -/
def layoutValues (streams : List StreamDescriptor) (stream : StreamDescriptor) (column : Column)
    (valuesKind lengthsKind count : ℕ) : DecodeM DenseValues :=
  if isByteValued column then decoder.byteValues streams column valuesKind lengthsKind count
  else decoder.storedValues stream column

def dictionary (streams : List StreamDescriptor) (column : Column) (count : ℕ) :
    DecodeM DenseValues := do
  let indices ← decoder.indices streams column count
  let stream ← requiredStream streams streamKindDictionaryValues column
  failIf (stream.elementCount = 0)
    (corrupt column "dictionary layout stores no dictionary values")
  let dictionary ← decoder.layoutValues streams stream column streamKindDictionaryValues
    streamKindDictionaryLengths stream.elementCount
  dictionary.expanded indices column

def runLengths (streams : List StreamDescriptor) (column : Column) (denseCount : ℕ) :
    DecodeM (List ℕ) := do
  let stream ← requiredStream streams streamKindRunLengths column
  let packed ← decoder.unpack stream column stream.elementCount "run lengths"
  Budget.chargeElements stream.elementCount 8
  checkRunLengths column denseCount 0 packed
  return packed

def runLength (streams : List StreamDescriptor) (column : Column) (count : ℕ) :
    DecodeM DenseValues := do
  let lengths ← decoder.runLengths streams column count
  let stream ← requiredStream streams streamKindRunValues column
  expectElements stream lengths.length column
  let values ← decoder.layoutValues streams stream column streamKindRunValues streamKindLengths
    lengths.length
  values.runs lengths column

def denseValues (streams : List StreamDescriptor) (column : Column)
    (descriptor : ColumnBlockDescriptor) (count : ℕ) : DecodeM DenseValues :=
  if descriptor.layout = columnLayoutPlain then decoder.plain streams column count
  else if descriptor.layout = columnLayoutConstant then decoder.constant streams column count
  else if descriptor.layout = columnLayoutDictionary then decoder.dictionary streams column count
  else if descriptor.layout = columnLayoutRunLength then decoder.runLength streams column count
  else liftM (m := Result) (.error ((Error.unsupportedFrame
    s!"unsupported column layout {descriptor.layout}" none).withContext .payload))

/-! ### Validity -/

/-- An implicit validity is all-valid when the null count is zero and all-null when it equals the
row count.  Neither stores a validity stream. -/
def implicitValidity (column : Column) (descriptor : ColumnBlockDescriptor)
    (stream : Option StreamDescriptor) (rowCount : ℕ) : DecodeM (Option (List Bool)) := do
  failIf (stream.isSome = true)
    (corrupt column "implicit validity does not use a validity stream")
  if descriptor.nullCount = 0 then
    return none
  else
    failIf (descriptor.nullCount ≠ rowCount)
      (corrupt column "implicit validity is neither all-valid nor all-null")
    Budget.chargeElements rowCount booleanValueBytes
    return some (List.replicate rowCount false)

/-- The validity a stream stores. -/
def storedValidity (column : Column) (descriptor : ColumnBlockDescriptor)
    (stream : StreamDescriptor) (rowCount : ℕ) : DecodeM (Option (List Bool)) := do
  expectElements stream rowCount column
  let payload ← decoder.streamBytes stream column
  chargeBooleans rowCount
  let bits ← Transform.booleans payload stream.elementCount stream.transform
    (description column "validity")
  failIf (bits.count false ≠ descriptor.nullCount)
    (corrupt column "the validity stream does not match the declared null count")
  return some bits

def validity (streams : List StreamDescriptor) (column : Column)
    (descriptor : ColumnBlockDescriptor) (rowCount : ℕ) : DecodeM (Option (List Bool)) := do
  let stream ← findStream streams streamKindValidity column
  if ¬column.nullable then
    failIf (descriptor.nullCount ≠ 0 ∨ stream.isSome)
      (corrupt column "a non-nullable column carries validity data")
    return none
  else if descriptor.flags &&& columnImplicitValidityFlag ≠ 0 then
    implicitValidity column descriptor stream rowCount
  else
    match stream with
    | some stream => decoder.storedValidity column descriptor stream rowCount
    | none => do
      failIf (descriptor.nullCount ≠ 0)
        (corrupt column "a column with nulls has no validity stream")
      return none

/-! ### One column -/

/-- The contiguous stream-table range of one column. -/
def streamsFor (descriptor : ColumnBlockDescriptor) (column : Column) :
    Result (List StreamDescriptor) := do
  let stop ← okOr (checkedAdd descriptor.firstStream descriptor.streamCount)
    (corrupt column "the stream range overflows")
  failIf (decoder.layout.streams.length < stop)
    (corrupt column "the stream range leaves the stream table")
  return slice decoder.layout.streams descriptor.firstStream descriptor.streamCount

/-- The block's descriptor for a schema column.  The column table is sorted by column ID, so the
source finds it by binary search. -/
def descriptorFor (column : Column) : Result ColumnBlockDescriptor :=
  okOr (decoder.layout.columns.find? (·.columnId = column.id))
    (corrupt column "the block has no descriptor for this column")

def column (column : Column) (descriptor : ColumnBlockDescriptor) (rowCount : ℕ) :
    DecodeM LogicalArray := do
  let streams ← decoder.streamsFor descriptor column
  checkStreamKinds streams descriptor column
  let validity ← decoder.validity streams column descriptor rowCount
  let dense ←
    if descriptor.denseCount = 0 then liftM (allNull streams descriptor column)
    else decoder.denseValues streams column descriptor descriptor.denseCount
  let array ← dense.intoArray column validity rowCount
  Validate.verifyColumnStatistics decoder.file decoder.fileSize decoder.frame descriptor column
    array decoder.limits
  Budget.recordBytesRead descriptor.statsLength
  return array

/-- Decode the schema column at `index`. -/
def decodedColumn (schema : Schema) (index rowCount : ℕ) : DecodeM LogicalArray := do
  let column ← okOr schema.columns[index]? (Error.internal "column index is outside the schema")
  let descriptor ← decoder.descriptorFor column
  decoder.column column descriptor rowCount

/-! ### The primary column -/

/-- One primary value, which is a timestamp or a date. -/
def primaryValue (row : Option ScalarValue) : Result ℤ :=
  match row with
  | some ⟨.timestamp _ _, value⟩ => .ok value.val
  | some ⟨.date32, value⟩ => .ok value.val
  | some _ => .error (Error.corruption "the primary column is not a timestamp or date" none)
  | none => .error (Error.corruption "the primary column contains a null value" none)

/-- The block's bounds are calculated over the primary values, and `TS_SORTED` claims those values
do not decrease. -/
def checkPrimaryValues (values : List ℤ) : Result Unit := do
  let bounds := decoder.layout.metadata.primaryBounds
  failIf (values.min? ≠ bounds.map Prod.fst ∨ values.max? ≠ bounds.map Prod.snd)
    (Error.corruption "the block's primary bounds do not match its decoded values" none)
  if decoder.layout.metadata.tsSorted then
    failIf (¬values.IsChain (· ≤ ·))
      (Error.corruption "TS_SORTED is set but the primary values decrease" none)
    failIf (values.head? ≠ bounds.map Prod.fst ∨ values.getLast? ≠ bounds.map Prod.snd)
      (Error.corruption "TS_SORTED requires bounds equal to the first and last values" none)

def verifyPrimaryColumn (array : LogicalArray) : DecodeM (List ℤ) := do
  Budget.chargeElements array.len 8
  let values ← (array.rows.mapM primaryValue : Result (List ℤ))
  decoder.checkPrimaryValues values
  return values

/-! ### The block -/

def rowCount : Result ℕ := do
  let declared := decoder.layout.metadata.rowCount
  failIf (decoder.limits.maxRowsPerBlock < declared)
    ((Error.resourceLimit
      s!"row count {declared} exceeds the {decoder.limits.maxRowsPerBlock}-row decode limit"
      none).withContext .payload)
  return declared

/-- Every selected index names a schema column. -/
def checkSelection (selection : Selection) : Result Unit := do
  let columnCount := selection.sourceSchema.columns.length
  failIf (∃ index ∈ selection.selected, columnCount ≤ index)
    (Error.internal "selected column index is outside the schema")
  failIf (∃ index ∈ selection.primary, columnCount ≤ index)
    (Error.internal "primary column index is outside the schema")

/-- The array at a schema position, once it is decoded. -/
abbrev Arrays := List (Option LogicalArray)

/-- Decode one more column into its schema position. -/
def decodeInto (schema : Schema) (rowCount : ℕ) (arrays : Arrays) (index : ℕ) :
    DecodeM Arrays := do
  let array ← decoder.decodedColumn schema index rowCount
  return arrays.set index (some array)

/-- The values of the primary column, verified against the block's own claims. -/
def primaryValues (selection : Selection) (arrays : Arrays) : DecodeM (Option (List ℤ)) :=
  match selection.primary with
  | none => return none
  | some index => do
    let _ ← okOr selection.sourceSchema.columns[index]?
      (Error.internal "primary column index is outside the schema")
    let array ← okOr (arrays[index]?.join)
      (Error.corruption "the primary column was not decoded" none)
    let values ← decoder.verifyPrimaryColumn array
    return some values

/-- Take the selected arrays out of their positions, in the order they were asked for. -/
def takeArrays : List ℕ → Arrays → Result (List LogicalArray)
  | [], _ => .ok []
  | index :: rest, arrays => do
    let array ← okOr (arrays[index]?.join)
      (Error.corruption "a selected column was not decoded" none)
    let taken ← takeArrays rest (arrays.set index none)
    return array :: taken

def block (selection : Selection) : DecodeM DecodedBlock := do
  let rowCount ← decoder.rowCount
  let schema := selection.sourceSchema
  checkSelection selection
  let empty : Arrays := List.replicate schema.columns.length none
  let arrays ← selection.selected.foldlM (decoder.decodeInto schema rowCount) empty
  -- The primary is decoded even when it was not selected, to confirm the block's bounds.
  let internalPrimary := selection.primary.filter fun index ↦ index ∉ selection.selected
  let arrays ← internalPrimary.toList.foldlM (decoder.decodeInto schema rowCount) arrays
  let primaryValues ← decoder.primaryValues selection arrays
  let outputArrays ← takeArrays selection.selected arrays
  let batch ← RecordBatch.tryNew selection.outputSchema outputArrays rowCount
  return { batch, primaryValues,
           primarySorted := primaryValues.isSome && decoder.layout.metadata.tsSorted }

end BlockDecoder

/-! ### Decoding a frame -/

namespace Read

variable (zstd : Zstd)

/-- Decode only the selected columns and, when requested, the primary column.  The allowances of the
scan come back with what the decode spent. -/
def decodeSelectedBlock (file : Bytes) (fileSize : ℕ) (frame : FrameMetadata)
    (layout : BlockLayout) (selection : Selection) (scan : Option ScanBudget) (limits : Limits) :
    Result DecodedBlock × Option ScanBudget :=
  let decoder : BlockDecoder := { zstd, file, fileSize, frame, layout, limits }
  let (decoded, budget) := Budget.run (decoder.block selection)
    (Budget.new limits.maxDecodedBlockBytes scan)
  (decoded.withContext (.frame frame.sequence), budget.scan)

/-- Decode one complete data frame into schema-order logical arrays. -/
def decodeBlock (file : Bytes) (fileSize : ℕ) (frame : FrameMetadata) (layout : BlockLayout)
    (schema : Schema) (limits : Limits) : Result RecordBatch :=
  let selection := Selection.all schema (List.range schema.columns.length)
  (decodeSelectedBlock zstd file fileSize frame layout selection none limits).1.map (·.batch)

end Read

end Acta
