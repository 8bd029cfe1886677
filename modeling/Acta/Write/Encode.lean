import Acta.Statistics
import Acta.Write.Input

/-!
# Encoding a data frame

One block's rows become a data frame: every column is validated, profiled and encoded, its streams
are laid out in the payload, and the header describes them.
-/

namespace Acta

open Machine Wire Candidates

/-- One stream as it stands in the payload. -/
structure EncodedStream where
  kind : ℕ
  transform : ℕ
  elementCount : ℕ
  payloadOffset : ℕ
  storedLength : ℕ
  transformedLength : ℕ
  crc : ℕ
  deriving DecidableEq, Repr

/-- One compressed stream that has no place in the payload yet. -/
structure StoredStream where
  kind : ℕ
  transform : ℕ
  elementCount : ℕ
  transformedLength : ℕ
  stored : Bytes
  deriving DecidableEq, Repr

/-- The layout and the streams chosen for one column. -/
structure SelectedColumn where
  layout : ℕ
  streams : List StoredStream
  deriving DecidableEq, Repr

/-- One column of a block.  `streams` are placed in the payload and `pendingStreams` are not yet. -/
structure EncodedColumn where
  columnId : UInt32
  layout : ℕ
  flags : ℕ
  nullCount : ℕ
  denseCount : ℕ
  firstStream : ℕ
  streams : List EncodedStream
  pendingStreams : List StoredStream
  statistics : Option Bytes

namespace Write

variable (zstd : Zstd)

/-! ### Dense values -/

/-- One validity bit per row, taken from the array's own answer about nullity. -/
def validityBits (rows : BlockRows) (index : ℕ) : List Bool :=
  (rows.column index).map fun (array, row) ↦ !array.isNull row

/-- One column's dense values in block order, skipping the rows validity marks absent. -/
def denseValues (column : Column) (rows : BlockRows) (index : ℕ) (validBits : List Bool) :
    List (Result ScalarValue) :=
  (((rows.column index).zip validBits).filter (·.2)).map fun ((array, row), _) ↦
    okOr (array.valueAt row) (invalidBatch s!"column {column.name} has a missing valid value")

/-! ### Statistics -/

def automaticMinDenseValues : ℕ := 64

def automaticValueToStatisticsRatio : ℕ := 8

/-- The canonical statistic width of a type that has one. -/
def statisticWidth : LogicalType → Option ℕ
  | .bool => some 1
  | .integer type => some type.width
  | .float32 | .date32 => some 4
  | .float64 | .decimal _ _ | .timestamp _ _ => some 8
  | .fixedBinary byteWidth => if byteWidth = 0 then none else some byteWidth.toNat
  | .utf8 | .categorical _ | .binary => none

/-- The size half of the `automatic` rule. -/
def automaticStatisticsAreWorthwhile (logicalType : LogicalType) (valueCount width : ℕ) : Bool :=
  if valueCount < automaticMinDenseValues then
    false
  else
    let valueBytes :=
      if logicalType = .bool then bitmapBytes valueCount else saturatingMul valueCount width
    saturatingMul (saturatingMul width 2) automaticValueToStatisticsRatio ≤ valueBytes

def statisticValue (column : Column) (value : ScalarValue) : Result StatisticValue := do
  let wrongType :=
    invalidBatch s!"column {column.name} contains a value with the wrong logical type"
  failIf (¬column.logicalType.describes value.type) wrongType
  let statistic ← okOr value.statistic wrongType
  let length := (storedBytes value).length
  match column.logicalType with
  | .fixedBinary byteWidth =>
    failIf (length ≠ byteWidth.toNat)
      (invalidBatch
        s!"column {column.name} has a {length}-byte value in a fixed_binary({byteWidth}) column")
    return statistic
  | _ => return statistic

/-- Take one value into the extrema, unless it is NaN, and count it. -/
def scanStatistic (column : Column) (state : Extrema × ℕ) (value : Result ScalarValue) :
    Result (Extrema × ℕ) := do
  let statistic ← statisticValue column (← value)
  if statistic.isNan then
    return state
  else
    return (state.1.push statistic, state.2 + 1)

/-- One extremum in the logical type's canonical width and little-endian byte order. -/
def statisticBytes (logicalType : LogicalType) (value : StatisticValue) : Option Bytes :=
  match logicalType, value with
  | .bool, .bool value => some [value.toUInt8]
  | .integer type, .signed value =>
    if type.signed then some (leBytes type.width (toTwos (8 * type.width) value)) else none
  | .integer type, .unsigned value =>
    if type.signed then none else some (leBytes type.width value)
  | .date32, .signed value => some (leBytes 4 (toTwos 32 value))
  | .decimal _ _, .signed value => some (leBytes 8 (toTwos 64 value))
  | .timestamp _ _, .signed value => some (leBytes 8 (toTwos 64 value))
  | .float32, .float32 bits => some (leBytes 4 bits.toNat)
  | .float64, .float64 bits => some (leBytes 8 bits.toNat)
  | .fixedBinary byteWidth, .bytes value =>
    if value.length = byteWidth.toNat then some value else none
  | _, _ => none

/-- The canonical minimum, then the canonical maximum. -/
def encodeStatistics (logicalType : LogicalType) (minimum maximum : StatisticValue) :
    Result Bytes := do
  let _ ← okOr (statisticWidth logicalType)
    (invalidBatch "statistics are unsupported for this logical type")
  let mismatch := invalidBatch "statistics value type does not match its column"
  let minimumBytes ← okOr (statisticBytes logicalType minimum) mismatch
  let maximumBytes ← okOr (statisticBytes logicalType maximum) mismatch
  return minimumBytes ++ maximumBytes

/-- Whether the policy asks for a column's statistics before its values are seen. -/
def wantsStatistics (policy : WriterStatistics) (isPrimary : Bool) : Bool :=
  match policy with
  | .none => false
  | .automatic => !isPrimary
  | .minMax => true

/-- Generate one canonical min/max pair, or omit it when the policy or the logical type does not
support one. -/
def generateStatistics (column : Column) (rows : BlockRows) (index : ℕ) (validBits : List Bool)
    (policy : WriterStatistics) (isPrimary : Bool) : Result (Option Bytes) :=
  match statisticWidth column.logicalType with
  | none => .ok none
  | some width =>
    if ¬wantsStatistics policy isPrimary then
      .ok none
    else do
      let (extrema, valueCount) ←
        (denseValues column rows index validBits).foldlM (scanStatistic column) ({}, 0)
      match extrema.pair with
      | none => return none
      | some (minimum, maximum) =>
        if policy = .automatic ∧
            ¬automaticStatisticsAreWorthwhile column.logicalType valueCount width then
          return none
        else
          let bytes ← encodeStatistics column.logicalType minimum maximum
          return some bytes

/-! ### Storing streams -/

def compressZstd (bytes : Bytes) (level : ℤ) : Result Bytes :=
  (zstd.compress level bytes).mapError fun message ↦
    (Error.internal s!"Zstandard compression failed: {message}").withContext .payload

/-- Store one transformed stream. -/
def compressStream (codec : WriterCodec) (zstdLevel : ℤ) (bytes : Bytes) : Result Bytes :=
  match codec with
  | .none => .ok bytes
  | .zstandard => compressZstd zstd bytes zstdLevel

def storeStream (codec : WriterCodec) (zstdLevel : ℤ) (stream : CandidateStream) :
    Result StoredStream := do
  let stored ← compressStream zstd codec zstdLevel stream.bytes
  return { kind := stream.kind, transform := stream.transform, elementCount := stream.elementCount,
           transformedLength := stream.bytes.length, stored }

def materializeSelected (layout : ℕ) (streams : List CandidateStream) (codec : WriterCodec)
    (zstdLevel : ℤ) : Result SelectedColumn := do
  let streams ← streams.mapM (storeStream zstd codec zstdLevel)
  return { layout, streams }

def storedColumnCost (column : SelectedColumn) : ℕ :=
  column.streams.foldl (fun total stream ↦
      saturatingAdd total (streamPayloadBytes stream.stored.length))
    (saturatingMul column.streams.length blockStreamDescriptorSize)

/-! ### The raw encoding -/

/-- The buffers the raw encoding fills as it goes over the dense values. -/
structure DenseBuffers where
  values : Bytes := []
  bools : List Bool := []
  variableValues : Bytes := []
  lengths : Bytes := []

/-- Add one dense value to the buffer its logical type stores it in. -/
def pushDense (column : Column) (buffers : DenseBuffers) (value : Result ScalarValue) :
    Result DenseBuffers := do
  let scalar ← value
  failIf (¬column.logicalType.describes scalar.type)
    (invalidBatch s!"column {column.name} contains a value with the wrong logical type")
  let bytes := storedBytes scalar
  match column.logicalType, scalar with
  | .bool, ⟨.bool, flag⟩ => return { buffers with bools := buffers.bools ++ [flag] }
  | .fixedBinary byteWidth, _ =>
    failIf (bytes.length ≠ byteWidth.toNat)
      (invalidBatch
        s!"column {column.name} has a {bytes.length}-byte value in a fixed_binary({byteWidth}) column")
    return { buffers with values := buffers.values ++ bytes }
  | .utf8, _ | .categorical _, _ | .binary, _ =>
    failIf (u32Max < bytes.length)
      (invalidBatch s!"column {column.name} value exceeds uint32::MAX bytes")
    return { buffers with
      lengths := buffers.lengths ++ leBytes 4 bytes.length
      variableValues := buffers.variableValues ++ bytes }
  | _, _ => return { buffers with values := buffers.values ++ bytes }

/-- The values stream of the raw encoding, and the lengths stream beside it. -/
def encodeDenseValues (column : Column) (rows : BlockRows) (index : ℕ) (validBits : List Bool) :
    Result (Bytes × Option Bytes) := do
  let buffers ← (denseValues column rows index validBits).foldlM (pushDense column) {}
  if isVariableWidth column.logicalType then
    return (buffers.variableValues, some buffers.lengths)
  else if column.logicalType = .bool then
    return (packBits buffers.bools, none)
  else
    return (buffers.values, none)

/-- Whether validity needs no stream: every row is present, or none is. -/
def isImplicit (validBits : List Bool) : Bool :=
  validBits.all id || validBits.all (!·)

/-- The raw validity stream, when there is one. -/
def rawValidityStreams (validBits : List Bool) : List CandidateStream :=
  if isImplicit validBits then [] else
    [{ kind := streamKindValidity, transform := transformRaw, elementCount := validBits.length,
       bytes := packBits validBits }]

/-- The raw value streams, when there is a value. -/
def rawValueStreams (column : Column) (rows : BlockRows) (index : ℕ) (validBits : List Bool) :
    Result (List CandidateStream) := do
  if validBits.any id then
    let (values, lengths) ← encodeDenseValues column rows index validBits
    let count := validBits.count true
    let stored := valuesStream transformRaw count values
    match lengths with
    | none => return [stored]
    | some lengths =>
      return [stored, { kind := streamKindLengths, transform := transformRaw, elementCount := count,
                        bytes := lengths }]
  else
    return []

def rawColumnCandidate (column : Column) (rows : BlockRows) (index : ℕ) (validBits : List Bool)
    (codec : WriterCodec) (zstdLevel : ℤ) : Result SelectedColumn := do
  let values ← rawValueStreams column rows index validBits
  materializeSelected zstd columnLayoutPlain (rawValidityStreams validBits ++ values)
    codec zstdLevel

/-! ### Validity -/

def estimatedStreamCost (transformedLength : ℕ) (codec : WriterCodec) : ℕ :=
  let codecOverhead := if codec = .zstandard then 16 else 0
  streamPayloadBytes (saturatingAdd transformedLength codecOverhead)

/-- The validity representation chosen for one column. -/
structure Validity where
  transform : ℕ
  elementCount : ℕ
  bytes : Option Bytes

namespace Validity

def raw (validBits : List Bool) : Validity where
  transform := transformRaw
  elementCount := validBits.length
  bytes := if validBits.isEmpty || isImplicit validBits then none else some (packBits validBits)

/-- The margin a specialized representation must save over the raw one. -/
def margin (rawCost : ℕ) : ℕ := max ((rawCost + 99) / 100) 64

/-- Choose between the raw bits and their runs. -/
def plan (validBits : List Bool) (codec : WriterCodec) : Result Validity :=
  match (raw validBits).bytes with
  | none => .ok (raw validBits)
  | some rawBytes => do
    let rle ← booleanRle validBits
    let rawCost := estimatedStreamCost rawBytes.length codec
    let rleCost := estimatedStreamCost rle.length codec
    if saturatingAdd rleCost (margin rawCost) ≤ rawCost then
      return { transform := transformBooleanRle, elementCount := validBits.length,
               bytes := some rle }
    else
      return raw validBits

/-- The stored cost of the validity stream, or zero when there is none. -/
def estimatedCost (validity : Validity) (codec : WriterCodec) : Option ℕ :=
  match validity.bytes with
  | none => some 0
  | some bytes => checkedAdd (estimatedStreamCost bytes.length codec) blockStreamDescriptorSize

/-- Put the validity stream ahead of the value streams. -/
def prependTo (validity : Validity) (streams : List CandidateStream) : List CandidateStream :=
  match validity.bytes with
  | none => streams
  | some bytes =>
    { kind := streamKindValidity, transform := validity.transform,
      elementCount := validity.elementCount, bytes } :: streams

end Validity

/-! ### The fixed encoding -/

def valueEncoding : WriterTransform → ValueEncoding
  | .raw => .raw
  | .bitPacked => .bitPacked
  | .booleanRle => .booleanRle
  | .frameOfReference => .frameOfReference
  | .delta => .delta
  | .deltaOfDelta => .deltaOfDelta
  | .byteStreamSplit => .byteStreamSplit
  | .constant => .constant
  | .dictionary => .dictionary
  | .runLength => .runLength

/-- How error messages name a transform. -/
def transformDebug : WriterTransform → String
  | .raw => "Raw"
  | .bitPacked => "BitPacked"
  | .booleanRle => "BooleanRle"
  | .frameOfReference => "FrameOfReference"
  | .delta => "Delta"
  | .deltaOfDelta => "DeltaOfDelta"
  | .byteStreamSplit => "ByteStreamSplit"
  | .constant => "Constant"
  | .dictionary => "Dictionary"
  | .runLength => "RunLength"

/-- Refuse a fixed policy the writer does not offer for one of the schema's logical types, before
the file exists. -/
def validateEncoding (schema : Schema) (encoding : WriterEncoding) : Result Unit :=
  match encoding with
  | .fixed transform => schema.columns.forM fun column ↦
    failIf (¬supports column.logicalType (valueEncoding transform))
      (invalidOption
        s!"fixed transform {transformDebug transform} is not offered for column {column.name} ({column.logicalType.debug})")
  | _ => .ok ()

/-- Name the fixed policy and the column in an encoder error. -/
def fixedRefusal (transform : WriterTransform) (column : Column) (error : Error) : Error :=
  (error.withMessagePrefix s!"fixed transform {transformDebug transform} on {column.name}").withContext
    .payload

/-- Apply one requested transform to this column, or fail. -/
def fixedColumnCandidate (column : Column) (rows : BlockRows) (index : ℕ) (validBits : List Bool)
    (transform : WriterTransform) (codec : WriterCodec) (zstdLevel : ℤ) : Result SelectedColumn :=
  -- An all-null column has no value stream to transform.
  if validBits.all (!·) then
    materializeSelected zstd columnLayoutPlain [] codec zstdLevel
  else if transform = .raw then
    rawColumnCandidate zstd column rows index validBits codec zstdLevel
  else do
    let dense := denseValues column rows index validBits
    let (prepared, profile) ← (prepare column.logicalType dense).mapError
      (fixedRefusal transform column)
    let value ← (encode column.logicalType prepared profile (valueEncoding transform)).mapError
      (fixedRefusal transform column)
    let streams := (Validity.raw validBits).prependTo value.streams
    materializeSelected zstd value.layout streams codec zstdLevel

/-! ### The adaptive encoding -/

/-- Price one candidate's complete stored column. -/
def estimateColumnCandidate (logicalType : LogicalType) (values : PreparedValues)
    (profile : ValueProfile) (candidate : ValueEncoding) (validity : Validity)
    (codec : WriterCodec) : Option ℕ := do
  let lengths ← estimate logicalType values profile candidate
  let descriptors ← checkedMul lengths.length blockStreamDescriptorSize
  let cost ← lengths.foldlM (fun cost length ↦
    checkedAdd cost (estimatedStreamCost length codec)) descriptors
  let validityCost ← validity.estimatedCost codec
  checkedAdd cost validityCost

/-- The priced candidates, cheapest first.  Raw values under a raw validity are the baseline and not
a candidate. -/
def shortlist (logicalType : LogicalType) (values : PreparedValues) (profile : ValueProfile)
    (validity : Validity) (codec : WriterCodec) : List (ℕ × ValueEncoding) :=
  let offered := (candidates logicalType values profile).filter fun candidate ↦
    ¬(candidate = .raw ∧ validity.transform = transformRaw)
  let estimates := offered.filterMap fun candidate ↦
    (estimateColumnCandidate logicalType values profile candidate validity codec).map (·, candidate)
  estimates.mergeSort fun a b ↦ a.1 < b.1 ∨ a.1 = b.1 ∧ a.2.rank ≤ b.2.rank

/-- Materialize one candidate of the shortlist. -/
def materializeCandidate (logicalType : LogicalType) (values : PreparedValues)
    (profile : ValueProfile) (validity : Validity) (codec : WriterCodec) (zstdLevel : ℤ)
    (candidate : ValueEncoding) : Result SelectedColumn := do
  let value ← encode logicalType values profile candidate
  materializeSelected zstd value.layout (validity.prependTo value.streams) codec zstdLevel

/-- Keep the better of the column selected so far and one materialized candidate.  A failed
candidate is discarded. -/
def chooseCheaper (rawCost : ℕ) (selected : ℕ × SelectedColumn)
    (materialized : Result SelectedColumn) : ℕ × SelectedColumn :=
  match materialized with
  | .error _ => selected
  | .ok column =>
    let cost := storedColumnCost column
    if saturatingAdd cost (Validity.margin rawCost) ≤ rawCost ∧
        (cost < selected.1 ∨ cost = selected.1 ∧ column.layout < selected.2.layout) then
      (cost, column)
    else
      selected

/-- Materialize the two cheapest estimates and take the best of them and the raw column. -/
def adaptiveColumnCandidate (column : Column) (rows : BlockRows) (index : ℕ)
    (validBits : List Bool) (codec : WriterCodec) (zstdLevel : ℤ) : Result SelectedColumn :=
  if validBits.count false = validBits.length then
    materializeSelected zstd columnLayoutPlain [] codec zstdLevel
  else do
    let dense := denseValues column rows index validBits
    let (prepared, profile) ← prepare column.logicalType dense
    let validity ← Validity.plan validBits codec
    let estimates := shortlist column.logicalType prepared profile validity codec
    let raw ← rawColumnCandidate zstd column rows index validBits codec zstdLevel
    let rawCost := storedColumnCost raw
    let selected := (estimates.take 2).foldl (fun selected (_, candidate) ↦
      chooseCheaper rawCost selected
        (materializeCandidate zstd column.logicalType prepared profile validity codec zstdLevel
          candidate))
      (rawCost, raw)
    return selected.2

/-! ### One column -/

/-- The streams and the layout the encoding policy selects for a column. -/
def selectColumn (column : Column) (rows : BlockRows) (index : ℕ) (validBits : List Bool)
    (options : WriterOptions) : Result SelectedColumn :=
  match options.encoding with
  | .raw => rawColumnCandidate zstd column rows index validBits options.codec options.zstdLevel
  | .adaptive =>
    adaptiveColumnCandidate zstd column rows index validBits options.codec options.zstdLevel
  | .fixed transform =>
    fixedColumnCandidate zstd column rows index validBits transform options.codec options.zstdLevel

/-- The column flags: an implicit validity is only flagged on a nullable column. -/
def columnFlags (column : Column) (implicit hasStatistics : Bool) : ℕ :=
  let flags := if column.nullable ∧ implicit then columnImplicitValidityFlag else 0
  if hasStatistics then flags ||| columnHasStatsFlag else flags

def encodeColumn (column : Column) (rows : BlockRows) (index firstStream : ℕ)
    (options : WriterOptions) (isPrimary : Bool) : Result EncodedColumn := do
  validateColumnParts column rows index
  let validBits := validityBits rows index
  let nullCount := validBits.count false
  let denseCount := rows.rowCount - nullCount
  let implicit : Bool := nullCount = 0 ∨ denseCount = 0
  let statistics ← generateStatistics column rows index validBits options.statistics isPrimary
  let selected ← selectColumn zstd column rows index validBits options
  failIf (u32Max < nullCount) (invalidBatch "the null count exceeds uint32::MAX")
  failIf (u32Max < denseCount) (invalidBatch "the dense count exceeds uint32::MAX")
  return { columnId := column.id, layout := selected.layout,
           flags := columnFlags column implicit statistics.isSome, nullCount, denseCount,
           firstStream, streams := [], pendingStreams := selected.streams, statistics }

/-! ### The payload -/

/-- Lay one stream out at the end of the payload. -/
def appendStream (pending : StoredStream) (payload : Bytes) : EncodedStream × Bytes :=
  let extended := payload ++ pending.stored
  let padded :=
    if pending.stored = [] then extended ++ zeros frameAlignment else padToAlignment extended
  ({ kind := pending.kind, transform := pending.transform, elementCount := pending.elementCount,
     payloadOffset := payload.length, storedLength := pending.stored.length,
     transformedLength := pending.transformedLength, crc := checksum pending.stored }, padded)

/-- Lay the pending streams of a column out, in order. -/
def appendStreams : List StoredStream → Bytes → List EncodedStream × Bytes
  | [], payload => ([], payload)
  | pending :: rest, payload =>
    let (stream, payload) := appendStream pending payload
    let (streams, payload) := appendStreams rest payload
    (stream :: streams, payload)

/-- The columns of a block encoded so far, with the payload they fill. -/
structure BlockAssembly where
  streamCount : ℕ := 0
  payload : Bytes := []
  columns : List EncodedColumn := []

/-- Encode one more column and lay its streams out. -/
def assembleColumn (schema : Schema) (rows : BlockRows) (options : WriterOptions)
    (assembly : BlockAssembly) (entry : Column × ℕ) : Result BlockAssembly := do
  let (column, schemaIndex) := entry
  let encoded ← encodeColumn zstd column rows schemaIndex assembly.streamCount options
    (schema.primaryColumnId = some column.id)
  let (streams, payload) := appendStreams encoded.pendingStreams assembly.payload
  let total := assembly.streamCount + streams.length
  failIf (u32Max < streams.length) (invalidBatch "the stream count does not fit uint32")
  failIf (u32Max < total) (invalidBatch "the stream count overflows uint32")
  return { streamCount := total, payload,
           columns := assembly.columns ++ [{ encoded with streams, pendingStreams := [] }] }

/-- The schema's columns with their positions, in ID order. -/
def sortedColumns (schema : Schema) : List (Column × ℕ) :=
  schema.columns.zipIdx.mergeSort fun a b ↦ a.1.id ≤ b.1.id

/-! ### The header -/

/-- One primary value as the signed count the header stores. -/
def primaryValue (column : Column) (array : LogicalArray) (row : ℕ) : Result ℤ :=
  match array.valueAt row with
  | none => .error (invalidBatch "the primary column contains a null")
  | some value =>
    match column.logicalType, value with
    | .timestamp _ _, ⟨.timestamp _ _, value⟩ => .ok value.val
    | .date32, ⟨.date32, value⟩ => .ok value.val
    | _, _ => .error (invalidBatch "the primary column has the wrong logical type")

/-- The bounds, the previous value and whether the values are sorted so far. -/
structure PrimaryScan where
  minimum : ℤ
  maximum : ℤ
  previous : ℤ
  sorted : Bool

def PrimaryScan.push (scan : PrimaryScan) (value : ℤ) : PrimaryScan where
  minimum := min scan.minimum value
  maximum := max scan.maximum value
  sorted := scan.sorted ∧ scan.previous ≤ value
  previous := value

/-- The block's primary minimum, maximum, and whether its primary values are sorted. -/
def primaryMetadata (schema : Schema) (rows : BlockRows) : Result (ℤ × ℤ × Bool) :=
  match schema.primaryColumnId with
  | none => .ok (0, 0, false)
  | some primaryId => do
    let (column, index) ← okOr (schema.columns.zipIdx.find? (·.1.id = primaryId))
      (invalidBatch "the primary column is not present in the schema")
    let values ← (rows.column index).mapM fun (array, row) ↦ primaryValue column array row
    match values with
    | [] => .error (invalidBatch "the primary column is empty")
    | first :: rest =>
      let scan := rest.foldl PrimaryScan.push
        { minimum := first, maximum := first, previous := first, sorted := true }
      return (scan.minimum, scan.maximum, scan.sorted)

/-- The statistics area, and the offset of each column's statistics in the header. -/
def layOutStatistics (statisticsOffset : ℕ) :
    List EncodedColumn → Bytes → Bytes × List (Option ℕ)
  | [], area => (area, [])
  | column :: rest, area =>
    match column.statistics with
    | none =>
      let (area, offsets) := layOutStatistics statisticsOffset rest area
      (area, none :: offsets)
    | some bytes =>
      let (final, offsets) := layOutStatistics statisticsOffset rest (area ++ bytes)
      (final, some (statisticsOffset + area.length) :: offsets)

def codecId : WriterCodec → ℕ
  | .none => codecNone
  | .zstandard => codecZstd

/-- The fixed block header. -/
def blockHeader (schema : Schema) (baseRowId rowCount : ℕ) (primary : ℤ × ℤ × Bool)
    (rowIds : Bool) (streamTableOffset statisticsOffset statisticsLength : ℕ) : Bytes :=
  let (primaryMin, primaryMax, tsSorted) := primary
  let rowIdsFlag := if rowIds then rowIdsBlockFlag else 0
  let flags := if tsSorted then rowIdsFlag ||| tsSortedBlockFlag else rowIdsFlag
  leBytes 8 schema.schemaId.toNat ++ leBytes 8 baseRowId ++ leBytes 4 rowCount ++
    leBytes 4 schema.columns.length ++ leBytes 8 (toTwos 64 primaryMin) ++
      leBytes 8 (toTwos 64 primaryMax) ++ leBytes 4 dataBlockHeaderSize ++
        leBytes 4 streamTableOffset ++ leBytes 4 statisticsOffset ++ leBytes 4 statisticsLength ++
          leBytes 4 flags ++ leBytes 4 0

/-- One descriptor of the column table. -/
def columnDescriptorBytes (column : EncodedColumn) (statisticsOffset : Option ℕ) : Bytes :=
  leBytes 4 column.columnId.toNat ++ leBytes 2 column.layout ++ leBytes 2 column.flags ++
    leBytes 4 column.nullCount ++ leBytes 4 column.denseCount ++ leBytes 4 column.firstStream ++
      leBytes 2 column.streams.length ++
        leBytes 2 (if column.statistics.isSome then statsMinMax else statsNone) ++
          leBytes 4 (statisticsOffset.getD 0) ++
            leBytes 4 ((column.statistics.map List.length).getD 0)

/-- One descriptor of the stream table. -/
def streamDescriptorBytes (codec : WriterCodec) (stream : EncodedStream) : Bytes :=
  leBytes 2 stream.kind ++ leBytes 2 stream.transform ++ leBytes 2 (codecId codec) ++ leBytes 2 0 ++
    leBytes 8 stream.payloadOffset ++ leBytes 8 stream.storedLength ++
      leBytes 8 stream.transformedLength ++ leBytes 8 stream.elementCount ++ leBytes 4 stream.crc ++
        leBytes 4 0

/-- The checks the column table makes of one column. -/
def checkColumnEntry (column : EncodedColumn) (statisticsOffset : Option ℕ) : Result Unit := do
  failIf (2 ^ 16 ≤ column.streams.length) (invalidBatch "a column has too many streams")
  failIf (u32Max < statisticsOffset.getD 0) (resource "statistics offset exceeds uint32::MAX")
  failIf (u32Max < (column.statistics.map List.length).getD 0)
    (resource "statistics length exceeds uint32::MAX")

def buildDataFrameWithStatistics (schema : Schema) (rows : BlockRows) (options : WriterOptions)
    (baseRowId sequence : ℕ) : Result Bytes := do
  failIf (u32Max < rows.rowCount) (invalidBatch "the batch row count exceeds uint32::MAX")
  failIf (Limits.default.maxRowsPerBlock < rows.rowCount)
    (resource "the batch row count exceeds the default block row limit")
  let assembly ← (sortedColumns schema).foldlM (assembleColumn zstd schema rows options) {}
  let streamTableBytes ← okOr (checkedMul assembly.streamCount blockStreamDescriptorSize)
    (invalidBatch "the stream table length overflows")
  let columnTableBytes ← okOr (checkedMul schema.columns.length blockColumnDescriptorSize)
    (invalidBatch "the column table length overflows")
  let streamTableOffset ← okOr (checkedAdd dataBlockHeaderSize columnTableBytes)
    (invalidBatch "the stream table offset overflows")
  let statisticsOffset ← okOr (checkedAdd streamTableOffset streamTableBytes)
    (invalidBatch "the statistics offset overflows")
  let (area, offsets) := layOutStatistics statisticsOffset assembly.columns []
  let statistics := padToAlignment area
  failIf (Limits.default.maxFrameHeaderLength < saturatingAdd statisticsOffset statistics.length)
    (resource "the data frame header exceeds the default frame limit")
  failIf (Limits.default.maxFramePayloadLength < assembly.payload.length)
    (resource "the data frame payload exceeds the default frame limit")
  let primary ← primaryMetadata schema rows
  failIf (u32Max < schema.columns.length)
    (invalidBatch "the schema column count exceeds uint32::MAX")
  failIf (u32Max < streamTableOffset) (resource "the stream table offset exceeds uint32::MAX")
  failIf (u32Max < statisticsOffset) (resource "the statistics offset exceeds uint32::MAX")
  failIf (u32Max < statistics.length)
    (resource "the statistics area length exceeds uint32::MAX")
  (assembly.columns.zip offsets).forM fun (column, offset) ↦ checkColumnEntry column offset
  let tables :=
    blockHeader schema baseRowId rows.rowCount primary options.rowIds streamTableOffset
        statisticsOffset statistics.length ++
      ((assembly.columns.zip offsets).flatMap fun (column, offset) ↦
        columnDescriptorBytes column offset) ++
      (assembly.columns.flatMap EncodedColumn.streams).flatMap (streamDescriptorBytes options.codec)
  failIf (tables.length ≠ statisticsOffset)
    (internal "the data frame header does not match its declared statistics offset")
  buildFrame dataFrameType sequence (tables ++ statistics) assembly.payload

end Write

end Acta
