import Acta.Format.Frame
import Acta.Lib.Utf8
import Acta.Schema

/-!
# The schema frame

Checked parsing of the frame that declares the columns.  The header gives the schema ID, the column
count and the primary column; the payload is one descriptor for each column, with its name and its
type parameters, and the descriptors must fill the payload exactly.
-/

namespace Acta

open Machine Wire

/-- The header of a schema frame, as stored. -/
structure SchemaHeaderFields where
  schemaId : ℕ
  columnCount : ℕ
  primaryColumnId : ℕ
  flags : ℕ

/-- The fixed part of a column descriptor, as stored. -/
structure DescriptorFields where
  length : ℕ
  columnId : ℕ
  typeId : ℕ
  flags : ℕ
  nameLength : ℕ
  parametersLength : ℕ

/-- Where a descriptor starts, and how much payload is left for it. -/
structure DescriptorPlace where
  offset : ℕ
  remaining : ℕ

/-- A parsed column descriptor. -/
structure Descriptor where
  offset : ℕ
  nextPosition : ℕ
  columnId : ℕ
  nullable : Bool
  name : String
  logicalType : LogicalType

namespace SchemaFrame

def descriptorPrefixSize : ℕ := 24

/-- Type-parameter records are padded to the frame alignment, and the stored length includes the
padding. -/
def parameterAlignment : ℕ := frameAlignment

def timestampParameterPrefixSize : ℕ := 8
def decimalParameterSize : ℕ := 8
def categoricalParameterSize : ℕ := 8
def fixedBinaryParameterSize : ℕ := 8

/-- The smallest multiple of `alignment` that is at least `n`, undefined on overflow. -/
def checkedNextMultipleOf (n alignment : ℕ) : Option ℕ :=
  if n % alignment = 0 then some n else checkedAdd n (alignment - n % alignment)

/-- Place an error in a region of the schema frame. -/
def schemaError (error : Error) (region : ErrorContext) : Error :=
  (error.withContext (.frame 0)).withContext region

/-- Place every failure in a region of the schema frame. -/
def inRegion {α : Type} (result : Result α) (region : ErrorContext) : Result α :=
  result.mapError (schemaError · region)

def checkedOffset (base relative : ℕ) (message : String) : Result ℕ :=
  okOr (checkedAdd base relative) (schemaError (Error.corruption message (some base)) .payload)

/-! ### The header -/

def checkFrameType (frame : FrameMetadata) : Result Unit :=
  failIf (frame.frameType ≠ schemaFrameType)
    ((Error.corruption "expected a schema frame" (some frame.frameOffset)).withContext
      (.frame frame.sequence))

open Cursor in
/-- The header fields in declaration order. -/
def parseHeaderFields : CursorM SchemaHeaderFields := do
  let schemaId ← readU64 "schema ID"
  let columnCount ← readU32 "schema column count"
  let primaryColumnId ← readU32 "primary timestamp column ID"
  let flags ← readU32 "schema flags"
  skip schemaReservedSize "schema reserved field"
  return { schemaId, columnCount, primaryColumnId, flags }

def parseHeader (bytes : Bytes) (offset : ℕ) : Result SchemaHeaderFields :=
  parseHeaderFields.run' (Cursor.new bytes offset)

def readHeader (file : Bytes) (frame : FrameMetadata) : Result SchemaHeaderFields := do
  let bytes ← inRegion (readExactAt file frame.headerOffset schemaFrameHeaderSize) .header
  inRegion (parseHeader bytes frame.headerOffset) .header

def checkHeader (fields : SchemaHeaderFields) (frame : FrameMetadata) (limits : Limits) :
    Result Unit := do
  let offsetOf := fieldOffset frame.headerOffset
  failIf (fields.schemaId = 0)
    (schemaError (Error.corruption "schema ID must be nonzero" (offsetOf schemaIdField)) .header)
  failIf (fields.columnCount = 0)
    (schemaError (Error.corruption "schema column count must be nonzero"
      (offsetOf schemaColumnCountField)) .header)
  failIf (fields.flags ≠ 0)
    (schemaError (Error.corruption "schema flags are nonzero in v0.2" (offsetOf schemaFlagsField))
      .header)
  failIf (limits.maxSchemaColumns < fields.columnCount)
    (schemaError (Error.resourceLimit
      s!"schema column count {fields.columnCount} exceeds the {limits.maxSchemaColumns}-column limit"
      (offsetOf schemaColumnCountField)) .header)
  -- Every descriptor occupies at least its own prefix, so the payload bounds the column count.
  let declaredCapacity := frame.payloadLength / schemaDescriptorSize
  failIf (declaredCapacity < fields.columnCount)
    (schemaError (Error.corruption
      s!"schema declares {fields.columnCount} columns but its {frame.payloadLength}-byte payload holds at most {declaredCapacity}"
      (offsetOf schemaColumnCountField)) .header)

/-! ### Column descriptors -/

def readAllocated (file : Bytes) (offset length : ℕ) (field : String) (maxLength : ℕ) :
    Result Bytes := do
  failIf (maxLength < length)
    (schemaError (Error.resourceLimit
      s!"{field} length {length} exceeds the {maxLength}-byte limit" (some offset)) .payload)
  inRegion (readExactAt file offset length) .payload

def readName (file : Bytes) (offset length : ℕ) (limits : Limits) : Result String := do
  let bytes ← readAllocated file offset length "column name" limits.maxSchemaFieldLength
  okOr (utf8Decode bytes)
    (schemaError (Error.corruption "column name is not valid UTF-8" (some offset)) .payload)

open Cursor in
/-- The descriptor fields in declaration order. -/
def descriptorFields : CursorM DescriptorFields := do
  let length ← readU32 "schema descriptor length"
  let columnId ← readU32 "schema column ID"
  let typeId ← readU16 "schema logical type ID"
  let flags ← readU16 "schema column flags"
  let nameLength ← readU32 "schema name length"
  let parametersLength ← readU32 "schema type-parameter length"
  skip schemaDescriptorReservedSize "schema descriptor reserved field"
  return { length, columnId, typeId, flags, nameLength, parametersLength }

def parseDescriptorFields (bytes : Bytes) (offset : ℕ) : Result DescriptorFields :=
  descriptorFields.run' (Cursor.new bytes offset)

def locateDescriptor (frame : FrameMetadata) (payloadPosition : ℕ) : Result DescriptorPlace := do
  let offset ← checkedOffset frame.payloadOffset payloadPosition
    "schema descriptor offset overflow"
  let remaining ← okOr (checkedSub frame.payloadLength payloadPosition)
    (schemaError (Error.corruption "schema descriptor offset exceeds payload" (some offset))
      .payload)
  failIf (remaining < schemaDescriptorSize)
    (schemaError (Error.corruption "schema payload ends inside a column descriptor prefix"
      (some offset)) .payload)
  return { offset, remaining }

def checkFieldLength (length : ℕ) (field : String) (offset : Option ℕ) (limits : Limits) :
    Result Unit :=
  failIf (limits.maxSchemaFieldLength < length)
    (schemaError (Error.resourceLimit
      s!"{field} length {length} exceeds the {limits.maxSchemaFieldLength}-byte limit" offset)
      .payload)

def checkDescriptorFields (fields : DescriptorFields) (place : DescriptorPlace) (limits : Limits) :
    Result Unit := do
  let offsetOf := fieldOffset place.offset
  failIf (fields.length < schemaDescriptorSize ∨ fields.length % frameAlignment ≠ 0)
    (schemaError (Error.corruption s!"invalid schema descriptor length {fields.length}"
      (offsetOf schemaDescriptorLengthField)) .payload)
  failIf (place.remaining < fields.length)
    (schemaError (Error.corruption "schema descriptor extends beyond its payload"
      (offsetOf schemaDescriptorLengthField)) .payload)
  failIf (fields.flags &&& (2 ^ 16 - 1 - nullableColumnFlag) ≠ 0)
    (schemaError (Error.corruption "unknown schema column flags"
      (offsetOf schemaDescriptorFlagsField)) .payload)
  let contentLength ← okOr (do
      let length ← checkedAdd descriptorPrefixSize fields.nameLength
      checkedAdd length fields.parametersLength)
    (schemaError (Error.corruption "schema descriptor content length overflow"
      (some place.offset)) .payload)
  failIf (fields.length < contentLength)
    (schemaError (Error.corruption "schema name and parameters exceed descriptor length"
      (offsetOf schemaDescriptorLengthField)) .payload)
  checkFieldLength fields.nameLength "column name" (offsetOf schemaDescriptorNameLengthField) limits
  checkFieldLength fields.parametersLength "type-parameter"
    (offsetOf schemaDescriptorParametersLengthField) limits

/-! ### Type parameters -/

def noParameters (parameters : Bytes) (invalidLength : Error) (value : LogicalType) :
    Result LogicalType := do
  failIf (parameters ≠ []) invalidLength
  return value

def parseDecimal (parameters : Bytes) (offset : ℕ) (invalidLength : Error) :
    Result LogicalType := do
  failIf (parameters.length ≠ decimalParameterSize) invalidLength
  let (precision, scale) ← (do
    let precision ← Cursor.readU16 "decimal precision"
    let scale ← Cursor.readU16 "decimal scale"
    let _ ← Cursor.readU32 "decimal reserved field"
    return (precision, scale) : CursorM (ℕ × ℕ)).run' (Cursor.new parameters offset)
  failIf (¬(1 ≤ precision ∧ precision ≤ 18))
    (schemaError (Error.corruption "decimal precision must be between 1 and 18" (some offset))
      .payload)
  return .decimal (UInt16.ofNat precision) (UInt16.ofNat scale).toInt16

def timeUnitOf (code offset : ℕ) : Result TimeUnit :=
  match code with
  | 0 => .ok .second
  | 1 => .ok .millisecond
  | 2 => .ok .microsecond
  | 3 => .ok .nanosecond
  | value => .error (schemaError
      (Error.corruption s!"unknown timestamp unit {value}" (some offset)) .payload)

/-- The timezone a mode and a name spell.  Only mode two carries a name. -/
def timeZoneOf (mode : ℕ) (name : Bytes) (offset : ℕ) : Result TimeZone :=
  if mode = 0 ∧ name.length = 0 then
    .ok .naive
  else if mode = 1 ∧ name.length = 0 then
    .ok .utc
  else if mode = 2 ∧ name.length ≠ 0 then do
    let name ← okOr (utf8Decode name)
      (schemaError (Error.corruption "timezone name is not valid UTF-8" (some offset)) .payload)
    return .iana name
  else
    .error (schemaError
      (Error.corruption "invalid timestamp timezone mode or name" (some offset)) .payload)

/-- The timestamp record is padded after the timezone name, so its stored length is the fixed part
and the name, rounded up. -/
def parseTimestamp (parameters : Bytes) (offset : ℕ) (invalidLength : Error) :
    Result LogicalType := do
  failIf (parameters.length < timestampParameterPrefixSize) invalidLength
  let (unitCode, cursor) ← Cursor.readUInt 1 "timestamp unit" (Cursor.new parameters offset)
  let unit ← timeUnitOf unitCode offset
  let (timezoneMode, nameLength) ← (do
    let mode ← Cursor.readUInt 1 "timestamp timezone mode"
    let _ ← Cursor.readU16 "timestamp reserved field"
    let length ← Cursor.readU32 "timezone name length"
    return (mode, length) : CursorM (ℕ × ℕ)).run' cursor
  let nameStart := timestampParameterPrefixSize
  let nameEnd ← okOr (checkedAdd nameStart nameLength)
    (schemaError (Error.corruption "timezone name length overflows parameters" (some offset))
      .payload)
  let expectedLength ← okOr (checkedNextMultipleOf nameEnd parameterAlignment)
    (schemaError (Error.corruption "timestamp parameter length overflow" (some offset)) .payload)
  failIf (expectedLength ≠ parameters.length ∨ parameters.length < nameEnd) invalidLength
  let timezone ← timeZoneOf timezoneMode (slice parameters nameStart nameLength) offset
  return .timestamp unit timezone

def parseCategorical (parameters : Bytes) (offset : ℕ) (invalidLength : Error) :
    Result LogicalType := do
  failIf (parameters.length ≠ categoricalParameterSize) invalidLength
  let ordered := leNat (slice parameters 0 1)
  failIf (1 < ordered)
    (schemaError (Error.corruption "categorical ordered flag must be zero or one" (some offset))
      .payload)
  return .categorical (ordered ≠ 0)

def parseFixedBinary (parameters : Bytes) (offset : ℕ) (invalidLength : Error) :
    Result LogicalType := do
  failIf (parameters.length ≠ fixedBinaryParameterSize) invalidLength
  let width ← (do
    let width ← Cursor.readU32 "fixed_binary byte width"
    let _ ← Cursor.readU32 "fixed_binary reserved field"
    return width : CursorM ℕ).run' (Cursor.new parameters offset)
  failIf (width = 0)
    (schemaError (Error.corruption "fixed_binary width must be nonzero" (some offset)) .payload)
  return .fixedBinary (UInt32.ofNat width)

def parseType (typeId : ℕ) (parameters : Bytes) (parametersOffset descriptorOffset : ℕ) :
    Result LogicalType :=
  let invalidLength := schemaError (Error.corruption
    s!"invalid parameter length {parameters.length} for logical type {typeId}"
    (fieldOffset descriptorOffset schemaDescriptorParametersLengthField)) .payload
  if typeId = typeBool then noParameters parameters invalidLength .bool
  else if typeId = typeInt8 then noParameters parameters invalidLength .int8
  else if typeId = typeInt16 then noParameters parameters invalidLength .int16
  else if typeId = typeInt32 then noParameters parameters invalidLength .int32
  else if typeId = typeInt64 then noParameters parameters invalidLength .int64
  else if typeId = typeUInt8 then noParameters parameters invalidLength .uint8
  else if typeId = typeUInt16 then noParameters parameters invalidLength .uint16
  else if typeId = typeUInt32 then noParameters parameters invalidLength .uint32
  else if typeId = typeUInt64 then noParameters parameters invalidLength .uint64
  else if typeId = typeFloat32 then noParameters parameters invalidLength .float32
  else if typeId = typeFloat64 then noParameters parameters invalidLength .float64
  else if typeId = typeUtf8 then noParameters parameters invalidLength .utf8
  else if typeId = typeBinary then noParameters parameters invalidLength .binary
  else if typeId = typeDate32 then noParameters parameters invalidLength .date32
  else if typeId = typeDecimal64 then parseDecimal parameters parametersOffset invalidLength
  else if typeId = typeTimestamp64 then parseTimestamp parameters parametersOffset invalidLength
  else if typeId = typeCategorical then parseCategorical parameters parametersOffset invalidLength
  else if typeId = typeFixedBinary then parseFixedBinary parameters parametersOffset invalidLength
  else .error (schemaError
    (Error.unsupportedFrame s!"unsupported logical type ID {typeId}"
      (fieldOffset descriptorOffset schemaDescriptorTypeField)) .payload)

def parseDescriptor (file : Bytes) (frame : FrameMetadata) (payloadPosition : ℕ)
    (limits : Limits) : Result Descriptor := do
  let place ← locateDescriptor frame payloadPosition
  let bytes ← inRegion (readExactAt file place.offset descriptorPrefixSize) .payload
  let fields ← parseDescriptorFields bytes place.offset
  checkDescriptorFields fields place limits
  let nameOffset ← checkedOffset place.offset descriptorPrefixSize "schema name offset overflow"
  let name ← readName file nameOffset fields.nameLength limits
  let parametersOffset ← checkedOffset nameOffset fields.nameLength
    "schema type-parameter offset overflow"
  let parameters ← readAllocated file parametersOffset fields.parametersLength "type parameters"
    limits.maxSchemaFieldLength
  let logicalType ← parseType fields.typeId parameters parametersOffset place.offset
  let nextPosition ← okOr (checkedAdd payloadPosition fields.length)
    (schemaError (Error.corruption "schema payload position overflow" (some place.offset)) .payload)
  return { offset := place.offset, nextPosition, columnId := fields.columnId,
           nullable := fields.flags &&& nullableColumnFlag ≠ 0, name, logicalType }

/-! ### The columns -/

/-- Accept one more column, whose ID and name must be new.  The accepted columns carry the IDs and
names seen so far. -/
def insertColumn (columns : List Column) (descriptor : Descriptor) : Result (List Column) := do
  let id := UInt32.ofNat descriptor.columnId
  failIf (descriptor.columnId = 0)
    (schemaError (Error.corruption "schema column ID must be nonzero"
      (fieldOffset descriptor.offset schemaDescriptorColumnIdField)) .payload)
  failIf (id ∈ columns.map Column.id)
    (schemaError (Error.corruption "schema column ID is duplicated"
      (fieldOffset descriptor.offset schemaDescriptorColumnIdField)) .payload)
  failIf (descriptor.name ∈ columns.map Column.name)
    (schemaError (Error.corruption "schema column name is duplicated"
      (fieldOffset descriptor.offset schemaDescriptorNameLengthField)) .payload)
  return columns ++ [{ id, name := descriptor.name, logicalType := descriptor.logicalType,
                       nullable := descriptor.nullable }]

/-- Read `count` more descriptors from a payload position. -/
def readDescriptors (file : Bytes) (frame : FrameMetadata) (limits : Limits) :
    ℕ → ℕ → List Column → Result (ℕ × List Column)
  | 0, payloadPosition, columns => .ok (payloadPosition, columns)
  | count + 1, payloadPosition, columns => do
    let descriptor ← parseDescriptor file frame payloadPosition limits
    let columns ← insertColumn columns descriptor
    readDescriptors file frame limits count descriptor.nextPosition columns

/-- Read exactly `columnCount` descriptors, which must fill the payload. -/
def readColumns (file : Bytes) (frame : FrameMetadata) (columnCount : ℕ) (limits : Limits) :
    Result (List Column) := do
  let (payloadPosition, columns) ← readDescriptors file frame limits columnCount 0 []
  failIf (payloadPosition ≠ frame.payloadLength)
    (schemaError (Error.corruption
      s!"schema descriptors consume {payloadPosition} payload bytes, expected {frame.payloadLength}"
      (some frame.payloadOffset)) .payload)
  return columns

def isPrimaryCandidate (column : Column) : Bool :=
  !column.nullable && match column.logicalType with
    | .timestamp _ _ | .date32 => true
    | _ => false

/-- Resolve the primary selection against the declared columns. -/
def resolvePrimary (columns : List Column) (fields : SchemaHeaderFields) (frame : FrameMetadata) :
    Result (Option UInt32) :=
  if fields.primaryColumnId = noPrimaryColumnId then
    .ok none
  else do
    let invalid := fun message ↦ schemaError (Error.corruption message
      (fieldOffset frame.headerOffset schemaPrimaryColumnIdField)) .header
    let column ← okOr (columns.find? (·.id.toNat = fields.primaryColumnId))
      (invalid "primary timestamp column ID is not declared")
    failIf (¬isPrimaryCandidate column)
      (invalid "primary column must be a non-nullable timestamp or date32 column")
    return some (UInt32.ofNat fields.primaryColumnId)

/-- Parse and validate the schema frame after its generic framing has passed. -/
def parse (file : Bytes) (frame : FrameMetadata) (limits : Limits) : Result Schema := do
  checkFrameType frame
  let fields ← readHeader file frame
  checkHeader fields frame limits
  let columns ← readColumns file frame fields.columnCount limits
  let primaryColumnId ← resolvePrimary columns fields frame
  return { schemaId := UInt64.ofNat fields.schemaId, columns, primaryColumnId }

end SchemaFrame

end Acta
