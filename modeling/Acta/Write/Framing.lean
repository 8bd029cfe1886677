import Acta.Crc32c
import Acta.Lib.Checked
import Acta.Lib.Utf8
import Acta.Limits
import Acta.Schema
import Acta.Write.Api

/-!
# Framing

The bytes of a prologue, of a frame and of a schema frame.
-/

namespace Acta

open Machine Wire

namespace Write

/-- Bytes that carry no information. -/
def zeros (length : ℕ) : Bytes := List.replicate length 0

def paddedLength (length : ℕ) : Result ℕ := do
  let length ← okOr (checkedAdd length (frameAlignment - 1))
    (resource "aligned length overflows usize")
  return length / frameAlignment * frameAlignment

def padToAlignment (bytes : Bytes) : Bytes :=
  let remainder := bytes.length % frameAlignment
  if remainder ≠ 0 then bytes ++ zeros (frameAlignment - remainder) else bytes

/-! ### The prologue -/

/-- The prologue without its checksum.  A fixed file identity makes serialization deterministic. -/
def prologueBody (featureFlags : ℕ) : Bytes :=
  fileMagic ++ leBytes 2 formatMajor ++ leBytes 2 formatMinor ++ leBytes 4 prologueSize ++
    leBytes 8 featureFlags ++ zeros fileIdSize ++ leBytes 8 schemaFrameOffset ++
      zeros prologueReservedSize

def buildPrologue (featureFlags : ℕ) : Bytes :=
  prologueBody featureFlags ++ leBytes 4 (checksum (prologueBody featureFlags))

/-! ### Frames -/

/-- A frame prefix without its own checksum. -/
def prefixBody (frameType sequence : ℕ) (header payload : Bytes) : Bytes :=
  frameMagic ++ leBytes 2 frameType ++ leBytes 2 frameVersion ++ leBytes 4 frameFlags ++
    leBytes 4 header.length ++ zeros prefixReservedSize ++ leBytes 8 payload.length ++
      leBytes 8 sequence ++ leBytes 4 (checksum header)

def buildPrefix (frameType sequence : ℕ) (header payload : Bytes) : Bytes :=
  let body := prefixBody frameType sequence header payload
  body ++ leBytes 4 (checksum body)

/-- The trailer fields before the trailer's own checksum. -/
def trailerBody (totalLength sequence bodyCrc : ℕ) : Bytes :=
  leBytes 8 totalLength ++ leBytes 8 sequence ++ leBytes 4 bodyCrc

def buildTrailer (totalLength sequence bodyCrc : ℕ) : Bytes :=
  let body := trailerBody totalLength sequence bodyCrc
  let crc := ((Crc32c.new.update body).update commitMagic).finish
  body ++ leBytes 4 crc ++ commitMagic

def buildFrame (frameType sequence : ℕ) (header payload : Bytes) : Result Bytes := do
  failIf (header.length % frameAlignment ≠ 0 ∨ payload.length % frameAlignment ≠ 0)
    (internal "the writer built an unaligned frame region")
  failIf (u32Max < header.length) (resource "frame header exceeds uint32::MAX")
  let totalLength ← okOr (do
      let length ← checkedAdd prefixSize header.length
      let length ← checkedAdd length payload.length
      checkedAdd length trailerSize)
    (resource "frame length overflows uint64")
  let framePrefix := buildPrefix frameType sequence header payload
  let bodyCrc := (((Crc32c.new.update framePrefix).update header).update payload).finish
  return framePrefix ++ header ++ payload ++ buildTrailer totalLength sequence bodyCrc

/-! ### The schema frame -/

def timeUnitCode : TimeUnit → ℕ
  | .second => 0
  | .millisecond => 1
  | .microsecond => 2
  | .nanosecond => 3

/-- The mode and the name a timezone is stored as. -/
def timeZoneModeAndName : TimeZone → Result (ℕ × String)
  | .naive => .ok (0, "")
  | .utc => .ok (1, "")
  | .iana name => do
    failIf (name = "") (invalidSchema "an IANA timezone name cannot be empty")
    return (2, name)

def integerTypeId : IntType → ℕ
  | .int8 => typeInt8
  | .int16 => typeInt16
  | .int32 => typeInt32
  | .int64 => typeInt64
  | .uint8 => typeUInt8
  | .uint16 => typeUInt16
  | .uint32 => typeUInt32
  | .uint64 => typeUInt64

def typeIdAndParameters (logicalType : LogicalType) : Result (ℕ × Bytes) :=
  match logicalType with
  | .bool => .ok (typeBool, [])
  | .integer type => .ok (integerTypeId type, [])
  | .float32 => .ok (typeFloat32, [])
  | .float64 => .ok (typeFloat64, [])
  | .decimal precision scale => do
    failIf (¬(1 ≤ precision.toNat ∧ precision.toNat ≤ 18))
      (invalidSchema "decimal precision must be between 1 and 18")
    return (typeDecimal64,
      leBytes 2 precision.toNat ++ leBytes 2 scale.toUInt16.toNat ++ leBytes 4 0)
  | .timestamp unit timezone => do
    let (mode, name) ← timeZoneModeAndName timezone
    failIf (u32Max < (utf8Bytes name).length) (invalidSchema "timezone name exceeds uint32::MAX")
    return (typeTimestamp64, padToAlignment (leBytes 1 (timeUnitCode unit) ++ leBytes 1 mode ++
      zeros 2 ++ leBytes 4 (utf8Bytes name).length ++ utf8Bytes name))
  | .utf8 => .ok (typeUtf8, [])
  | .categorical ordered => .ok (typeCategorical, leBytes 1 ordered.toNat ++ zeros 7)
  | .binary => .ok (typeBinary, [])
  | .fixedBinary byteWidth => do
    failIf (byteWidth = 0) (invalidSchema "fixed_binary width must be nonzero")
    return (typeFixedBinary, leBytes 4 byteWidth.toNat ++ leBytes 4 0)
  | .date32 => .ok (typeDate32, [])

/-- One column descriptor, padded to the frame alignment. -/
def buildDescriptor (column : Column) : Result Bytes := do
  let (typeId, parameters) ← typeIdAndParameters column.logicalType
  failIf (Limits.default.maxSchemaFieldLength < parameters.length)
    (resource "type parameters exceed the default schema field limit")
  let name := utf8Bytes column.name
  let contentLength ← okOr (do
      let length ← checkedAdd schemaDescriptorSize name.length
      checkedAdd length parameters.length)
    (invalidSchema "schema descriptor length overflows")
  let descriptorLength ← paddedLength contentLength
  failIf (u32Max < descriptorLength) (invalidSchema "schema descriptor exceeds uint32::MAX")
  failIf (u32Max < name.length) (invalidSchema "column name exceeds uint32::MAX")
  failIf (u32Max < parameters.length) (invalidSchema "type parameters exceed uint32::MAX")
  return leBytes 4 descriptorLength ++ leBytes 4 column.id.toNat ++ leBytes 2 typeId ++
    leBytes 2 (if column.nullable then nullableColumnFlag else 0) ++ leBytes 4 name.length ++
      leBytes 4 parameters.length ++ leBytes 4 0 ++ name ++ parameters ++
        zeros (descriptorLength - contentLength)

def schemaHeader (schema : Schema) : Bytes :=
  leBytes 8 schema.schemaId.toNat ++ leBytes 4 schema.columns.length ++
    leBytes 4 ((schema.primaryColumnId.map UInt32.toNat).getD noPrimaryColumnId) ++
      leBytes 4 0 ++ leBytes 4 0

/-- Descriptors stand in schema order, which is the order a reader reports the columns in. -/
def buildSchemaFrame (schema : Schema) : Result Bytes := do
  failIf (u32Max < schema.columns.length)
    (invalidSchema "schema column count exceeds uint32::MAX")
  let descriptors ← schema.columns.mapM buildDescriptor
  let payload := descriptors.flatten
  failIf (Limits.default.maxFramePayloadLength < payload.length)
    (resource "the schema frame payload exceeds the default frame limit")
  buildFrame schemaFrameType schemaFrameSequence (schemaHeader schema) payload

end Write

end Acta
