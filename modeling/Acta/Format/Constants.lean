import Mathlib.Algebra.Order.Ring.Nat

/-!
# Fixed values of the wire format

Names ending in `Field` are byte offsets of a field within its own structure; names ending in
`Size` are structure or field lengths.
-/

namespace Acta

/-- A byte string. -/
abbrev Bytes := List UInt8

/-- The eight bytes every file begins with, `ACTA\r\n\x1a\n`. -/
def fileMagic : Bytes := [0x41, 0x43, 0x54, 0x41, 0x0d, 0x0a, 0x1a, 0x0a]

/-- The eight bytes every frame begins with, `ACTAFRM\n`. -/
def frameMagic : Bytes := [0x41, 0x43, 0x54, 0x41, 0x46, 0x52, 0x4d, 0x0a]

/-- The eight bytes every complete frame ends with, `ACTAEND\n`. -/
def commitMagic : Bytes := [0x41, 0x43, 0x54, 0x41, 0x45, 0x4e, 0x44, 0x0a]

def magicSize : ℕ := 8

def formatMajor : ℕ := 0
def formatMinor : ℕ := 2

/-- Prologue feature bit zero, which enables implicit row IDs. -/
def rowIdsFeature : ℕ := 1
def supportedFeatures : ℕ := rowIdsFeature

/-- Header and payload lengths are multiples of eight. -/
def frameAlignment : ℕ := 8

def prologueSize : ℕ := 64
def prefixSize : ℕ := 48
def trailerSize : ℕ := 32

def fileIdSize : ℕ := 16
def prologueReservedSize : ℕ := 12
def prefixReservedSize : ℕ := 4

/-! ### File prologue -/

def prologueFormatVersionField : ℕ := 8
def prologueSizeField : ℕ := 12
def prologueFeatureFlagsField : ℕ := 16
def prologueSchemaFrameOffsetField : ℕ := 40
def prologueCrcField : ℕ := 60

/-- The schema frame always begins immediately after the prologue. -/
def schemaFrameOffset : ℕ := prologueSize

/-! ### Generic frame prefix and commit trailer -/

def prefixFrameTypeField : ℕ := 8
def prefixFrameVersionField : ℕ := 10
def prefixFrameFlagsField : ℕ := 12
def prefixHeaderLengthField : ℕ := 16
def prefixPayloadLengthField : ℕ := 24
def prefixSequenceField : ℕ := 32
def prefixCrcField : ℕ := 44

def trailerSequenceField : ℕ := 8
def trailerCrcField : ℕ := 20
def trailerCommitMagicField : ℕ := 24

/-! ### Frame types -/

def schemaFrameType : ℕ := 1
def dataFrameType : ℕ := 2
def checkpointFrameType : ℕ := 3

/-- Sequence zero belongs to the schema frame; data frames follow from one. -/
def schemaFrameSequence : ℕ := 0
def firstDataFrameSequence : ℕ := 1

def frameVersion : ℕ := 0
def frameFlags : ℕ := 0

/-! ### Schema frame -/

def schemaFrameHeaderSize : ℕ := 24
def schemaIdField : ℕ := 0
def schemaColumnCountField : ℕ := 8
def schemaPrimaryColumnIdField : ℕ := 12
def schemaFlagsField : ℕ := 16
def schemaReservedSize : ℕ := 4

/-- Column flag bit zero is nullability, and no other bit is assigned. -/
def nullableColumnFlag : ℕ := 1

def schemaDescriptorSize : ℕ := 24
def schemaDescriptorReservedSize : ℕ := 4

/-- Column ID zero is the "no primary column" sentinel. -/
def noPrimaryColumnId : ℕ := 0
def schemaDescriptorLengthField : ℕ := 0
def schemaDescriptorColumnIdField : ℕ := 4
def schemaDescriptorTypeField : ℕ := 8
def schemaDescriptorFlagsField : ℕ := 10
def schemaDescriptorNameLengthField : ℕ := 12
def schemaDescriptorParametersLengthField : ℕ := 16

/-! ### Logical type IDs -/

def typeBool : ℕ := 1
def typeInt8 : ℕ := 2
def typeInt16 : ℕ := 3
def typeInt32 : ℕ := 4
def typeInt64 : ℕ := 5
def typeUInt8 : ℕ := 6
def typeUInt16 : ℕ := 7
def typeUInt32 : ℕ := 8
def typeUInt64 : ℕ := 9
def typeFloat32 : ℕ := 10
def typeFloat64 : ℕ := 11
def typeDecimal64 : ℕ := 12
def typeTimestamp64 : ℕ := 13
def typeUtf8 : ℕ := 14
def typeCategorical : ℕ := 15
def typeBinary : ℕ := 16
def typeFixedBinary : ℕ := 17
def typeDate32 : ℕ := 18

/-! ### Data-frame block header -/

def dataBlockHeaderSize : ℕ := 64
def blockSchemaIdField : ℕ := 0
def blockBaseRowIdField : ℕ := 8
def blockRowCountField : ℕ := 16
def blockColumnCountField : ℕ := 20
def blockPrimaryMinField : ℕ := 24
def blockColumnTableOffsetField : ℕ := 40
def blockStreamTableOffsetField : ℕ := 44
def blockStatisticsOffsetField : ℕ := 48
def blockStatisticsLengthField : ℕ := 52
def blockFlagsField : ℕ := 56
def blockReservedSize : ℕ := 4
def blockColumnDescriptorSize : ℕ := 32
def blockStreamDescriptorSize : ℕ := 48
def rowIdsBlockFlag : ℕ := 1
def tsSortedBlockFlag : ℕ := 2

/-! ### Column and stream descriptors -/

def columnLayoutPlain : ℕ := 0
def columnLayoutConstant : ℕ := 1
def columnLayoutDictionary : ℕ := 2
def columnLayoutRunLength : ℕ := 3
def columnImplicitValidityFlag : ℕ := 1
def columnHasStatsFlag : ℕ := 2

def streamKindValidity : ℕ := 1
def streamKindValues : ℕ := 2
def streamKindLengths : ℕ := 3
def streamKindDictionaryValues : ℕ := 4
def streamKindDictionaryLengths : ℕ := 5
def streamKindIndices : ℕ := 6
def streamKindRunValues : ℕ := 7
def streamKindRunLengths : ℕ := 8

def transformRaw : ℕ := 0
def transformBitPacked : ℕ := 1
def transformFrameOfReference : ℕ := 2
def transformDelta : ℕ := 3
def transformDeltaOfDelta : ℕ := 4
def transformByteStreamSplit : ℕ := 5
def transformBooleanRle : ℕ := 6

def codecNone : ℕ := 0
def codecZstd : ℕ := 1

def statsNone : ℕ := 0
def statsMinMax : ℕ := 1

/-- The first block's base row ID when row IDs are enabled. -/
def firstBaseRowId : ℕ := 0

/-- The base row ID of every block when row IDs are disabled. -/
def unavailableBaseRowId : ℕ := 2 ^ 64 - 1

end Acta
