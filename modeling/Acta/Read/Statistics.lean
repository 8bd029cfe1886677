import Acta.Format.DataFrame
import Acta.Statistics

/-!
# Verifying statistics

Min/max statistics are optional and, when present, exact: they are the extrema of a column's
non-null, non-NaN values.  A reader that decodes a column learns enough to falsify them, and does so
right after the column's values are reconstructed.
-/

namespace Acta

open Machine Wire

/-- What one column descriptor claims about its optional statistics. -/
inductive StatisticsClaim
  | absent
  | minMax (length : ℕ)
  deriving DecidableEq, Repr

namespace Validate

def statisticsError (column : Column) (message : String) (offset : Option ℕ) : Error :=
  (Error.corruption s!"column {column.name}: {message}" offset).withContext .header

/-- Fixed-width statistics use the logical type's canonical width. -/
def canonicalWidth (column : Column) : Result ℕ :=
  match column.logicalType with
  | .bool => .ok 1
  | .integer type => .ok type.width
  | .float32 | .date32 => .ok 4
  | .float64 | .decimal _ _ | .timestamp _ _ => .ok 8
  | .fixedBinary byteWidth =>
    if byteWidth ≠ 0 then .ok byteWidth.toNat
    else .error (statisticsError column "fixed_binary statistics have zero logical width" none)
  | .utf8 | .categorical _ | .binary =>
    .error (statisticsError column
      "v0.2 min/max statistics are unsupported for this logical type" none)

/-- Decide what a descriptor claims, rejecting a descriptor that contradicts itself. -/
def classify (descriptor : ColumnBlockDescriptor) (column : Column) (headerOffset : ℕ) :
    Result StatisticsClaim :=
  let hasStats : Bool := descriptor.flags &&& columnHasStatsFlag ≠ 0
  if descriptor.statsKind = statsNone then do
    failIf (hasStats ∨ descriptor.statsOffset ≠ 0 ∨ descriptor.statsLength ≠ 0)
      (statisticsError column "statistics flag, kind, offset, and length disagree"
        (some headerOffset))
    return .absent
  else if descriptor.statsKind = statsMinMax then do
    failIf (¬hasStats)
      (statisticsError column "min/max statistics are present without the statistics flag"
        (some headerOffset))
    let width ← canonicalWidth column
    let length ← okOr (checkedMul width 2)
      (statisticsError column "statistics length overflows" (some headerOffset))
    return .minMax length
  else
    .error ((Error.unsupportedFrame
      s!"column {column.name}: unsupported statistics kind {descriptor.statsKind}"
      (some headerOffset)).withContext .header)

/-- Resolve a descriptor's statistics range to a byte range of the snapshot, or explain why it is
not one. -/
def statisticsRange (frame : FrameMetadata) (descriptor : ColumnBlockDescriptor) (column : Column)
    (fileSize : ℕ) (limits : Limits) : Result (ℕ × ℕ) := do
  let length := descriptor.statsLength
  let headerEnd ← okOr (checkedAdd frame.headerOffset frame.headerLength)
    (statisticsError column "frame header offset overflows" none)
  let absoluteOffset ← okOr (checkedAdd frame.headerOffset descriptor.statsOffset)
    (statisticsError column "statistics offset overflows" none)
  let absoluteEnd ← okOr (checkedAdd absoluteOffset length)
    (statisticsError column "statistics range overflows" (some absoluteOffset))
  failIf (headerEnd < absoluteEnd)
    (statisticsError column "statistics range leaves the frame header" (some absoluteOffset))
  failIf (fileSize < absoluteEnd)
    (statisticsError column "statistics range leaves the validation snapshot"
      (some absoluteOffset))
  failIf (limits.maxFrameHeaderLength < length)
    ((Error.resourceLimit
      s!"column {column.name}: statistics length {length} exceeds the {limits.maxFrameHeaderLength}-byte header limit"
      (some absoluteOffset)).withContext .header)
  return (absoluteOffset, length)

def readStatistics (file : Bytes) (fileSize : ℕ) (frame : FrameMetadata)
    (descriptor : ColumnBlockDescriptor) (column : Column) (limits : Limits) : Result Bytes := do
  let (absoluteOffset, length) ← statisticsRange frame descriptor column fileSize limits
  (readExactAt file absoluteOffset length).withContext .header

/-! ### The stored statistics -/

def parseBool (bytes : Bytes) (column : Column) : Result Bool :=
  match bytes with
  | [value] =>
    if value = 0 then .ok false
    else if value = 1 then .ok true
    else .error (statisticsError column "Boolean statistics must contain only zero or one" none)
  | _ => .error (statisticsError column "Boolean statistics must be one byte" none)

def parseSigned (bytes : Bytes) (column : Column) : Result ℤ := do
  failIf (bytes.length ∉ [1, 2, 4, 8])
    (statisticsError column "signed statistics have the wrong width" none)
  return ofTwos (8 * bytes.length) (leNat bytes)

def parseUnsigned (bytes : Bytes) (column : Column) : Result ℕ := do
  failIf (bytes.length ∉ [1, 2, 4, 8])
    (statisticsError column "unsigned statistics have the wrong width" none)
  return leNat bytes

def parseFloat32 (bytes : Bytes) (column : Column) : Result UInt32 := do
  failIf (bytes.length ≠ 4) (statisticsError column "float32 statistics must be four bytes" none)
  let value := UInt32.ofNat (leNat bytes)
  failIf ((StatisticValue.float32 value).isNan = true)
    (statisticsError column "a stored minimum or maximum is NaN" none)
  return value

def parseFloat64 (bytes : Bytes) (column : Column) : Result UInt64 := do
  failIf (bytes.length ≠ 8) (statisticsError column "float64 statistics must be eight bytes" none)
  let value := UInt64.ofNat (leNat bytes)
  failIf ((StatisticValue.float64 value).isNan = true)
    (statisticsError column "a stored minimum or maximum is NaN" none)
  return value

/-- One stored extremum, in the domain the logical type compares in. -/
def parseStatistic (bytes : Bytes) (column : Column) : Result StatisticValue :=
  match column.logicalType with
  | .bool => do return .bool (← parseBool bytes column)
  | .integer type =>
    if type.signed then do return .signed (← parseSigned bytes column)
    else do return .unsigned (← parseUnsigned bytes column)
  | .decimal _ _ | .timestamp _ _ | .date32 => do return .signed (← parseSigned bytes column)
  | .float32 => do return .float32 (← parseFloat32 bytes column)
  | .float64 => do return .float64 (← parseFloat64 bytes column)
  | .fixedBinary _ => .ok (.bytes bytes)
  | .utf8 | .categorical _ | .binary =>
    .error (statisticsError column
      "v0.2 min/max statistics are unsupported for this logical type" none)

/-- The stored minimum and maximum. -/
def parseStoredStatistics (bytes : Bytes) (column : Column) :
    Result (StatisticValue × StatisticValue) := do
  let width ← canonicalWidth column
  failIf (bytes.length < saturatingMul width 2)
    (statisticsError column "statistics bytes have the wrong length" none)
  let minimum ← parseStatistic (slice bytes 0 width) column
  let maximum ← parseStatistic (slice bytes width width) column
  return (minimum, maximum)

def verifyStoredOrder (column : Column) (minimum maximum : StatisticValue) : Result Unit :=
  match minimum.compare maximum with
  | some .gt =>
    .error (statisticsError column "stored minimum is greater than stored maximum" none)
  | none => .error (statisticsError column "stored statistics have incompatible types" none)
  | _ => .ok ()

/-! ### The decoded values -/

def scalarValue (value : ScalarValue) (column : Column) : Result StatisticValue :=
  okOr value.statistic (statisticsError column
    "v0.2 min/max statistics are unsupported for this logical type" none)

/-- Take one row into the extrema, unless it is null or NaN. -/
def reduceRow (column : Column) (extrema : Extrema) (row : Option ScalarValue) :
    Result Extrema :=
  match row with
  | none => .ok extrema
  | some value => do
    let statistic ← scalarValue value column
    if statistic.isNan then return extrema else return extrema.push statistic

/-- The extrema of the decoded values. -/
def reduceDecodedValues (array : LogicalArray) (column : Column) :
    Result (Option (StatisticValue × StatisticValue)) := do
  let extrema ← array.rows.foldlM (reduceRow column) {}
  return extrema.pair

def verifyMatches (column : Column) (stored actual : StatisticValue × StatisticValue) :
    Result Unit :=
  failIf (stored.1.compare actual.1 ≠ some .eq ∨ stored.2.compare actual.2 ≠ some .eq)
    (statisticsError column "stored min/max statistics disagree with decoded values" none)

/-- Verify one column's optional statistics against its decoded values. -/
def verifyColumnStatistics (file : Bytes) (fileSize : ℕ) (frame : FrameMetadata)
    (descriptor : ColumnBlockDescriptor) (column : Column) (array : LogicalArray)
    (limits : Limits) : Result Unit := do
  match ← classify descriptor column frame.headerOffset with
  | .absent => return ()
  | .minMax expectedLength =>
    failIf (descriptor.statsLength ≠ expectedLength)
      (statisticsError column
        s!"min/max statistics require {expectedLength} bytes, found {descriptor.statsLength}"
        (some frame.headerOffset))
    let bytes ← readStatistics file fileSize frame descriptor column limits
    let stored ← parseStoredStatistics bytes column
    verifyStoredOrder column stored.1 stored.2
    let actual ← okOr (← reduceDecodedValues array column)
      (statisticsError column "a present min/max statistic has no non-null, non-NaN value"
        (some frame.headerOffset))
    verifyMatches column stored actual

end Validate

end Acta
