import Acta.Format.Constants
import Acta.Lib.Bits
import Acta.Lib.Checked
import Acta.Lib.Runs
import Acta.Lib.Utf8
import Acta.LogicalArray
import Acta.Write.Api
import Mathlib.Data.Nat.Size

/-!
# Candidate encodings

Profiling of one column's dense values and the physical streams each transform or layout stores them
as.  Nothing here knows about frames, offsets, checksums or codecs.

The values are prepared once, in flat buffers, and profiled once; every encoder then works from the
prepared values and the profile.  The dictionary and the numeric profile are folds over the values,
as in the source, so what they establish is an invariant of the fold.
-/

namespace Acta

open Machine Wire

namespace Candidates

def resource (what : String) : Error :=
  Error.resourceLimit s!"unable to allocate {what}" none

def invalid (what : String) : Error :=
  Error.invalidArgument what

/-- The dictionary is abandoned past this many distinct values. -/
def distinctValueLimit : ℕ := 4096

/-- The dictionary is abandoned past this many copied bytes. -/
def distinctByteLimit : ℕ := 2 ^ 20

/-- A transform or layout choice, in stable tie-breaking order. -/
inductive ValueEncoding
  | raw
  | bitPacked
  | booleanRle
  | frameOfReference
  | delta
  | deltaOfDelta
  | byteStreamSplit
  | constant
  | dictionary
  | runLength
  deriving DecidableEq, Repr

/-- The total order that breaks a tie between equally priced candidates. -/
def ValueEncoding.rank : ValueEncoding → ℕ
  | raw => 0
  | bitPacked => 1
  | booleanRle => 2
  | frameOfReference => 3
  | delta => 4
  | deltaOfDelta => 5
  | byteStreamSplit => 6
  | constant => 7
  | dictionary => 8
  | runLength => 9

/-- One uncompressed physical stream. -/
structure CandidateStream where
  kind : ℕ
  transform : ℕ
  elementCount : ℕ
  bytes : Bytes
  deriving DecidableEq, Repr

/-- One candidate's value streams and its column layout. -/
structure ValueCandidate where
  layout : ℕ
  streams : List CandidateStream

/-- Dense values in flat buffers.  `signed` is known for the integer-like types alone. -/
inductive PreparedValues
  | bool (values : List Bool)
  | fixed (width : ℕ) (signed : Option Bool) (bytes : Bytes)
  | variableWidth (bytes : Bytes) (lengths : List ℕ)
  deriving DecidableEq, Repr

structure DictionaryProfile where
  values : List Bytes
  indices : List ℕ
  deriving DecidableEq, Repr

/-- The bit width each numeric transform would need, or nothing where some value puts the transform
out of range. -/
structure NumericProfile where
  minimum : ℤ
  bitPackedBits : Option ℕ
  frameOfReferenceBits : Option ℕ
  deltaBits : Option ℕ
  deltaOfDeltaBits : Option ℕ
  deriving DecidableEq, Repr

/-- The facts shared by every candidate estimate and encoder. -/
structure ValueProfile where
  count : ℕ
  constant : Bool
  runLengths : List ℕ
  maxRunLength : ℕ
  dictionary : Option DictionaryProfile
  numeric : Option NumericProfile

/-! ### Preparing the values -/

def emptyValues (logicalType : LogicalType) : Result PreparedValues :=
  match logicalType with
  | .bool => .ok (.bool [])
  | .utf8 | .categorical _ | .binary => .ok (.variableWidth [] [])
  | .integer type => .ok (.fixed type.width (some type.signed) [])
  | .date32 => .ok (.fixed 4 (some true) [])
  | .decimal _ _ | .timestamp _ _ => .ok (.fixed 8 (some true) [])
  | .float32 => .ok (.fixed 4 none [])
  | .float64 => .ok (.fixed 8 none [])
  | .fixedBinary byteWidth => do
    failIf (byteWidth = 0) (invalid "a fixed-width column cannot have zero width")
    return .fixed byteWidth.toNat none []

/-- The little-endian or text bytes one value is stored as. -/
def storedBytes : ScalarValue → Bytes
  | ⟨.bool, value⟩ => [value.toUInt8]
  | ⟨.integer _, value⟩ => IntType.toLeBytes value
  | ⟨.float32, bits⟩ => leBytes 4 bits.toNat
  | ⟨.float64, bits⟩ => leBytes 8 bits.toNat
  | ⟨.decimal _ _, unscaled⟩ => @IntType.toLeBytes .int64 unscaled
  | ⟨.timestamp _ _, value⟩ => @IntType.toLeBytes .int64 value
  | ⟨.utf8, text⟩ => utf8Bytes text
  | ⟨.categorical, text⟩ => utf8Bytes text
  | ⟨.binary, bytes⟩ => bytes
  | ⟨.fixedBinary, bytes⟩ => bytes
  | ⟨.date32, value⟩ => @IntType.toLeBytes .int32 value

def pushVariable (bytes : Bytes) (lengths : List ℕ) (value : Bytes) : Result PreparedValues := do
  failIf (u32Max < value.length) (invalid "a value length exceeds uint32")
  return .variableWidth (bytes ++ value) (lengths ++ [value.length])

/-- Check the width a `fixed_binary` column declares against one of its values. -/
def hasDeclaredWidth (logicalType : LogicalType) (value : ScalarValue) : Bool :=
  match logicalType with
  | .fixedBinary byteWidth => (storedBytes value).length = byteWidth.toNat
  | _ => true

def pushValue (logicalType : LogicalType) (prepared : PreparedValues) (value : ScalarValue) :
    Result PreparedValues :=
  if logicalType.describes value.type then
    match prepared, value with
    | .bool values, ⟨.bool, flag⟩ => .ok (.bool (values ++ [flag]))
    | .fixed width signed bytes, value => do
      failIf (¬hasDeclaredWidth logicalType value)
        (invalid "fixed_binary value has the wrong width")
      return .fixed width signed (bytes ++ storedBytes value)
    | .variableWidth bytes lengths, value => pushVariable bytes lengths (storedBytes value)
    | _, _ => .error (invalid "a dense value does not match its logical type")
  else
    .error (invalid "a dense value does not match its logical type")

/-! ### Profiling -/

/-- The block-local dictionary, abandoned as soon as it crosses either cap.  The source's hash map
sends each of `values` to its position. -/
structure DictionaryBuilder where
  values : List Bytes := []
  indices : List ℕ := []
  copiedBytes : ℕ := 0
  exceeded : Bool := false

namespace DictionaryBuilder

def push (builder : DictionaryBuilder) (key : Bytes) : DictionaryBuilder :=
  if builder.exceeded then
    builder
  else
    match builder.values.idxOf? key with
    | some index => { builder with indices := builder.indices ++ [index] }
    | none =>
      if builder.values.length = distinctValueLimit ∨
          distinctByteLimit < saturatingAdd builder.copiedBytes key.length then
        { builder with exceeded := true, values := [], indices := [] }
      else
        { builder with
          values := builder.values ++ [key]
          copiedBytes := saturatingAdd builder.copiedBytes key.length
          indices := builder.indices ++ [builder.values.length] }

def finish (builder : DictionaryBuilder) : Option DictionaryProfile :=
  if builder.exceeded then none else
    some { values := builder.values, indices := builder.indices }

end DictionaryBuilder

/-- How many bits a number needs. -/
def bitWidth (value : ℕ) : ℕ := value.size

/-- The bit width of a value the caller has already established is nonnegative. -/
def bitWidthOf (value : ℤ) : ℕ :=
  if 0 ≤ value ∧ value ≤ u64Max then bitWidth value.toNat else 64

/-- The ZigZag code of a signed 64-bit integer. -/
def zigzag (value : ℤ) : ℕ :=
  if 0 ≤ value then (2 * value).toNat else (-2 * value - 1).toNat

/-- Read one little-endian value of at most eight stored bytes, sign-extending it from its stored
width when the logical type is signed. -/
def readNumber (bytes : Bytes) (signed : Bool) : ℤ :=
  if signed then ofTwos (8 * bytes.length) (leNat bytes) else leNat bytes

/-- What one pass over the numbers has seen.  The flags are sticky: one value that overflows
disqualifies a transform for the whole stream. -/
structure NumericScan where
  minimum : ℤ
  maximum : ℤ
  nonnegative : Bool
  valueBits : ℕ
  deltaOk : Bool
  deltaBits : ℕ
  deltaOfDeltaOk : Bool
  deltaOfDeltaBits : ℕ
  previous : ℤ
  previousDelta : Option ℤ
  count : ℕ

namespace NumericScan

def start (first : ℤ) : NumericScan where
  minimum := first
  maximum := first
  nonnegative := 0 ≤ first
  valueBits := bitWidthOf first
  deltaOk := true
  deltaBits := 0
  deltaOfDeltaOk := true
  deltaOfDeltaBits := 0
  previous := first
  previousDelta := none
  count := 1

/-- Take in a delta that fits `int64`. -/
def pushDelta (scan : NumericScan) (delta : ℤ) : NumericScan :=
  match scan.previousDelta with
  | none =>
    { scan with
      deltaBits := max scan.deltaBits (bitWidth (zigzag delta)), previousDelta := some delta }
  | some earlier =>
    if IntType.int64.InRange (delta - earlier) then
      { scan with
        deltaBits := max scan.deltaBits (bitWidth (zigzag delta))
        deltaOfDeltaBits := max scan.deltaOfDeltaBits (bitWidth (zigzag (delta - earlier)))
        previousDelta := some delta }
    else
      { scan with
        deltaBits := max scan.deltaBits (bitWidth (zigzag delta))
        deltaOfDeltaOk := false
        previousDelta := some delta }

/-- Take in the difference to the value before. -/
def pushDifference (scan : NumericScan) (difference : ℤ) : NumericScan :=
  if IntType.int64.InRange difference then
    scan.pushDelta difference
  else
    { scan with deltaOk := false, deltaOfDeltaOk := false, previousDelta := none }

/-- Take in the next value. -/
def push (scan : NumericScan) (value : ℤ) : NumericScan :=
  let nonnegative : Bool := scan.nonnegative ∧ 0 ≤ value
  let seen : NumericScan :=
    { scan with
      count := scan.count + 1
      minimum := min scan.minimum value
      maximum := max scan.maximum value
      nonnegative
      valueBits := if nonnegative then max scan.valueBits (bitWidthOf value) else scan.valueBits }
  { seen.pushDifference (value - scan.previous) with previous := value }

def finish (scan : NumericScan) : NumericProfile where
  minimum := scan.minimum
  bitPackedBits := if scan.nonnegative then some scan.valueBits else none
  frameOfReferenceBits :=
    let span := scan.maximum - scan.minimum
    if 0 ≤ span ∧ span ≤ u64Max then some (bitWidth span.toNat) else none
  deltaBits := if scan.deltaOk then some scan.deltaBits else none
  deltaOfDeltaBits :=
    if scan.deltaOk ∧ scan.deltaOfDeltaOk ∧ 2 ≤ scan.count then some scan.deltaOfDeltaBits else none

end NumericScan

namespace PreparedValues

def count : PreparedValues → ℕ
  | bool values => values.length
  | fixed width _ bytes => bytes.length / width
  | variableWidth _ lengths => lengths.length

/-- A byte string cut into values of the given lengths.  Cutting stops where the bytes do. -/
def cut : Bytes → List ℕ → List Bytes
  | _, [] => []
  | bytes, length :: lengths =>
    if length ≤ bytes.length then bytes.take length :: cut (bytes.drop length) lengths else []

/-- A flat buffer cut into values of one width. -/
def chunksExact (width : ℕ) (bytes : Bytes) : List Bytes :=
  (List.range (bytes.length / width)).map fun index ↦ slice bytes (index * width) width

/-- The dense values as the byte strings the profile compares. -/
def keys : PreparedValues → List Bytes
  | bool values => values.map fun value ↦ [value.toUInt8]
  | fixed width _ bytes => chunksExact width bytes
  | variableWidth bytes lengths => cut bytes lengths

/-- The dense values read back as numbers, for the integer-like types only. -/
def numbers : PreparedValues → Option (List ℤ)
  | fixed width (some signed) bytes => some ((chunksExact width bytes).map (readNumber · signed))
  | _ => none

/-- Every numeric fact the transforms need, in one pass. -/
def numericProfile (values : PreparedValues) : Option NumericProfile :=
  match values.numbers with
  | none => none
  | some [] =>
    some { minimum := 0, bitPackedBits := none, frameOfReferenceBits := none, deltaBits := none,
           deltaOfDeltaBits := none }
  | some (first :: rest) => some (rest.foldl NumericScan.push (NumericScan.start first)).finish

end PreparedValues

/-- One pass over the dense values.  Constancy, the runs and the dictionary are facts about the
sequence of keys. -/
def profile (values : PreparedValues) : ValueProfile :=
  let runLengths := (Runs.runs values.keys).map Prod.snd
  { count := values.count
    constant := runLengths.length ≤ 1
    runLengths
    maxRunLength := runLengths.foldl max 0
    dictionary := (values.keys.foldl DictionaryBuilder.push {}).finish
    numeric := values.numericProfile }

/-- Collect the dense values and profile them once. -/
def prepare (logicalType : LogicalType) (values : List (Result ScalarValue)) :
    Result (PreparedValues × ValueProfile) := do
  let start ← emptyValues logicalType
  let prepared ← values.foldlM
    (fun prepared value ↦ do pushValue logicalType prepared (← value)) start
  return (prepared, profile prepared)

/-! ### The candidate table -/

/-- The transforms and layouts the writer offers for a logical type, in stable order. -/
def supportedCandidates : LogicalType → List ValueEncoding
  | .bool => [.raw, .constant, .bitPacked, .booleanRle]
  | .integer _ | .decimal _ _ | .date32 =>
    [.raw, .constant, .frameOfReference, .delta, .deltaOfDelta, .dictionary, .runLength, .bitPacked]
  | .timestamp _ _ => [.raw, .frameOfReference, .delta, .deltaOfDelta]
  | .float32 | .float64 => [.raw, .constant, .dictionary, .runLength, .byteStreamSplit]
  | .utf8 | .categorical _ | .binary => [.raw, .constant, .dictionary, .runLength]
  | .fixedBinary _ => [.raw, .constant, .dictionary, .runLength, .byteStreamSplit]

/-- Whether the writer offers an encoding for a logical type at all. -/
def supports (logicalType : LogicalType) (encoding : ValueEncoding) : Bool :=
  encoding ∈ supportedCandidates logicalType

/-- Whether one candidate can describe this stream at all. -/
def isValid (encoding : ValueEncoding) (logicalType : LogicalType) (values : PreparedValues)
    (profile : ValueProfile) : Bool :=
  if profile.count = 0 then
    false
  else
    match encoding, values with
    | .raw, _ => true
    | .constant, _ => profile.constant
    | .bitPacked, .bool _ => true
    | .bitPacked, _ => profile.numeric.any (·.bitPackedBits.isSome)
    | .booleanRle, .bool _ => true
    | .booleanRle, _ => false
    | .frameOfReference, _ => profile.numeric.any (·.frameOfReferenceBits.isSome)
    | .delta, _ => profile.numeric.any (·.deltaBits.isSome)
    | .deltaOfDelta, _ => profile.numeric.any (·.deltaOfDeltaBits.isSome)
    | .byteStreamSplit, .fixed _ _ _ => true
    | .byteStreamSplit, _ => false
    | .dictionary, _ => profile.dictionary.isSome
    | .runLength, _ => decide (logicalType ≠ .bool) && !profile.runLengths.isEmpty

/-- The candidates that can describe this stream, in deterministic order. -/
def candidates (logicalType : LogicalType) (values : PreparedValues) (profile : ValueProfile) :
    List ValueEncoding :=
  (supportedCandidates logicalType).filter (isValid · logicalType values profile)

/-! ### Estimates -/

/-- The transformed length of a bit-packed stream, including its width byte. -/
def packedLength (count width : ℕ) : ℕ :=
  1 + (saturatingMul count width + 7) / 8

def dictionaryBytes (dictionary : DictionaryProfile) : Option ℕ :=
  dictionary.values.foldlM (fun total value ↦ checkedAdd total value.length) 0

/-- The bytes the first value of every run contributes, where runs start at `start`. -/
def runValueBytesFrom (lengths : List ℕ) : ℕ → ℕ → List ℕ → Option ℕ
  | total, _, [] => some total
  | total, start, run :: runs => do
    let length ← lengths[start]?
    let total ← checkedAdd total length
    let next ← checkedAdd start run
    runValueBytesFrom lengths total next runs

def runValueBytes (values : PreparedValues) (profile : ValueProfile) : Option ℕ :=
  match values with
  | .bool _ => none
  | .fixed width _ _ => checkedMul profile.runLengths.length width
  | .variableWidth _ lengths => runValueBytesFrom lengths 0 0 profile.runLengths

/-- The width of a fixed-width stream. -/
def fixedWidth : PreparedValues → Option ℕ
  | .fixed width _ _ => some width
  | _ => none

/-- The lengths stream a variable-width candidate adds for `count` values. -/
def lengthsEstimate (values : PreparedValues) (count : ℕ) : Option (List ℕ) :=
  match values with
  | .variableWidth _ _ => (checkedMul count 4).map ([·])
  | _ => some []

/-- Estimate the transformed length of every stream one value candidate needs. -/
def estimate (logicalType : LogicalType) (values : PreparedValues) (profile : ValueProfile)
    (encoding : ValueEncoding) : Option (List ℕ) :=
  if ¬isValid encoding logicalType values profile then
    none
  else
    match encoding with
    | .raw =>
      match values with
      | .bool _ => some [bitmapBytes profile.count]
      | .fixed _ _ bytes => some [bytes.length]
      | .variableWidth bytes _ => do
        let lengths ← checkedMul profile.count 4
        some [bytes.length, lengths]
    | .constant =>
      match values with
      | .bool _ => some [1]
      | .fixed width _ _ => some [width]
      | .variableWidth _ lengths => lengths.head?.map ([·, 4])
    | .bitPacked =>
      some [packedLength profile.count ((profile.numeric.bind (·.bitPackedBits)).getD 1)]
    | .booleanRle =>
      some [4 + bitmapBytes profile.runLengths.length +
        packedLength profile.runLengths.length (bitWidth profile.maxRunLength)]
    | .frameOfReference => do
      let width ← fixedWidth values
      let bits ← profile.numeric.bind (·.frameOfReferenceBits)
      let length ← checkedAdd width (packedLength profile.count bits)
      some [length]
    | .delta => do
      let bits ← profile.numeric.bind (·.deltaBits)
      let packed := if profile.count ≤ 1 then 0 else packedLength (profile.count - 1) bits
      let width ← fixedWidth values
      let length ← checkedAdd width packed
      some [length]
    | .deltaOfDelta => do
      let width ← fixedWidth values
      let length ← checkedAdd width 8
      let bits ← profile.numeric.bind (·.deltaOfDeltaBits)
      let length ← checkedAdd length (packedLength (profile.count - 2) bits)
      some [length]
    | .byteStreamSplit => do
      let width ← fixedWidth values
      let length ← checkedMul profile.count width
      some [length]
    | .dictionary => do
      let dictionary ← profile.dictionary
      let bytes ← dictionaryBytes dictionary
      let lengths ← lengthsEstimate values dictionary.values.length
      some ([bytes] ++ lengths ++
        [packedLength profile.count (bitWidth (dictionary.values.length - 1))])
    | .runLength => do
      let bytes ← runValueBytes values profile
      let lengths ← lengthsEstimate values profile.runLengths.length
      some ([bytes] ++ lengths ++
        [packedLength profile.runLengths.length (bitWidth profile.maxRunLength)])

/-! ### Stream bytes -/

/-- One bit width, then the values laid end to end.  The declared count is checked against the
values. -/
def packFrom (width count : ℕ) (values : List ℕ) : Result Bytes := do
  let _ ← okOr (checkedAdd 1 ((saturatingMul count width + 7) / 8)) (resource "a bit-packed stream")
  failIf (count < values.length)
    (invalid "a bit-packed stream has more values than it declares")
  failIf (values.length < count)
    (invalid "a bit-packed stream has fewer values than it declares")
  return UInt8.ofNat width :: packBits (wordBits width values)

/-- An unsigned 32-bit length for each variable-width value. -/
def lengthBytes (lengths : List ℕ) : Bytes :=
  lengths.flatMap (leBytes 4)

/-- A run count, the run value bits, then packed positive run lengths. -/
def booleanRle (values : List Bool) : Result Bytes := do
  let runs := Runs.runs values
  failIf (u32Max < runs.length) (resource "a boolean run count")
  let count := leBytes 4 runs.length
  if runs = [] then
    return count
  else
    let lengths := runs.map Prod.snd
    let packed ← packFrom (bitWidth (lengths.foldl max 0)) lengths.length lengths
    return count ++ packBits (runs.map Prod.fst) ++ packed

/-- Adjacent differences. -/
def adjacentDeltas : List ℤ → List ℤ
  | first :: second :: rest => (second - first) :: adjacentDeltas (second :: rest)
  | _ => []

/-- A number at its canonical width. -/
def canonicalNumber (value : ℤ) (width : ℕ) (signed : Bool) : Result Bytes := do
  if signed then
    failIf (width ∉ [1, 2, 4, 8]) (invalid "invalid canonical signed width")
    failIf (value < -(2 ^ (8 * width - 1) : ℕ) ∨ (2 ^ (8 * width - 1) : ℕ) ≤ value)
      (invalid "signed base does not fit its canonical width")
    return leBytes width (toTwos (8 * width) value)
  else
    failIf (value < 0 ∨ u64Max < value) (invalid "unsigned base is negative or too wide")
    return (leBytes 8 value.toNat).take width

/-- The first stored value of a fixed-width stream, at its canonical width. -/
def firstValue (values : PreparedValues) (width : ℕ) : Result Bytes :=
  match values with
  | .fixed _ _ bytes => do
    failIf (bytes.length < width) (invalid "a fixed-width stream has no first value")
    return bytes.take width
  | _ => .error (invalid "this stream has no fixed-width first value")

/-! ### The encoders -/

def valuesStream (transform count : ℕ) (bytes : Bytes) : CandidateStream :=
  { kind := streamKindValues, transform, elementCount := count, bytes }

def rawStreams (values : PreparedValues) : List CandidateStream :=
  match values with
  | .bool values => [valuesStream transformRaw values.length (packBits values)]
  | .fixed width _ bytes => [valuesStream transformRaw (bytes.length / width) bytes]
  | .variableWidth bytes lengths =>
    [valuesStream transformRaw lengths.length bytes,
     { kind := streamKindLengths, transform := transformRaw, elementCount := lengths.length,
       bytes := lengthBytes lengths }]

def constantStreams (values : PreparedValues) : Result (List CandidateStream) := do
  let first ← okOr values.keys.head? (invalid "a constant column has no value")
  match values with
  | .bool values => return [valuesStream transformRaw 1 (packBits (values.take 1))]
  | .fixed _ _ _ => return [valuesStream transformRaw 1 first]
  | .variableWidth _ lengths =>
    return [valuesStream transformRaw 1 first,
      { kind := streamKindLengths, transform := transformRaw, elementCount := 1,
        bytes := lengthBytes (lengths.take 1) }]

def bitPackedStreams (values : PreparedValues) (profile : ValueProfile) :
    Result (List CandidateStream) :=
  match values with
  | .bool values => do
    -- An all-false stream is the single width byte zero.
    let bytes ← packFrom (values.any id).toNat values.length (values.map Bool.toNat)
    return [valuesStream transformBitPacked values.length bytes]
  | values => do
    let numbers ← okOr values.numbers (invalid "bit packing does not apply to this value stream")
    let width ← okOr (profile.numeric.bind (·.bitPackedBits))
      (invalid "bit packing has no width for this value stream")
    let bytes ← packFrom width profile.count (numbers.map Int.toNat)
    return [valuesStream transformBitPacked profile.count bytes]

def booleanRleStreams (values : PreparedValues) : Result (List CandidateStream) :=
  match values with
  | .bool values => do
    let bytes ← booleanRle values
    return [valuesStream transformBooleanRle values.length bytes]
  | _ => .error (invalid "boolean RLE does not apply to this value stream")

/-- One canonical-width block minimum, then packed differences. -/
def frameOfReferenceStreams (values : PreparedValues) (profile : ValueProfile) :
    Result (List CandidateStream) :=
  match values with
  | .fixed width signed bytes => do
    let signed ← okOr signed (invalid "frame of reference needs a numeric column")
    let numeric ← okOr profile.numeric (invalid "frame of reference has no numeric profile")
    let bits ← okOr numeric.frameOfReferenceBits
      (invalid "frame-of-reference difference does not fit uint64")
    let numbers ← okOr (PreparedValues.fixed width (some signed) bytes).numbers
      (invalid "frame of reference has no values")
    let base := numeric.minimum
    let stored ← canonicalNumber base width signed
    let packed ← packFrom bits profile.count (numbers.map fun value ↦ (value - base).toNat)
    return [valuesStream transformFrameOfReference profile.count (stored ++ packed)]
  | _ => .error (invalid "frame of reference does not apply to this value stream")

/-- The first canonical-width value, then packed ZigZag deltas. -/
def deltaStreams (values : PreparedValues) (profile : ValueProfile) :
    Result (List CandidateStream) :=
  match values with
  | .fixed width _ _ => do
    let bits ← okOr (profile.numeric.bind (·.deltaBits)) (invalid "a delta does not fit int64")
    let first ← firstValue values width
    if 1 < profile.count then
      let numbers ← okOr values.numbers (invalid "delta has no values")
      let packed ← packFrom bits (profile.count - 1) ((adjacentDeltas numbers).map zigzag)
      return [valuesStream transformDelta profile.count (first ++ packed)]
    else
      return [valuesStream transformDelta profile.count first]
  | _ => .error (invalid "delta does not apply to this value stream")

/-- The first value, the first `int64` delta, then packed ZigZag differences between consecutive
deltas. -/
def deltaOfDeltaStreams (values : PreparedValues) (profile : ValueProfile) :
    Result (List CandidateStream) :=
  match values with
  | .fixed width _ _ => do
    let bits ← okOr (profile.numeric.bind (·.deltaOfDeltaBits))
      (invalid "delta-of-delta requires at least two in-range values")
    let numbers ← okOr values.numbers (invalid "delta-of-delta has no values")
    let deltas := adjacentDeltas numbers
    let firstDelta ← okOr deltas.head? (invalid "delta-of-delta requires at least two values")
    let first ← firstValue values width
    let packed ← packFrom bits (profile.count - 2) ((adjacentDeltas deltas).map zigzag)
    return [valuesStream transformDeltaOfDelta profile.count
      (first ++ leBytes 8 (toTwos 64 firstDelta) ++ packed)]
  | _ => .error (invalid "delta-of-delta does not apply to this value stream")

/-- All byte-zero values, then all byte-one values, and so on. -/
def byteStreamSplitStreams (values : PreparedValues) : Result (List CandidateStream) :=
  match values with
  | .fixed width _ bytes =>
    let count := bytes.length / width
    let output := (List.range width).flatMap fun byte ↦
      (List.range count).map fun value ↦ bytes[value * width + byte]?.getD 0
    .ok [valuesStream transformByteStreamSplit count output]
  | _ => .error (invalid "byte-stream split does not apply to this value stream")

/-- A raw stream of byte strings, and the lengths stream beside it when they vary in width. -/
def byteStringStreams (values : PreparedValues) (kind lengthsKind : ℕ) (strings : List Bytes) :
    List CandidateStream :=
  let stored : CandidateStream :=
    { kind, transform := transformRaw, elementCount := strings.length, bytes := strings.flatten }
  match values with
  | .variableWidth _ _ =>
    [stored, { kind := lengthsKind, transform := transformRaw, elementCount := strings.length,
               bytes := lengthBytes (strings.map List.length) }]
  | _ => [stored]

def dictionaryStreams (values : PreparedValues) (profile : ValueProfile) :
    Result (List CandidateStream) := do
  let dictionary ← okOr profile.dictionary
    (invalid "dictionary cardinality exceeded the profiling cap")
  failIf (values matches .variableWidth _ _ ∧ ∃ value ∈ dictionary.values, u32Max < value.length)
    (invalid "a value length exceeds uint32")
  let indices ← packFrom (bitWidth (dictionary.values.length - 1)) dictionary.indices.length
    dictionary.indices
  return byteStringStreams values streamKindDictionaryValues streamKindDictionaryLengths
      dictionary.values ++
    [{ kind := streamKindIndices, transform := transformBitPacked,
       elementCount := dictionary.indices.length, bytes := indices }]

/-- The key each run starts with, where `keys` are the keys from the start of a run. -/
def runKeys : List Bytes → List ℕ → Result (List Bytes)
  | _, [] => .ok []
  | keys, run :: runs => do
    let key ← okOr keys.head? (invalid "the run lengths do not describe these values")
    failIf (u32Max < key.length) (invalid "a run value exceeds uint32 bytes")
    failIf (run = 0) (invalid "a run length is zero")
    let rest ← runKeys (keys.drop run) runs
    return key :: rest

def runLengthStreams (values : PreparedValues) (profile : ValueProfile) :
    Result (List CandidateStream) :=
  match values with
  | .bool _ => .error (invalid "generic run length does not apply to booleans")
  | values => do
    let keys ← runKeys values.keys profile.runLengths
    let lengths ← packFrom (bitWidth profile.maxRunLength) profile.runLengths.length
      profile.runLengths
    return byteStringStreams values streamKindRunValues streamKindLengths keys ++
      [{ kind := streamKindRunLengths, transform := transformBitPacked,
         elementCount := profile.runLengths.length, bytes := lengths }]

/-- The streams of one encoding. -/
def encodeStreams (values : PreparedValues) (profile : ValueProfile) :
    ValueEncoding → Result (List CandidateStream)
  | .raw => .ok (rawStreams values)
  | .constant => constantStreams values
  | .bitPacked => bitPackedStreams values profile
  | .booleanRle => booleanRleStreams values
  | .frameOfReference => frameOfReferenceStreams values profile
  | .delta => deltaStreams values profile
  | .deltaOfDelta => deltaOfDeltaStreams values profile
  | .byteStreamSplit => byteStreamSplitStreams values
  | .dictionary => dictionaryStreams values profile
  | .runLength => runLengthStreams values profile

/-- The column layout of one encoding. -/
def layoutOf : ValueEncoding → ℕ
  | .constant => columnLayoutConstant
  | .dictionary => columnLayoutDictionary
  | .runLength => columnLayoutRunLength
  | _ => columnLayoutPlain

/-- Materialize one candidate. -/
def encode (logicalType : LogicalType) (values : PreparedValues) (profile : ValueProfile)
    (encoding : ValueEncoding) : Result ValueCandidate := do
  failIf (¬isValid encoding logicalType values profile)
    (invalid "this candidate does not describe these values")
  let streams ← encodeStreams values profile encoding
  return { layout := layoutOf encoding, streams }

end Candidates

end Acta
