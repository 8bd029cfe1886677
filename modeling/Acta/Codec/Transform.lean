import Acta.Error
import Acta.Lib.Bits
import Acta.Lib.Checked
import Acta.LogicalArray

/-!
# Stream transforms

Checked decoding of the stream transforms.  Fixed-width integers decode straight into the column's
own integer type: a transform may compute in a wider range, and a value that leaves the column's
range is corruption.
-/

namespace Acta

open Machine Wire

namespace Transform

def invalid (what message : String) : Error :=
  (Error.corruption s!"{what}: {message}" none).withContext .payload

def checkedByteCount (count width : ℕ) (what : String) : Result ℕ :=
  okOr (checkedMul count width) (invalid what "element byte count overflow")

/-- Narrow one reconstructed value to the column's integer type. -/
def narrowed (type : IntType) (value : ℤ) (what : String) : Result type.Value :=
  if h : type.InRange value then
    .ok ⟨value, h⟩
  else
    .error (invalid what s!"value {value} does not fit the column type")

/-- Read one little-endian integer of at most eight stored bytes, sign-extending it from its stored
width when the type is signed. -/
def readInteger (bytes : Bytes) (signed : Bool) : ℤ :=
  if signed then ofTwos (8 * bytes.length) (leNat bytes) else leNat bytes

def unzigzag (value : ℕ) : ℤ :=
  if value % 2 = 0 then (value / 2 : ℕ) else -(value / 2 : ℕ) - 1

/-! ### Bit packing -/

/-- A measured bit-packed stream: the width byte has been taken off, and the data is known to hold
`count` values. -/
structure BitUnpacker where
  data : Bytes
  width : ℕ
  count : ℕ

/-- Settle the width, the stored length and the zero padding before any value is read. -/
def BitUnpacker.new (payload : Bytes) (count : ℕ) (what : String) : Result BitUnpacker :=
  match payload with
  | [] => .error (invalid what "bit-packed stream has no width byte")
  | first :: data => do
    let width := first.toNat
    failIf (64 < width) (invalid what s!"bit width {width} exceeds 64")
    if width = 0 then
      failIf (data ≠ []) (invalid what "zero-width stream has data bytes")
      return { data, width, count }
    else
      let bitCount ← okOr (checkedMul count width) (invalid what "bit count overflow")
      let padded ← okOr (checkedAdd bitCount 7) (invalid what "packed byte count overflow")
      let byteCount := padded / 8
      failIf (data.length ≠ byteCount)
        (invalid what
          s!"bit-packed stream has {data.length} data bytes, expected {byteCount}")
      failIf (bitCount % 8 ≠ 0 ∧ (data[byteCount - 1]?.getD 0).toNat >>> (bitCount % 8) ≠ 0)
        (invalid what "unused high bits are not zero")
      return { data, width, count }

/-- The values of a measured stream, in order. -/
def BitUnpacker.values (unpacker : BitUnpacker) : List ℕ :=
  (List.range unpacker.count).map (wordAt unpacker.width unpacker.data)

/-- Decode a bit-packed stream whose values are needed all at once. -/
def bitUnpack (payload : Bytes) (count : ℕ) (what : String) : Result (List ℕ) := do
  let unpacker ← BitUnpacker.new payload count what
  return unpacker.values

/-! ### Integers -/

/-- The stored widths of the integer, decimal, timestamp and date types. -/
def canonicalIntegerWidths : List ℕ := [1, 2, 4, 8]

/-- A byte string cut into `count` values of one width. -/
def chunks (width count : ℕ) (bytes : Bytes) : List Bytes :=
  (List.range count).map fun index ↦ slice bytes (index * width) width

def rawIntegers (type : IntType) (payload : Bytes) (count width : ℕ) (signed : Bool)
    (what : String) : Result (List type.Value) := do
  let expected ← checkedByteCount count width what
  failIf (payload.length ≠ expected)
    (invalid what s!"raw stream has {payload.length} bytes, expected {expected}")
  (chunks width count payload).mapM fun chunk ↦ narrowed type (readInteger chunk signed) what

def packedIntegers (type : IntType) (payload : Bytes) (count : ℕ) (what : String) :
    Result (List type.Value) := do
  let unpacker ← BitUnpacker.new payload count what
  unpacker.values.mapM fun (value : ℕ) ↦ narrowed type value what

/-- A stream with no elements carries no bytes either. -/
def empty {α : Type} (payload : Bytes) (what : String) : Result (List α) := do
  failIf (payload ≠ []) (invalid what "an empty stream has bytes")
  return []

/-- The first `width` bytes of a payload, which some transforms store a value in. -/
def leading (payload : Bytes) (width : ℕ) (error : Error) : Result Bytes := do
  failIf (payload.length < width) error
  return payload.take width

/-- One block minimum, then packed differences. -/
def frameOfReference (type : IntType) (payload : Bytes) (count width : ℕ) (signed : Bool)
    (what : String) : Result (List type.Value) := do
  if count = 0 then
    empty payload what
  else
    let stored ← leading payload width (invalid what "frame-of-reference stream has no base value")
    let base := readInteger stored signed
    let offsets ← BitUnpacker.new (payload.drop width) count what
    offsets.values.mapM fun (offset : ℕ) ↦ narrowed type (base + offset) what

/-- Add each packed difference to the value before it. -/
def deltasFrom (type : IntType) (what : String) : ℤ → List ℕ → Result (List type.Value)
  | _, [] => .ok []
  | current, encoded :: rest => do
    let current ← okOr (checkedI128 (current + unzigzag encoded))
      (invalid what "delta value overflow")
    let value ← narrowed type current what
    let values ← deltasFrom type what current rest
    return value :: values

/-- The first value, then packed differences. -/
def delta (type : IntType) (payload : Bytes) (count width : ℕ) (signed : Bool) (what : String) :
    Result (List type.Value) := do
  if count = 0 then
    empty payload what
  else
    let stored ← leading payload width (invalid what "delta stream has no first value")
    let first := readInteger stored signed
    let value ← narrowed type first what
    if count = 1 then
      failIf (payload.length ≠ width) (invalid what "single-value delta stream has extra bytes")
      return [value]
    else
      let differences ← BitUnpacker.new (payload.drop width) (count - 1) what
      let values ← deltasFrom type what first differences.values
      return value :: values

/-- Add each packed difference to the delta before it, and each delta to the value before it.  Every
delta must fit a signed 64-bit integer. -/
def secondDeltasFrom (type : IntType) (what : String) :
    ℤ → ℤ → List ℕ → Result (List type.Value)
  | _, _, [] => .ok []
  | current, difference, encoded :: rest => do
    let difference ← okOr (checkedI128 (difference + unzigzag encoded))
      (invalid what "delta-of-delta overflow")
    failIf (¬IntType.int64.InRange difference)
      (invalid what "delta-of-delta difference does not fit int64")
    let current ← okOr (checkedI128 (current + difference))
      (invalid what "delta-of-delta value overflow")
    let value ← narrowed type current what
    let values ← secondDeltasFrom type what current difference rest
    return value :: values

/-- The first value, the first difference, then packed differences between differences. -/
def deltaOfDelta (type : IntType) (payload : Bytes) (count width : ℕ) (signed : Bool)
    (what : String) : Result (List type.Value) := do
  failIf (count < 2) (invalid what "delta-of-delta requires at least two elements")
  let stored ← leading payload width (invalid what "delta-of-delta has no first value")
  let first := readInteger stored signed
  let firstDeltaEnd ← okOr (checkedAdd width 8) (invalid what "offset overflow")
  failIf (payload.length < firstDeltaEnd) (invalid what "delta-of-delta has no first delta")
  let firstDelta := readInteger (slice payload width 8) true
  let value ← narrowed type first what
  let current ← okOr (checkedI128 (first + firstDelta))
    (invalid what "first delta overflows the value")
  let second ← narrowed type current what
  let differences ← BitUnpacker.new (payload.drop firstDeltaEnd) (count - 2) what
  let values ← secondDeltasFrom type what current firstDelta differences.values
  return value :: second :: values

/-- Decode a fixed-width integer stream into the column's own integer type. -/
def integer (type : IntType) (payload : Bytes) (count width : ℕ) (signed : Bool) (transform : ℕ)
    (what : String) : Result (List type.Value) := do
  failIf (width ∉ canonicalIntegerWidths)
    (invalid what s!"{width} is not a canonical integer width")
  match transform with
  | 0 => rawIntegers type payload count width signed what
  | 1 => packedIntegers type payload count what
  | 2 => frameOfReference type payload count width signed what
  | 3 => delta type payload count width signed what
  | 4 => deltaOfDelta type payload count width signed what
  | _ => .error (invalid what "transform does not apply to integer values")

/-- Decode an unsigned 32-bit lengths stream. -/
def lengths (payload : Bytes) (count transform : ℕ) (what : String) :
    Result (List IntType.uint32.Value) :=
  integer .uint32 payload count 4 false transform what

/-! ### Booleans -/

/-- Raw boolean data is bit packing without a width byte. -/
def rawBooleans (payload : Bytes) (count : ℕ) (what : String) : Result (List Bool) := do
  let padded ← okOr (checkedAdd count 7) (invalid what "boolean byte count overflow")
  let expected := padded / 8
  failIf (payload.length ≠ expected) (invalid what "raw boolean stream has the wrong length")
  failIf (count % 8 ≠ 0 ∧ (payload[expected - 1]?.getD 0).toNat >>> (count % 8) ≠ 0)
    (invalid what "unused boolean bits are not zero")
  return (List.range count).map (bitAt payload)

def packedBooleans (payload : Bytes) (count : ℕ) (what : String) : Result (List Bool) := do
  let unpacker ← BitUnpacker.new payload count what
  unpacker.values.mapM fun
    | 0 => .ok false
    | 1 => .ok true
    | _ => .error (invalid what "bit-packed boolean is not 0 or 1")

/-- Repeat each run's value for its length, with `total` of the `count` values placed so far. -/
def expandRuns (count : ℕ) (what : String) :
    ℕ → List (Bool × ℕ) → Result (ℕ × List Bool)
  | total, [] => .ok (total, [])
  | total, (value, length) :: rest => do
    failIf (length = 0) (invalid what "boolean RLE contains a zero-length run")
    let total ← okOr ((checkedAdd total length).filter (· ≤ count))
      (invalid what "boolean RLE lengths exceed the element count")
    let (total, values) ← expandRuns count what total rest
    return (total, List.replicate length value ++ values)

/-- A run count, the run value bits, then packed run lengths. -/
def booleanRle (payload : Bytes) (count : ℕ) (what : String) : Result (List Bool) := do
  let stored ← leading payload 4 (invalid what "boolean RLE has no run count")
  let runCount := leNat stored
  failIf (count < runCount) (invalid what "boolean RLE has more runs than elements")
  if runCount = 0 then
    failIf (count ≠ 0 ∨ payload.length ≠ 4)
      (invalid what "empty boolean RLE does not match the element count")
    return []
  else
    let valueBytes := (runCount + 7) / 8
    let valueEnd := 4 + valueBytes
    failIf (payload.length < valueEnd) (invalid what "boolean RLE values are truncated")
    let runValues := slice payload 4 valueBytes
    let runLengths ← BitUnpacker.new (payload.drop valueEnd) runCount what
    let runs := ((List.range runCount).map (bitAt runValues)).zip runLengths.values
    let (total, values) ← expandRuns count what 0 runs
    failIf (total ≠ count)
      (invalid what "boolean RLE lengths do not sum to the element count")
    return values

/-- Decode raw, bit-packed or run-length boolean values. -/
def booleans (payload : Bytes) (count transform : ℕ) (what : String) : Result (List Bool) :=
  match transform with
  | 0 => rawBooleans payload count what
  | 1 => packedBooleans payload count what
  | 6 => booleanRle payload count what
  | _ => .error (invalid what "transform does not apply to booleans")

/-! ### Byte-stream split -/

/-- Restore little-endian values from byte-stream split storage. -/
def byteStreamSplit (payload : Bytes) (count width : ℕ) (what : String) : Result Bytes := do
  let expected ← checkedByteCount count width what
  failIf (payload.length ≠ expected)
    (invalid what "byte-stream-split payload has the wrong length")
  return (List.range count).flatMap fun value ↦
    (List.range width).map fun byte ↦ payload[byte * count + value]?.getD 0

/-! ### How many values a transform decodes -/

theorem BitUnpacker.count_of_new {payload : Bytes} {count : ℕ} {what : String}
    {unpacker : BitUnpacker} (h : BitUnpacker.new payload count what = .ok unpacker) :
    unpacker.count = count := by
  unfold BitUnpacker.new at h
  split at h
  · cases h
  · obtain ⟨_, -, h⟩ := bind_eq_ok.mp h
    split at h
    · obtain ⟨_, -, h⟩ := bind_eq_ok.mp h
      cases h
      rfl
    · obtain ⟨_, -, h⟩ := bind_eq_ok.mp h
      obtain ⟨_, -, h⟩ := bind_eq_ok.mp h
      obtain ⟨_, -, h⟩ := bind_eq_ok.mp h
      obtain ⟨_, -, h⟩ := bind_eq_ok.mp h
      cases h
      rfl

theorem BitUnpacker.length_values_of_new {payload : Bytes} {count : ℕ} {what : String}
    {unpacker : BitUnpacker} (h : BitUnpacker.new payload count what = .ok unpacker) :
    unpacker.values.length = count := by
  rw [BitUnpacker.values, List.length_map, List.length_range, count_of_new h]

theorem length_bitUnpack {payload : Bytes} {count : ℕ} {what : String} {values : List ℕ}
    (h : bitUnpack payload count what = .ok values) : values.length = count := by
  obtain ⟨unpacker, hnew, hvalues⟩ := bind_eq_ok.mp h
  cases hvalues
  exact BitUnpacker.length_values_of_new hnew

section Integers

variable {type : IntType} {payload : Bytes} {count width : ℕ} {signed : Bool} {what : String}
  {values : List type.Value}

theorem length_rawIntegers (h : rawIntegers type payload count width signed what = .ok values) :
    values.length = count := by
  obtain ⟨_, -, h⟩ := bind_eq_ok.mp h
  obtain ⟨_, -, h⟩ := bind_eq_ok.mp h
  rw [length_of_mapM_eq_ok h, chunks, List.length_map, List.length_range]

theorem length_packedIntegers (h : packedIntegers type payload count what = .ok values) :
    values.length = count := by
  obtain ⟨unpacker, hnew, h⟩ := bind_eq_ok.mp h
  rw [length_of_mapM_eq_ok h, BitUnpacker.length_values_of_new hnew]

theorem length_empty {α : Type} {values : List α} (h : empty payload what = .ok values) :
    values.length = 0 := by
  obtain ⟨_, -, h⟩ := bind_eq_ok.mp h
  cases h
  rfl

theorem length_frameOfReference
    (h : frameOfReference type payload count width signed what = .ok values) :
    values.length = count := by
  unfold frameOfReference at h
  split at h
  · rename_i hzero
    rw [length_empty h, hzero]
  · obtain ⟨_, -, h⟩ := bind_eq_ok.mp h
    obtain ⟨offsets, hnew, h⟩ := bind_eq_ok.mp h
    rw [length_of_mapM_eq_ok h, BitUnpacker.length_values_of_new hnew]

theorem length_deltasFrom {current : ℤ} {differences : List ℕ}
    (h : deltasFrom type what current differences = .ok values) :
    values.length = differences.length := by
  induction differences generalizing current values with
  | nil =>
    cases h
    rfl
  | cons encoded rest ih =>
    obtain ⟨next, -, h⟩ := bind_eq_ok.mp h
    obtain ⟨_, -, h⟩ := bind_eq_ok.mp h
    obtain ⟨_, hrest, h⟩ := bind_eq_ok.mp h
    cases h
    rw [List.length_cons, List.length_cons, ih hrest]

theorem length_delta (h : delta type payload count width signed what = .ok values) :
    values.length = count := by
  unfold delta at h
  split at h
  · rename_i hzero
    rw [length_empty h, hzero]
  · obtain ⟨_, -, h⟩ := bind_eq_ok.mp h
    obtain ⟨_, -, h⟩ := bind_eq_ok.mp h
    split at h
    · rename_i hone
      obtain ⟨_, -, h⟩ := bind_eq_ok.mp h
      cases h
      rw [hone]
      rfl
    · obtain ⟨differences, hnew, h⟩ := bind_eq_ok.mp h
      obtain ⟨_, hrest, h⟩ := bind_eq_ok.mp h
      cases h
      rw [List.length_cons, length_deltasFrom hrest, BitUnpacker.length_values_of_new hnew]
      omega

theorem length_secondDeltasFrom {current difference : ℤ} {differences : List ℕ}
    (h : secondDeltasFrom type what current difference differences = .ok values) :
    values.length = differences.length := by
  induction differences generalizing current difference values with
  | nil =>
    cases h
    rfl
  | cons encoded rest ih =>
    obtain ⟨next, -, h⟩ := bind_eq_ok.mp h
    obtain ⟨_, -, h⟩ := bind_eq_ok.mp h
    obtain ⟨_, -, h⟩ := bind_eq_ok.mp h
    obtain ⟨_, -, h⟩ := bind_eq_ok.mp h
    obtain ⟨_, hrest, h⟩ := bind_eq_ok.mp h
    cases h
    rw [List.length_cons, List.length_cons, ih hrest]

theorem length_deltaOfDelta (h : deltaOfDelta type payload count width signed what = .ok values) :
    values.length = count := by
  obtain ⟨_, hcount, h⟩ := bind_eq_ok.mp h
  obtain ⟨_, -, h⟩ := bind_eq_ok.mp h
  obtain ⟨_, -, h⟩ := bind_eq_ok.mp h
  obtain ⟨_, -, h⟩ := bind_eq_ok.mp h
  obtain ⟨_, -, h⟩ := bind_eq_ok.mp h
  obtain ⟨_, -, h⟩ := bind_eq_ok.mp h
  obtain ⟨_, -, h⟩ := bind_eq_ok.mp h
  obtain ⟨differences, hnew, h⟩ := bind_eq_ok.mp h
  obtain ⟨_, hrest, h⟩ := bind_eq_ok.mp h
  cases h
  rw [failIf_eq_ok] at hcount
  rw [List.length_cons, List.length_cons, length_secondDeltasFrom hrest,
    BitUnpacker.length_values_of_new hnew]
  omega

/-- **An integer stream decodes to as many values as it declares.** -/
theorem length_integer {transform : ℕ}
    (h : integer type payload count width signed transform what = .ok values) :
    values.length = count := by
  obtain ⟨_, -, h⟩ := bind_eq_ok.mp h
  split at h
  · exact length_rawIntegers h
  · exact length_packedIntegers h
  · exact length_frameOfReference h
  · exact length_delta h
  · exact length_deltaOfDelta h
  · cases h

end Integers

section Booleans

variable {payload : Bytes} {count : ℕ} {what : String} {values : List Bool}

theorem length_expandRuns {total final : ℕ} {runs : List (Bool × ℕ)}
    (h : expandRuns count what total runs = .ok (final, values)) :
    total + values.length = final := by
  induction runs generalizing total values with
  | nil =>
    cases h
    rfl
  | cons run runs ih =>
    obtain ⟨_, -, h⟩ := bind_eq_ok.mp h
    obtain ⟨next, hnext, h⟩ := bind_eq_ok.mp h
    obtain ⟨⟨final', rest⟩, hrest, h⟩ := bind_eq_ok.mp h
    cases h
    rw [okOr_eq_ok, Option.filter_eq_some_iff, checkedAdd_eq_some] at hnext
    rw [List.length_append, List.length_replicate, ← ih hrest, ← hnext.1.2, Nat.add_assoc]

/-- **A boolean stream decodes to as many values as it declares.** -/
theorem length_booleans {transform : ℕ} (h : booleans payload count transform what = .ok values) :
    values.length = count := by
  unfold booleans at h
  split at h
  · obtain ⟨_, -, h⟩ := bind_eq_ok.mp h
    obtain ⟨_, -, h⟩ := bind_eq_ok.mp h
    obtain ⟨_, -, h⟩ := bind_eq_ok.mp h
    cases h
    rw [List.length_map, List.length_range]
  · obtain ⟨unpacker, hnew, h⟩ := bind_eq_ok.mp h
    rw [length_of_mapM_eq_ok h, BitUnpacker.length_values_of_new hnew]
  · obtain ⟨_, -, h⟩ := bind_eq_ok.mp h
    obtain ⟨_, -, h⟩ := bind_eq_ok.mp h
    split at h
    · obtain ⟨_, hempty, h⟩ := bind_eq_ok.mp h
      cases h
      rw [failIf_eq_ok] at hempty
      have hzero : count = 0 := by
        by_contra hne
        exact hempty (.inl hne)
      rw [hzero]
      rfl
    · obtain ⟨_, -, h⟩ := bind_eq_ok.mp h
      obtain ⟨_, -, h⟩ := bind_eq_ok.mp h
      obtain ⟨⟨total, expanded⟩, hruns, h⟩ := bind_eq_ok.mp h
      obtain ⟨_, htotal, h⟩ := bind_eq_ok.mp h
      cases h
      rw [failIf_eq_ok, not_not] at htotal
      have hsum := length_expandRuns hruns
      omega
  · cases h

end Booleans

end Transform

end Acta
