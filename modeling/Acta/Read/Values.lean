import Acta.Lib.Utf8
import Acta.LogicalArray
import Acta.Read.Budget

/-!
# Dense values

The wire format stores only the non-null values of a column, in row order.  `DenseValues` is that
form while a layout is expanded, and `intoArray` scatters it into one logical position for each row.

Transforms narrow their values as they decode, so dense values already have the column's own value
type, its `StoredType`.
-/

namespace Acta

open Machine Wire

/-- What the dense values of a column are. -/
inductive StoredType
  | bool
  | integer (type : IntType)
  | float32
  | float64
  | bytes
  deriving DecidableEq

/-- One dense value.  Floats are bit patterns. -/
abbrev StoredType.Value : StoredType → Type
  | .bool => Bool
  | .integer type => type.Value
  | .float32 => UInt32
  | .float64 => UInt64
  | .bytes => Bytes

/-- The dense values a logical type is decoded into. -/
abbrev LogicalType.storedType : LogicalType → StoredType
  | .bool => .bool
  | .integer type => .integer type
  | .date32 => .integer .int32
  | .decimal _ _ | .timestamp _ _ => .integer .int64
  | .float32 => .float32
  | .float64 => .float64
  | .utf8 | .categorical _ | .binary | .fixedBinary _ => .bytes

/-- The non-null values of one column, in row order. -/
structure DenseValues where
  type : StoredType
  values : List type.Value

namespace Read

def booleanValueBytes : ℕ := 1
def unpackedValueBytes : ℕ := 8
def lengthValueBytes : ℕ := 4
def valueHandleBytes : ℕ := 24

def corrupt (column : Column) (message : String) : Error :=
  (Error.corruption s!"column {column.name}: {message}" none).withContext .payload

def notValid (column : Column) (error : String) : Error :=
  corrupt column s!"stored value is not a valid {column.logicalType.debug}: {error}"

/-- Whether a column's values arrive in a byte-values stream. -/
def isByteValued (column : Column) : Bool :=
  match column.logicalType with
  | .utf8 | .categorical _ | .binary | .fixedBinary _ => true
  | _ => false

/-- Whether an array can take the dense values as they stand. -/
def movesIntoPlace (column : Column) (validity : Option (List Bool)) : Bool :=
  validity.isNone &&
    match column.logicalType with
    | .utf8 | .categorical _ => false
    | _ => true

/-! ### Expansions -/

section Expansions

variable {α β : Type}

/-- Constant layout: one stored value fills every dense position. -/
def repeatValue (count : ℕ) (column : Column) (values : List α) : Result (List α) :=
  match values with
  | [value] => .ok (List.replicate count value)
  | _ => .error (corrupt column "constant layout requires exactly one stored value")

/-- Dictionary layout: each index selects one block-local dictionary value. -/
def lookup (indices : List ℕ) (column : Column) (values : List α) : Result (List α) :=
  indices.mapM fun index ↦
    okOr values[index]? (corrupt column "dictionary index is out of range")

/-- Run-length layout: each run value repeats for its run length. -/
def expandRuns (lengths : List ℕ) (column : Column) (values : List α) : Result (List α) := do
  failIf (values.length ≠ lengths.length)
    (corrupt column "run values and run lengths have different counts")
  return (values.zip lengths).flatMap fun (value, length) ↦ List.replicate length value

/-! ### Scattering -/

/-- Spread dense values across the rows a validity bitmap marks present. -/
def placeRows (column : Column) (fallback : β) (convert : α → Result β) :
    List Bool → List α → Result (List β)
  | [], _ => .ok []
  | false :: bits, dense => do
    let rest ← placeRows column fallback convert bits dense
    return fallback :: rest
  | true :: _, [] => .error (corrupt column "dense values ended before the valid rows did")
  | true :: bits, stored :: dense => do
    let value ← convert stored
    let rest ← placeRows column fallback convert bits dense
    return value :: rest

def place (column : Column) (fallback : β) (convert : α → Result β) (dense : List α)
    (validity : List Bool) : Result (List β) := do
  failIf (dense.length ≠ validity.count true)
    (corrupt column "dense values do not match validity")
  placeRows column fallback convert validity dense

/-- Place each dense value at its logical row, leaving null rows at the default.  Values without
nulls are handed through. -/
def scatter (column : Column) (fallback : α) (dense : List α) (validity : Option (List Bool))
    (rows : ℕ) : Result (List α) :=
  match validity with
  | none => do
    failIf (dense.length ≠ rows) (corrupt column "dense values do not match the row count")
    return dense
  | some bits => place column fallback .ok dense bits

/-- One value as text. -/
def asText (column : Column) (bytes : Bytes) : Result String :=
  okOr (utf8Decode bytes) (notValid column (utf8FaultText bytes))

/-- Text must be well-formed UTF-8, which is settled on the way into the array. -/
def intoText (column : Column) (dense : List Bytes) (validity : Option (List Bool)) (rows : ℕ) :
    Result (List String) :=
  match validity with
  | some bits => place column "" (asText column) dense bits
  | none => do
    failIf (dense.length ≠ rows) (corrupt column "dense values do not match the row count")
    dense.mapM (asText column)

end Expansions

/-- The value positions of the array a logical type is decoded into. -/
def positions (column : Column) (validity : Option (List Bool)) (rows : ℕ) :
    (logicalType : LogicalType) → List logicalType.storedType.Value →
      Result (List logicalType.arrayType.Value)
  | .bool, dense => scatter column false dense validity rows
  | .integer type, dense => scatter column (default : type.Value) dense validity rows
  | .float32, dense => scatter column (0 : UInt32) dense validity rows
  | .float64, dense => scatter column (0 : UInt64) dense validity rows
  | .decimal _ _, dense => scatter column (default : IntType.int64.Value) dense validity rows
  | .timestamp _ _, dense => scatter column (default : IntType.int64.Value) dense validity rows
  | .date32, dense => scatter column (default : IntType.int32.Value) dense validity rows
  | .utf8, dense => intoText column dense validity rows
  | .categorical _, dense => intoText column dense validity rows
  | .binary, dense => scatter column ([] : Bytes) dense validity rows
  | .fixedBinary _, dense => scatter column ([] : Bytes) dense validity rows

def buildArray (column : Column) (dense : DenseValues) (validity : Option (List Bool))
    (rows : ℕ) : Result LogicalArray :=
  if h : dense.type = column.logicalType.storedType then do
    let values ← positions column validity rows column.logicalType (h ▸ dense.values)
    return { type := column.logicalType.arrayType, values, validity }
  else
    .error ((Error.unsupportedFrame
      s!"column {column.name} decoded into a representation {column.logicalType.debug} cannot hold"
      none).withContext .payload)

end Read

/-! ### Dense values and their cost -/

namespace DenseValues

open Read

/-- The empty dense form of a column, as an all-null block leaves it. -/
def empty (column : Column) : DenseValues where
  type := column.logicalType.storedType
  values := []

/-- The bytes one logical position costs when the value is moved into it. -/
def slotBytes (dense : DenseValues) : ℕ :=
  match dense.type with
  | .bool => booleanValueBytes
  | .integer type => type.width
  | .float32 => 4
  | .float64 => 8
  | .bytes => valueHandleBytes

/-- An upper bound on the bytes one value costs when it is copied into another position. -/
def valueBytes (dense : DenseValues) : ℕ :=
  match dense with
  | ⟨.bytes, values⟩ => saturatingAdd ((values.map List.length).foldl max 0) valueHandleBytes
  | dense => dense.slotBytes

/-- Apply one expansion to whichever value type a column stores. -/
def expand (dense : DenseValues)
    (expansion : List dense.type.Value → Result (List dense.type.Value)) : Result DenseValues := do
  let values ← expansion dense.values
  return { type := dense.type, values }

/-- Expand the single value of a constant column to `count` positions. -/
def repeated (dense : DenseValues) (count : ℕ) (column : Column) : DecodeM DenseValues := do
  Budget.chargeElements count dense.valueBytes
  dense.expand (repeatValue count column)

/-- Expand a block-local dictionary through its index stream. -/
def expanded (dense : DenseValues) (indices : List ℕ) (column : Column) : DecodeM DenseValues := do
  Budget.chargeElements indices.length dense.valueBytes
  dense.expand (lookup indices column)

/-- Expand run values through their run lengths. -/
def runs (dense : DenseValues) (lengths : List ℕ) (column : Column) : DecodeM DenseValues := do
  let total ← okOr (lengths.foldlM checkedAdd 0) (corrupt column "run length sum overflow")
  Budget.chargeElements total dense.valueBytes
  dense.expand (expandRuns lengths column)

/-- Scatter the dense values into one logical position per row. -/
def intoArray (dense : DenseValues) (column : Column) (validity : Option (List Bool)) (rows : ℕ) :
    DecodeM LogicalArray := do
  unless movesIntoPlace column validity do
    Budget.chargeElements rows dense.slotBytes
  failIf (validity.any (·.length ≠ rows))
    (corrupt column "validity bitmap has the wrong row count")
  buildArray column dense validity rows

end DenseValues

end Acta
