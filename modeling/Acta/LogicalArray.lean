import Acta.Format.Constants
import Acta.Lib.LittleEndian
import Acta.Schema

/-!
# Logical arrays

The native arrays the writer takes and the reader returns: one value position for each logical row,
and an optional validity bitmap that says which of the rows are null.

Every variant of the source's array enumeration holds a list of one element type and a bitmap, so an
array here is an `ArrayType` with a list of its values.  Slicing, taking and reading a row are then
one definition for all of them.  Floats are their bit patterns, which is how the format compares
and stores them.
-/

namespace Acta

open Wire

namespace IntType

/-- The smallest value of an integer type. -/
def lowest (type : IntType) : ℤ :=
  if type.signed then -(2 ^ (8 * type.width - 1) : ℕ) else 0

/-- One past the largest value of an integer type. -/
def limit (type : IntType) : ℤ :=
  if type.signed then (2 ^ (8 * type.width - 1) : ℕ) else (2 ^ (8 * type.width) : ℕ)

/-- The integer fits the type. -/
def InRange (type : IntType) (value : ℤ) : Prop :=
  type.lowest ≤ value ∧ value < type.limit

instance (type : IntType) (value : ℤ) : Decidable (type.InRange value) :=
  inferInstanceAs (Decidable (_ ∧ _))

/-- The values of an integer type. -/
abbrev Value (type : IntType) : Type := { value : ℤ // type.InRange value }

theorem inRange_zero (type : IntType) : type.InRange 0 := by
  cases type <;> decide

instance (type : IntType) : Inhabited type.Value := ⟨⟨0, type.inRange_zero⟩⟩

theorem width_pos (type : IntType) : 0 < type.width := by
  cases type <;> decide

theorem width_le (type : IntType) : type.width ≤ 8 := by
  cases type <;> decide

/-- The value stored little-endian at the type's width. -/
def toLeBytes {type : IntType} (value : type.Value) : Bytes :=
  leBytes type.width (toTwos (8 * type.width) value.val)

@[simp] theorem length_toLeBytes {type : IntType} (value : type.Value) :
    (toLeBytes value).length = type.width := length_leBytes _ _

end IntType

/-- What the value positions of an array hold.  Precision, scale, unit and timezone are kept with
the array, as the source's arrays keep them. -/
inductive ArrayType
  | bool
  | integer (type : IntType)
  | float32
  | float64
  | decimal (precision : UInt16) (scale : Int16)
  | timestamp (unit : TimeUnit) (timezone : TimeZone)
  | utf8
  | categorical
  | binary
  | fixedBinary
  | date32
  deriving DecidableEq

/-- How error messages name the variant of an array. -/
def ArrayType.debug : ArrayType → String
  | bool => "Bool"
  | integer type => type.debug
  | float32 => "Float32"
  | float64 => "Float64"
  | decimal _ _ => "Decimal"
  | timestamp _ _ => "Timestamp"
  | utf8 => "Utf8"
  | categorical => "Categorical"
  | binary => "Binary"
  | fixedBinary => "FixedBinary"
  | date32 => "Date32"

/-- One value position of an array. -/
abbrev ArrayType.Value : ArrayType → Type
  | .bool => Bool
  | .integer type => type.Value
  | .float32 => UInt32
  | .float64 => UInt64
  | .decimal _ _ => IntType.int64.Value
  | .timestamp _ _ => IntType.int64.Value
  | .utf8 => String
  | .categorical => String
  | .binary => Bytes
  | .fixedBinary => Bytes
  | .date32 => IntType.int32.Value

instance : (type : ArrayType) → DecidableEq type.Value
  | .bool => inferInstanceAs (DecidableEq Bool)
  | .integer type => inferInstanceAs (DecidableEq type.Value)
  | .float32 => inferInstanceAs (DecidableEq UInt32)
  | .float64 => inferInstanceAs (DecidableEq UInt64)
  | .decimal _ _ => inferInstanceAs (DecidableEq IntType.int64.Value)
  | .timestamp _ _ => inferInstanceAs (DecidableEq IntType.int64.Value)
  | .utf8 => inferInstanceAs (DecidableEq String)
  | .categorical => inferInstanceAs (DecidableEq String)
  | .binary => inferInstanceAs (DecidableEq Bytes)
  | .fixedBinary => inferInstanceAs (DecidableEq Bytes)
  | .date32 => inferInstanceAs (DecidableEq IntType.int32.Value)

/-- The representation a schema column calls for. -/
def LogicalType.arrayType : LogicalType → ArrayType
  | .bool => .bool
  | .integer type => .integer type
  | .float32 => .float32
  | .float64 => .float64
  | .decimal precision scale => .decimal precision scale
  | .timestamp unit timezone => .timestamp unit timezone
  | .utf8 => .utf8
  | .categorical _ => .categorical
  | .binary => .binary
  | .fixedBinary _ => .fixedBinary
  | .date32 => .date32

/-- Whether a logical type describes values of a representation.  Decimal and timestamp parameters
belong to the array and are not compared here. -/
def LogicalType.describes : LogicalType → ArrayType → Bool
  | .bool, .bool => true
  | .integer expected, .integer actual => expected = actual
  | .float32, .float32 => true
  | .float64, .float64 => true
  | .decimal _ _, .decimal _ _ => true
  | .timestamp _ _, .timestamp _ _ => true
  | .utf8, .utf8 => true
  | .categorical _, .categorical => true
  | .binary, .binary => true
  | .fixedBinary _, .fixedBinary => true
  | .date32, .date32 => true
  | _, _ => false

/-- A logical scalar, as a row of an array shows it. -/
structure ScalarValue where
  type : ArrayType
  value : type.Value
  deriving DecidableEq

/-- A logical column array. -/
structure LogicalArray where
  type : ArrayType
  values : List type.Value
  validity : Option (List Bool)
  deriving DecidableEq

/-- The one place a validity bitmap is consulted.  A position outside it is not null. -/
def isNullAt (validity : Option (List Bool)) (index : ℕ) : Bool :=
  validity.any fun bits ↦ bits[index]? = some false

namespace LogicalArray

/-- The logical row count. -/
def len (array : LogicalArray) : ℕ := array.values.length

def isNull (array : LogicalArray) (index : ℕ) : Bool :=
  isNullAt array.validity index

/-- The logical value at a row, or nothing for a null position. -/
def valueAt (array : LogicalArray) (index : ℕ) : Option ScalarValue :=
  if array.isNull index then none else array.values[index]?.map (ScalarValue.mk array.type)

/-- Copy a row range.  The source asserts that the range lies in the array. -/
def slice (array : LogicalArray) (start stop : ℕ) : LogicalArray where
  type := array.type
  values := Wire.slice array.values start (stop - start)
  validity := array.validity.map (Wire.slice · start (stop - start))

/-- Select rows in the given order.  The source asserts that the rows lie in the array. -/
def take (array : LogicalArray) (indices : List ℕ) : LogicalArray where
  type := array.type
  values := indices.filterMap (array.values[·]?)
  validity := array.validity.map fun bits ↦ indices.filterMap (bits[·]?)

/-- A value position, as error messages write it. -/
def debugValue : (type : ArrayType) → type.Value → String
  | .bool, value => toString value
  | .integer _, value => toString value.val
  | .float32, value => Debug.float .single value.toNat
  | .float64, value => Debug.float .double value.toNat
  | .decimal _ _, value => toString value.val
  | .timestamp _ _, value => toString value.val
  | .utf8, value => Debug.text value
  | .categorical, value => Debug.text value
  | .binary, value => Debug.list (value.map toString)
  | .fixedBinary, value => Debug.list (value.map toString)
  | .date32, value => toString value.val

/-- The two fields every array has, under the name of a type. -/
def debugFields (array : LogicalArray) (name : String) : String :=
  let values := Debug.list (array.values.map (debugValue array.type))
  let validity := Debug.option (array.validity.map fun bits ↦ Debug.list (bits.map toString))
  s!"{name} \x7b values: {values}, validity: {validity} \x7d"

/-- How error messages write an array, with everything it holds. -/
def debug (array : LogicalArray) : String :=
  let primitive := array.debugFields "PrimitiveArray"
  let inner :=
    match array.type with
    | .decimal precision scale =>
      s!"DecimalArray \x7b values: {primitive}, precision: {precision}, scale: {scale} \x7d"
    | .timestamp unit timezone =>
      s!"TimestampArray \x7b values: {primitive}, unit: {unit.debug}, timezone: {timezone.debug} \x7d"
    | .utf8 => array.debugFields "Utf8Array"
    | .categorical => array.debugFields "Utf8Array"
    | .binary => array.debugFields "BinaryArray"
    | .fixedBinary => array.debugFields "BinaryArray"
    | _ => primitive
  s!"{array.type.debug}({inner})"

/-- Every row of an array, in order. -/
def rows (array : LogicalArray) : List (Option ScalarValue) :=
  (List.range array.len).map array.valueAt

@[simp] theorem length_rows (array : LogicalArray) : array.rows.length = array.len := by
  rw [rows, List.length_map, List.length_range]

end LogicalArray

end Acta
