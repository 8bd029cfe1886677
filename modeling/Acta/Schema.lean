import Acta.Lib.Debug
import Mathlib.Data.Nat.Notation
import Mathlib.Data.List.Basic

/-!
# Schemas

Immutable column metadata.  The eight integer logical types differ only in their width and
signedness, so they are one constructor over `IntType`; each keeps its own name.
-/

namespace Acta

/-- The integer types a column can hold. -/
inductive IntType
  | int8
  | int16
  | int32
  | int64
  | uint8
  | uint16
  | uint32
  | uint64
  deriving DecidableEq, Repr

namespace IntType

/-- The stored width in bytes. -/
def width : IntType → ℕ
  | int8 | uint8 => 1
  | int16 | uint16 => 2
  | int32 | uint32 => 4
  | int64 | uint64 => 8

def signed : IntType → Bool
  | int8 | int16 | int32 | int64 => true
  | uint8 | uint16 | uint32 | uint64 => false

end IntType

/-- The logical unit of a timestamp column. -/
inductive TimeUnit
  | second
  | millisecond
  | microsecond
  | nanosecond
  deriving DecidableEq, Repr

/-- The timezone annotation of a timestamp column. -/
inductive TimeZone
  | naive
  | utc
  | iana (name : String)
  deriving DecidableEq, Repr

/-- A logical column type. -/
inductive LogicalType
  | bool
  | integer (type : IntType)
  | float32
  | float64
  | decimal (precision : UInt16) (scale : Int16)
  | timestamp (unit : TimeUnit) (timezone : TimeZone)
  | utf8
  | categorical (ordered : Bool)
  | binary
  | fixedBinary (byteWidth : UInt32)
  | date32
  deriving DecidableEq

namespace LogicalType

@[match_pattern] abbrev int8 : LogicalType := .integer .int8
@[match_pattern] abbrev int16 : LogicalType := .integer .int16
@[match_pattern] abbrev int32 : LogicalType := .integer .int32
@[match_pattern] abbrev int64 : LogicalType := .integer .int64
@[match_pattern] abbrev uint8 : LogicalType := .integer .uint8
@[match_pattern] abbrev uint16 : LogicalType := .integer .uint16
@[match_pattern] abbrev uint32 : LogicalType := .integer .uint32
@[match_pattern] abbrev uint64 : LogicalType := .integer .uint64

end LogicalType

/-! ### How error messages name a type -/

namespace IntType

def debug : IntType → String
  | int8 => "Int8"
  | int16 => "Int16"
  | int32 => "Int32"
  | int64 => "Int64"
  | uint8 => "UInt8"
  | uint16 => "UInt16"
  | uint32 => "UInt32"
  | uint64 => "UInt64"

end IntType

def TimeUnit.debug : TimeUnit → String
  | second => "Second"
  | millisecond => "Millisecond"
  | microsecond => "Microsecond"
  | nanosecond => "Nanosecond"

def TimeZone.debug : TimeZone → String
  | naive => "Naive"
  | utc => "Utc"
  | iana name => s!"Iana({Debug.text name})"

def LogicalType.debug : LogicalType → String
  | bool => "Bool"
  | integer type => type.debug
  | float32 => "Float32"
  | float64 => "Float64"
  | decimal precision scale => s!"Decimal \x7b precision: {precision}, scale: {scale} \x7d"
  | timestamp unit timezone =>
    s!"Timestamp \x7b unit: {unit.debug}, timezone: {timezone.debug} \x7d"
  | utf8 => "Utf8"
  | categorical ordered => s!"Categorical \x7b ordered: {ordered} \x7d"
  | binary => "Binary"
  | fixedBinary byteWidth => s!"FixedBinary \x7b byte_width: {byteWidth} \x7d"
  | date32 => "Date32"

/-- One immutable column of a schema. -/
structure Column where
  id : UInt32
  name : String
  logicalType : LogicalType
  nullable : Bool
  deriving DecidableEq

/-- The fixed schema shared by every block of a file. -/
structure Schema where
  schemaId : UInt64
  columns : List Column
  primaryColumnId : Option UInt32
  deriving DecidableEq

namespace Schema

/-- The column with a stable ID. -/
def columnById (schema : Schema) (id : UInt32) : Option Column :=
  schema.columns.find? (·.id = id)

/-- The selected primary timestamp or date column. -/
def primaryColumn (schema : Schema) : Option Column :=
  schema.primaryColumnId.bind schema.columnById

end Schema

/-- A schema of one column of integers. -/
def numberSchema : Schema where
  schemaId := 1
  columns := [{ id := 1, name := "n", logicalType := .int64, nullable := false }]
  primaryColumnId := none

end Acta
