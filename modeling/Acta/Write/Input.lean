import Acta.Codec.Compression
import Acta.Write.Buffer
import Acta.Write.Candidates
import Acta.Write.Framing

/-!
# Writer input

Schema, option, batch, array and scalar validation for the writer.
-/

namespace Acta

open Machine Wire

namespace Write

/-- The validity bitmap of an array that is the representation its column declares. -/
def declaredValidity (column : Column) (array : LogicalArray) : Result (Option (List Bool)) := do
  failIf (array.type ≠ column.logicalType.arrayType)
    (invalidBatch s!"column {column.name} array does not match its declared logical type")
  return array.validity

/-- Check that an array is the shape and representation its column declares. -/
def validateArray (column : Column) (array : LogicalArray) (rowCount : ℕ) : Result Unit := do
  let validity ← declaredValidity column array
  failIf (array.len ≠ rowCount)
    (invalidBatch s!"column {column.name} has {array.len} rows, expected {rowCount}")
  match validity with
  | none => .ok ()
  | some bits => do
    failIf (bits.length ≠ rowCount)
      (invalidBatch s!"column {column.name} has {bits.length} validity bits, expected {rowCount}")
    failIf (¬column.nullable)
      (invalidBatch s!"non-nullable column {column.name} has a validity bitmap")

/-- Check one buffered part of a column, and count its rows. -/
def validatePart (column : Column) (index counted : ℕ) (chunk : RecordBatch) : Result ℕ := do
  let array ← okOr (chunk.column index) (invalidBatch "the batch is missing a schema column")
  validateArray column array chunk.rowCount
  return counted + chunk.rowCount

/-- Check every buffered part of one column, and that the parts account for exactly the rows the
block claims. -/
def validateColumnParts (column : Column) (rows : BlockRows) (index : ℕ) : Result Unit := do
  let counted ← rows.chunks.foldlM (validatePart column index) 0
  failIf (counted ≠ rows.rowCount)
    (internal "the buffered parts do not add up to the block row count")

/-! ### Schemas -/

/-- Check one column, whose ID and name must be new. -/
def validateColumn (seen : List Column) (column : Column) : Result Unit := do
  failIf (column.id = 0) (invalidSchema "schema column IDs must be nonzero")
  failIf (column.id ∈ seen.map Column.id) (invalidSchema "schema column IDs must be unique")
  failIf (column.name ∈ seen.map Column.name) (invalidSchema "schema column names must be unique")
  -- Rejecting the type parameters now keeps a bad one out of a file already on disk.
  let _ ← typeIdAndParameters column.logicalType
  failIf (u32Max < (utf8Bytes column.name).length)
    (invalidSchema "column name exceeds uint32::MAX")
  failIf (Limits.default.maxSchemaFieldLength < (utf8Bytes column.name).length)
    (resource "column name exceeds the default schema field limit")

def validateColumns : List Column → List Column → Result Unit
  | _, [] => .ok ()
  | seen, column :: rest => do
    validateColumn seen column
    validateColumns (seen ++ [column]) rest

def validatePrimary (schema : Schema) : Result Unit :=
  match schema.primaryColumnId with
  | none => .ok ()
  | some primaryId => do
    let column ← okOr (schema.columnById primaryId)
      (invalidSchema "primary column ID is not declared")
    let selectable : Bool := match column.logicalType with
      | .timestamp _ _ | .date32 => true
      | _ => false
    failIf (column.nullable ∨ ¬selectable)
      (invalidSchema "primary column must be a non-nullable timestamp or date32 column")

def validateSchema (schema : Schema) : Result Unit := do
  failIf (schema.schemaId = 0) (invalidSchema "schema ID must be nonzero")
  failIf (schema.columns = []) (invalidSchema "schema must declare at least one column")
  failIf (Limits.default.maxSchemaColumns < schema.columns.length)
    (resource "schema column count exceeds the default limit")
  validateColumns [] schema.columns
  validatePrimary schema

/-! ### Options -/

/-- The compression level must be one the library supports. -/
def validateLevel (zstd : Zstd) (options : WriterOptions) : Result Unit :=
  match options.codec with
  | .none => .ok ()
  | .zstandard =>
    failIf (¬(zstd.minLevel ≤ options.zstdLevel ∧ options.zstdLevel ≤ zstd.maxLevel))
      (invalidOption
        s!"Zstandard compression level {options.zstdLevel} is outside the supported range {zstd.minLevel}..={zstd.maxLevel}")

/-- Refuse options that could not produce a readable file. -/
def validateOptions (zstd : Zstd) (options : WriterOptions) : Result Unit := do
  failIf (options.rowBlockTarget = 0)
    (invalidOption "row block target must be greater than zero")
  failIf (u32Max < options.rowBlockTarget ∨
      Limits.default.maxRowsPerBlock < options.rowBlockTarget)
    (resource "row block target exceeds the writer block limit")
  failIf (options.byteBlockTarget = 0)
    (invalidOption "byte block target must be greater than zero")
  failIf (Limits.default.maxFramePayloadLength < options.byteBlockTarget)
    (resource "byte block target exceeds the writer frame limit")
  validateLevel zstd options

/-! ### Batches -/

def validateScalar (column : Column) (value : ScalarValue) : Result Unit := do
  failIf (¬column.logicalType.describes value.type)
    (invalidBatch s!"column {column.name} contains a value with the wrong logical type")
  let length := (Candidates.storedBytes value).length
  match column.logicalType with
  | .utf8 | .categorical _ | .binary =>
    failIf (u32Max < length)
      (invalidBatch s!"column {column.name} value exceeds uint32::MAX bytes")
  | .fixedBinary byteWidth =>
    failIf (length ≠ byteWidth.toNat)
      (invalidBatch
        s!"column {column.name} has a {length}-byte value in a fixed_binary({byteWidth}) column")
  | _ => .ok ()

/-- The present values of an array satisfy their column. -/
def validateValues (column : Column) (array : LogicalArray) (rowCount : ℕ) : Result Unit :=
  (List.range rowCount).forM fun row ↦
    match array.valueAt row with
    | none => .ok ()
    | some value => validateScalar column value

def validateBatchInput (schema : Schema) (batch : RecordBatch) : Result Unit :=
  schema.columns.zipIdx.forM fun (column, index) ↦ do
    let array ← okOr (batch.column index) (invalidBatch "the batch is missing a schema column")
    validateArray column array batch.rowCount
    validateValues column array batch.rowCount

end Write

end Acta
