import Acta.Error
import Acta.LogicalArray
import Mathlib.Data.List.Forall2

/-!
# Record batches

Logical rows grouped as one array for each schema column.  A batch can only be built by `tryNew`,
which checks every array against its column and against the row count, and slicing and taking keep
what it established, so a batch carries the proof that it is well formed.
-/

namespace Acta

open Wire

/-- Whether an array is the representation its schema column calls for. -/
def holds (column : Column) (array : LogicalArray) : Bool :=
  column.logicalType.describes array.type

/-- An array that can stand for a column in a batch of `rowCount` rows. -/
structure Fits (column : Column) (rowCount : ℕ) (array : LogicalArray) : Prop where
  len : array.len = rowCount
  holds : holds column array
  validity : ∀ bits ∈ array.validity, bits.length = rowCount ∧ column.nullable

/-- A block of logical rows with one array for each schema column. -/
structure RecordBatch where
  schema : Schema
  columns : List LogicalArray
  rowCount : ℕ
  /-- Every column has its array, and the array fits it. -/
  fits : List.Forall₂ (Fits · rowCount) schema.columns columns

namespace RecordBatch

def invalid (message : String) : Error :=
  (Error.invalidArgument message).withContext .payload

/-- The checks `tryNew` makes of one column. -/
def checkColumn (column : Column) (array : LogicalArray) (rowCount : ℕ) : Result Unit := do
  failIf (array.len ≠ rowCount)
    (invalid s!"column {column.name} has {array.len} values, expected {rowCount}")
  failIf (¬holds column array)
    (invalid
      s!"column {column.name} was decoded as {array.debug}, which is not {column.logicalType.debug}")
  match array.validity with
  | none => .ok ()
  | some bits => do
    failIf (bits.length ≠ rowCount)
      (invalid s!"column {column.name} has a validity bitmap with {bits.length} bits, expected {rowCount}")
    failIf (¬column.nullable)
      (invalid s!"non-nullable column {column.name} has a validity bitmap")

theorem checkColumn_eq_ok {column : Column} {array : LogicalArray} {rowCount : ℕ} {u : Unit} :
    checkColumn column array rowCount = .ok u ↔ Fits column rowCount array := by
  cases hvalidity : array.validity with
  | none =>
    simp only [checkColumn, hvalidity, bind_eq_ok, failIf_eq_ok, not_not, and_true]
    constructor
    · rintro ⟨-, hlen, -, hholds⟩
      exact ⟨hlen, hholds, by simp [hvalidity]⟩
    · rintro ⟨hlen, hholds, -⟩
      exact ⟨(), hlen, (), hholds⟩
  | some bits =>
    simp only [checkColumn, hvalidity, bind_eq_ok, failIf_eq_ok, not_not]
    constructor
    · rintro ⟨-, hlen, -, hholds, -, hbits, hnullable⟩
      exact ⟨hlen, hholds, by simp [hvalidity, hbits, hnullable]⟩
    · rintro ⟨hlen, hholds, hbits⟩
      obtain ⟨hlength, hnullable⟩ := hbits bits hvalidity
      exact ⟨(), hlen, (), hholds, (), hlength, hnullable⟩

/-- The checks `tryNew` makes of the columns, which the schema and the arrays pair up. -/
def checkColumns (columns : List Column) (arrays : List LogicalArray) (rowCount : ℕ) :
    Result Unit :=
  (columns.zip arrays).forM fun (column, array) ↦ checkColumn column array rowCount

theorem forall₂_of_checkColumns {columns : List Column} {arrays : List LogicalArray}
    {rowCount : ℕ} (hlength : arrays.length = columns.length)
    (h : checkColumns columns arrays rowCount = .ok ()) :
    List.Forall₂ (Fits · rowCount) columns arrays := by
  induction columns generalizing arrays with
  | nil => simp_all
  | cons column columns ih =>
    cases arrays with
    | nil => simp at hlength
    | cons array arrays =>
      simp only [checkColumns, List.zip_cons_cons] at h
      obtain ⟨_, hcheck, h⟩ := bind_eq_ok.mp h
      exact .cons (checkColumn_eq_ok.mp hcheck) (ih (by simpa using hlength) h)

/-- Build a batch from arrays that already have one position for each row. -/
def tryNew (schema : Schema) (columns : List LogicalArray) (rowCount : ℕ) : Result RecordBatch :=
  if hlength : columns.length = schema.columns.length then
    match hcheck : checkColumns schema.columns columns rowCount with
    | .ok () => .ok { schema, columns, rowCount, fits := forall₂_of_checkColumns hlength hcheck }
    | .error e => .error e
  else
    .error (invalid "the column count does not match the schema")

/-- The array at a schema position. -/
def column (batch : RecordBatch) (index : ℕ) : Option LogicalArray :=
  batch.columns[index]?

theorem length_filterMap_getElem? {α : Type} (xs : List α) (indices : List ℕ) :
    (indices.filterMap (xs[·]?)).length = (indices.filter (· < xs.length)).length := by
  induction indices with
  | nil => rfl
  | cons i indices ih =>
    by_cases hi : i < xs.length
    · simp [hi, ih]
    · simp [hi, ih]

theorem Fits.slice {column : Column} {array : LogicalArray} {rowCount : ℕ}
    (h : Fits column rowCount array) (start stop : ℕ) :
    Fits column (min (stop - start) (rowCount - start)) (array.slice start stop) := by
  refine ⟨?_, h.holds, ?_⟩
  · rw [← h.len]
    exact length_slice _ _ _
  · intro bits hbits
    obtain ⟨whole, hwhole, rfl⟩ := Option.map_eq_some_iff.mp hbits
    obtain ⟨hlength, hnullable⟩ := h.validity whole hwhole
    exact ⟨by rw [length_slice, hlength], hnullable⟩

theorem Fits.take {column : Column} {array : LogicalArray} {rowCount : ℕ}
    (h : Fits column rowCount array) (indices : List ℕ) :
    Fits column (indices.filter (· < rowCount)).length (array.take indices) := by
  refine ⟨?_, h.holds, ?_⟩
  · rw [← h.len]
    exact length_filterMap_getElem? _ _
  · intro bits hbits
    obtain ⟨whole, hwhole, rfl⟩ := Option.map_eq_some_iff.mp hbits
    obtain ⟨hlength, hnullable⟩ := h.validity whole hwhole
    exact ⟨by rw [length_filterMap_getElem?, hlength], hnullable⟩

/-- Copy a row range.  The source asserts that the range lies in the batch, and then the row count
is the length of the range. -/
def slice (batch : RecordBatch) (start stop : ℕ) : RecordBatch where
  schema := batch.schema
  columns := batch.columns.map (·.slice start stop)
  rowCount := min (stop - start) (batch.rowCount - start)
  fits := by
    rw [List.forall₂_map_right_iff]
    exact batch.fits.imp fun _ _ h ↦ Fits.slice h start stop

/-- Select rows.  The source asserts that they lie in the batch, and then the row count is the
number of rows asked for. -/
def take (batch : RecordBatch) (indices : List ℕ) : RecordBatch where
  schema := batch.schema
  columns := batch.columns.map (·.take indices)
  rowCount := (indices.filter (· < batch.rowCount)).length
  fits := by
    rw [List.forall₂_map_right_iff]
    exact batch.fits.imp fun _ _ h ↦ Fits.take h indices

end RecordBatch

/-- A batch of one column of integers. -/
def numbers (values : List IntType.int64.Value) : RecordBatch where
  schema := numberSchema
  columns := [{ type := .integer .int64, values, validity := none }]
  rowCount := values.length
  fits := .cons ⟨rfl, rfl, by simp⟩ .nil

def oneNumber : RecordBatch := numbers [⟨5, by decide⟩]

end Acta
