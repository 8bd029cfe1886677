import Acta.Error
import Mathlib.Data.Int.Notation

/-!
# Writer configuration

The writer's options, its accounting, and the errors its parts share.
-/

namespace Acta

def defaultRowBlockTarget : ℕ := 65536
def defaultByteBlockTarget : ℕ := 64 * 1024 * 1024
def defaultZstdLevel : ℤ := 3

/-- The stream codec a writer selects. -/
inductive WriterCodec
  | none
  | zstandard
  deriving DecidableEq, Repr

/-- The block-local min/max statistics policy. -/
inductive WriterStatistics
  | none
  | minMax
  | automatic
  deriving DecidableEq, Repr

/-- A value transform or layout a writer can apply without profiling. -/
inductive WriterTransform
  | raw
  | bitPacked
  | booleanRle
  | frameOfReference
  | delta
  | deltaOfDelta
  | byteStreamSplit
  | constant
  | dictionary
  | runLength
  deriving DecidableEq, Repr

/-- The writer-side encoding policy. -/
inductive WriterEncoding
  | raw
  | adaptive
  | fixed (transform : WriterTransform)
  deriving DecidableEq, Repr

/-- Options for buffered writing. -/
structure WriterOptions where
  rowIds : Bool := false
  rowBlockTarget : ℕ := defaultRowBlockTarget
  byteBlockTarget : ℕ := defaultByteBlockTarget
  codec : WriterCodec := .none
  zstdLevel : ℤ := defaultZstdLevel
  encoding : WriterEncoding := .raw
  statistics : WriterStatistics := .none
  deriving DecidableEq, Repr

/-- A point-in-time view of the writer's data accounting. -/
structure WriteAccounting where
  bufferedRows : ℕ := 0
  bufferedBytes : ℕ := 0
  publishedRows : ℕ := 0
  publishedBytes : ℕ := 0
  durableRows : ℕ := 0
  durableBytes : ℕ := 0
  totalRows : ℕ := 0
  totalBytes : ℕ := 0
  deriving DecidableEq, Repr

/-- The result of a successfully finished writer. -/
structure WriteSummary where
  rowsWritten : ℕ
  blocksWritten : ℕ
  bytesWritten : ℕ
  lastSequence : Option ℕ
  accounting : WriteAccounting
  deriving DecidableEq, Repr

namespace Write

def invalidSchema (message : String) : Error :=
  (Error.invalidArgument message).withContext .header

/-- An option value this build or this format version cannot honor. -/
def invalidOption (message : String) : Error :=
  (Error.invalidArgument message).withContext .file

def invalidBatch (message : String) : Error :=
  (Error.invalidArgument message).withContext .payload

def resource (message : String) : Error :=
  (Error.resourceLimit message none).withContext .payload

/-- An invariant of the writer no input can violate. -/
def internal (message : String) : Error :=
  Error.internal message

end Write

end Acta
