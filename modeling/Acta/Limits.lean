import Acta.Lib.Checked

/-!
# Limits

Bounds a reader checks against the sizes a file declares about itself.  Each is an inclusive
maximum.
-/

namespace Acta

open Machine

def defaultMaxFrameHeaderLength : ℕ := 64 * 1024 * 1024
def defaultMaxFramePayloadLength : ℕ := 4 * 1024 * 1024 * 1024
def defaultMaxSchemaColumns : ℕ := 65536
def defaultMaxSchemaFieldLength : ℕ := 16 * 1024 * 1024
def defaultMaxBlocks : ℕ := 10000000
def defaultMaxRowsPerBlock : ℕ := 16 * 1024 * 1024
def defaultMaxDecodedBlockBytes : ℕ := 1024 * 1024 * 1024

/-- Bounds checked against declared sizes before any file region is read.  The last two are spent
cumulatively by one scan over all its blocks; the default leaves them unbounded. -/
structure Limits where
  maxFrameHeaderLength : ℕ := defaultMaxFrameHeaderLength
  maxFramePayloadLength : ℕ := defaultMaxFramePayloadLength
  maxSchemaColumns : ℕ := defaultMaxSchemaColumns
  maxSchemaFieldLength : ℕ := defaultMaxSchemaFieldLength
  maxBlocks : ℕ := defaultMaxBlocks
  maxRowsPerBlock : ℕ := defaultMaxRowsPerBlock
  maxDecodedBlockBytes : ℕ := defaultMaxDecodedBlockBytes
  maxRowsPerScan : ℕ := u64Max
  maxDecodedScanBytes : ℕ := u64Max
  deriving DecidableEq, Repr

/-- The default limits. -/
def Limits.default : Limits := {}

/-- Limits no tighter than the defaults on anything a walk of the file checks. -/
structure Limits.CoversDefault (limits : Limits) : Prop where
  header : defaultMaxFrameHeaderLength ≤ limits.maxFrameHeaderLength
  payload : defaultMaxFramePayloadLength ≤ limits.maxFramePayloadLength
  columns : defaultMaxSchemaColumns ≤ limits.maxSchemaColumns
  field : defaultMaxSchemaFieldLength ≤ limits.maxSchemaFieldLength
  rows : defaultMaxRowsPerBlock ≤ limits.maxRowsPerBlock

theorem Limits.coversDefault_default : Limits.default.CoversDefault :=
  ⟨Nat.le_refl _, Nat.le_refl _, Nat.le_refl _, Nat.le_refl _, Nat.le_refl _⟩

end Acta
