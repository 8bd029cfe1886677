import Acta.Error
import Acta.Format.Constants
import Mathlib.Data.Int.Notation

/-!
# Compression

Zstandard itself is not part of this crate, so it is a parameter: a compressor, a decompressor that
is given the room it may fill, and the range of levels the build supports.  What the crate relies on
is stated once, as `Zstd.RoundTrips`.
-/

namespace Acta

/-- The Zstandard library the crate is built with. -/
structure Zstd where
  /-- Compress at a level, or fail with the library's own message. -/
  compress : ℤ → Bytes → Except String Bytes
  /-- Decompress into a buffer of the given capacity, or fail with the library's own message. -/
  decompressToBuffer : Bytes → ℕ → Except String Bytes
  minLevel : ℤ
  maxLevel : ℤ

/-- Decompression into a buffer of the original length gives back what was compressed. -/
def Zstd.RoundTrips (zstd : Zstd) : Prop :=
  ∀ level bytes stored, zstd.compress level bytes = .ok stored →
    zstd.decompressToBuffer stored bytes.length = .ok bytes

/-- A library that stores what it is given. -/
def storingZstd : Zstd where
  compress _ bytes := .ok bytes
  decompressToBuffer bytes _ := .ok bytes
  minLevel := 1
  maxLevel := 22

theorem roundTrips_storingZstd : storingZstd.RoundTrips := by
  intro level bytes stored h
  cases h
  rfl

namespace Compression

def invalidStream (message : String) : Error :=
  (Error.corruption s!"invalid Zstandard stream: {message}" none).withContext .payload

/-- Decompress one independent stream into exactly `expectedLength` bytes. -/
def zstd (library : Zstd) (stored : Bytes) (expectedLength : ℕ) : Result Bytes := do
  let decoded ← (library.decompressToBuffer stored expectedLength).mapError invalidStream
  failIf (decoded.length ≠ expectedLength)
    ((Error.corruption
      s!"decompressed stream length {decoded.length} does not match {expectedLength}" none).withContext
      .payload)
  return decoded

end Compression

end Acta
