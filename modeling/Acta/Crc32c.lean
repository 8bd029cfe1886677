import Acta.Format.Constants
import Acta.Lib.Crc
import Acta.Lib.LittleEndian

/-!
# CRC32C

The Castagnoli checksum behind every CRC field.  `Crc32c` is the streaming accumulator; feeding it
a region in pieces gives the checksum of the region.
-/

namespace Acta

open Wire

/-- The Castagnoli polynomial, reflected. -/
def castagnoli : BitVec 32 := 0x82f63b78#32

theorem msb_castagnoli : castagnoli.msb = true := by decide

/-- A streaming accumulator. -/
structure Crc32c where
  checksum : BitVec 32

namespace Crc32c

def new : Crc32c := { checksum := 0 }

def update (crc : Crc32c) (bytes : Bytes) : Crc32c :=
  { checksum := Crc.append castagnoli crc.checksum bytes }

def finish (crc : Crc32c) : ℕ := crc.checksum.toNat

@[simp] theorem update_nil (crc : Crc32c) : crc.update [] = crc := by
  simp [update]

theorem update_update (crc : Crc32c) (xs ys : Bytes) :
    (crc.update xs).update ys = crc.update (xs ++ ys) := by
  simp [update, Crc.append_append]

end Crc32c

/-- The checksum of a byte string. -/
def checksum (bytes : Bytes) : ℕ :=
  (Crc.checksum castagnoli bytes).toNat

@[simp] theorem finish_update_new (bytes : Bytes) :
    (Crc32c.new.update bytes).finish = checksum bytes := rfl

theorem checksum_lt (bytes : Bytes) : checksum bytes < 2 ^ 32 :=
  (Crc.checksum castagnoli bytes).isLt

/-- A replaced byte is always noticed. -/
theorem checksum_set_ne {bytes : Bytes} {i : ℕ} {byte : UInt8} (hi : i < bytes.length)
    (hne : bytes[i]? ≠ some byte) : checksum (bytes.set i byte) ≠ checksum bytes := by
  intro h
  exact Crc.checksum_set_ne msb_castagnoli hi hne (BitVec.eq_of_toNat_eq h)

example : checksum [0x31, 0x32, 0x33, 0x34, 0x35, 0x36, 0x37, 0x38, 0x39] = 0xe3069283 := by
  decide +kernel

/-! ### Records that end in their own checksum -/

/-- The four bytes at `k` spell the checksum of the bytes before them. -/
def Sealed (record : Bytes) (k : ℕ) : Prop :=
  leNat (slice record k 4) = checksum (record.take k)

instance (record : Bytes) (k : ℕ) : Decidable (Sealed record k) :=
  inferInstanceAs (Decidable (_ = _))

/-- **Replacing any byte of a sealed record breaks the seal**, whether the byte was covered or part
of the stored checksum. -/
theorem not_sealed_set {record : Bytes} {k i : ℕ} {byte : UInt8} (hseal : Sealed record k)
    (hlen : record.length = k + 4) (hi : i < record.length) (hne : record[i]? ≠ some byte) :
    ¬Sealed (record.set i byte) k := by
  unfold Sealed at hseal ⊢
  by_cases hk : i < k
  · have hstored : slice (record.set i byte) k 4 = slice record k 4 := slice_set_of_lt _ hk
    have hcovered : (record.take k)[i]? ≠ some byte := by rwa [List.getElem?_take_of_lt hk]
    rw [hstored, hseal, List.take_set]
    exact (checksum_set_ne (by simp; omega) hcovered).symm
  · have hcovered : (record.set i byte).take k = record.take k :=
      List.take_set_of_le (by omega)
    rw [hcovered, ← hseal]
    exact leNat_slice_set_ne (by omega) (by omega) (by omega) hne

end Acta
