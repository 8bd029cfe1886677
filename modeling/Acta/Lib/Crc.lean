import Mathlib.Data.List.Basic
import Mathlib.Data.BitVec

/-!
# Reflected cyclic redundancy checks

A reflected CRC folds the bytes of a message into a register, eight shifts for each byte.  When the
top bit of the reflected polynomial is set, which is to say that the polynomial has a constant
term, one shift loses nothing: `bitStep` is injective.  It follows that two messages that differ in
one byte never share a checksum, however long they are (`checksum_set_ne`).

The width is fixed at 32 bits and the polynomial is a parameter.
-/

namespace Crc

variable (poly : BitVec 32)

/-- One shift of the register: the polynomial is added when a set bit falls out. -/
def bitStep (state : BitVec 32) : BitVec 32 :=
  if state.getLsbD 0 then (state >>> 1) ^^^ poly else state >>> 1

/-- `n` shifts of the register. -/
def bitSteps : ℕ → BitVec 32 → BitVec 32
  | 0, state => state
  | n + 1, state => bitSteps n (bitStep poly state)

/-- Fold one byte into the register. -/
def byteStep (state : BitVec 32) (byte : UInt8) : BitVec 32 :=
  bitSteps poly 8 (state ^^^ byte.toBitVec.setWidth 32)

/-- Fold a message into the register. -/
def update (state : BitVec 32) (bytes : List UInt8) : BitVec 32 :=
  bytes.foldl (byteStep poly) state

/-- Continue a finished checksum over further bytes.  The register starts and ends complemented,
so the checksum of nothing is zero. -/
def append (crc : BitVec 32) (bytes : List UInt8) : BitVec 32 :=
  ~~~update poly (~~~crc) bytes

/-- The checksum of a message. -/
def checksum (bytes : List UInt8) : BitVec 32 :=
  append poly 0 bytes

/-! ### Streaming -/

theorem update_append (state : BitVec 32) (xs ys : List UInt8) :
    update poly state (xs ++ ys) = update poly (update poly state xs) ys := by
  rw [update, update, update, List.foldl_append]

@[simp] theorem append_nil (crc : BitVec 32) : append poly crc [] = crc := by
  simp [append, update]

/-- Checksumming in pieces agrees with checksumming the concatenation. -/
theorem append_append (crc : BitVec 32) (xs ys : List UInt8) :
    append poly (append poly crc xs) ys = append poly crc (xs ++ ys) := by
  rw [append, append, append, BitVec.not_not, update_append]

/-! ### A changed byte changes the checksum -/

variable {poly}

theorem msb_bitStep (hpoly : poly.msb = true) (state : BitVec 32) :
    (bitStep poly state).msb = state.getLsbD 0 := by
  unfold bitStep
  cases h : state.getLsbD 0 <;> simp [hpoly, BitVec.msb_ushiftRight]

theorem bitStep_injective (hpoly : poly.msb = true) : Function.Injective (bitStep poly) := by
  intro a b h
  have hlow : a.getLsbD 0 = b.getLsbD 0 := by
    rw [← msb_bitStep hpoly a, ← msb_bitStep hpoly b, h]
  have hshift : a >>> 1 = b >>> 1 := by
    unfold bitStep at h
    rw [hlow] at h
    split at h
    · exact (BitVec.xor_left_inj _).mp h
    · exact h
  apply BitVec.eq_of_getLsbD_eq
  intro i hi
  rcases i with - | i
  · exact hlow
  · have := congrArg (fun x : BitVec 32 ↦ x.getLsbD i) hshift
    simpa [Nat.add_comm] using this

theorem bitSteps_injective (hpoly : poly.msb = true) (n : ℕ) :
    Function.Injective (bitSteps poly n) := by
  induction n with
  | zero => exact fun _ _ h ↦ h
  | succ n ih => exact fun _ _ h ↦ bitStep_injective hpoly (ih h)

theorem byteStep_injective_state (hpoly : poly.msb = true) (byte : UInt8) :
    Function.Injective (byteStep poly · byte) := by
  intro a b h
  exact (BitVec.xor_left_inj _).mp (bitSteps_injective hpoly 8 h)

theorem byteStep_injective_byte (hpoly : poly.msb = true) (state : BitVec 32) :
    Function.Injective (byteStep poly state) := by
  intro a b h
  have hwide := (BitVec.xor_right_inj _).mp (bitSteps_injective hpoly 8 h)
  have hnat := congrArg BitVec.toNat hwide
  simp only [BitVec.toNat_setWidth, UInt8.toNat_toBitVec] at hnat
  apply UInt8.toNat_inj.mp
  have ha := a.toNat_lt
  have hb := b.toNat_lt
  omega

theorem update_injective (hpoly : poly.msb = true) (bytes : List UInt8) :
    Function.Injective (update poly · bytes) := by
  induction bytes with
  | nil => exact fun _ _ h ↦ h
  | cons byte bytes ih => exact fun _ _ h ↦ byteStep_injective_state hpoly byte (ih h)

/-- **One replaced byte is always noticed.** -/
theorem checksum_set_ne (hpoly : poly.msb = true) {bytes : List UInt8} {i : ℕ} {byte : UInt8}
    (hi : i < bytes.length) (hne : bytes[i]? ≠ some byte) :
    checksum poly (bytes.set i byte) ≠ checksum poly bytes := by
  intro h
  have hstate : update poly (~~~0) (bytes.set i byte) = update poly (~~~0) bytes := by
    simpa [checksum, append] using h
  have hsplit : bytes = bytes.take i ++ bytes[i] :: bytes.drop (i + 1) := by
    simp
  have hset : bytes.set i byte = bytes.take i ++ byte :: bytes.drop (i + 1) := by
    rw [List.set_eq_take_append_cons_drop, if_pos hi]
  rw [hset] at hstate
  conv_rhs at hstate => rw [hsplit]
  rw [update_append, update_append] at hstate
  have hbyte := byteStep_injective_byte hpoly _ (update_injective hpoly _ hstate)
  exact hne (by rw [hbyte, List.getElem?_eq_getElem hi])

end Crc
