import Acta.Lib.Slice
import Mathlib.Tactic.NormNum
import Mathlib.Tactic.Ring

/-!
# Little-endian numbers

The number a byte string spells, least significant byte first, and the string of a given width that
spells a number.  The two are inverse on the strings of one width and the numbers it can hold, so a
field's stored bytes and its value determine each other.
-/

namespace Wire

/-- The number whose base-256 digits are `bytes`, least significant first. -/
def leNat : List UInt8 → ℕ
  | [] => 0
  | b :: bytes => b.toNat + 256 * leNat bytes

/-- The `width` low base-256 digits of `n`, least significant first. -/
def leBytes : ℕ → ℕ → List UInt8
  | 0, _ => []
  | width + 1, n => UInt8.ofNat n :: leBytes width (n / 256)

@[simp] theorem leNat_nil : leNat [] = 0 := rfl

@[simp] theorem leNat_cons (b : UInt8) (bytes : List UInt8) :
    leNat (b :: bytes) = b.toNat + 256 * leNat bytes := rfl

@[simp] theorem length_leBytes (width n : ℕ) : (leBytes width n).length = width := by
  induction width generalizing n with
  | zero => rfl
  | succ width ih => simp [leBytes, ih]

theorem leNat_lt (bytes : List UInt8) : leNat bytes < 256 ^ bytes.length := by
  induction bytes with
  | nil => simp
  | cons b bytes ih =>
    have hb := b.toNat_lt
    rw [leNat_cons, List.length_cons, Nat.pow_succ]
    omega

/-- **Reading back a written number** keeps the digits the width has room for. -/
theorem leNat_leBytes (width n : ℕ) : leNat (leBytes width n) = n % 256 ^ width := by
  induction width generalizing n with
  | zero => simp [leBytes, Nat.mod_one]
  | succ width ih =>
    rw [leBytes, leNat_cons, ih, Nat.pow_succ, Nat.mul_comm (256 ^ width), Nat.mod_mul]
    simp

theorem leNat_leBytes_of_lt {width n : ℕ} (h : n < 256 ^ width) :
    leNat (leBytes width n) = n := by
  rw [leNat_leBytes, Nat.mod_eq_of_lt h]

@[simp] theorem leNat_leBytes_uint16 (x : UInt16) : leNat (leBytes 2 x.toNat) = x.toNat :=
  leNat_leBytes_of_lt x.toNat_lt

@[simp] theorem leNat_leBytes_uint32 (x : UInt32) : leNat (leBytes 4 x.toNat) = x.toNat :=
  leNat_leBytes_of_lt x.toNat_lt

@[simp] theorem leNat_leBytes_uint64 (x : UInt64) : leNat (leBytes 8 x.toNat) = x.toNat :=
  leNat_leBytes_of_lt x.toNat_lt

/-- **Writing back a read number** gives the same bytes. -/
theorem leBytes_leNat (bytes : List UInt8) : leBytes bytes.length (leNat bytes) = bytes := by
  induction bytes with
  | nil => rfl
  | cons b bytes ih =>
    have hb := b.toNat_lt
    have hdiv : (b.toNat + 256 * leNat bytes) / 256 = leNat bytes := by omega
    have hmod : UInt8.ofNat (b.toNat + 256 * leNat bytes) = b := by
      apply UInt8.toNat_inj.mp
      rw [UInt8.toNat_ofNat']
      omega
    rw [List.length_cons, leNat_cons, leBytes, hdiv, hmod, ih]

theorem leNat_inj {xs ys : List UInt8} (hlen : xs.length = ys.length) (h : leNat xs = leNat ys) :
    xs = ys := by
  rw [← leBytes_leNat xs, ← leBytes_leNat ys, hlen, h]

theorem leNat_append (xs ys : List UInt8) :
    leNat (xs ++ ys) = leNat xs + 256 ^ xs.length * leNat ys := by
  induction xs with
  | nil => simp
  | cons x xs ih =>
    rw [List.cons_append, leNat_cons, leNat_cons, ih, List.length_cons, Nat.pow_succ]
    ring

/-! ### One replaced byte -/

theorem slice_set_ne {bytes : List UInt8} {start length i : ℕ} {byte : UInt8}
    (hstart : start ≤ i) (hi : i < start + length) (hlength : start + length ≤ bytes.length)
    (hne : bytes[i]? ≠ some byte) :
    slice (bytes.set i byte) start length ≠ slice bytes start length := by
  rw [slice_set _ hstart]
  apply set_ne_self
  · rw [length_slice_of_le hlength]
    omega
  · rwa [getElem?_slice _ (by omega), Nat.add_sub_cancel' hstart]

/-- A number changes with any byte of the field that spells it. -/
theorem leNat_slice_set_ne {bytes : List UInt8} {start length i : ℕ} {byte : UInt8}
    (hstart : start ≤ i) (hi : i < start + length) (hlength : start + length ≤ bytes.length)
    (hne : bytes[i]? ≠ some byte) :
    leNat (slice (bytes.set i byte) start length) ≠ leNat (slice bytes start length) := by
  intro h
  apply slice_set_ne hstart hi hlength hne
  apply leNat_inj _ h
  rw [length_slice_of_le (by simpa using hlength), length_slice_of_le hlength]

/-! ### Two's complement -/

/-- The integer a `bits`-bit pattern spells in two's complement. -/
def ofTwos (bits n : ℕ) : ℤ :=
  (n : ℤ).bmod (2 ^ bits)

/-- The `bits`-bit two's-complement pattern of an integer. -/
def toTwos (bits : ℕ) (i : ℤ) : ℕ :=
  (i % (2 ^ bits : ℕ)).toNat

theorem toTwos_lt (bits : ℕ) (i : ℤ) : toTwos bits i < 2 ^ bits := by
  have hpos : (0 : ℤ) < (2 ^ bits : ℕ) := by exact_mod_cast Nat.two_pow_pos bits
  have hlt := Int.emod_lt_of_pos i hpos
  have hnonneg := Int.emod_nonneg i hpos.ne'
  unfold toTwos
  omega

/-- The pattern of an integer in range spells it. -/
theorem ofTwos_toTwos {bits : ℕ} (hbits : 0 < bits) {i : ℤ} (hlo : -(2 ^ (bits - 1) : ℕ) ≤ i)
    (hhi : i < (2 ^ (bits - 1) : ℕ)) : ofTwos bits (toTwos bits i) = i := by
  have hpos : (0 : ℤ) < (2 ^ bits : ℕ) := by exact_mod_cast Nat.two_pow_pos bits
  have hhalf : 2 ^ bits = 2 * 2 ^ (bits - 1) := by
    rw [← Nat.pow_succ', Nat.succ_eq_add_one, Nat.sub_add_cancel hbits]
  have hcast : ((i % (2 ^ bits : ℕ)).toNat : ℤ) = i % (2 ^ bits : ℕ) :=
    Int.toNat_of_nonneg (Int.emod_nonneg i hpos.ne')
  rw [ofTwos, toTwos, hcast, Int.emod_bmod]
  apply Int.bmod_eq_of_le <;> omega

/-- An integer spelled by a pattern has that pattern. -/
theorem toTwos_ofTwos {bits n : ℕ} (h : n < 2 ^ bits) : toTwos bits (ofTwos bits n) = n := by
  have hmod : (n : ℤ) % (2 ^ bits : ℕ) = n := by exact_mod_cast Nat.mod_eq_of_lt h
  rw [toTwos, ofTwos, Int.bmod_emod, hmod, Int.toNat_natCast]

theorem ofTwos_bounds {bits : ℕ} (hbits : 0 < bits) (n : ℕ) :
    -(2 ^ (bits - 1) : ℕ) ≤ ofTwos bits n ∧ ofTwos bits n < (2 ^ (bits - 1) : ℕ) := by
  have hpos : 0 < 2 ^ bits := Nat.two_pow_pos bits
  have hhalf : 2 ^ bits = 2 * 2 ^ (bits - 1) := by
    rw [← Nat.pow_succ', Nat.succ_eq_add_one, Nat.sub_add_cancel hbits]
  have hle := @Int.le_bmod n _ hpos
  have hlt := @Int.bmod_lt n _ hpos
  unfold ofTwos
  omega

/-! ### Values and the bytes that store them -/

theorem leNat_eq_iff {bytes : List UInt8} {n : ℕ} :
    leNat bytes = n ↔ n < 256 ^ bytes.length ∧ leBytes bytes.length n = bytes := by
  constructor
  · rintro rfl
    exact ⟨leNat_lt bytes, leBytes_leNat bytes⟩
  · rintro ⟨hlt, hbytes⟩
    rw [← hbytes, leNat_leBytes_of_lt (by simpa using hlt)]

theorem ofTwos_leNat_eq_iff {bytes : List UInt8} (hne : bytes ≠ []) {i : ℤ} :
    ofTwos (8 * bytes.length) (leNat bytes) = i ↔
      (-(2 ^ (8 * bytes.length - 1) : ℕ) ≤ i ∧ i < (2 ^ (8 * bytes.length - 1) : ℕ)) ∧
        leBytes bytes.length (toTwos (8 * bytes.length) i) = bytes := by
  have hbits : 0 < 8 * bytes.length := by
    have hlength := List.length_pos_of_ne_nil hne
    omega
  have hlimit : 256 ^ bytes.length = 2 ^ (8 * bytes.length) := by
    rw [Nat.pow_mul]
  constructor
  · rintro rfl
    refine ⟨ofTwos_bounds hbits _, ?_⟩
    rw [toTwos_ofTwos (hlimit ▸ leNat_lt bytes), leBytes_leNat]
  · rintro ⟨⟨hlo, hhi⟩, hbytes⟩
    have hnat : leNat bytes = toTwos (8 * bytes.length) i :=
      leNat_eq_iff.mpr ⟨hlimit ▸ toTwos_lt _ i, hbytes⟩
    rw [hnat, ofTwos_toTwos hbits hlo hhi]

end Wire
