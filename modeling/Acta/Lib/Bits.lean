import Acta.Lib.Slice
import Mathlib.Algebra.Order.Group.Nat
import Mathlib.Data.Nat.Bitwise

/-!
# Bit packing

Numbers of a fixed bit width, laid end to end least significant bit first and cut into bytes.
`packBits` writes a list of bits and `bitAt` reads one back, so packing is described bit by bit;
`unpack_packWords` is the round trip for whole numbers.
-/

namespace Wire

/-- The `width` low bits of a number, least significant first. -/
def natBits (width n : ℕ) : List Bool :=
  (List.range width).map n.testBit

/-- The number a list of bits spells, least significant first. -/
def bitsNat : List Bool → ℕ
  | [] => 0
  | bit :: bits => bit.toNat + 2 * bitsNat bits

@[simp] theorem length_natBits (width n : ℕ) : (natBits width n).length = width := by
  simp [natBits]

theorem getElem_natBits {width n i : ℕ} (h : i < (natBits width n).length) :
    (natBits width n)[i] = n.testBit i := by
  simp [natBits]

theorem bitsNat_lt (bits : List Bool) : bitsNat bits < 2 ^ bits.length := by
  induction bits with
  | nil => simp [bitsNat]
  | cons bit bits ih =>
    have hbit := bit.toNat_lt
    rw [bitsNat, List.length_cons, Nat.pow_succ]
    omega

theorem testBit_bitsNat {bits : List Bool} {i : ℕ} (h : i < bits.length) :
    (bitsNat bits).testBit i = bits[i] := by
  induction bits generalizing i with
  | nil => simp at h
  | cons bit bits ih =>
    cases i with
    | zero => cases bit <;> simp [bitsNat, Nat.testBit_zero]
    | succ i =>
      have hdiv : (bit.toNat + 2 * bitsNat bits) / 2 = bitsNat bits := by
        have hbit := bit.toNat_lt
        omega
      rw [bitsNat, Nat.testBit_succ, hdiv, ih (by simpa using h), List.getElem_cons_succ]

theorem testBit_bitsNat_of_le {bits : List Bool} {i : ℕ} (h : bits.length ≤ i) :
    (bitsNat bits).testBit i = false :=
  Nat.testBit_lt_two_pow (Nat.lt_of_lt_of_le (bitsNat_lt bits) (Nat.pow_le_pow_right (by omega) h))

/-- One more bit goes above the others. -/
theorem bitsNat_concat (bits : List Bool) (bit : Bool) :
    bitsNat (bits ++ [bit]) = if bit then bitsNat bits ||| 1 <<< bits.length else bitsNat bits := by
  have hsum : bitsNat (bits ++ [bit]) = 2 ^ bits.length * bit.toNat + bitsNat bits := by
    induction bits with
    | nil => simp [bitsNat]
    | cons first bits ih =>
      rw [List.cons_append, bitsNat, ih, bitsNat, List.length_cons, Nat.pow_succ', Nat.mul_assoc]
      omega
  rw [hsum]
  cases bit with
  | false => rw [Bool.toNat_false, Nat.mul_zero, Nat.zero_add, if_neg Bool.false_ne_true]
  | true =>
    rw [Nat.two_pow_add_eq_or_of_lt (bitsNat_lt bits), Bool.toNat_true, Nat.mul_one, if_pos rfl,
      Nat.one_shiftLeft, Nat.or_comm]

/-- The bits of a number that fits the width spell it. -/
theorem bitsNat_natBits {width n : ℕ} (h : n < 2 ^ width) : bitsNat (natBits width n) = n := by
  apply Nat.eq_of_testBit_eq
  intro i
  by_cases hi : i < width
  · rw [testBit_bitsNat (by simpa using hi), getElem_natBits]
  · have hi' : width ≤ i := Nat.not_lt.mp hi
    rw [testBit_bitsNat_of_le (by simpa using hi'),
      Nat.testBit_lt_two_pow (Nat.lt_of_lt_of_le h (Nat.pow_le_pow_right (by omega) hi'))]

/-! ### Bits in bytes -/

/-- How many bytes hold that many bits. -/
def bitmapBytes (bits : ℕ) : ℕ := (bits + 7) / 8

/-- Bits cut into bytes, least significant bit first.  The last byte is filled with zeros. -/
def packBits (bits : List Bool) : List UInt8 :=
  (List.range (bitmapBytes bits.length)).map fun j ↦ UInt8.ofNat (bitsNat (slice bits (8 * j) 8))

/-- The bit at a position of a byte string.  There are zeros past its end. -/
def bitAt (bytes : List UInt8) (i : ℕ) : Bool :=
  (bytes[i / 8]?.getD 0).toNat.testBit (i % 8)

@[simp] theorem length_packBits (bits : List Bool) :
    (packBits bits).length = bitmapBytes bits.length := by
  simp [packBits]

theorem toNat_packBits {bits : List Bool} {j : ℕ} (h : j < bitmapBytes bits.length) :
    ((packBits bits)[j]?.getD 0).toNat = bitsNat (slice bits (8 * j) 8) := by
  have hlt : bitsNat (slice bits (8 * j) 8) < 2 ^ 8 :=
    Nat.lt_of_lt_of_le (bitsNat_lt _) (Nat.pow_le_pow_right (by omega)
      (by rw [length_slice]; exact Nat.min_le_left _ _))
  simp only [packBits, List.getElem?_map, List.getElem?_range h, Option.map_some, Option.getD_some,
    UInt8.toNat_ofNat']
  exact Nat.mod_eq_of_lt hlt

/-- **A packed bit is read back**. -/
theorem bitAt_packBits {bits : List Bool} {i : ℕ} (h : i < bits.length) :
    bitAt (packBits bits) i = bits[i] := by
  have hbyte : i / 8 < bitmapBytes bits.length := by
    unfold bitmapBytes
    omega
  have hin : i % 8 < (slice bits (8 * (i / 8)) 8).length := by
    rw [length_slice]
    omega
  have hsame : 8 * (i / 8) + i % 8 = i := Nat.div_add_mod i 8
  rw [bitAt, toNat_packBits hbyte, testBit_bitsNat hin]
  have hget : (slice bits (8 * (i / 8)) 8)[i % 8]? = bits[8 * (i / 8) + i % 8]? :=
    getElem?_slice bits (by omega)
  rw [List.getElem?_eq_getElem hin, hsame, List.getElem?_eq_getElem h] at hget
  exact Option.some.inj hget

/-- The unused high bits of the last byte are zero. -/
theorem shiftRight_last_packBits {bits : List Bool} (h : bits.length % 8 ≠ 0) :
    ((packBits bits)[bitmapBytes bits.length - 1]?.getD 0).toNat >>> (bits.length % 8) = 0 := by
  have hlast : bitmapBytes bits.length - 1 < bitmapBytes bits.length := by
    unfold bitmapBytes
    omega
  rw [toNat_packBits hlast, Nat.shiftRight_eq_div_pow]
  apply Nat.div_eq_of_lt
  refine Nat.lt_of_lt_of_le (bitsNat_lt _) (Nat.pow_le_pow_right (by omega) ?_)
  rw [length_slice]
  unfold bitmapBytes
  omega

/-- A packed bit, at any position: past the bits there are zeros. -/
theorem bitAt_packBits_getD (bits : List Bool) (i : ℕ) :
    bitAt (packBits bits) i = bits[i]?.getD false := by
  rcases Nat.lt_or_ge i bits.length with h | h
  · rw [bitAt_packBits h, List.getElem?_eq_getElem h, Option.getD_some]
  rw [List.getElem?_eq_none h, Option.getD_none, bitAt]
  rcases Nat.lt_or_ge (i / 8) (bitmapBytes bits.length) with hbyte | hbyte
  · rw [toNat_packBits hbyte]
    refine testBit_bitsNat_of_le ?_
    rw [length_slice]
    omega
  · rw [List.getElem?_eq_none (by rwa [length_packBits]), Option.getD_none]
    exact Nat.zero_testBit _

/-- Byte strings of one length are told apart by their bits. -/
theorem eq_of_bitAt {bytes bytes' : List UInt8} (hlength : bytes.length = bytes'.length)
    (h : ∀ i < 8 * bytes.length, bitAt bytes i = bitAt bytes' i) : bytes = bytes' := by
  refine List.ext_getElem hlength fun j hj hj' ↦
    UInt8.toNat_inj.mp (Nat.eq_of_testBit_eq fun k ↦ ?_)
  rcases Nat.lt_or_ge k 8 with hk | hk
  · have hsame := h (8 * j + k) (by omega)
    rwa [bitAt, bitAt, show (8 * j + k) / 8 = j by omega, show (8 * j + k) % 8 = k by omega,
      List.getElem?_eq_getElem hj, List.getElem?_eq_getElem hj', Option.getD_some,
      Option.getD_some] at hsame
  · have hzero (byte : UInt8) : byte.toNat.testBit k = false :=
      Nat.testBit_lt_two_pow (Nat.lt_of_lt_of_le byte.toNat_lt (Nat.pow_le_pow_right (by omega) hk))
    rw [hzero, hzero]

/-- **A byte string is the packing of its bits**, when the unused high bits of its last byte are
zero. -/
theorem packBits_map_bitAt {bytes : List UInt8} {n : ℕ} (hlength : bytes.length = bitmapBytes n)
    (hpadding : n % 8 ≠ 0 → (bytes[bitmapBytes n - 1]?.getD 0).toNat >>> (n % 8) = 0) :
    packBits ((List.range n).map (bitAt bytes)) = bytes := by
  refine eq_of_bitAt (by rw [length_packBits, List.length_map, List.length_range, hlength])
    fun i hi ↦ ?_
  rw [length_packBits, List.length_map, List.length_range, bitmapBytes] at hi
  rw [bitAt_packBits_getD, List.getElem?_map]
  rcases Nat.lt_or_ge i n with hin | hout
  · rw [List.getElem?_range hin]
    rfl
  · rw [List.getElem?_eq_none (by rwa [List.length_range])]
    -- The position lies in the last byte, above the bits that are used.
    have hpart : n % 8 ≠ 0 := by omega
    have hlast : bitmapBytes n - 1 = i / 8 := by
      rw [bitmapBytes]
      omega
    have hshifted := hpadding hpart
    rw [hlast] at hshifted
    have hbit := Nat.testBit_shiftRight (i := n % 8) (j := i % 8 - n % 8)
      (bytes[i / 8]?.getD 0).toNat
    rw [hshifted, Nat.zero_testBit, show n % 8 + (i % 8 - n % 8) = i % 8 by omega] at hbit
    exact hbit

/-! ### Setting bits one by one -/

/-- Set one bit of one byte.  There is nothing to set outside the string. -/
def setBit (bytes : List UInt8) (byte bit : ℕ) : Option (List UInt8) := do
  let current ← bytes[byte]?
  return bytes.set byte (UInt8.ofNat (current.toNat ||| 1 <<< bit))

theorem setBit_cons (first : UInt8) (bytes : List UInt8) (byte bit : ℕ) :
    setBit (first :: bytes) (1 + byte) bit = (setBit bytes byte bit).map (first :: ·) := by
  rw [setBit, setBit, Nat.add_comm, List.getElem?_cons_succ]
  cases bytes[byte]? <;> rfl

/-- **A bit is set where it is packed.** -/
theorem setBit_packBits {bits : List Bool} {i : ℕ} (h : i < bits.length) :
    setBit (packBits bits) (i / 8) (i % 8) = some (packBits (bits.set i true)) := by
  have hbyte : i / 8 < (packBits bits).length := by
    rw [length_packBits, bitmapBytes]
    omega
  rw [setBit, List.getElem?_eq_getElem hbyte]
  refine congrArg some (eq_of_bitAt ?_ fun k hk ↦ ?_)
  · rw [List.length_set, length_packBits, length_packBits, List.length_set]
  rw [List.length_set] at hk
  rw [bitAt_packBits_getD, bitAt]
  by_cases hsame : k / 8 = i / 8
  · rw [hsame, List.getElem?_set_self hbyte, Option.getD_some, UInt8.toNat_ofNat',
      Nat.testBit_mod_two_pow,
      Nat.testBit_or, Nat.one_shiftLeft, Nat.testBit_two_pow]
    have hbit := bitAt_packBits_getD bits k
    rw [bitAt, hsame, List.getElem?_eq_getElem hbyte, Option.getD_some] at hbit
    rw [hbit, decide_eq_true (show k % 8 < 8 by omega), Bool.true_and]
    by_cases heq : i = k
    · subst heq
      rw [List.getElem?_set_self h, decide_eq_true rfl, Bool.or_true]
      rfl
    · rw [List.getElem?_set_ne heq, decide_eq_false (by omega), Bool.or_false]
  · rw [List.getElem?_set_ne (Ne.symm hsame), List.getElem?_set_ne (by rintro rfl; exact hsame rfl)]
    exact bitAt_packBits_getD bits k

/-- No bits are packed into zeros. -/
theorem packBits_replicate_false (n : ℕ) :
    packBits (List.replicate n false) = List.replicate (bitmapBytes n) 0 := by
  refine eq_of_bitAt (by rw [length_packBits, List.length_replicate, List.length_replicate])
    fun i hi ↦ ?_
  have hleft : (List.replicate n false)[i]?.getD false = false := by
    rw [List.getElem?_replicate]
    split <;> rfl
  have hright : ((List.replicate (bitmapBytes n) (0 : UInt8))[i / 8]?.getD 0) = 0 := by
    rw [List.getElem?_replicate]
    split <;> rfl
  rw [bitAt_packBits_getD, hleft, bitAt, hright]
  exact (Nat.zero_testBit _).symm

/-! ### Numbers in bits -/

/-- Numbers of one bit width, laid end to end. -/
def wordBits (width : ℕ) (values : List ℕ) : List Bool :=
  values.flatMap (natBits width)

/-- The number at an index of a packed stream. -/
def wordAt (width : ℕ) (data : List UInt8) (index : ℕ) : ℕ :=
  bitsNat ((List.range width).map fun bit ↦ bitAt data (index * width + bit))

@[simp] theorem length_wordBits (width : ℕ) (values : List ℕ) :
    (wordBits width values).length = values.length * width := by
  simp [wordBits, List.length_flatMap]

theorem getElem?_wordBits {width : ℕ} {values : List ℕ} {index bit : ℕ} (hbit : bit < width) :
    (wordBits width values)[index * width + bit]? = values[index]?.map (·.testBit bit) := by
  induction values generalizing index with
  | nil => simp [wordBits]
  | cons value values ih =>
    rw [wordBits, List.flatMap_cons]
    cases index with
    | zero =>
      rw [List.getElem?_append_left (by simpa using hbit),
        List.getElem?_eq_getElem (by simpa using hbit), getElem_natBits]
      simp
    | succ index =>
      have hle : width ≤ (index + 1) * width + bit := by
        rw [Nat.succ_mul]
        omega
      have hsub : (index + 1) * width + bit - width = index * width + bit := by
        rw [Nat.succ_mul]
        omega
      rw [List.getElem?_append_right (by simpa using hle), length_natBits, hsub]
      exact ih

theorem wordAt_packBits {width : ℕ} {values : List ℕ} {index : ℕ} (h : index < values.length)
    (hfits : values[index] < 2 ^ width) :
    wordAt width (packBits (wordBits width values)) index = values[index] := by
  have hbits : (List.range width).map
      (fun bit ↦ bitAt (packBits (wordBits width values)) (index * width + bit)) =
      natBits width values[index] := by
    apply List.map_congr_left
    intro bit hbit
    have hbit' : bit < width := List.mem_range.mp hbit
    have hin : index * width + bit < (wordBits width values).length := by
      rw [length_wordBits]
      calc index * width + bit < (index + 1) * width := by rw [Nat.succ_mul]; omega
        _ ≤ values.length * width := Nat.mul_le_mul_right _ h
    have hget : (wordBits width values)[index * width + bit]? =
        values[index]?.map (·.testBit bit) := getElem?_wordBits hbit'
    rw [List.getElem?_eq_getElem hin, List.getElem?_eq_getElem h] at hget
    rw [bitAt_packBits hin]
    exact Option.some.inj hget
  rw [wordAt, hbits, bitsNat_natBits hfits]

/-- **Packed numbers are read back** when the width has room for each of them. -/
theorem unpack_packWords {width : ℕ} {values : List ℕ} (h : ∀ value ∈ values, value < 2 ^ width) :
    (List.range values.length).map (wordAt width (packBits (wordBits width values))) = values := by
  apply List.ext_getElem (by simp)
  intro index hleft hright
  rw [List.getElem_map, List.getElem_range, wordAt_packBits hright (h _ (List.getElem_mem hright))]

theorem wordAt_lt (width : ℕ) (data : List UInt8) (index : ℕ) :
    wordAt width data index < 2 ^ width := by
  refine Nat.lt_of_lt_of_eq (bitsNat_lt _) ?_
  rw [List.length_map, List.length_range]

/-- The words of a byte string, laid end to end, are its bits. -/
theorem wordBits_wordAt (width count : ℕ) (data : List UInt8) :
    wordBits width ((List.range count).map (wordAt width data)) =
      (List.range (count * width)).map (bitAt data) := by
  refine List.ext_getElem? fun i ↦ ?_
  rcases Nat.lt_or_ge i (count * width) with hi | hi
  · have hwidth : 0 < width := Nat.pos_of_ne_zero fun hzero ↦ by
      rw [hzero, Nat.mul_zero] at hi
      exact Nat.not_lt_zero _ hi
    have hindex : i / width < count := Nat.div_lt_of_lt_mul (by rwa [Nat.mul_comm])
    have hbit : i % width < width := Nat.mod_lt _ hwidth
    have hsplit : i / width * width + i % width = i := Nat.div_add_mod' i width
    have hget := @getElem?_wordBits width ((List.range count).map (wordAt width data)) (i / width)
      (i % width) hbit
    rw [hsplit, List.getElem?_map, List.getElem?_range hindex] at hget
    rw [hget, List.getElem?_map, List.getElem?_range hi]
    have hword : (wordAt width data (i / width)).testBit (i % width) =
        bitAt data (i / width * width + i % width) := by
      rw [wordAt, testBit_bitsNat (by rwa [List.length_map, List.length_range]), List.getElem_map,
        List.getElem_range]
    rw [hsplit] at hword
    exact congrArg some hword
  · rw [List.getElem?_eq_none, List.getElem?_eq_none]
    · rwa [List.length_map, List.length_range]
    · rwa [length_wordBits, List.length_map, List.length_range]

end Wire
