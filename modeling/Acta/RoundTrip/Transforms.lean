import Acta.Codec.Transform
import Acta.Lib.Grid
import Acta.Write.Candidates

/-!
# Transforms decode what was encoded

Each stream transform of the decoder, applied to the bytes the encoder writes for it, gives the
values back.  The encoder's bit widths enter as bounds on the packed numbers, so nothing here
depends on how they were found.
-/

namespace Acta

open Machine Wire Candidates Transform

/-! ### Booleans -/

theorem range_map_bitAt (bits : List Bool) :
    (List.range bits.length).map (bitAt (packBits bits)) = bits := by
  apply List.ext_getElem (by simp)
  intro index hleft hright
  rw [List.getElem_map, List.getElem_range, bitAt_packBits hright]

theorem rawBooleans_packBits {bits : List Bool} (hroom : bits.length + 7 ≤ u64Max) (what : String) :
    rawBooleans (packBits bits) bits.length what = .ok bits := by
  have hlength : (packBits bits).length = (bits.length + 7) / 8 := length_packBits bits
  rw [rawBooleans, checkedAdd_of_le hroom]
  simp only [okOr, ok_bind]
  rw [failIf_neg (by simp [hlength]), ok_bind, failIf_neg, ok_bind, range_map_bitAt, pure_eq_ok]
  rintro ⟨hpart, hhigh⟩
  exact hhigh (shiftRight_last_packBits hpart)

/-! ### Bit packing -/

theorem packFrom_eq_ok {width count : ℕ} {values : List ℕ} {bytes : Bytes}
    (h : packFrom width count values = .ok bytes) :
    values.length = count ∧ bytes = UInt8.ofNat width :: packBits (wordBits width values) := by
  simp only [packFrom, bind_eq_ok, failIf_eq_ok, pure_eq_ok, Except.ok.injEq] at h
  obtain ⟨-, -, -, hle, -, hge, rfl⟩ := h
  exact ⟨by omega, rfl⟩

/-- Packing needs no more than the declared count of values. -/
theorem packFrom_of_length {width count : ℕ} {values : List ℕ} (h : values.length = count) :
    packFrom width count values = .ok (UInt8.ofNat width :: packBits (wordBits width values)) := by
  have hroom : 1 + (saturatingMul count width + 7) / 8 ≤ u64Max := by
    have hle : saturatingMul count width ≤ u64Max := Nat.min_le_right _ _
    simp only [u64Max] at hle ⊢
    omega
  rw [packFrom, checkedAdd_of_le hroom, okOr, ok_bind, failIf_neg (by omega), ok_bind,
    failIf_neg (by omega), ok_bind, pure_eq_ok]

namespace Transform

/-- Data that was measured for `count` numbers of a width. -/
structure Measured (width count : ℕ) (data : Bytes) : Prop where
  width_le : width ≤ 64
  /-- The bits can be counted. -/
  countable : width = 0 ∨ count * width + 7 ≤ u64Max
  length_eq : data.length = bitmapBytes (count * width)
  padding : count * width % 8 ≠ 0 →
    (data[bitmapBytes (count * width) - 1]?.getD 0).toNat >>> (count * width % 8) = 0

/-- **What the reader settles** before it reads any number. -/
theorem BitUnpacker.new_eq_ok {payload : Bytes} {count : ℕ} {what : String}
    {unpacker : BitUnpacker} :
    BitUnpacker.new payload count what = .ok unpacker ↔
      ∃ first data, payload = first :: data ∧ Measured first.toNat count data ∧
        unpacker = { data, width := first.toNat, count } := by
  cases payload with
  | nil =>
    refine iff_of_false (fun h ↦ nomatch h) ?_
    rintro ⟨first, data, h, -⟩
    cases h
  | cons first data =>
    have hmeasured : BitUnpacker.new (first :: data) count what = .ok unpacker ↔
        Measured first.toNat count data ∧ unpacker = { data, width := first.toNat, count } := by
      simp only [BitUnpacker.new, bind_eq_ok, failIf_eq_ok, not_lt]
      by_cases hzero : first.toNat = 0
      · rw [if_pos hzero]
        simp only [bind_eq_ok, failIf_eq_ok, not_not, pure_eq_ok, Except.ok.injEq]
        constructor
        · rintro ⟨-, -, -, rfl, rfl⟩
          have hbits : count * first.toNat = 0 := by rw [hzero, Nat.mul_zero]
          refine ⟨⟨by omega, .inl hzero, by rw [hbits]; rfl, fun hpart ↦ ?_⟩, rfl⟩
          rw [hbits] at hpart
          exact absurd rfl hpart
        · rintro ⟨hmeasured, rfl⟩
          have hlength := hmeasured.length_eq
          rw [hzero, Nat.mul_zero] at hlength
          exact ⟨(), hmeasured.width_le, (), List.eq_nil_of_length_eq_zero hlength, rfl⟩
      · rw [if_neg hzero]
        simp only [bind_eq_ok, failIf_eq_ok, not_not, not_and, okOr_eq_ok, checkedMul_eq_some,
          checkedAdd_eq_some, pure_eq_ok, Except.ok.injEq]
        constructor
        · rintro ⟨-, hwidth, _, ⟨-, rfl⟩, _, ⟨hroom, rfl⟩, -, hlength, -, hpadding, rfl⟩
          exact ⟨⟨hwidth, .inr hroom, hlength, hpadding⟩, rfl⟩
        · rintro ⟨⟨hwidth, hroom, hlength, hpadding⟩, rfl⟩
          have hcounted := hroom.resolve_left hzero
          exact ⟨(), hwidth, _, ⟨by omega, rfl⟩, _, ⟨hcounted, rfl⟩, (), hlength, (), hpadding, rfl⟩
    rw [hmeasured]
    constructor
    · rintro ⟨hdata, rfl⟩
      exact ⟨first, data, rfl, hdata, rfl⟩
    · rintro ⟨_, _, h, hdata, rfl⟩
      cases h
      exact ⟨hdata, rfl⟩

/-- **Packed numbers are measured data.** -/
theorem measured_packBits {width : ℕ} {values : List ℕ} (hwidth : width ≤ 64)
    (hroom : values.length * width + 7 ≤ u64Max) :
    Measured width values.length (packBits (wordBits width values)) where
  width_le := hwidth
  countable := .inr hroom
  length_eq := by rw [length_packBits, length_wordBits]
  padding hpart := by
    have hbits := length_wordBits width values
    rw [← hbits] at hpart ⊢
    exact shiftRight_last_packBits hpart

end Transform

/-- The bits of a block's numbers can be counted. -/
theorem countable_of_le {count width : ℕ} (hcount : count ≤ u32Max) (hwidth : width ≤ 64) :
    count * width + 7 ≤ u64Max := by
  have hbits : count * width ≤ u32Max * 64 := Nat.mul_le_mul hcount hwidth
  have hbound : u64Max = 2 ^ 64 - 1 := rfl
  rw [show u32Max = 2 ^ 32 - 1 from rfl] at hbits
  omega

/-- **A packed stream is unpacked** where its width has room for every number. -/
theorem unpacker_of_packBits {width : ℕ} (values : List ℕ) (hwidth : width ≤ 64)
    (hroom : values.length * width + 7 ≤ u64Max) (hfit : ∀ value ∈ values, value < 2 ^ width)
    (what : String) :
    ∃ unpacker, BitUnpacker.new (UInt8.ofNat width :: packBits (wordBits width values))
        values.length what = .ok unpacker ∧ unpacker.values = values := by
  have hbyte : (UInt8.ofNat width).toNat = width := by
    rw [UInt8.toNat_ofNat']
    omega
  refine ⟨{ data := packBits (wordBits width values), width, count := values.length },
    BitUnpacker.new_eq_ok.mpr ⟨_, _, rfl, ?_⟩, unpack_packWords hfit⟩
  rw [hbyte]
  exact ⟨measured_packBits hwidth hroom, rfl⟩

/-- A packed stream of a block is unpacked. -/
theorem unpacker_of_packFrom {width : ℕ} (values : List ℕ) (hwidth : width ≤ 64)
    (hcount : values.length ≤ u32Max) (hfit : ∀ value ∈ values, value < 2 ^ width)
    (what : String) :
    ∃ unpacker, BitUnpacker.new (UInt8.ofNat width :: packBits (wordBits width values))
        values.length what = .ok unpacker ∧ unpacker.values = values :=
  unpacker_of_packBits values hwidth (countable_of_le hcount hwidth) hfit what

theorem bitUnpack_of_packFrom {width : ℕ} {values : List ℕ} (hwidth : width ≤ 64)
    (hcount : values.length ≤ u32Max) (hfit : ∀ value ∈ values, value < 2 ^ width)
    (what : String) :
    bitUnpack (UInt8.ofNat width :: packBits (wordBits width values)) values.length what =
      .ok values := by
  obtain ⟨unpacker, hnew, hvalues⟩ := unpacker_of_packFrom values hwidth hcount hfit what
  rw [bitUnpack, hnew, ok_bind, hvalues, pure_eq_ok]

/-- The width the encoder chooses has room for the number. -/
theorem lt_two_pow_bitWidth (value : ℕ) : value < 2 ^ bitWidth value := Nat.lt_size_self value

theorem bitWidth_le {value bits : ℕ} (h : value < 2 ^ bits) : bitWidth value ≤ bits :=
  Nat.size_le.mpr h

theorem packedBooleans_packFrom {values : List Bool} {width : ℕ} (hwidth : width ≤ 64)
    (hroom : values.length * width + 7 ≤ u64Max)
    (hfit : ∀ value ∈ values, value.toNat < 2 ^ width) (what : String) :
    packedBooleans (UInt8.ofNat width :: packBits (wordBits width (values.map Bool.toNat)))
      values.length what = .ok values := by
  obtain ⟨unpacker, hnew, hvalues⟩ := unpacker_of_packBits (values.map Bool.toNat) hwidth
    (by rwa [List.length_map]) (by
      intro number hnumber
      obtain ⟨value, hvalue, rfl⟩ := List.mem_map.mp hnumber
      exact hfit value hvalue) what
  rw [List.length_map] at hnew
  rw [packedBooleans, hnew, ok_bind, hvalues]
  clear hnew hvalues hfit hroom
  induction values with
  | nil => rfl
  | cons value values ih =>
    rw [List.map_cons, List.mapM_cons, ih]
    cases value <;> rfl

/-- Numbers of at most 64 bits fit the width of the largest of them. -/
theorem fits_bitWidth_foldl_max (values : List ℕ) (h : ∀ value ∈ values, value ≤ u64Max) :
    bitWidth (values.foldl max 0) ≤ 64 ∧
      ∀ value ∈ values, value < 2 ^ bitWidth (values.foldl max 0) := by
  refine ⟨bitWidth_le ?_, fun value hvalue ↦ ?_⟩
  · have hle := Runs.foldl_max_le (Nat.zero_le u64Max) h
    rw [show u64Max = 2 ^ 64 - 1 from rfl] at hle
    omega
  · exact Nat.lt_of_le_of_lt ((Runs.foldl_max_bounds values 0).2 value hvalue)
      (lt_two_pow_bitWidth _)

/-! ### Stored integers -/

theorem toTwos_of_nonneg {bits : ℕ} {value : ℤ} (hlo : 0 ≤ value) (hhi : value < (2 ^ bits : ℕ)) :
    toTwos bits value = value.toNat := by
  rw [toTwos, Int.emod_eq_of_lt hlo hhi]

theorem two_pow_eight_mul (width : ℕ) : 2 ^ (8 * width) = 256 ^ width := by
  rw [Nat.pow_mul]

/-- The values of every integer type fit 65 signed bits. -/
theorem IntType.InRange.bounds {type : IntType} {value : ℤ} (h : type.InRange value) :
    -(2 ^ 63) ≤ value ∧ value < 2 ^ 64 := by
  obtain ⟨hlo, hhi⟩ := h
  cases type <;> simp [IntType.lowest, IntType.limit, IntType.width, IntType.signed] at hlo hhi <;>
    omega

/-- **A stored integer is read back.** -/
theorem readInteger_toLeBytes {type : IntType} (value : type.Value) :
    readInteger (IntType.toLeBytes value) type.signed = value.val := by
  obtain ⟨hlo, hhi⟩ := value.property
  have hstored : leNat (IntType.toLeBytes value) = toTwos (8 * type.width) value.val := by
    refine leNat_leBytes_of_lt ?_
    rw [← two_pow_eight_mul]
    exact toTwos_lt _ _
  have hpos := type.width_pos
  rw [readInteger, hstored, IntType.length_toLeBytes]
  cases hsigned : type.signed with
  | true =>
    rw [IntType.lowest, hsigned, if_pos rfl] at hlo
    rw [IntType.limit, hsigned, if_pos rfl] at hhi
    rw [if_pos rfl]
    exact ofTwos_toTwos (by omega) hlo hhi
  | false =>
    rw [IntType.lowest, hsigned, if_neg (by simp)] at hlo
    rw [IntType.limit, hsigned, if_neg (by simp)] at hhi
    rw [if_neg (by simp), toTwos_of_nonneg hlo hhi, Int.toNat_of_nonneg hlo]

theorem narrowed_val {type : IntType} (value : type.Value) (what : String) :
    narrowed type value.val what = .ok value := dif_pos value.property

/-- A checked operation that undoes another one undoes it throughout a list. -/
theorem mapM_map_eq_ok {α β : Type} {undo : β → Result α} {make : α → β}
    (h : ∀ a, undo (make a) = .ok a) (values : List α) :
    (values.map make).mapM undo = .ok values := by
  induction values with
  | nil => rfl
  | cons a values ih =>
    rw [List.map_cons, List.mapM_cons, h, ok_bind, ih]
    rfl

/-- Values of one width laid end to end are cut apart again. -/
theorem chunks_flatMap {α : Type} {width : ℕ} {stored : α → Bytes} {values : List α}
    (h : ∀ value ∈ values, (stored value).length = width) :
    chunks width values.length (values.flatMap stored) = values.map stored := by
  have hrows : ∀ row ∈ values.map stored, row.length = width := by
    intro row hrow
    obtain ⟨value, hvalue, rfl⟩ := List.mem_map.mp hrow
    exact h value hvalue
  have hcut := map_slice_flatten hrows
  rwa [List.length_map, ← List.flatMap_def] at hcut

theorem length_flatMap_of_forall {α : Type} {width : ℕ} {stored : α → Bytes} {values : List α}
    (h : ∀ value ∈ values, (stored value).length = width) :
    (values.flatMap stored).length = values.length * width := by
  have hrows : ∀ row ∈ values.map stored, row.length = width := by
    intro row hrow
    obtain ⟨value, hvalue, rfl⟩ := List.mem_map.mp hrow
    exact h value hvalue
  rw [List.flatMap_def, length_flatten_of_forall hrows, List.length_map]

/-- No byte count of a block overflows. -/
theorem checkedMul_of_le {count width bound : ℕ} (hcount : count ≤ u32Max) (hwidth : width ≤ bound)
    (hbound : bound ≤ 2 ^ 32) : checkedMul count width = some (count * width) := by
  have hmul : count * width ≤ u32Max * 2 ^ 32 := Nat.mul_le_mul hcount (hwidth.trans hbound)
  exact if_pos (hmul.trans (by decide))

section Integers

variable {type : IntType} {values : List type.Value}

/-- The canonical bytes of a list of integers. -/
def integerBytes (values : List type.Value) : Bytes :=
  values.flatMap IntType.toLeBytes

theorem length_integerBytes (values : List type.Value) :
    (integerBytes values).length = values.length * type.width :=
  length_flatMap_of_forall fun value _ ↦ IntType.length_toLeBytes value

theorem checkedMul_width (hcount : values.length ≤ u32Max) :
    checkedMul values.length type.width = some (values.length * type.width) :=
  checkedMul_of_le hcount type.width_le (by decide)

theorem rawIntegers_integerBytes (values : List type.Value) (hcount : values.length ≤ u32Max)
    (what : String) :
    rawIntegers type (integerBytes values) values.length type.width type.signed what =
      .ok values := by
  have hcut : chunks type.width values.length (integerBytes values) =
      values.map IntType.toLeBytes := chunks_flatMap fun value _ ↦ IntType.length_toLeBytes value
  rw [rawIntegers, checkedByteCount, checkedMul_width hcount, okOr, ok_bind,
    failIf_neg (by rw [not_not, length_integerBytes]), ok_bind, hcut]
  refine mapM_map_eq_ok (fun value ↦ ?_) values
  rw [readInteger_toLeBytes]
  exact narrowed_val value what

theorem packedIntegers_packFrom {width : ℕ} (hwidth : width ≤ 64) (hcount : values.length ≤ u32Max)
    (hnonneg : ∀ value ∈ values, 0 ≤ value.val)
    (hfit : ∀ value ∈ values, value.val.toNat < 2 ^ width) (what : String) :
    packedIntegers type
        (UInt8.ofNat width :: packBits (wordBits width (values.map fun value ↦ value.val.toNat)))
        values.length what = .ok values := by
  obtain ⟨unpacker, hnew, hvalues⟩ := unpacker_of_packFrom
    (values.map fun value ↦ value.val.toNat) hwidth (by simpa using hcount) (by
      intro number hnumber
      obtain ⟨value, hvalue, rfl⟩ := List.mem_map.mp hnumber
      exact hfit value hvalue) what
  rw [List.length_map] at hnew
  rw [packedIntegers, hnew, ok_bind, hvalues]
  clear hnew hvalues hfit hcount
  induction values with
  | nil => rfl
  | cons value values ih =>
    have hvalue : ((value.val.toNat : ℕ) : ℤ) = value.val :=
      Int.toNat_of_nonneg (hnonneg value List.mem_cons_self)
    rw [List.map_cons, List.mapM_cons, hvalue, narrowed_val, ok_bind,
      ih fun other hother ↦ hnonneg other (List.mem_cons_of_mem _ hother)]
    rfl

/-- A number at its canonical width is as wide as its type, and is read back. -/
theorem canonicalNumber_eq_ok {value : ℤ} {bytes : Bytes} (hrange : type.InRange value)
    (h : canonicalNumber value type.width type.signed = .ok bytes) :
    bytes.length = type.width ∧ readInteger bytes type.signed = value := by
  have hbytes : bytes = IntType.toLeBytes (⟨value, hrange⟩ : type.Value) := by
    obtain ⟨hlo, hhi⟩ := hrange
    unfold canonicalNumber at h
    cases hsigned : type.signed with
    | true =>
      rw [hsigned, if_pos rfl] at h
      simp only [bind_eq_ok, failIf_eq_ok, pure_eq_ok, Except.ok.injEq] at h
      obtain ⟨-, -, -, -, rfl⟩ := h
      rfl
    | false =>
      rw [IntType.lowest, hsigned, if_neg (by simp)] at hlo
      rw [IntType.limit, hsigned, if_neg (by simp)] at hhi
      rw [hsigned, if_neg (by simp)] at h
      simp only [bind_eq_ok, failIf_eq_ok, pure_eq_ok, Except.ok.injEq] at h
      obtain ⟨-, -, rfl⟩ := h
      have hwidth := type.width_le
      have hsmall : value.toNat < 256 ^ type.width := by
        rw [← two_pow_eight_mul]
        omega
      have hpow : 256 ^ type.width ≤ 256 ^ 8 := Nat.pow_le_pow_right (by omega) hwidth
      apply leNat_inj
      · simp [hwidth]
      · rw [IntType.toLeBytes, toTwos_of_nonneg hlo hhi, leNat_leBytes_of_lt hsmall]
        have hsplit := leNat_append ((leBytes 8 value.toNat).take type.width)
          ((leBytes 8 value.toNat).drop type.width)
        rw [List.take_append_drop, leNat_leBytes_of_lt (Nat.lt_of_lt_of_le hsmall hpow),
          List.length_take, length_leBytes, Nat.min_eq_left hwidth] at hsplit
        -- The dropped bytes are zero, since the value is below the power they count.
        have hrest : leNat ((leBytes 8 value.toNat).drop type.width) = 0 := by
          by_contra hne
          have hpos : 256 ^ type.width * 1 ≤
              256 ^ type.width * leNat ((leBytes 8 value.toNat).drop type.width) :=
            Nat.mul_le_mul_left _ (Nat.one_le_iff_ne_zero.mpr hne)
          omega
        rw [hrest, Nat.mul_zero, Nat.add_zero] at hsplit
        exact hsplit.symm
  rw [hbytes]
  exact ⟨IntType.length_toLeBytes _, readInteger_toLeBytes _⟩

theorem leading_append {stored : Bytes} (rest : Bytes) {width : ℕ} (h : stored.length = width)
    (error : Error) : leading (stored ++ rest) width error = .ok stored := by
  rw [leading, failIf_neg (by rw [List.length_append]; omega), ok_bind, pure_eq_ok,
    List.take_left' h]

theorem frameOfReference_decodes {base : ℤ} {stored : Bytes} {bits : ℕ} (hbits : bits ≤ 64)
    (hne : values ≠ []) (hcount : values.length ≤ u32Max) (hbase : type.InRange base)
    (hstored : canonicalNumber base type.width type.signed = .ok stored)
    (hle : ∀ value ∈ values, base ≤ value.val)
    (hfit : ∀ value ∈ values, (value.val - base).toNat < 2 ^ bits) (what : String) :
    frameOfReference type (stored ++ (UInt8.ofNat bits :: packBits (wordBits bits
        (values.map fun value ↦ (value.val - base).toNat)))) values.length type.width type.signed
        what = .ok values := by
  obtain ⟨hlength, hread⟩ := canonicalNumber_eq_ok hbase hstored
  have hpos : values.length ≠ 0 := fun hzero ↦ hne (List.eq_nil_of_length_eq_zero hzero)
  obtain ⟨unpacker, hnew, hvalues⟩ := unpacker_of_packFrom
    (values.map fun value ↦ (value.val - base).toNat) hbits (by simpa using hcount) (by
      intro number hnumber
      obtain ⟨value, hvalue, rfl⟩ := List.mem_map.mp hnumber
      exact hfit value hvalue) what
  rw [List.length_map] at hnew
  rw [frameOfReference, if_neg hpos, leading_append _ hlength, ok_bind, List.drop_left' hlength]
  simp only [hnew, ok_bind, hvalues, hread]
  clear hnew hvalues hfit hcount hpos hne
  induction values with
  | nil => rfl
  | cons value values ih =>
    have hoffset : base + ((value.val - base).toNat : ℕ) = value.val := by
      have hvalue := hle value List.mem_cons_self
      omega
    rw [List.map_cons, List.mapM_cons, hoffset, narrowed_val, ok_bind,
      ih fun other hother ↦ hle other (List.mem_cons_of_mem _ hother)]
    rfl

end Integers

/-! ### Differences -/

theorem unzigzag_zigzag (value : ℤ) : unzigzag (zigzag value) = value := by
  unfold unzigzag zigzag
  by_cases h : 0 ≤ value
  · rw [if_pos h]
    split <;> omega
  · rw [if_neg h]
    split <;> omega

/-- The code of a signed 64-bit integer fits 64 bits. -/
theorem zigzag_lt {value : ℤ} (h : IntType.int64.InRange value) : zigzag value < 2 ^ 64 := by
  obtain ⟨hlo, hhi⟩ := h
  simp [IntType.lowest, IntType.limit, IntType.width, IntType.signed] at hlo hhi
  unfold zigzag
  split <;> omega

theorem checkedI128_of_inRange {type : IntType} {value : ℤ} (h : type.InRange value) :
    checkedI128 value = some value := by
  obtain ⟨hlo, hhi⟩ := h.bounds
  exact if_pos (by omega)

@[simp] theorem length_adjacentDeltas (values : List ℤ) :
    (adjacentDeltas values).length = values.length - 1 := by
  induction values with
  | nil => rfl
  | cons first rest ih =>
    cases rest with
    | nil => rfl
    | cons second rest =>
      rw [adjacentDeltas, List.length_cons, ih]
      simp

section Differences

variable {type : IntType}

/-- **Differences add up to the values they were taken between.** -/
theorem deltasFrom_adjacentDeltas (first : type.Value) (rest : List type.Value) (what : String) :
    deltasFrom type what first.val
      ((adjacentDeltas ((first :: rest).map Subtype.val)).map zigzag) = .ok rest := by
  induction rest generalizing first with
  | nil => rfl
  | cons second rest ih =>
    have hsum : first.val + (second.val - first.val) = second.val := by omega
    have hrest := ih second
    rw [List.map_cons] at hrest
    rw [List.map_cons, List.map_cons, adjacentDeltas, List.map_cons, deltasFrom, unzigzag_zigzag,
      hsum, checkedI128_of_inRange second.property, okOr, ok_bind, narrowed_val, ok_bind, hrest,
      ok_bind, pure_eq_ok]

theorem delta_decodes {first : type.Value} {rest : List type.Value} {bits : ℕ} (hbits : bits ≤ 64)
    (hrest : rest ≠ []) (hcount : (first :: rest).length ≤ u32Max)
    (hfit : ∀ delta ∈ adjacentDeltas ((first :: rest).map Subtype.val), zigzag delta < 2 ^ bits)
    (what : String) :
    delta type (IntType.toLeBytes first ++ (UInt8.ofNat bits :: packBits (wordBits bits
        ((adjacentDeltas ((first :: rest).map Subtype.val)).map zigzag))))
      (first :: rest).length type.width type.signed what = .ok (first :: rest) := by
  have hlength : (IntType.toLeBytes first).length = type.width := IntType.length_toLeBytes first
  have hpos : 0 < rest.length := List.length_pos_iff.mpr hrest
  have hdeltas : ((adjacentDeltas ((first :: rest).map Subtype.val)).map zigzag).length =
      (first :: rest).length - 1 := by simp
  obtain ⟨unpacker, hnew, hvalues⟩ := unpacker_of_packFrom
    ((adjacentDeltas ((first :: rest).map Subtype.val)).map zigzag) hbits
    (by omega) (by
      intro number hnumber
      obtain ⟨difference, hdifference, rfl⟩ := List.mem_map.mp hnumber
      exact hfit difference hdifference) what
  rw [hdeltas] at hnew
  rw [delta, if_neg (by simp), leading_append _ hlength, ok_bind, List.drop_left' hlength]
  simp only [readInteger_toLeBytes, narrowed_val, ok_bind]
  rw [if_neg (by rw [List.length_cons]; omega), hnew, ok_bind, hvalues,
    deltasFrom_adjacentDeltas first rest what, ok_bind, pure_eq_ok]

theorem delta_decodes_single (value : type.Value) (what : String) :
    delta type (IntType.toLeBytes value) 1 type.width type.signed what = .ok [value] := by
  have hlength : (IntType.toLeBytes value).length = type.width := IntType.length_toLeBytes value
  have hleading : leading (IntType.toLeBytes value) type.width
      (invalid what "delta stream has no first value") = .ok (IntType.toLeBytes value) := by
    have happend := leading_append [] hlength
      (invalid what "delta stream has no first value")
    rwa [List.append_nil] at happend
  rw [delta, if_neg (by omega), hleading, ok_bind]
  simp only [readInteger_toLeBytes, narrowed_val, ok_bind, if_true]
  rw [failIf_neg (by rw [not_not, hlength]), ok_bind, pure_eq_ok]

/-- **Differences between differences add up twice.** -/
theorem secondDeltasFrom_adjacentDeltas (earlier current : type.Value) (rest : List type.Value)
    (hrange : ∀ delta ∈ adjacentDeltas ((current :: rest).map Subtype.val),
      IntType.int64.InRange delta) (what : String) :
    secondDeltasFrom type what current.val (current.val - earlier.val)
      ((adjacentDeltas (adjacentDeltas ((earlier :: current :: rest).map Subtype.val))).map
        zigzag) =
        .ok rest := by
  induction rest generalizing earlier current with
  | nil => rfl
  | cons next rest ih =>
    have hfirst : IntType.int64.InRange (next.val - current.val) :=
      hrange _ (by rw [List.map_cons, List.map_cons, adjacentDeltas]; exact List.mem_cons_self)
    have hlater : ∀ delta ∈ adjacentDeltas ((next :: rest).map Subtype.val),
        IntType.int64.InRange delta := by
      intro delta hdelta
      refine hrange delta ?_
      rw [List.map_cons, List.map_cons, adjacentDeltas]
      exact List.mem_cons_of_mem _ hdelta
    have hsum : current.val - earlier.val +
        (next.val - current.val - (current.val - earlier.val)) = next.val - current.val := by omega
    have hvalue : current.val + (next.val - current.val) = next.val := by omega
    have hrest := ih current next hlater
    simp only [List.map_cons, adjacentDeltas] at hrest ⊢
    rw [secondDeltasFrom, unzigzag_zigzag, hsum, checkedI128_of_inRange hfirst, okOr, ok_bind,
      failIf_neg (not_not.mpr hfirst), ok_bind, hvalue, checkedI128_of_inRange next.property, okOr,
      ok_bind, narrowed_val, ok_bind, hrest, ok_bind, pure_eq_ok]

theorem deltaOfDelta_decodes {first second : type.Value} {rest : List type.Value} {bits : ℕ}
    (hbits : bits ≤ 64) (hcount : (first :: second :: rest).length ≤ u32Max)
    (hrange : ∀ delta ∈ adjacentDeltas ((first :: second :: rest).map Subtype.val),
      IntType.int64.InRange delta)
    (hfit : ∀ delta ∈ adjacentDeltas (adjacentDeltas
      ((first :: second :: rest).map Subtype.val)), zigzag delta < 2 ^ bits) (what : String) :
    deltaOfDelta type (IntType.toLeBytes first ++
        leBytes 8 (toTwos 64 (second.val - first.val)) ++
          (UInt8.ofNat bits :: packBits (wordBits bits
          ((adjacentDeltas (adjacentDeltas
            ((first :: second :: rest).map Subtype.val))).map zigzag))))
      (first :: second :: rest).length type.width type.signed what =
        .ok (first :: second :: rest) := by
  have hlength : (IntType.toLeBytes first).length = type.width := IntType.length_toLeBytes first
  have hwidth := type.width_le
  have hdelta : IntType.int64.InRange (second.val - first.val) :=
    hrange _ (by rw [List.map_cons, List.map_cons, adjacentDeltas]; exact List.mem_cons_self)
  have hlater : ∀ delta ∈ adjacentDeltas ((second :: rest).map Subtype.val),
      IntType.int64.InRange delta := by
    intro delta hmem
    refine hrange delta ?_
    rw [List.map_cons, List.map_cons, adjacentDeltas]
    exact List.mem_cons_of_mem _ hmem
  have hdeltas : ((adjacentDeltas (adjacentDeltas
      ((first :: second :: rest).map Subtype.val))).map zigzag).length =
        (first :: second :: rest).length - 2 := by simp
  obtain ⟨unpacker, hnew, hvalues⟩ := unpacker_of_packFrom
    ((adjacentDeltas (adjacentDeltas
      ((first :: second :: rest).map Subtype.val))).map zigzag) hbits (by omega) (by
      intro number hnumber
      obtain ⟨difference, hdifference, rfl⟩ := List.mem_map.mp hnumber
      exact hfit difference hdifference) what
  rw [hdeltas] at hnew
  generalize hpacked : (UInt8.ofNat bits :: packBits (wordBits bits ((adjacentDeltas
    (adjacentDeltas ((first :: second :: rest).map Subtype.val))).map zigzag))) = packed at hnew ⊢
  have hfirstDelta : readInteger (slice (IntType.toLeBytes first ++
      leBytes 8 (toTwos 64 (second.val - first.val)) ++ packed) type.width 8) true =
        second.val - first.val := by
    have hmiddle := slice_append_middle (IntType.toLeBytes first)
      (leBytes 8 (toTwos 64 (second.val - first.val))) packed
    rw [hlength, length_leBytes] at hmiddle
    rw [hmiddle]
    exact readInteger_toLeBytes (⟨_, hdelta⟩ : IntType.int64.Value)
  have hdrop : (IntType.toLeBytes first ++ leBytes 8 (toTwos 64 (second.val - first.val)) ++
      packed).drop (type.width + 8) = packed :=
    List.drop_left' (by rw [List.length_append, hlength, length_leBytes])
  have hsum : first.val + (second.val - first.val) = second.val := by omega
  have hend : checkedAdd type.width 8 = some (type.width + 8) :=
    checkedAdd_of_le (by simp only [u64Max]; omega)
  rw [deltaOfDelta, failIf_neg (by simp), ok_bind]
  rw [List.append_assoc, leading_append _ hlength, ← List.append_assoc, ok_bind, hend, okOr,
    ok_bind,
    failIf_neg (by simp only [List.length_append, hlength, length_leBytes]; omega), ok_bind]
  simp only [readInteger_toLeBytes, narrowed_val, ok_bind, hfirstDelta, hsum,
    checkedI128_of_inRange second.property, okOr, hdrop, hnew, hvalues]
  rw [secondDeltasFrom_adjacentDeltas first second rest hlater what, ok_bind, pure_eq_ok]

end Differences

/-! ### Lengths -/

theorem lengths_lengthBytes (sizes : List ℕ) (hcount : sizes.length ≤ u32Max)
    (hsizes : ∀ size ∈ sizes, size ≤ u32Max) (what : String) :
    (Transform.lengths (lengthBytes sizes) sizes.length transformRaw what).map
      (List.map fun length ↦ length.val.toNat) = .ok sizes := by
  -- The lengths are the values of an unsigned 32-bit column.
  have hrange : ∀ size ∈ sizes, IntType.uint32.InRange (size : ℤ) := by
    intro size hsize
    have hle := hsizes size hsize
    simp only [u32Max] at hle
    simp [IntType.InRange, IntType.lowest, IntType.limit, IntType.width, IntType.signed]
    omega
  let values : List IntType.uint32.Value := sizes.attach.map fun size ↦ ⟨size.1, hrange _ size.2⟩
  have hlength : values.length = sizes.length := by simp [values]
  have hback : values.map (fun length ↦ length.val.toNat) = sizes := by
    simp only [values, List.map_map]
    exact (List.map_congr_left fun size _ ↦ Int.toNat_natCast _).trans
      (List.attach_map_subtype_val _)
  have hbytes : lengthBytes sizes = integerBytes values := by
    conv_lhs => rw [← hback]
    rw [lengthBytes, integerBytes, List.flatMap_map]
    refine List.flatMap_congr fun value _ ↦ ?_
    obtain ⟨hlo, hhi⟩ := value.property
    have hnonneg : (0 : ℤ) ≤ value.val := by
      simpa [IntType.lowest, IntType.signed] using hlo
    have hlt : value.val < (2 ^ (8 * 4) : ℕ) := by
      simpa [IntType.limit, IntType.signed, IntType.width] using hhi
    rw [IntType.toLeBytes]
    show leBytes 4 _ = leBytes 4 (toTwos (8 * 4) value.val)
    rw [toTwos_of_nonneg hnonneg hlt]
  have hraw := rawIntegers_integerBytes values (by rw [hlength]; exact hcount) what
  rw [hlength] at hraw
  have hdecode : Transform.lengths (lengthBytes sizes) sizes.length transformRaw what =
      .ok values := by
    simp only [hbytes, Transform.lengths, integer, transformRaw]
    rw [failIf_neg (by decide), ok_bind]
    exact hraw
  rw [hdecode]
  exact congrArg Except.ok hback

/-! ### Byte-stream split -/

theorem byteStreamSplit_decodes {bytes : Bytes} {count width : ℕ} (hcount : count ≤ u32Max)
    (hwidth : width ≤ u32Max) (hlength : bytes.length = count * width) (what : String) :
    Transform.byteStreamSplit ((List.range width).flatMap fun byte ↦
        (List.range count).map fun value ↦ bytes[value * width + byte]?.getD 0) count width what =
      .ok bytes := by
  have hmul : checkedMul count width = some (count * width) :=
    checkedMul_of_le hcount hwidth (by decide)
  have hsplit : ((List.range width).flatMap fun byte ↦
      (List.range count).map fun value ↦ bytes[value * width + byte]?.getD 0).length =
        count * width := by
    rw [Nat.mul_comm]
    exact length_grid width count _
  rw [Transform.byteStreamSplit, checkedByteCount, hmul, okOr, ok_bind,
    failIf_neg (by rw [not_not, hsplit]), ok_bind, pure_eq_ok]
  exact congrArg Except.ok (grid_transpose 0 hlength)

end Acta
