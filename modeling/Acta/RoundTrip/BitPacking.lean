import Acta.RoundTrip.Transforms

/-!
# Bit packing, bit by bit

The writer sets the bits of a bit-packed stream one by one in a buffer it has measured beforehand,
and the reader takes each number from the payload bit by bit as it is asked for it.  Both index into
bytes at positions they count themselves, and here an index outside the bytes has no value
(`packFromLoop`, `Unpacking.next`).

Neither index leaves its bytes, and the loops compute what `packFrom` and `BitUnpacker.values` say
in closed form.  So the payloads the reader accepts are exactly those the writer makes, and each
stands for one list of numbers (`bitPacking`).
-/

namespace Acta

open Machine Wire Candidates

/-- A byte string that a machine of 64-bit addresses can hold. -/
def InMemory (bytes : Bytes) : Prop := bytes.length < 2 ^ 61

theorem and_one_shiftLeft_ne_zero (value bit : ℕ) :
    value &&& 1 <<< bit ≠ 0 ↔ value.testBit bit = true := by
  rw [Nat.one_shiftLeft, Nat.and_two_pow]
  cases value.testBit bit with
  | false => simp
  | true => simp

/-! ### The writer's loop -/

namespace Candidates

/-- Set one bit of the output where the number has one.  The first byte of the output is the
width. -/
def placeBit (value position : ℕ) (output : Bytes) (bit : ℕ) : Option Bytes :=
  let target := position + bit
  if value &&& 1 <<< bit ≠ 0 then setBit output (1 + target / 8) (target % 8) else some output

/-- Set the bits of one number in the output, from a bit position on. -/
def placeBits (width value position : ℕ) (output : Bytes) : Option Bytes :=
  (List.range width).foldlM (placeBit value position) output

/-- Place one value after another, counting them. -/
def placeAll (width count : ℕ) : ℕ → ℕ → Bytes → List ℕ → Option (Result Bytes)
  | written, _, output, [] => some do
    failIf (written ≠ count) (invalid "a bit-packed stream has fewer values than it declares")
    return output
  | written, position, output, value :: rest =>
    if written = count then
      some (.error (invalid "a bit-packed stream has more values than it declares"))
    else if width = 0 then
      placeAll width count (written + 1) position output rest
    else do
      let output ← placeBits width value position output
      placeAll width count (written + 1) (position + width) output rest

/-- Pack numbers at a bit width into a buffer that is measured first.  There is no result where the
loop would write outside the buffer. -/
def packFromLoop (width count : ℕ) (values : List ℕ) : Option (Result Bytes) :=
  match checkedAdd 1 ((saturatingMul count width + 7) / 8) with
  | none => some (.error (resource "a bit-packed stream"))
  | some byteCount =>
    placeAll width count 0 0 (UInt8.ofNat width :: List.replicate (byteCount - 1) 0) values

/-- A bit of a number replaces a zero. -/
theorem placeBit_packBits (first : UInt8) (value position bit : ℕ) {done : List Bool}
    (h : done.length = position + bit) (rest : List Bool) :
    placeBit value position (first :: packBits (done ++ false :: rest)) bit =
      some (first :: packBits (done ++ value.testBit bit :: rest)) := by
  rw [placeBit, ← h]
  by_cases hbit : value.testBit bit = true
  · have hinside : done.length < (done ++ false :: rest).length := by
      rw [List.length_append, List.length_cons]
      omega
    rw [if_pos ((and_one_shiftLeft_ne_zero _ _).mpr hbit), setBit_cons, setBit_packBits hinside,
      hbit,
      List.set_append_right _ _ le_rfl, Nat.sub_self, List.set_cons_zero]
    rfl
  · rw [if_neg fun h ↦ hbit ((and_one_shiftLeft_ne_zero _ _).mp h),
      Bool.eq_false_of_not_eq_true hbit]

/-- **The bits of a number replace zeros.** -/
theorem placeBits_packBits (first : UInt8) (width value : ℕ) (done rest : List Bool) :
    placeBits width value done.length
        (first :: packBits (done ++ List.replicate width false ++ rest)) =
      some (first :: packBits (done ++ natBits width value ++ rest)) := by
  rw [placeBits]
  induction width generalizing rest with
  | zero => rfl
  | succ width ih =>
    have hgrown : done ++ natBits (width + 1) value ++ rest =
        done ++ natBits width value ++ value.testBit width :: rest := by
      rw [natBits, natBits, List.range_succ, List.map_append, ← List.append_assoc,
        List.append_assoc]
      rfl
    have hlength : (done ++ natBits width value).length = done.length + width := by
      rw [List.length_append, length_natBits]
    rw [List.range_succ, List.foldlM_append, List.replicate_succ', ← List.append_assoc,
      List.append_assoc _ [false], ih, hgrown]
    show (placeBit value done.length
      (first :: packBits (done ++ natBits width value ++ false :: rest))
      width) >>= pure = _
    rw [placeBit_packBits first value done.length width hlength rest]
    rfl

/-- **The loop computes the packing**, in a buffer it does not leave. -/
theorem placeAll_packBits (first : UInt8) (width count : ℕ) (done : List Bool) {written : ℕ}
    (hwritten : written ≤ count) (values : List ℕ) :
    placeAll width count written done.length
        (first :: packBits (done ++ List.replicate ((count - written) * width) false)) values =
      some (do
        failIf (count - written < values.length)
          (invalid "a bit-packed stream has more values than it declares")
        failIf (values.length < count - written)
          (invalid "a bit-packed stream has fewer values than it declares")
        return first :: packBits (done ++ wordBits width values)) := by
  induction values generalizing done written with
  | nil =>
    rw [placeAll, List.length_nil, failIf_neg (Nat.not_lt_zero _), ok_bind]
    rcases Nat.eq_or_lt_of_le hwritten with rfl | hlt
    · rw [Nat.sub_self, Nat.zero_mul, failIf_neg (not_not.mpr rfl), failIf_neg (Nat.not_lt_zero _)]
      rfl
    · rw [failIf_pos (Nat.ne_of_lt hlt), failIf_pos (Nat.sub_pos_of_lt hlt)]
      rfl
  | cons value rest ih =>
    rw [placeAll]
    rcases Nat.eq_or_lt_of_le hwritten with rfl | hlt
    · rw [if_pos rfl, Nat.sub_self, List.length_cons, failIf_pos (Nat.succ_pos _)]
      rfl
    · have hleft : count - written = count - (written + 1) + 1 := by omega
      have hlater : (count - (written + 1) < rest.length ↔
        count - written < (value :: rest).length) ∧
          (rest.length < count - (written + 1) ↔ (value :: rest).length < count - written) := by
        rw [List.length_cons]
        omega
      rw [if_neg (Nat.ne_of_lt hlt)]
      by_cases hzero : width = 0
      · subst hzero
        have hwords (values : List ℕ) : wordBits 0 values = [] :=
          List.eq_nil_of_length_eq_zero (length_wordBits 0 values)
        have hrest := ih done (Nat.succ_le_of_lt hlt)
        rw [Nat.mul_zero] at hrest
        rw [if_pos rfl, Nat.mul_zero, hrest, hwords, hwords]
        simp only [hlater]
      · have hplaced := placeBits_packBits first width value done
          (List.replicate ((count - (written + 1)) * width) false)
        have hzeros : done ++ List.replicate ((count - written) * width) false =
            done ++ List.replicate width false ++
              List.replicate ((count - (written + 1)) * width) false := by
          rw [List.append_assoc, List.replicate_append_replicate, hleft, Nat.succ_mul, Nat.add_comm]
        have hrest := ih (done ++ natBits width value) (Nat.succ_le_of_lt hlt)
        rw [List.length_append, length_natBits] at hrest
        have hwords : wordBits width (value :: rest) = natBits width value ++ wordBits width rest :=
          rfl
        rw [if_neg hzero, hzeros, hplaced, hwords, ← List.append_assoc]
        show placeAll width count (written + 1) (done.length + width) _ rest = _
        rw [hrest]
        simp only [hlater]

/-- **The buffer is measured right**: where its length can be counted, the loop packs the values it
is given or says that there are too many or too few of them. -/
theorem packFromLoop_eq {width count : ℕ} (h : count * width ≤ u64Max) (values : List ℕ) :
    packFromLoop width count values = some (packFrom width count values) := by
  have hmul : saturatingMul count width = count * width := Nat.min_eq_left h
  have hroom : 1 + (count * width + 7) / 8 ≤ u64Max := by
    have hbound : u64Max = 2 ^ 64 - 1 := rfl
    omega
  have hplaced := placeAll_packBits (UInt8.ofNat width) width count [] (Nat.zero_le count) values
  rw [List.nil_append, Nat.sub_zero, packBits_replicate_false, List.nil_append] at hplaced
  rw [packFromLoop, packFrom, hmul, checkedAdd_of_le hroom, okOr, ok_bind]
  show placeAll width count 0 0 (_ :: List.replicate (1 + (count * width + 7) / 8 - 1) 0) values = _
  rw [Nat.add_sub_cancel_left]
  exact hplaced

/-- The loop leaves the buffer as long as it was. -/
theorem length_placeBits {width value position : ℕ} {output output' : Bytes}
    (h : placeBits width value position output = some output') :
    output'.length = output.length := by
  rw [placeBits] at h
  generalize List.range width = bits at h
  induction bits generalizing output with
  | nil =>
    cases h
    rfl
  | cons bit bits ih =>
    obtain ⟨next, hnext, h⟩ := Option.bind_eq_some_iff.mp h
    rw [ih h]
    rw [placeBit] at hnext
    split at hnext
    · obtain ⟨current, -, hset⟩ := Option.bind_eq_some_iff.mp hnext
      cases hset
      exact List.length_set
    · cases hnext
      rfl

theorem length_placeAll {width count written position : ℕ} {output output' : Bytes}
    {values : List ℕ}
    (h : placeAll width count written position output values = some (.ok output')) :
    output'.length = output.length := by
  induction values generalizing written position output with
  | nil =>
    obtain ⟨_, -, hsame⟩ := bind_eq_ok.mp (Option.some.inj h)
    cases hsame
    rfl
  | cons value rest ih =>
    rw [placeAll] at h
    split at h
    · cases h
    split at h
    · exact ih h
    · obtain ⟨next, hnext, h⟩ := Option.bind_eq_some_iff.mp h
      rw [ih h, length_placeBits hnext]

/-- A stream whose bits cannot be counted does not fit in memory. -/
theorem countable_of_packFromLoop {width count : ℕ} {values : List ℕ} {payload : Bytes}
    (h : packFromLoop width count values = some (.ok payload)) (hmemory : InMemory payload) :
    count * width ≤ u64Max := by
  by_contra hover
  have hmul : saturatingMul count width = u64Max := Nat.min_eq_right (by omega)
  have hroom : checkedAdd 1 ((u64Max + 7) / 8) = some (1 + 2 ^ 61) := by decide
  rw [packFromLoop, hmul, hroom] at h
  have hlength := length_placeAll h
  rw [List.length_cons, List.length_replicate] at hlength
  rw [InMemory] at hmemory
  omega

end Candidates

/-! ### The reader's loop -/

namespace Transform

/-- A measured stream that is being read, number by number. -/
structure Unpacking where
  data : Bytes
  width : ℕ
  position : ℕ
  remaining : ℕ

/-- A measured stream before its first number is read. -/
def BitUnpacker.start (unpacker : BitUnpacker) : Unpacking where
  data := unpacker.data
  width := unpacker.width
  position := 0
  remaining := unpacker.count

/-- Take one bit into a number. -/
def takeBit (data : Bytes) (position value bit : ℕ) : Option ℕ := do
  let source := position + bit
  let byte ← data[source / 8]?
  return if byte.toNat &&& 1 <<< (source % 8) ≠ 0 then value ||| 1 <<< bit else value

/-- The number at a bit position. -/
def takeBits (data : Bytes) (width position : ℕ) : Option ℕ :=
  (List.range width).foldlM (takeBit data position) 0

namespace Unpacking

/-- The next number, or nothing at the end.  There is no result where the loop would read outside
the data. -/
def next (unpacking : Unpacking) : Option (Option (ℕ × Unpacking)) :=
  match unpacking.remaining with
  | 0 => some none
  | remaining + 1 =>
    if unpacking.width = 0 then
      some (some (0, { unpacking with remaining }))
    else do
      let value ← takeBits unpacking.data unpacking.width unpacking.position
      return some (value, { unpacking with
        position := unpacking.position + unpacking.width
        remaining })

theorem remaining_of_next {unpacking after : Unpacking} {value : ℕ}
    (h : unpacking.next = some (some (value, after))) :
    unpacking.remaining = after.remaining + 1 := by
  rw [next] at h
  split at h
  case h_1 => cases h
  case h_2 remaining hremaining =>
    split at h
    case isTrue =>
      cases h
      exact hremaining
    case isFalse =>
      obtain ⟨value, -, h⟩ := Option.bind_eq_some_iff.mp h
      cases h
      exact hremaining

/-- Every number that is still to come. -/
def collect (unpacking : Unpacking) : Option (List ℕ) :=
  match _hnext : unpacking.next with
  | none => none
  | some none => some []
  | some (some (value, after)) => (collect after).map (value :: ·)
termination_by unpacking.remaining
decreasing_by
  have := remaining_of_next _hnext
  omega

end Unpacking

/-- **A number is read bit by bit**, where all its bits lie in the data. -/
theorem takeBits_eq {data : Bytes} {width position : ℕ} (h : position + width ≤ 8 * data.length) :
    takeBits data width position =
      some (bitsNat ((List.range width).map fun bit ↦ bitAt data (position + bit))) := by
  rw [takeBits]
  induction width with
  | zero => rfl
  | succ width ih =>
    have hbyte : (position + width) / 8 < data.length := by omega
    have hbit : bitAt data (position + width) =
        data[(position + width) / 8].toNat.testBit ((position + width) % 8) := by
      rw [bitAt, List.getElem?_eq_getElem hbyte, Option.getD_some]
    rw [List.range_succ, List.foldlM_append, ih (by omega), List.map_append]
    show (takeBit data position _ width) >>= pure =
      some (bitsNat (_ ++ [bitAt data (position + width)]))
    rw [takeBit, List.getElem?_eq_getElem hbyte, bitsNat_concat, List.length_map, List.length_range,
      hbit]
    simp only [and_one_shiftLeft_ne_zero]
    rfl

/-- **The loop reads the words of the data**, and no byte outside it. -/
theorem collect_eq {unpacking : Unpacking} {index : ℕ}
    (hposition : unpacking.position = index * unpacking.width)
    (hdata : (index + unpacking.remaining) * unpacking.width ≤ 8 * unpacking.data.length) :
    unpacking.collect = some ((List.range unpacking.remaining).map fun later ↦
      wordAt unpacking.width unpacking.data (index + later)) := by
  obtain ⟨data, width, position, remaining⟩ := unpacking
  induction remaining generalizing index position with
  | zero =>
    rw [Unpacking.collect]
    rfl
  | succ remaining ih =>
    have hnext : (⟨data, width, position, remaining + 1⟩ : Unpacking).next =
        some (some (wordAt width data index,
          ⟨data, width, (index + 1) * width, remaining⟩)) := by
      have hinside : position + width ≤ 8 * data.length := by
        have hle : (index + 1) * width ≤ (index + (remaining + 1)) * width :=
          Nat.mul_le_mul_right _ (by omega)
        have hsame : position = index * width := hposition
        rw [Nat.succ_mul] at hle
        exact hsame ▸ hle.trans hdata
      obtain rfl : position = index * width := hposition
      show (if width = 0 then _ else _) = _
      by_cases hzero : width = 0
      · subst hzero
        rfl
      · rw [if_neg hzero, takeBits_eq hinside, Nat.succ_mul]
        rfl
    have hrest := @ih (index + 1) ((index + 1) * width) rfl
      (by rwa [show index + 1 + remaining = index + (remaining + 1) by omega])
    have hcollect : (⟨data, width, position, remaining + 1⟩ : Unpacking).collect =
        ((⟨data, width, (index + 1) * width, remaining⟩ : Unpacking).collect).map
          (wordAt width data index :: ·) := by
      conv_lhs => rw [Unpacking.collect]
      split
      case h_1 h =>
        rw [hnext] at h
        cases h
      case h_2 h =>
        rw [hnext] at h
        cases h
      case h_3 h =>
        rw [hnext] at h
        cases h
        rfl
    rw [hcollect, hrest, List.range_succ_eq_map, List.map_cons, List.map_map]
    refine congrArg (fun values ↦ some (wordAt width data index :: values)) ?_
    refine List.map_congr_left fun later _ ↦ ?_
    show wordAt width data (index + 1 + later) = wordAt width data (index + (later + 1))
    rw [Nat.add_assoc, Nat.add_comm 1]

/-! ### What the reader accepts -/

/-- The bits of a stream that fits in memory can be counted. -/
theorem countable_of_inMemory {count width : ℕ} (h : 1 + bitmapBytes (count * width) < 2 ^ 61) :
    count * width + 7 ≤ u64Max := by
  have hbound : u64Max = 2 ^ 64 - 1 := rfl
  rw [bitmapBytes] at h
  omega

/-- The numbers of measured data. -/
def Measured.words (width count : ℕ) (data : Bytes) : List ℕ :=
  (List.range count).map (wordAt width data)

/-- **Measured data is the packing of its numbers.** -/
theorem Measured.packBits_words {width count : ℕ} {data : Bytes} (h : Measured width count data) :
    packBits (wordBits width (words width count data)) = data := by
  rw [words, wordBits_wordAt]
  exact packBits_map_bitAt h.length_eq h.padding

/-- **Reading measured data yields its numbers** and stays inside it. -/
theorem Measured.collect_start {width count : ℕ} {data : Bytes} (h : Measured width count data) :
    ({ data, width, count } : BitUnpacker).start.collect = some (words width count data) := by
  have hinside : (0 + count) * width ≤ 8 * data.length := by
    rw [h.length_eq, Nat.zero_add, bitmapBytes]
    omega
  have hcollect := @collect_eq ({ data, width, count } : BitUnpacker).start 0
    (Nat.zero_mul width).symm hinside
  simp only [Nat.zero_add] at hcollect
  exact hcollect

/-- Packing the numbers of a measured stream gives the stream back. -/
theorem Measured.packFromLoop_words {first : UInt8} {count : ℕ} {data : Bytes}
    (h : Measured first.toNat count data) :
    packFromLoop first.toNat count (words first.toNat count data) = some (.ok (first :: data)) := by
  have hlength : (words first.toNat count data).length = count := by
    rw [words, List.length_map, List.length_range]
  have hroom : count * first.toNat ≤ u64Max := by
    rcases h.countable with hzero | hroom
    · rw [hzero]
      exact Nat.zero_le _
    · omega
  rw [packFromLoop_eq hroom, packFrom_of_length hlength, h.packBits_words, UInt8.ofNat_toNat]

/-- **Bit packing is a bijection** between lists of numbers and the payloads the reader accepts, as
far as memory goes: numbers that fit a width are packed and read back, and a payload is accepted for
some count exactly where it is packed from that many numbers, which are the ones that it is read
as. -/
theorem bitPacking (what : String) :
    (∀ (width : ℕ) (values : List ℕ), width ≤ 64 → (∀ value ∈ values, value < 2 ^ width) →
        1 + bitmapBytes (values.length * width) < 2 ^ 61 →
          ∃ payload unpacker, packFromLoop width values.length values = some (.ok payload) ∧
            BitUnpacker.new payload values.length what = .ok unpacker ∧
              unpacker.start.collect = some values) ∧
      ∀ (payload : Bytes) (count : ℕ), InMemory payload →
        ((∃ unpacker, BitUnpacker.new payload count what = .ok unpacker) ↔
            ∃ width values, width ≤ 64 ∧ values.length = count ∧
              (∀ value ∈ values, value < 2 ^ width) ∧
                packFromLoop width count values = some (.ok payload)) ∧
          ∀ unpacker, BitUnpacker.new payload count what = .ok unpacker →
            ∃ values, unpacker.start.collect = some values ∧ values.length = count ∧
              packFromLoop (payload.headD 0).toNat count values = some (.ok payload) := by
  have hbyte {width : ℕ} (hwidth : width ≤ 64) : (UInt8.ofNat width).toNat = width := by
    rw [UInt8.toNat_ofNat']
    omega
  refine ⟨fun width values hwidth hfit hmemory ↦ ?_, fun payload count hmemory ↦ ⟨?_, ?_⟩⟩
  · have hroom := countable_of_inMemory hmemory
    have hmeasured := measured_packBits hwidth hroom
    refine ⟨_, { data := packBits (wordBits width values), width, count := values.length },
      (packFromLoop_eq (by omega) values).trans (congrArg some (packFrom_of_length rfl)),
      BitUnpacker.new_eq_ok.mpr ⟨_, _, rfl, ?_⟩, ?_⟩
    · rw [hbyte hwidth]
      exact ⟨hmeasured, rfl⟩
    · rw [hmeasured.collect_start]
      exact congrArg some (unpack_packWords hfit)
  · constructor
    · rintro ⟨unpacker, hnew⟩
      obtain ⟨first, data, rfl, hmeasured, -⟩ := BitUnpacker.new_eq_ok.mp hnew
      refine ⟨first.toNat, Measured.words first.toNat count data, hmeasured.width_le,
        by rw [Measured.words, List.length_map, List.length_range], fun value hvalue ↦ ?_,
        hmeasured.packFromLoop_words⟩
      obtain ⟨index, -, rfl⟩ := List.mem_map.mp hvalue
      exact wordAt_lt _ _ _
    · rintro ⟨width, values, hwidth, hlength, hfit, hpacked⟩
      rw [packFromLoop_eq (countable_of_packFromLoop hpacked hmemory), packFrom_of_length hlength]
        at hpacked
      cases hpacked
      subst hlength
      have hsize : 1 + bitmapBytes (values.length * width) < 2 ^ 61 := by
        rw [InMemory, List.length_cons, length_packBits, length_wordBits] at hmemory
        omega
      refine ⟨_, BitUnpacker.new_eq_ok.mpr ⟨_, _, rfl, ?_, rfl⟩⟩
      rw [hbyte hwidth]
      exact measured_packBits hwidth (countable_of_inMemory hsize)
  · intro unpacker hnew
    obtain ⟨first, data, rfl, hmeasured, rfl⟩ := BitUnpacker.new_eq_ok.mp hnew
    exact ⟨_, hmeasured.collect_start, by rw [Measured.words, List.length_map, List.length_range],
      hmeasured.packFromLoop_words⟩

theorem bitPacking_twoNumbers :
    (∃ payload unpacker, packFromLoop 3 2 [5, 2] = some (.ok payload) ∧
        BitUnpacker.new payload 2 "x" = .ok unpacker ∧
          unpacker.start.collect = some [5, 2]) ∧
      ((∃ unpacker, BitUnpacker.new [3, 21] 2 "x" = .ok unpacker) ↔
        ∃ width values, width ≤ 64 ∧ values.length = 2 ∧ (∀ value ∈ values, value < 2 ^ width) ∧
          packFromLoop width 2 values = some (.ok [3, 21])) :=
  ⟨(bitPacking "x").1 3 [5, 2] (by decide) (by decide) (by decide),
    ((bitPacking "x").2 [3, 21] 2 (by rw [InMemory]; decide)).1⟩

end Transform

end Acta
