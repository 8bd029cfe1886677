import Acta.RoundTrip.Numeric

/-!
# Estimates are encoded sizes

The price of an encoding is computed from the profile before a byte of it is written.  Whatever the
encoder makes of the same values has exactly the lengths that were priced, stream by stream
(`estimate_exact`).  The one exception is bit packing over flags that are all false, whose estimate
is an upper bound (`allFalse_bound`).
-/

namespace Acta

open Machine Wire Candidates

/-! ### What the estimates rest on -/

/-- Prepared values whose keys the lengths and counts of the format have room for. -/
structure Stores (prepared : PreparedValues) : Prop where
  count : prepared.count = prepared.keys.length
  count_le : prepared.keys.length ≤ u32Max
  key_le : ∀ key ∈ prepared.keys, key.length ≤ u32Max
  fixed : ∀ {width signed bytes}, prepared = .fixed width signed bytes →
    0 < width ∧ width ≤ u32Max ∧ bytes.length = prepared.keys.length * width ∧
      ∀ key ∈ prepared.keys, key.length = width
  lengths : ∀ {bytes lengths}, prepared = .variableWidth bytes lengths →
    lengths = prepared.keys.map List.length

/-- The lengths are those of the streams an encoder makes. -/
def Exact (lengths : Option (List ℕ)) (streams : Result (List CandidateStream)) : Prop :=
  ∃ made, streams = .ok made ∧ lengths = some (made.map (·.bytes.length))

/-- **A packed stream is as long as it is priced**: a width byte, and as many bits as its words
take. -/
theorem length_packed {width : ℕ} {words : List ℕ} (hwidth : width ≤ 64)
    (hcount : words.length ≤ u32Max) :
    (UInt8.ofNat width :: packBits (wordBits width words)).length =
      packedLength words.length width := by
  have hmul : saturatingMul words.length width = words.length * width := by
    refine min_eq_left ((Nat.mul_le_mul hcount hwidth).trans ?_)
    decide
  rw [List.length_cons, length_packBits, length_wordBits, packedLength, hmul, bitmapBytes,
    Nat.add_comm]

theorem exists_packFrom {width : ℕ} {words : List ℕ} (hwidth : width ≤ 64)
    (hcount : words.length ≤ u32Max) :
    ∃ bytes, packFrom width words.length words = .ok bytes ∧
      bytes.length = packedLength words.length width :=
  ⟨_, packFrom_of_length rfl, length_packed hwidth hcount⟩

section Encodings

variable {logicalType : LogicalType} {prepared : PreparedValues}

theorem raw_exact (h : Stores prepared)
    (hvalid : isValid .raw logicalType prepared (profile prepared) = true) :
    Exact (estimate logicalType prepared (profile prepared) .raw)
      (encodeStreams prepared (profile prepared) .raw) := by
  refine ⟨_, rfl, (if_neg (not_not.mpr hvalid)).trans ?_⟩
  have hcount := h.count_le
  cases prepared with
  | bool flags =>
    show some [bitmapBytes flags.length] = some [(packBits flags).length]
    rw [length_packBits]
  | fixed width signed bytes => rfl
  | variableWidth bytes lengths =>
    have hlengths : lengths.length ≤ u32Max := h.count.trans_le hcount
    show (do
      let stored ← checkedMul lengths.length 4
      some [bytes.length, stored]) = some [bytes.length, (lengthBytes lengths).length]
    rw [checkedMul_of_le hlengths (by decide) le_rfl, length_lengthBytes]
    rfl

/-- The first of at least one key. -/
theorem exists_first (h : Stores prepared) (hpos : (profile prepared).count ≠ 0) :
    ∃ first rest, prepared.keys = first :: rest := by
  refine List.exists_cons_of_ne_nil fun hnil ↦ hpos ?_
  show prepared.count = 0
  rw [h.count, hnil]
  rfl

theorem constant_exact (h : Stores prepared) (hpos : (profile prepared).count ≠ 0)
    (hvalid : isValid .constant logicalType prepared (profile prepared) = true) :
    Exact (estimate logicalType prepared (profile prepared) .constant)
      (encodeStreams prepared (profile prepared) .constant) := by
  obtain ⟨first, rest, hkeys⟩ := exists_first h hpos
  have hhead : prepared.keys.head? = some first := by rw [hkeys, List.head?_cons]
  cases prepared with
  | bool flags =>
    refine ⟨[valuesStream transformRaw 1 (packBits (flags.take 1))], ?_,
      (if_neg (not_not.mpr hvalid)).trans ?_⟩
    · show (do
        let _ ← okOr (PreparedValues.bool flags).keys.head? _
        return [valuesStream transformRaw 1 (packBits (flags.take 1))]) = _
      rw [hhead, okOr, ok_bind, pure_eq_ok]
    · show some [1] = some [(packBits (flags.take 1)).length]
      have hflags : 1 ≤ flags.length := Nat.one_le_iff_ne_zero.mpr hpos
      rw [length_packBits, List.length_take_of_le hflags]
      rfl
  | fixed width signed bytes =>
    obtain ⟨-, -, -, hwidth⟩ := h.fixed rfl
    refine ⟨[valuesStream transformRaw 1 first], ?_, (if_neg (not_not.mpr hvalid)).trans ?_⟩
    · show (do
        let first ← okOr (PreparedValues.fixed width signed bytes).keys.head? _
        return [valuesStream transformRaw 1 first]) = _
      rw [hhead, okOr, ok_bind, pure_eq_ok]
    · show some [width] = some [first.length]
      rw [hwidth first (hkeys ▸ List.mem_cons_self)]
  | variableWidth bytes lengths =>
    have hlengths := h.lengths rfl
    rw [hkeys, List.map_cons] at hlengths
    refine ⟨[valuesStream transformRaw 1 first,
      ⟨streamKindLengths, transformRaw, 1, lengthBytes (lengths.take 1)⟩], ?_,
      (if_neg (not_not.mpr hvalid)).trans ?_⟩
    · show (do
        let first ← okOr (PreparedValues.variableWidth bytes lengths).keys.head? _
        return [valuesStream transformRaw 1 first,
          ⟨streamKindLengths, transformRaw, 1, lengthBytes (lengths.take 1)⟩]) = _
      rw [hhead, okOr, ok_bind, pure_eq_ok]
    · show lengths.head?.map ([·, 4]) =
        some [first.length, (lengthBytes (lengths.take 1)).length]
      rw [hlengths, length_lengthBytes]
      rfl

theorem byteStreamSplit_exact (h : Stores prepared)
    (hvalid : isValid .byteStreamSplit logicalType prepared (profile prepared) = true)
    {width : ℕ} {signed : Option Bool} {bytes : Bytes}
    (hfixed : prepared = .fixed width signed bytes) :
    Exact (estimate logicalType prepared (profile prepared) .byteStreamSplit)
      (encodeStreams prepared (profile prepared) .byteStreamSplit) := by
  obtain ⟨-, hwidth, -, -⟩ := h.fixed hfixed
  have hcount : prepared.count ≤ u32Max := h.count.trans_le h.count_le
  subst hfixed
  refine ⟨_, rfl, (if_neg (not_not.mpr hvalid)).trans ?_⟩
  show (do
    let length ← checkedMul (bytes.length / width) width
    some [length]) = some [((List.range width).flatMap fun byte ↦
      (List.range (bytes.length / width)).map fun value ↦
        bytes[value * width + byte]?.getD 0).length]
  have hlength : ((List.range width).flatMap fun byte ↦ (List.range (bytes.length / width)).map
      fun value ↦ bytes[value * width + byte]?.getD 0).length = bytes.length / width * width := by
    rw [List.length_flatMap]
    simp [Nat.mul_comm]
  have hmul : checkedMul (bytes.length / width) width = some (bytes.length / width * width) :=
    checkedMul_of_le hcount hwidth (by decide)
  rw [hlength, hmul]
  rfl

/-! ### Flags -/

/-- Flags are counted in runs as their keys are. -/
theorem runLengths_bool (flags : List Bool) :
    (profile (.bool flags)).runLengths = (Runs.runs flags).map Prod.snd := by
  have hinjective : Function.Injective fun flag : Bool ↦ [flag.toUInt8] := by decide
  show (Runs.runs (flags.map fun flag ↦ [flag.toUInt8])).map Prod.snd = _
  rw [Runs.runs_map hinjective, List.map_map]
  rfl

theorem exists_booleanRle {flags : List Bool} (hne : flags ≠ []) (hcount : flags.length ≤ u32Max) :
    ∃ bytes, booleanRle flags = .ok bytes ∧
      bytes.length = 4 + bitmapBytes ((Runs.runs flags).map Prod.snd).length +
        packedLength ((Runs.runs flags).map Prod.snd).length
          (bitWidth (((Runs.runs flags).map Prod.snd).foldl max 0)) := by
  obtain ⟨hruns, hlengths⟩ := Runs.runs_bounds flags
  obtain ⟨hwidth, -⟩ := fits_bitWidth_foldl_max ((Runs.runs flags).map Prod.snd)
    fun length hlength ↦ ((hlengths length hlength).2.trans hcount).trans (by decide)
  have hpacked : ((Runs.runs flags).map Prod.snd).length ≤ u32Max := by
    rw [List.length_map]
    exact hruns.trans hcount
  obtain ⟨packed, hpack, hlength⟩ := exists_packFrom hwidth hpacked
  refine ⟨leBytes 4 (Runs.runs flags).length ++ packBits ((Runs.runs flags).map Prod.fst) ++ packed,
    ?_, ?_⟩
  · rw [booleanRle, failIf_neg (Nat.not_lt.mpr (hruns.trans hcount)), ok_bind,
      if_neg (Runs.runs_ne_nil hne)]
    simp only [hpack, ok_bind, pure_eq_ok]
  · rw [List.length_append, List.length_append, length_leBytes, length_packBits, hlength,
      List.length_map, List.length_map]

theorem booleanRle_exact {flags : List Bool} (h : Stores (.bool flags))
    (hpos : (profile (.bool flags)).count ≠ 0)
    (hvalid : isValid .booleanRle logicalType (.bool flags) (profile (.bool flags)) = true) :
    Exact (estimate logicalType (.bool flags) (profile (.bool flags)) .booleanRle)
      (encodeStreams (.bool flags) (profile (.bool flags)) .booleanRle) := by
  have hne : flags ≠ [] := fun hnil ↦ hpos (by rw [hnil]; rfl)
  obtain ⟨bytes, hbytes, hlength⟩ := exists_booleanRle hne (h.count.trans_le h.count_le)
  refine ⟨[valuesStream transformBooleanRle flags.length bytes], ?_,
    (if_neg (not_not.mpr hvalid)).trans ?_⟩
  · show (do
      let bytes ← booleanRle flags
      return [valuesStream transformBooleanRle flags.length bytes]) = _
    rw [hbytes, ok_bind, pure_eq_ok]
  · show some [4 + bitmapBytes (profile (.bool flags)).runLengths.length +
      packedLength (profile (.bool flags)).runLengths.length
        (bitWidth ((profile (.bool flags)).runLengths.foldl max 0))] = some [bytes.length]
    rw [runLengths_bool, hlength]

/-- **What bit packing makes of flags**: one bit for each, or none where all are false. -/
theorem exists_bitPacked_bool {flags : List Bool} (h : Stores (.bool flags)) :
    ∃ bytes, encodeStreams (.bool flags) (profile (.bool flags)) .bitPacked =
        .ok [valuesStream transformBitPacked flags.length bytes] ∧
      bytes.length = packedLength flags.length (flags.any id).toNat := by
  have hcount : (flags.map Bool.toNat).length ≤ u32Max := by
    rw [List.length_map]
    exact h.count.trans_le h.count_le
  have hwidth : (flags.any id).toNat ≤ 64 := (Bool.toNat_le _).trans (by decide)
  obtain ⟨bytes, hbytes, hlength⟩ := exists_packFrom hwidth hcount
  rw [List.length_map] at hbytes hlength
  refine ⟨bytes, ?_, hlength⟩
  show (do
    let bytes ← packFrom (flags.any id).toNat flags.length (flags.map Bool.toNat)
    return [valuesStream transformBitPacked flags.length bytes]) = _
  rw [hbytes, ok_bind, pure_eq_ok]

/-! ### Byte strings -/

/-- Sizes that add up within 64 bits are added up. -/
theorem foldlM_checkedAdd {strings : List Bytes} {total : ℕ}
    (h : total + strings.flatten.length ≤ u64Max) :
    strings.foldlM (fun total string ↦ checkedAdd total string.length) total =
      some (total + strings.flatten.length) := by
  induction strings generalizing total with
  | nil => rfl
  | cons string strings ih =>
    rw [List.flatten_cons, List.length_append, ← Nat.add_assoc] at h ⊢
    rw [List.foldlM_cons, checkedAdd_of_le (by omega)]
    exact ih h

theorem length_flatten_le {strings : List Bytes} {bound : ℕ}
    (h : ∀ string ∈ strings, string.length ≤ bound) :
    strings.flatten.length ≤ strings.length * bound := by
  induction strings with
  | nil => simp
  | cons string strings ih =>
    obtain ⟨hstring, hstrings⟩ := List.forall_mem_cons.mp h
    have hrest := ih hstrings
    rw [List.flatten_cons, List.length_append, List.length_cons, Nat.succ_mul]
    omega

/-- As many keys as a block has rows, each of at most 32 bits of length, have a 64-bit size. -/
theorem length_flatten_le_u64Max {strings : List Bytes} (hcount : strings.length ≤ u32Max)
    (h : ∀ string ∈ strings, string.length ≤ u32Max) : strings.flatten.length ≤ u64Max :=
  (length_flatten_le h).trans ((Nat.mul_le_mul_right _ hcount).trans (by decide))

/-- The lengths stream beside byte strings is priced where there is one. -/
theorem byteStringStreams_lengths {strings : List Bytes} (kind lengthsKind : ℕ)
    (hcount : strings.length ≤ u32Max) :
    ∃ lengths, lengthsEstimate prepared strings.length = some lengths ∧
      (byteStringStreams prepared kind lengthsKind strings).map (·.bytes.length) =
        [strings.flatten.length] ++ lengths := by
  cases prepared with
  | bool flags => exact ⟨[], rfl, rfl⟩
  | fixed width signed bytes => exact ⟨[], rfl, rfl⟩
  | variableWidth bytes lengths =>
    refine ⟨[strings.length * 4], ?_, ?_⟩
    · rw [lengthsEstimate, checkedMul_of_le hcount (by decide) le_rfl]
      rfl
    · show [strings.flatten.length, (lengthBytes (strings.map List.length)).length] = _
      rw [length_lengthBytes, List.length_map]
      rfl

theorem dictionary_exact (h : Stores prepared) (hpos : (profile prepared).count ≠ 0)
    (hvalid : isValid .dictionary logicalType prepared (profile prepared) = true) :
    Exact (estimate logicalType prepared (profile prepared) .dictionary)
      (encodeStreams prepared (profile prepared) .dictionary) := by
  have hoffered : (profile prepared).dictionary.isSome := ((if_neg hpos).symm.trans hvalid)
  obtain ⟨dictionary, hdictionary⟩ := Option.isSome_iff_exists.mp hoffered
  have hfacts := dictionary_of_finish hdictionary
  have hstrings : ∀ value ∈ dictionary.values, value.length ≤ u32Max :=
    fun value hvalue ↦ h.key_le value (hfacts.values_mem value hvalue)
  have hvalues : dictionary.values.length ≤ u32Max := hfacts.length_le.trans (by decide)
  have hindices : dictionary.indices.length = (profile prepared).count :=
    hfacts.length_indices.trans h.count.symm
  have hcount : dictionary.indices.length ≤ u32Max := hfacts.length_indices.trans_le h.count_le
  obtain ⟨packed, hpack, hlength⟩ := exists_packFrom hfacts.packs.bits_le hcount
  obtain ⟨lengths, hlengths, hstreams⟩ := @byteStringStreams_lengths prepared _
    streamKindDictionaryValues streamKindDictionaryLengths hvalues
  have hbytes : dictionaryBytes dictionary = some dictionary.values.flatten.length := by
    have hsum := @foldlM_checkedAdd dictionary.values 0
      (by rw [Nat.zero_add]; exact length_flatten_le_u64Max hvalues hstrings)
    rwa [Nat.zero_add] at hsum
  refine ⟨byteStringStreams prepared streamKindDictionaryValues streamKindDictionaryLengths
      dictionary.values ++ [⟨streamKindIndices, transformBitPacked, dictionary.indices.length,
        packed⟩], ?_, (if_neg (not_not.mpr hvalid)).trans ?_⟩
  · show dictionaryStreams prepared (profile prepared) = _
    rw [dictionaryStreams.eq_def, hdictionary, okOr, ok_bind, failIf_neg, ok_bind, hpack, ok_bind,
      pure_eq_ok]
    rintro ⟨-, value, hvalue, hlong⟩
    exact absurd (hstrings value hvalue) (Nat.not_le.mpr hlong)
  · show (do
      let dictionary ← (profile prepared).dictionary
      let bytes ← dictionaryBytes dictionary
      let lengths ← lengthsEstimate prepared dictionary.values.length
      some ([bytes] ++ lengths ++ [packedLength (profile prepared).count
        (bitWidth (dictionary.values.length - 1))])) = _
    rw [List.map_append, hstreams, hdictionary, ← hindices, List.map_singleton, hlength]
    show (do
      let bytes ← dictionaryBytes dictionary
      let lengths ← lengthsEstimate prepared dictionary.values.length
      some ([bytes] ++ lengths ++ [packedLength dictionary.indices.length
        (bitWidth (dictionary.values.length - 1))])) = _
    rw [hbytes, hlengths]
    rfl

/-- **The lengths at the starts of the runs** are those of the keys of the runs. -/
theorem runValueBytesFrom_expand {runs : List (Bytes × ℕ)} (hpos : ∀ run ∈ runs, 0 < run.2)
    (seen : List ℕ) {total : ℕ} (hsize : total + (runs.map Prod.fst).flatten.length ≤ u64Max)
    (hrows : seen.length + (runs.map Prod.snd).sum ≤ u64Max) :
    runValueBytesFrom (seen ++ (Runs.expand runs).map List.length) total seen.length
      (runs.map Prod.snd) = some (total + (runs.map Prod.fst).flatten.length) := by
  induction runs generalizing seen total with
  | nil => rfl
  | cons run runs ih =>
    obtain ⟨key, length⟩ := run
    obtain ⟨hfirst, hpos⟩ := List.forall_mem_cons.mp hpos
    have hflat : total + (((key, length) :: runs).map Prod.fst).flatten.length =
        total + key.length + (runs.map Prod.fst).flatten.length := by
      rw [List.map_cons, List.flatten_cons, List.length_append, Nat.add_assoc]
    rw [hflat] at hsize ⊢
    rw [List.map_cons, List.sum_cons, ← Nat.add_assoc] at hrows
    have hexpand : (Runs.expand ((key, length) :: runs)).map List.length =
        List.replicate length key.length ++ (Runs.expand runs).map List.length := by
      rw [Runs.expand, List.flatMap_cons, List.map_append, List.map_replicate]
      rfl
    have hhead : (seen ++ (List.replicate length key.length ++
        (Runs.expand runs).map List.length))[seen.length]? = some key.length := by
      rw [List.getElem?_append_right le_rfl, Nat.sub_self,
        List.getElem?_append_left (by simpa using hfirst),
        List.getElem?_replicate, if_pos hfirst]
    have hnext := ih hpos (seen ++ List.replicate length key.length) hsize (by simpa using hrows)
    rw [List.length_append, List.length_replicate, List.append_assoc] at hnext
    rw [List.map_cons, runValueBytesFrom, hexpand, hhead]
    show (do
      let total ← checkedAdd total key.length
      let next ← checkedAdd seen.length length
      runValueBytesFrom _ total next (runs.map Prod.snd)) = _
    rw [checkedAdd_of_le (by omega), checkedAdd_of_le (by omega)]
    exact hnext

theorem runValueBytes_eq (h : Stores prepared) (hbool : ∀ flags, prepared ≠ .bool flags) :
    runValueBytes prepared (profile prepared) =
      some ((Runs.runs prepared.keys).map Prod.fst).flatten.length := by
  obtain ⟨hruns, -⟩ := Runs.runs_bounds prepared.keys
  have hcount : (Runs.runs prepared.keys).length ≤ u32Max := hruns.trans h.count_le
  have hkeys : ∀ key ∈ (Runs.runs prepared.keys).map Prod.fst, key ∈ prepared.keys := by
    intro key hkey
    obtain ⟨run, hrun, rfl⟩ := List.mem_map.mp hkey
    exact Runs.mem_of_mem_runs hrun
  cases hprepared : prepared with
  | bool flags => exact absurd hprepared (hbool flags)
  | fixed width signed bytes =>
    obtain ⟨-, hwidth, -, hall⟩ := h.fixed hprepared
    have hflat : ((Runs.runs prepared.keys).map Prod.fst).flatten.length =
        (Runs.runs prepared.keys).length * width := by
      rw [length_flatten_of_forall fun key hkey ↦ hall key (hkeys key hkey), List.length_map]
    rw [hprepared] at hflat hcount
    show checkedMul ((Runs.runs (PreparedValues.fixed width signed bytes).keys).map
      Prod.snd).length width = _
    rw [List.length_map, checkedMul_of_le hcount hwidth (by decide), hflat]
  | variableWidth bytes lengths =>
    have hlengths := h.lengths hprepared
    have hsize : 0 + ((Runs.runs prepared.keys).map Prod.fst).flatten.length ≤ u64Max := by
      rw [Nat.zero_add]
      refine length_flatten_le_u64Max (by rwa [List.length_map]) fun key hkey ↦ ?_
      exact h.key_le key (hkeys key hkey)
    have hrows : ([] : List ℕ).length + ((Runs.runs prepared.keys).map Prod.snd).sum ≤ u64Max := by
      rw [Runs.sum_lengths_runs, List.length_nil, Nat.zero_add]
      exact h.count_le.trans (by decide)
    have hsum := runValueBytesFrom_expand (fun run hrun ↦ Runs.length_pos_of_mem_runs hrun) []
      hsize hrows
    rw [Runs.expand_runs, List.nil_append, Nat.zero_add, ← hlengths] at hsum
    rw [hprepared] at hsum
    exact hsum

theorem runLength_exact (h : Stores prepared) (hbool : ∀ flags, prepared ≠ .bool flags)
    (hvalid : isValid .runLength logicalType prepared (profile prepared) = true) :
    Exact (estimate logicalType prepared (profile prepared) .runLength)
      (encodeStreams prepared (profile prepared) .runLength) := by
  obtain ⟨hruns, hlengths⟩ := Runs.runs_bounds prepared.keys
  have hcount : ((Runs.runs prepared.keys).map Prod.snd).length ≤ u32Max := by
    rw [List.length_map]
    exact hruns.trans h.count_le
  have hstrings : ((Runs.runs prepared.keys).map Prod.fst).length ≤ u32Max := by
    rw [List.length_map]
    exact hruns.trans h.count_le
  obtain ⟨hwidth, -⟩ := fits_bitWidth_foldl_max ((Runs.runs prepared.keys).map Prod.snd)
    fun length hlength ↦ ((hlengths length hlength).2.trans h.count_le).trans (by decide)
  obtain ⟨packed, hpack, hlength⟩ := exists_packFrom hwidth hcount
  have hkeys : runKeys prepared.keys ((Runs.runs prepared.keys).map Prod.snd) =
      .ok ((Runs.runs prepared.keys).map Prod.fst) := by
    have hexpand := runKeys_expand
      (fun run hrun ↦ Runs.length_pos_of_mem_runs hrun)
      fun run hrun ↦ h.key_le run.1 (Runs.mem_of_mem_runs hrun)
    rwa [Runs.expand_runs] at hexpand
  obtain ⟨lengths, hpriced, hstreams⟩ := @byteStringStreams_lengths prepared _
    streamKindRunValues streamKindLengths hstrings
  refine ⟨byteStringStreams prepared streamKindRunValues streamKindLengths
      ((Runs.runs prepared.keys).map Prod.fst) ++ [⟨streamKindRunLengths, transformBitPacked,
        ((Runs.runs prepared.keys).map Prod.snd).length, packed⟩], ?_,
      (if_neg (not_not.mpr hvalid)).trans ?_⟩
  · have hstreams : runLengthStreams prepared (profile prepared) = (do
        let keys ← runKeys prepared.keys ((Runs.runs prepared.keys).map Prod.snd)
        let lengths ← packFrom (bitWidth (((Runs.runs prepared.keys).map Prod.snd).foldl max 0))
          ((Runs.runs prepared.keys).map Prod.snd).length ((Runs.runs prepared.keys).map Prod.snd)
        return byteStringStreams prepared streamKindRunValues streamKindLengths keys ++
          [⟨streamKindRunLengths, transformBitPacked,
            ((Runs.runs prepared.keys).map Prod.snd).length, lengths⟩]) := by
      cases prepared with
      | bool flags => exact absurd rfl (hbool flags)
      | _ => rfl
    exact hstreams.trans (by rw [hkeys, ok_bind, hpack, ok_bind, pure_eq_ok])
  · show (do
      let bytes ← runValueBytes prepared (profile prepared)
      let lengths ← lengthsEstimate prepared ((Runs.runs prepared.keys).map Prod.snd).length
      some ([bytes] ++ lengths ++ [packedLength ((Runs.runs prepared.keys).map Prod.snd).length
        (bitWidth (((Runs.runs prepared.keys).map Prod.snd).foldl max 0))])) = _
    rw [runValueBytes_eq h hbool, List.map_append, hstreams, List.map_singleton, hlength]
    rw [List.length_map] at hpriced
    show (do
      let lengths ← lengthsEstimate prepared ((Runs.runs prepared.keys).map Prod.snd).length
      some ([((Runs.runs prepared.keys).map Prod.fst).flatten.length] ++ lengths ++ _)) = _
    rw [List.length_map, hpriced]
    rfl

end Encodings

/-! ### Integers -/

theorem packedLength_le (count width : ℕ) : packedLength count width ≤ u64Max - 64 := by
  have hle : saturatingMul count width ≤ u64Max := Nat.min_le_right _ _
  simp only [packedLength, u64Max] at hle ⊢
  omega

/-- Neither flags nor byte strings are numbers, and no numeric transform is offered for them, but
for the bits of flags. -/
theorem numeric_invalid {logicalType : LogicalType} {prepared : PreparedValues}
    (hnumbers : prepared.numbers = none) {encoding : ValueEncoding}
    (hencoding : encoding ∈ [ValueEncoding.bitPacked, .frameOfReference, .delta, .deltaOfDelta])
    (hbits : ¬(encoding = .bitPacked ∧ ∃ flags, prepared = .bool flags)) :
    isValid encoding logicalType prepared (profile prepared) = false := by
  have hnumeric : (profile prepared).numeric = none := by
    show prepared.numericProfile = none
    rw [PreparedValues.numericProfile, hnumbers]
  by_cases hcount : (profile prepared).count = 0
  · exact if_pos hcount
  · refine (if_neg hcount).trans ?_
    cases encoding with
    | frameOfReference | delta | deltaOfDelta =>
      show (profile prepared).numeric.any _ = false
      rw [hnumeric]
      rfl
    | bitPacked =>
      cases prepared with
      | bool flags => exact absurd ⟨rfl, flags, rfl⟩ hbits
      | _ =>
        show Option.any _ (profile _).numeric = false
        rw [hnumeric]
        rfl
    | _ => simp at hencoding

namespace IntegerLike

variable {like : IntegerLike} {values : List like.type.Value} {numeric : NumericProfile} {bits : ℕ}

/-- What a numeric transform is priced at. -/
def transformLength (width count bits : ℕ) (encoding : ValueEncoding) : ℕ :=
  leadLength width encoding +
    if encoding = .delta ∧ count = 1 then 0 else packedLength (packedCount count encoding) bits

theorem Inverts.length_bytes {encoding : ValueEncoding} {base : ℤ} {stream : CandidateStream}
    (h : Inverts like values base encoding bits stream) (hcount : values.length ≤ u32Max) :
    stream.bytes.length = transformLength like.type.width values.length bits encoding := by
  obtain ⟨lead, words, -, -, hwidth, hlead, hwords, hbytes⟩ := h.packed
  have hpacked : words.length ≤ u32Max := by
    refine le_trans ?_ hcount
    rw [hwords]
    cases encoding <;> simp [packedCount]
  rw [hbytes, List.length_append, hlead, transformLength]
  split
  · rfl
  · rw [length_packed hwidth hpacked, hwords]

theorem estimate_of_offered (hnumeric : (profile (like.prepared values)).numeric = some numeric)
    (hne : values ≠ []) {encoding : ValueEncoding}
    (hbits : offeredBits numeric encoding = some bits) :
    estimate like.logicalType (like.prepared values) (profile (like.prepared values)) encoding =
      some [transformLength like.type.width values.length bits encoding] := by
  have hvalid := isValid_of_offered hnumeric hne hbits
  have hpos : values.length ≠ 0 := fun hzero ↦ hne (List.eq_nil_of_length_eq_zero hzero)
  have hwidth := like.type.width_le
  have hlength := fun count ↦ packedLength_le count bits
  have hmax : u64Max = 2 ^ 64 - 1 := rfl
  refine (if_neg (not_not.mpr hvalid)).trans ?_
  cases encoding with
  | bitPacked =>
    have hbits : numeric.bitPackedBits = some bits := hbits
    show some [packedLength (profile (like.prepared values)).count
      (((profile (like.prepared values)).numeric.bind (·.bitPackedBits)).getD 1)] = _
    rw [hnumeric, Option.bind_some, hbits, count_prepared]
    simp [transformLength, leadLength, packedCount]
  | frameOfReference =>
    have hbits : numeric.frameOfReferenceBits = some bits := hbits
    show (do
      let bits ← (profile (like.prepared values)).numeric.bind (·.frameOfReferenceBits)
      let length ← checkedAdd like.type.width
        (packedLength (profile (like.prepared values)).count bits)
      some [length]) = _
    rw [hnumeric, Option.bind_some, hbits, count_prepared]
    show (do
      let length ← checkedAdd like.type.width (packedLength values.length bits)
      some [length]) = _
    rw [checkedAdd_of_le (by have := hlength values.length; omega)]
    simp [transformLength, leadLength, packedCount]
  | delta =>
    have hbits : numeric.deltaBits = some bits := hbits
    show (do
      let bits ← (profile (like.prepared values)).numeric.bind (·.deltaBits)
      let length ← checkedAdd like.type.width
        (if (profile (like.prepared values)).count ≤ 1 then 0 else
          packedLength ((profile (like.prepared values)).count - 1) bits)
      some [length]) = _
    rw [hnumeric, Option.bind_some, hbits, count_prepared]
    show (do
      let length ← checkedAdd like.type.width
        (if values.length ≤ 1 then 0 else packedLength (values.length - 1) bits)
      some [length]) = _
    have hone : values.length ≤ 1 ↔ values.length = 1 := by omega
    simp only [hone]
    rw [checkedAdd_of_le (by have := hlength (values.length - 1); split <;> omega)]
    simp [transformLength, leadLength, packedCount]
  | deltaOfDelta =>
    have hbits : numeric.deltaOfDeltaBits = some bits := hbits
    show (do
      let length ← checkedAdd like.type.width 8
      let bits ← (profile (like.prepared values)).numeric.bind (·.deltaOfDeltaBits)
      let length ← checkedAdd length
        (packedLength ((profile (like.prepared values)).count - 2) bits)
      some [length]) = _
    rw [hnumeric, Option.bind_some, hbits, count_prepared, checkedAdd_of_le (by omega)]
    show (do
      let length ← checkedAdd (like.type.width + 8) (packedLength (values.length - 2) bits)
      some [length]) = _
    rw [checkedAdd_of_le (by have := hlength (values.length - 2); omega)]
    simp [transformLength, leadLength, packedCount]
  | _ => cases hbits

/-- What is not refused is offered. -/
theorem exists_offered (hnumeric : (profile (like.prepared values)).numeric = some numeric)
    (hne : values ≠ []) {encoding : ValueEncoding}
    (hencoding : encoding ∈ [ValueEncoding.bitPacked, .frameOfReference, .delta, .deltaOfDelta])
    (hvalid : isValid encoding like.logicalType (like.prepared values)
      (profile (like.prepared values)) = true) :
    ∃ bits, offeredBits numeric encoding = some bits := by
  have hcount : (profile (like.prepared values)).count ≠ 0 := by
    rw [count_prepared]
    exact fun hzero ↦ hne (List.eq_nil_of_length_eq_zero hzero)
  have hoffered := (if_neg hcount).symm.trans hvalid
  cases encoding with
  | bitPacked | frameOfReference | delta | deltaOfDelta =>
    have hsome : (profile (like.prepared values)).numeric.any _ = true := hoffered
    rw [hnumeric, Option.any_some] at hsome
    exact Option.isSome_iff_exists.mp hsome
  | _ => simp at hencoding

theorem numeric_exact (hcount : values.length ≤ u32Max) (hne : values ≠ [])
    {encoding : ValueEncoding}
    (hencoding : encoding ∈ [ValueEncoding.bitPacked, .frameOfReference, .delta, .deltaOfDelta])
    (hvalid : isValid encoding like.logicalType (like.prepared values)
      (profile (like.prepared values)) = true) :
    Exact (estimate like.logicalType (like.prepared values) (profile (like.prepared values))
      encoding)
      (encodeStreams (like.prepared values) (profile (like.prepared values)) encoding) := by
  obtain ⟨numeric, hnumeric, hprofiled⟩ := exists_profiled hne
  obtain ⟨bits, hbits⟩ := exists_offered hnumeric hne hencoding hvalid
  obtain ⟨stream, hstream, hinverts⟩ := exists_inverts hnumeric hne hprofiled hbits
  refine ⟨[stream], hstream, ?_⟩
  rw [estimate_of_offered hnumeric hne hbits, List.map_singleton, hinverts.length_bytes hcount]

end IntegerLike

/-! ### Every encoding -/

section Prepared

variable {logicalType : LogicalType} {values : List logicalType.storedType.Value}

theorem width_le_of_shape {width : ℕ} {signed : Option Bool}
    (hshape : logicalType.shape = .fixed width signed) : width ≤ u32Max := by
  cases logicalType with
  | bool | utf8 | categorical _ | binary => cases hshape
  | integer type =>
    cases hshape
    exact type.width_le.trans (by decide)
  | float32 | float64 | decimal _ _ | timestamp _ _ | date32 =>
    cases hshape
    decide
  | fixedBinary byteWidth =>
    cases hshape
    exact Nat.le_of_lt_succ byteWidth.toNat_lt

theorem FitsKey.le {key : Bytes} (hshape : logicalType.shape ≠ .bits)
    (h : logicalType.FitsKey key) : key.length ≤ u32Max := by
  rw [LogicalType.FitsKey] at h
  cases hfixed : logicalType.shape with
  | bits => exact absurd hfixed hshape
  | fixed width signed =>
    rw [hfixed] at h
    exact h.trans_le (width_le_of_shape hfixed)
  | variableWidth =>
    rw [hfixed] at h
    exact h

/-- **What a column prepares is what its keys are stored as.** -/
theorem stores_prepared (hwidth : logicalType.HasWidth)
    (hfits : ∀ value ∈ values, logicalType.FitsKey (logicalType.storedType.key value))
    (hcount : values.length ≤ u32Max) : Stores (logicalType.prepared values) := by
  have hkeys := keys_prepared hwidth hfits
  have hlength : (logicalType.prepared values).keys.length = values.length := by
    rw [hkeys, length_keysOf]
  refine ⟨(count_prepared hwidth hfits).trans hlength.symm, hlength.trans_le hcount, ?_, ?_, ?_⟩
  · rw [hkeys]
    intro key hkey
    obtain ⟨value, hvalue, rfl⟩ := List.mem_map.mp hkey
    by_cases hshape : logicalType.shape = .bits
    · cases logicalType with
      | bool => exact (show 1 ≤ u32Max by decide)
      | _ => cases hshape
    · exact FitsKey.le hshape (hfits value hvalue)
  · intro width signed bytes hfixed
    cases hshape : logicalType.shape with
    | bits | variableWidth =>
      rw [LogicalType.prepared, hshape] at hfixed
      cases hfixed
    | fixed declared sign =>
      have hall : ∀ value ∈ values, (logicalType.storedType.key value).length = declared := by
        intro value hvalue
        have hkey := hfits value hvalue
        rwa [LogicalType.FitsKey, hshape] at hkey
      rw [hlength, hkeys]
      rw [LogicalType.prepared, hshape] at hfixed
      cases hfixed
      refine ⟨hwidth.pos hshape, ?_, length_flatMap_of_forall hall, fun key hkey ↦ ?_⟩
      · exact width_le_of_shape hshape
      · obtain ⟨value, hvalue, rfl⟩ := List.mem_map.mp hkey
        exact hall value hvalue
  · intro bytes lengths hvariable
    rw [hkeys, keysOf, List.map_map]
    cases hshape : logicalType.shape with
    | bits | fixed _ _ =>
      rw [LogicalType.prepared, hshape] at hvariable
      cases hvariable
    | variableWidth =>
      rw [LogicalType.prepared, hshape] at hvariable
      cases hvariable
      rfl

/-- Prepared values are the numbers of an integer-like column, or no numbers. -/
theorem prepared_numbers (values : List logicalType.storedType.Value) :
    (logicalType.prepared values).numbers = none ∨
      ∃ (like : IntegerLike) (integers : List like.type.Value), logicalType = like.logicalType ∧
        logicalType.prepared values = like.prepared integers ∧
          integers.length = values.length := by
  cases logicalType with
  | integer type => exact .inr ⟨.integer type, values, rfl, rfl, rfl⟩
  | decimal precision scale => exact .inr ⟨.decimal precision scale, values, rfl, rfl, rfl⟩
  | timestamp unit timezone => exact .inr ⟨.timestamp unit timezone, values, rfl, rfl, rfl⟩
  | date32 => exact .inr ⟨.date32, values, rfl, rfl, rfl⟩
  | _ => exact .inl rfl

theorem bool_of_prepared {flags : List Bool} (h : logicalType.prepared values = .bool flags) :
    logicalType = .bool := by
  cases logicalType with
  | bool => rfl
  | _ => cases h

theorem count_ne_zero_of_isValid {encoding : ValueEncoding} {prepared : PreparedValues}
    (hvalid : isValid encoding logicalType prepared (profile prepared) = true) :
    (profile prepared).count ≠ 0 := by
  intro hzero
  have hinvalid : isValid encoding logicalType prepared (profile prepared) = false := if_pos hzero
  rw [hvalid] at hinvalid
  cases hinvalid

/-- **Every encoding but the bits of flags makes what it is priced at.** -/
theorem exact_of_isValid (hwidth : logicalType.HasWidth)
    (hfits : ∀ value ∈ values, logicalType.FitsKey (logicalType.storedType.key value))
    (hcount : values.length ≤ u32Max) {encoding : ValueEncoding}
    (hbits : ¬(encoding = .bitPacked ∧ ∃ flags, logicalType.prepared values = .bool flags))
    (hvalid : isValid encoding logicalType (logicalType.prepared values)
      (profile (logicalType.prepared values)) = true) :
    Exact
      (estimate logicalType (logicalType.prepared values) (profile (logicalType.prepared values))
        encoding)
      (encodeStreams (logicalType.prepared values) (profile (logicalType.prepared values))
        encoding) := by
  have hstores := stores_prepared hwidth hfits hcount
  have hpos := count_ne_zero_of_isValid hvalid
  have hoffered := (if_neg hpos).symm.trans hvalid
  cases encoding with
  | raw => exact raw_exact hstores hvalid
  | constant => exact constant_exact hstores hpos hvalid
  | dictionary => exact dictionary_exact hstores hpos hvalid
  | booleanRle =>
    cases hprepared : logicalType.prepared values with
    | bool flags =>
      rw [hprepared] at hstores hpos hvalid
      exact booleanRle_exact hstores hpos hvalid
    | _ =>
      rw [hprepared] at hoffered
      cases hoffered
  | byteStreamSplit =>
    cases hprepared : logicalType.prepared values with
    | fixed width signed bytes =>
      rw [hprepared] at hstores hvalid
      exact byteStreamSplit_exact hstores hvalid rfl
    | _ =>
      rw [hprepared] at hoffered
      cases hoffered
  | runLength =>
    refine runLength_exact hstores (fun flags hflags ↦ ?_) hvalid
    have hflag : (decide (logicalType ≠ .bool) && _) = true := hoffered
    exact of_decide_eq_true (Bool.and_eq_true_iff.mp hflag).1 (bool_of_prepared hflags)
  | bitPacked | frameOfReference | delta | deltaOfDelta =>
    rcases prepared_numbers values with hnone | ⟨like, integers, rfl, hprepared, hlength⟩
    · have hinvalid := @numeric_invalid logicalType _ hnone _ (by simp) hbits
      rw [hvalid] at hinvalid
      cases hinvalid
    · rw [hprepared] at hvalid hpos ⊢
      refine IntegerLike.numeric_exact (hlength.trans_le hcount) (fun hnil ↦ hpos ?_) (by simp)
        hvalid
      rw [IntegerLike.count_prepared, hnil]
      rfl

end Prepared

/-! ### The all-false flags -/

/-- Flags that are all false. -/
def AllFalse (prepared : PreparedValues) : Prop :=
  ∃ flags, prepared = .bool flags ∧ ∀ flag ∈ flags, flag = false

/-- **Flags that are all false** pack into less than they are priced at, and a constant is offered
beside them at a price no larger. -/
theorem allFalse_bound {flags : List Bool} (h : Stores (.bool flags)) (hpos : flags ≠ [])
    (hfalse : ∀ flag ∈ flags, flag = false) :
    ∃ bytes, encodeStreams (.bool flags) (profile (.bool flags)) .bitPacked =
        .ok [valuesStream transformBitPacked flags.length bytes] ∧
      bytes.length ≤ packedLength flags.length 1 ∧
        isValid .constant .bool (.bool flags) (profile (.bool flags)) = true ∧
          1 ≤ packedLength flags.length 1 := by
  obtain ⟨bytes, hbytes, hlength⟩ := exists_bitPacked_bool h
  have hcount : (profile (.bool flags)).count ≠ 0 :=
    fun hzero ↦ hpos (List.eq_nil_of_length_eq_zero hzero)
  have hone : 1 ≤ packedLength flags.length 1 := Nat.le_add_right _ _
  have hany : flags.any id = false := by
    rw [List.any_eq_false]
    intro flag hflag
    rw [hfalse flag hflag]
    decide
  refine ⟨bytes, hbytes, ?_, (if_neg hcount).trans ?_, hone⟩
  · rw [hlength, hany]
    show 1 + (saturatingMul flags.length 0 + 7) / 8 ≤ _
    rw [show saturatingMul flags.length 0 = 0 from rfl]
    exact hone
  · obtain ⟨hruns, -⟩ := Runs.length_runs_le_one hfalse
    show decide ((profile (.bool flags)).runLengths.length ≤ 1) = true
    rw [runLengths_bool, List.length_map]
    exact decide_eq_true hruns

theorem encode_of_isValid {logicalType : LogicalType} {prepared : PreparedValues}
    {profiled : ValueProfile} {encoding : ValueEncoding} {made : List CandidateStream}
    (hvalid : isValid encoding logicalType prepared profiled = true)
    (hmade : encodeStreams prepared profiled encoding = .ok made) :
    encode logicalType prepared profiled encoding = .ok ⟨layoutOf encoding, made⟩ := by
  rw [encode, failIf_neg (not_not.mpr hvalid), ok_bind, hmade, ok_bind, pure_eq_ok]

theorem hasWidth_of_prepare {logicalType : LogicalType} {values : List (Result ScalarValue)}
    {pair : PreparedValues × ValueProfile} (h : prepare logicalType values = .ok pair) :
    logicalType.HasWidth := by
  rintro rfl
  obtain ⟨start, hstart, -⟩ := bind_eq_ok.mp h
  cases hstart

/-- **What bit packing makes of flags, and what it is priced at.** -/
theorem bitPacked_flags {flags : List Bool} (h : Stores (.bool flags))
    (hvalid : isValid .bitPacked .bool (.bool flags) (profile (.bool flags)) = true) :
    ∃ stream, encodeStreams (.bool flags) (profile (.bool flags)) .bitPacked = .ok [stream] ∧
      estimate .bool (.bool flags) (profile (.bool flags)) .bitPacked =
        some [packedLength flags.length 1] ∧
      (¬AllFalse (.bool flags) → stream.bytes.length = packedLength flags.length 1) ∧
      (AllFalse (.bool flags) → stream.bytes.length ≤ packedLength flags.length 1 ∧
        .constant ∈ candidates .bool (.bool flags) (profile (.bool flags)) ∧
          estimate .bool (.bool flags) (profile (.bool flags)) .constant = some [1]) := by
  obtain ⟨bytes, hbytes, hlength⟩ := exists_bitPacked_bool h
  have hpos : flags ≠ [] := by
    rintro rfl
    cases hvalid
  refine ⟨_, hbytes, if_neg (not_not.mpr hvalid), fun hsome ↦ ?_, ?_⟩
  · have hany : flags.any id = true := by
      by_contra hnone
      refine hsome ⟨flags, rfl, fun flag hflag ↦ ?_⟩
      have hall := List.any_eq_false.mp (Bool.eq_false_of_not_eq_true hnone) flag hflag
      simpa using hall
    show bytes.length = _
    rw [hlength, hany]
    rfl
  · rintro ⟨_, hflags, hfalse⟩
    cases hflags
    obtain ⟨other, hother, hle, hconstant, -⟩ := allFalse_bound h hpos hfalse
    rw [hbytes] at hother
    cases hother
    exact ⟨hle, List.mem_filter.mpr ⟨by decide, hconstant⟩, if_neg (not_not.mpr hconstant)⟩

/-- **Estimates are the encoded sizes.**  Of the values a column prepares, an encoding is priced
exactly when it can be made, and then every stream is as long as it was priced.  Only the bits of
flags that are all false are priced too high, and a constant is offered at a price no larger. -/
theorem estimate_exact {logicalType : LogicalType} {values : List logicalType.arrayType.Value}
    {prepared : PreparedValues} {profiled : ValueProfile}
    (h : prepare logicalType (presentValues logicalType values) = .ok (prepared, profiled))
    (hcount : values.length ≤ u32Max) (encoding : ValueEncoding) :
    ((estimate logicalType prepared profiled encoding).isSome ↔
        ∃ candidate, encode logicalType prepared profiled encoding = .ok candidate) ∧
      ∀ lengths candidate, estimate logicalType prepared profiled encoding = some lengths →
        encode logicalType prepared profiled encoding = .ok candidate →
          (¬(encoding = .bitPacked ∧ AllFalse prepared) →
            candidate.streams.map (·.bytes.length) = lengths) ∧
          (encoding = .bitPacked ∧ AllFalse prepared →
            List.Forall₂ (· ≤ ·) (candidate.streams.map (·.bytes.length)) lengths ∧
              .constant ∈ candidates logicalType prepared profiled ∧
                ∃ priced, estimate logicalType prepared profiled .constant = some priced ∧
                  List.Forall₂ (· ≤ ·) priced lengths) := by
  have hwidth := hasWidth_of_prepare h
  obtain ⟨hfits, rfl, rfl⟩ := prepare_eq_ok h
  have hstores := stores_prepared hwidth hfits (by rwa [List.length_map])
  have hexact := fun hbits ↦
    @exact_of_isValid _ _ hwidth hfits (by rwa [List.length_map]) encoding hbits
  have hbool : ∀ flags, logicalType.prepared (values.map logicalType.stored) = .bool flags →
      logicalType = .bool := fun flags hflags ↦ bool_of_prepared hflags
  clear hfits h hcount
  generalize logicalType.prepared (values.map logicalType.stored) = prepared at *
  by_cases hvalid : isValid encoding logicalType prepared (profile prepared) = true
  case neg =>
    have hnone : estimate logicalType prepared (profile prepared) encoding = none :=
      if_pos hvalid
    have hrefused : ∀ candidate, encode logicalType prepared (profile prepared) encoding ≠
        .ok candidate := by
      intro candidate hcandidate
      rw [encode, failIf_pos hvalid, error_bind] at hcandidate
      cases hcandidate
    rw [hnone]
    refine ⟨iff_of_false (by simp) (not_exists.mpr hrefused), ?_⟩
    intro lengths candidate hlengths
    cases hlengths
  case pos =>
    by_cases hflags : encoding = .bitPacked ∧ ∃ flags, prepared = .bool flags
    · obtain ⟨rfl, flags, rfl⟩ := hflags
      obtain rfl := hbool flags rfl
      obtain ⟨stream, hmade, hpriced, hequal, hbound⟩ := bitPacked_flags hstores hvalid
      have hencode := encode_of_isValid hvalid hmade
      rw [hpriced]
      refine ⟨iff_of_true rfl ⟨_, hencode⟩, fun lengths candidate hlengths hcandidate ↦ ?_⟩
      rw [hencode] at hcandidate
      cases hlengths
      cases hcandidate
      refine ⟨fun hsome ↦ ?_, fun hall ↦ ?_⟩
      · show [stream.bytes.length] = _
        rw [hequal fun hall ↦ hsome ⟨rfl, hall⟩]
      · obtain ⟨hle, hoffered, hconstant⟩ := hbound hall.2
        exact ⟨.cons hle .nil, hoffered, [1], hconstant, .cons (Nat.le_add_right _ _) .nil⟩
    · obtain ⟨made, hmade, hpriced⟩ := hexact hflags hvalid
      have hencode := encode_of_isValid hvalid hmade
      rw [hpriced]
      refine ⟨iff_of_true rfl ⟨_, hencode⟩, fun lengths candidate hlengths hcandidate ↦ ?_⟩
      rw [hencode] at hcandidate
      cases hlengths
      cases hcandidate
      refine ⟨fun _ ↦ rfl, fun hall ↦ absurd ⟨hall.1, ?_⟩ hflags⟩
      obtain ⟨flags, hprepared, -⟩ := hall.2
      exact ⟨flags, hprepared⟩

/-- Two false flags are priced at two bytes, and both are stored in one. -/
theorem estimate_exact_flags :
    ((estimate .bool (.bool [false, false]) (profile (.bool [false, false])) .bitPacked).isSome ↔
        ∃ candidate, encode .bool (.bool [false, false]) (profile (.bool [false, false]))
          .bitPacked = .ok candidate) ∧
      estimate .bool (.bool [false, false]) (profile (.bool [false, false])) .bitPacked =
        some [2] :=
  ⟨(@estimate_exact .bool [false, false] _ _ rfl (by decide) .bitPacked).1, by decide⟩

end Acta
