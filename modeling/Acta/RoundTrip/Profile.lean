import Acta.RoundTrip.Transforms

/-!
# What the profile establishes

One pass over the numbers and the keys of a column finds the widths, the dictionary and the runs its
encodings use.  Each fact about the pass is an invariant of its fold: the widths have room for every
number they were found for, the indices of the dictionary point at the keys they stand for, and the
runs of the keys spell the keys.
-/

namespace Acta

open Machine Wire Candidates

/-! ### Numbers -/

theorem adjacentDeltas_append {values : List ℤ} {last value : ℤ}
    (h : values.getLast? = some last) :
    adjacentDeltas (values ++ [value]) = adjacentDeltas values ++ [value - last] := by
  induction values with
  | nil => cases h
  | cons first rest ih =>
    cases rest with
    | nil =>
      cases h
      rfl
    | cons second rest =>
      rw [List.getLast?_cons_cons] at h
      rw [List.cons_append, List.cons_append, adjacentDeltas, ← List.cons_append, ih h,
        adjacentDeltas, List.cons_append]

/-- The bit widths that have room for every word. -/
def Widths (words : List ℕ) : Set ℕ := {bits | ∀ word ∈ words, word < 2 ^ bits}

/-- The widest of the words. -/
def leastBits (words : List ℕ) : ℕ := (words.map bitWidth).foldl max 0

theorem lt_two_pow_iff {word bits : ℕ} : word < 2 ^ bits ↔ bitWidth word ≤ bits :=
  Nat.size_le.symm

theorem isLeast_leastBits (words : List ℕ) : IsLeast (Widths words) (leastBits words) := by
  constructor
  · intro word hword
    rw [lt_two_pow_iff]
    exact (Runs.foldl_max_bounds _ 0).2 _ (List.mem_map_of_mem hword)
  · intro bits hbits
    refine Runs.foldl_max_le (Nat.zero_le _) fun width hwidth ↦ ?_
    obtain ⟨word, hword, rfl⟩ := List.mem_map.mp hwidth
    exact lt_two_pow_iff.mp (hbits word hword)

@[simp] theorem leastBits_append (words : List ℕ) (word : ℕ) :
    leastBits (words ++ [word]) = max (leastBits words) (bitWidth word) := by
  rw [leastBits, leastBits, List.map_append, List.foldl_append]
  rfl

/-- The widest of the words is the largest of them. -/
theorem leastBits_of_isGreatest {words : List ℕ} {top : ℕ}
    (h : IsGreatest {word | word ∈ words} top) : bitWidth top = leastBits words := by
  refine IsLeast.unique ?_ (isLeast_leastBits words)
  refine ⟨fun word hword ↦ ?_, fun bits hbits ↦ ?_⟩
  · exact (h.2 hword).trans_lt (lt_two_pow_bitWidth top)
  · exact lt_two_pow_iff.mp (hbits top h.1)

theorem bitWidthOf_of_inRange {value : ℤ} (hlo : 0 ≤ value) (hhi : value ≤ u64Max) :
    bitWidthOf value = bitWidth value.toNat := if_pos ⟨hlo, hhi⟩

/-- What one pass has found out about the differences of the numbers it has seen. -/
structure Differenced (numbers : List ℤ) (scan : NumericScan) : Prop where
  deltaOk : scan.deltaOk = true ↔ ∀ delta ∈ adjacentDeltas numbers, IntType.int64.InRange delta
  previousDelta : scan.deltaOk = true →
    scan.previousDelta = (adjacentDeltas numbers).getLast?
  deltaBits : scan.deltaOk = true →
    scan.deltaBits = leastBits ((adjacentDeltas numbers).map zigzag)
  secondOk : scan.deltaOk = true → (scan.deltaOfDeltaOk = true ↔
    ∀ delta ∈ adjacentDeltas (adjacentDeltas numbers), IntType.int64.InRange delta)
  secondBits : scan.deltaOk = true → scan.deltaOfDeltaOk = true →
    scan.deltaOfDeltaBits = leastBits ((adjacentDeltas (adjacentDeltas numbers)).map zigzag)

/-- A delta in range is recorded, whatever becomes of its difference to the delta before. -/
theorem pushDelta_first (scan : NumericScan) (delta : ℤ) :
    (scan.pushDelta delta).deltaOk = scan.deltaOk ∧
      (scan.pushDelta delta).previousDelta = some delta ∧
        (scan.pushDelta delta).deltaBits = max scan.deltaBits (bitWidth (zigzag delta)) := by
  rw [NumericScan.pushDelta]
  split
  · exact ⟨rfl, rfl, rfl⟩
  · split <;> exact ⟨rfl, rfl, rfl⟩

/-- What becomes of the differences between deltas. -/
theorem Differenced.pushDelta_second {numbers : List ℤ} {scan : NumericScan}
    (h : Differenced numbers scan) (hok : scan.deltaOk = true) (delta : ℤ) :
    ((scan.pushDelta delta).deltaOfDeltaOk = true ↔
      ∀ second ∈ adjacentDeltas (adjacentDeltas numbers ++ [delta]),
        IntType.int64.InRange second) ∧
      ((scan.pushDelta delta).deltaOfDeltaOk = true →
        (scan.pushDelta delta).deltaOfDeltaBits =
          leastBits ((adjacentDeltas (adjacentDeltas numbers ++ [delta])).map zigzag)) := by
  have hbefore := h.previousDelta hok
  have hsecondOk := h.secondOk hok
  have hsecondBits := h.secondBits hok
  rw [NumericScan.pushDelta]
  cases hearlier : scan.previousDelta with
  | none =>
    -- There was no difference before this one.
    rw [hearlier, eq_comm, List.getLast?_eq_none_iff] at hbefore
    rw [hbefore] at hsecondOk hsecondBits ⊢
    exact ⟨hsecondOk, hsecondBits⟩
  | some earlier =>
    rw [adjacentDeltas_append (hbefore.symm.trans hearlier)]
    simp only [List.forall_mem_append, List.map_append, List.map_singleton, leastBits_append,
      List.forall_mem_singleton]
    by_cases hrange : IntType.int64.InRange (delta - earlier)
    · simp only [hrange, if_true, and_true]
      exact ⟨hsecondOk, fun hsecond ↦ by rw [hsecondBits hsecond]⟩
    · simp [hrange]

/-- **One more difference keeps what is known of the differences.** -/
theorem Differenced.push {numbers : List ℤ} {scan : NumericScan} (h : Differenced numbers scan)
    {last : ℤ} (value : ℤ) (hlast : numbers.getLast? = some last) :
    Differenced (numbers ++ [value]) (scan.pushDifference (value - last)) := by
  have hdeltas : adjacentDeltas (numbers ++ [value]) = adjacentDeltas numbers ++ [value - last] :=
    adjacentDeltas_append hlast
  by_cases hrange : IntType.int64.InRange (value - last)
  · rw [NumericScan.pushDifference, if_pos hrange]
    obtain ⟨hok, hprevious, hbits⟩ := pushDelta_first scan (value - last)
    refine ⟨?_, fun _ ↦ ?_, fun hdelta ↦ ?_, fun hdelta ↦ ?_, fun hdelta ↦ ?_⟩
    · rw [hok, h.deltaOk, hdeltas, List.forall_mem_append]
      simp [hrange]
    · rw [hprevious, hdeltas, List.getLast?_concat]
    · rw [hbits, hdeltas, List.map_append, List.map_singleton, leastBits_append,
        h.deltaBits (hok ▸ hdelta)]
    · rw [hdeltas]
      exact (h.pushDelta_second (hok ▸ hdelta) _).1
    · rw [hdeltas]
      exact (h.pushDelta_second (hok ▸ hdelta) _).2
  · rw [NumericScan.pushDifference, if_neg hrange]
    refine ⟨iff_of_false (by simp) fun hall ↦ hrange (hall _ ?_), ?_, ?_, ?_, ?_⟩
    · rw [hdeltas]
      simp
    all_goals
      intro hok
      cases hok

/-- What one pass has found out about the numbers it has seen. -/
structure Scanned (numbers : List ℤ) (scan : NumericScan) : Prop where
  minimum : IsLeast {value | value ∈ numbers} scan.minimum
  maximum : IsGreatest {value | value ∈ numbers} scan.maximum
  nonnegative : scan.nonnegative = true ↔ ∀ value ∈ numbers, 0 ≤ value
  valueBits : scan.nonnegative = true →
    scan.valueBits = (numbers.map bitWidthOf).foldl max 0
  previous : numbers.getLast? = some scan.previous
  differenced : Differenced numbers scan
  count : scan.count = numbers.length

theorem scanned_start (first : ℤ) : Scanned [first] (NumericScan.start first) where
  minimum := ⟨List.mem_singleton_self _, by simp [lowerBounds, NumericScan.start]⟩
  maximum := ⟨List.mem_singleton_self _, by simp [upperBounds, NumericScan.start]⟩
  nonnegative := by simp [NumericScan.start]
  valueBits := by simp [NumericScan.start]
  previous := rfl
  differenced :=
    ⟨by simp [NumericScan.start, adjacentDeltas], fun _ ↦ rfl, fun _ ↦ rfl,
      fun _ ↦ by simp [NumericScan.start, adjacentDeltas], fun _ _ ↦ rfl⟩
  count := rfl

/-- The part of a scan that its differences do not touch. -/
theorem pushDifference_keeps (scan : NumericScan) (difference : ℤ) :
    (scan.pushDifference difference).minimum = scan.minimum ∧
      (scan.pushDifference difference).maximum = scan.maximum ∧
        (scan.pushDifference difference).nonnegative = scan.nonnegative ∧
          (scan.pushDifference difference).valueBits = scan.valueBits ∧
            (scan.pushDifference difference).count = scan.count := by
  rw [NumericScan.pushDifference, NumericScan.pushDelta]
  split
  · split
    · exact ⟨rfl, rfl, rfl, rfl, rfl⟩
    · split <;> exact ⟨rfl, rfl, rfl, rfl, rfl⟩
  · exact ⟨rfl, rfl, rfl, rfl, rfl⟩

/-- **One more number keeps what the pass has found out.** -/
theorem Scanned.push {numbers : List ℤ} {scan : NumericScan} (h : Scanned numbers scan)
    (value : ℤ) : Scanned (numbers ++ [value]) (scan.push value) := by
  let nonnegative : Bool := decide (scan.nonnegative = true ∧ 0 ≤ value)
  let seen : NumericScan :=
    { scan with
      count := scan.count + 1
      minimum := min scan.minimum value
      maximum := max scan.maximum value
      nonnegative
      valueBits := if nonnegative then max scan.valueBits (bitWidthOf value) else scan.valueBits }
  have hpush : scan.push value =
      { seen.pushDifference (value - scan.previous) with previous := value } := rfl
  obtain ⟨hminimum, hmaximum, hflag, hbits, hcount⟩ :=
    pushDifference_keeps seen (value - scan.previous)
  obtain ⟨hdelta, hlast, hwidth, hsecond, hsecondWidth⟩ := h.differenced
  have hseen : Differenced numbers seen := ⟨hdelta, hlast, hwidth, hsecond, hsecondWidth⟩
  obtain ⟨hdelta, hlast, hwidth, hsecond, hsecondWidth⟩ := hseen.push value h.previous
  have hset : {other | other ∈ numbers ++ [value]} = insert value {other | other ∈ numbers} := by
    ext other
    simp [or_comm]
  rw [hpush]
  refine ⟨?_, ?_, ?_, ?_, by simp, ⟨hdelta, hlast, hwidth, hsecond, hsecondWidth⟩, ?_⟩
  · rw [hset]
    show IsLeast _ (seen.pushDifference _).minimum
    rw [hminimum]
    show IsLeast _ (min scan.minimum value)
    rw [min_comm]
    exact h.minimum.insert value
  · rw [hset]
    show IsGreatest _ (seen.pushDifference _).maximum
    rw [hmaximum]
    show IsGreatest _ (max scan.maximum value)
    rw [max_comm]
    exact h.maximum.insert value
  · show (seen.pushDifference _).nonnegative = true ↔ _
    rw [hflag]
    show decide (scan.nonnegative = true ∧ 0 ≤ value) = true ↔ _
    rw [decide_eq_true_eq, h.nonnegative, List.forall_mem_append, List.forall_mem_singleton]
  · show (seen.pushDifference _).nonnegative = true → (seen.pushDifference _).valueBits = _
    rw [hflag, hbits]
    intro hall
    obtain ⟨hbefore, -⟩ := of_decide_eq_true hall
    have hwidest : seen.valueBits = max scan.valueBits (bitWidthOf value) := if_pos hall
    rw [hwidest, h.valueBits hbefore, List.map_append, List.foldl_append]
    rfl
  · show (seen.pushDifference _).count = _
    rw [hcount, List.length_append]
    show scan.count + 1 = _
    rw [h.count]
    rfl

theorem scanned_foldl (first : ℤ) (rest : List ℤ) :
    Scanned (first :: rest) (rest.foldl NumericScan.push (NumericScan.start first)) := by
  have hfold : ∀ (rest seen : List ℤ) (scan : NumericScan), Scanned seen scan →
      Scanned (seen ++ rest) (rest.foldl NumericScan.push scan) := by
    intro rest
    induction rest with
    | nil =>
      intro seen scan h
      rwa [List.append_nil]
    | cons value rest ih =>
      intro seen scan h
      have hnext := ih (seen ++ [value]) (scan.push value) (h.push value)
      rwa [List.append_assoc, List.singleton_append] at hnext
  exact hfold rest [first] _ (scanned_start first)

/-- The differences to the least number reach from nothing to the span of the numbers. -/
theorem Scanned.isGreatest_span {numbers : List ℤ} {scan : NumericScan} (h : Scanned numbers scan) :
    IsGreatest {word | word ∈ numbers.map fun value ↦ (value - scan.minimum).toNat}
      (scan.maximum - scan.minimum).toNat := by
  refine ⟨List.mem_map.mpr ⟨scan.maximum, h.maximum.1, rfl⟩, fun word hword ↦ ?_⟩
  obtain ⟨value, hvalue, rfl⟩ := List.mem_map.mp hword
  have hle : value ≤ scan.maximum := h.maximum.2 hvalue
  exact Int.toNat_le_toNat (by omega)

/-- No two of the numbers are further apart than the least and the largest. -/
theorem Scanned.span_iff {numbers : List ℤ} {scan : NumericScan} (h : Scanned numbers scan) :
    (0 ≤ scan.maximum - scan.minimum ∧ scan.maximum - scan.minimum ≤ u64Max) ↔
      ∀ value ∈ numbers, ∀ other ∈ numbers, value - other < 2 ^ 64 := by
  have hmax : (u64Max : ℤ) = 2 ^ 64 - 1 := rfl
  constructor
  · rintro ⟨-, hspan⟩ value hvalue other hother
    have hhi : value ≤ scan.maximum := h.maximum.2 hvalue
    have hlo : scan.minimum ≤ other := h.minimum.2 hother
    omega
  · intro hall
    have hspan := hall _ h.maximum.1 _ h.minimum.1
    have hle : scan.minimum ≤ scan.maximum := h.minimum.2 h.maximum.1
    omega

/-- A width has room for every one of the numbers. -/
structure PacksIn (bits : ℕ) (numbers : List ℕ) : Prop where
  bits_le : bits ≤ 64
  lt : ∀ number ∈ numbers, number < 2 ^ bits

/-- **What the numeric profile of a column's numbers says**: each transform is offered exactly when
the numbers allow it, at the least width that has room for its words. -/
structure Profiled (numbers : List ℤ) (profile : NumericProfile) : Prop where
  minimum : IsLeast {value | value ∈ numbers} profile.minimum
  bitPacked : ∀ bits, profile.bitPackedBits = some bits ↔
    (∀ value ∈ numbers, 0 ≤ value) ∧ IsLeast (Widths (numbers.map Int.toNat)) bits
  frameOfReference : ∀ bits, profile.frameOfReferenceBits = some bits ↔
    (∀ value ∈ numbers, ∀ other ∈ numbers, value - other < 2 ^ 64) ∧
      IsLeast (Widths (numbers.map fun value ↦ (value - profile.minimum).toNat)) bits
  delta : ∀ bits, profile.deltaBits = some bits ↔
    (∀ delta ∈ adjacentDeltas numbers, IntType.int64.InRange delta) ∧
      IsLeast (Widths ((adjacentDeltas numbers).map zigzag)) bits
  deltaOfDelta : ∀ bits, profile.deltaOfDeltaBits = some bits ↔
    2 ≤ numbers.length ∧ (∀ delta ∈ adjacentDeltas numbers, IntType.int64.InRange delta) ∧
      (∀ second ∈ adjacentDeltas (adjacentDeltas numbers), IntType.int64.InRange second) ∧
        IsLeast (Widths ((adjacentDeltas (adjacentDeltas numbers)).map zigzag)) bits

/-- An offered width is the least one exactly when it is the width that is offered. -/
theorem ite_eq_some_iff {offered : Prop} [Decidable offered] {words : List ℕ} {width bits : ℕ}
    (h : offered → width = leastBits words) :
    (if offered then some width else none) = some bits ↔
      offered ∧ IsLeast (Widths words) bits := by
  rw [Option.ite_none_right_eq_some, Option.some.injEq]
  refine and_congr_right fun hoffered ↦ ?_
  rw [h hoffered]
  constructor
  · rintro rfl
    exact isLeast_leastBits words
  · exact (isLeast_leastBits words).unique

/-- **The profile says of each transform what the numbers allow.** -/
theorem Scanned.profiled {numbers : List ℤ} {scan : NumericScan} (h : Scanned numbers scan)
    (hle : ∀ value ∈ numbers, value ≤ u64Max) : Profiled numbers scan.finish := by
  have hdifferences := h.differenced
  refine ⟨h.minimum, fun bits ↦ ?_, fun bits ↦ ?_, fun bits ↦ ?_, fun bits ↦ ?_⟩
  · show (if scan.nonnegative = true then some scan.valueBits else none) = some bits ↔ _
    rw [← h.nonnegative]
    refine ite_eq_some_iff fun hnonneg ↦ ?_
    rw [h.valueBits hnonneg, leastBits, List.map_map]
    congr 1
    refine List.map_congr_left fun value hvalue ↦ ?_
    exact bitWidthOf_of_inRange (h.nonnegative.mp hnonneg value hvalue) (hle value hvalue)
  · show (if 0 ≤ scan.maximum - scan.minimum ∧ scan.maximum - scan.minimum ≤ u64Max
      then _ else none) =
      some bits ↔ _
    rw [← h.span_iff]
    exact ite_eq_some_iff fun _ ↦ leastBits_of_isGreatest h.isGreatest_span
  · show (if scan.deltaOk = true then some scan.deltaBits else none) = some bits ↔ _
    rw [← hdifferences.deltaOk]
    exact ite_eq_some_iff hdifferences.deltaBits
  · show (if scan.deltaOk = true ∧ scan.deltaOfDeltaOk = true ∧ 2 ≤ scan.count then
      some scan.deltaOfDeltaBits else none) = some bits ↔ _
    rw [ite_eq_some_iff fun hoffered ↦ hdifferences.secondBits hoffered.1 hoffered.2.1, h.count,
      ← hdifferences.deltaOk]
    constructor
    · rintro ⟨⟨hdelta, hsecond, hcount⟩, hleast⟩
      exact ⟨hcount, hdelta, (hdifferences.secondOk hdelta).mp hsecond, hleast⟩
    · rintro ⟨hcount, hdelta, hsecond, hleast⟩
      exact ⟨⟨hdelta, (hdifferences.secondOk hdelta).mpr hsecond, hcount⟩, hleast⟩

/-! ### The dictionary -/

/-- What a dictionary under construction holds of the keys it has seen. -/
structure Collected (keys : List Bytes) (builder : DictionaryBuilder) : Prop where
  lookups : builder.exceeded = false →
    builder.indices.map (builder.values[·]?) = keys.map some
  values_mem : ∀ value ∈ builder.values, value ∈ keys
  length_le : builder.values.length ≤ distinctValueLimit

theorem Collected.push {keys : List Bytes} {builder : DictionaryBuilder}
    (h : Collected keys builder) (key : Bytes) : Collected (keys ++ [key]) (builder.push key) := by
  have hmem : ∀ value ∈ builder.values, value ∈ keys ++ [key] :=
    fun value hvalue ↦ List.mem_append_left _ (h.values_mem value hvalue)
  cases hexceeded : builder.exceeded with
  | true =>
    rw [DictionaryBuilder.push, if_pos hexceeded]
    refine ⟨fun hok ↦ ?_, hmem, h.length_le⟩
    rw [hexceeded] at hok
    cases hok
  | false =>
    have hlookups := h.lookups hexceeded
    rw [DictionaryBuilder.push, if_neg (by simp [hexceeded])]
    cases hfound : builder.values.idxOf? key with
    | some index =>
      -- A key seen before is looked up where it was stored.
      have hindex : builder.values[index]? = some key := by
        obtain ⟨hlt, hget, -⟩ := List.idxOf?_eq_some_iff.mp hfound
        rw [List.getElem?_eq_getElem hlt, hget]
      refine ⟨fun _ ↦ ?_, hmem, h.length_le⟩
      simp only [List.map_append, List.map_singleton, hlookups, hindex]
    | none =>
      simp only
      split
      case isTrue =>
        refine ⟨fun hok ↦ ?_, by simp, Nat.zero_le _⟩
        cases hok
      case isFalse hroom =>
        obtain ⟨hcount, -⟩ := not_or.mp hroom
        refine ⟨fun _ ↦ ?_, ?_, ?_⟩
        · -- The indices stored so far point into the values as they were.
          have hold : builder.indices.map ((builder.values ++ [key])[·]?) =
              builder.indices.map (builder.values[·]?) := by
            refine List.map_congr_left fun index hindex ↦ ?_
            have hsome : builder.values[index]? ∈ keys.map some := by
              rw [← hlookups]
              exact List.mem_map_of_mem hindex
            obtain ⟨value, -, hvalue⟩ := List.mem_map.mp hsome
            have hlt : index < builder.values.length := by
              by_contra hge
              rw [List.getElem?_eq_none (by omega)] at hvalue
              cases hvalue
            exact List.getElem?_append_left hlt
          simp only [List.map_append, List.map_singleton, hold, hlookups]
          rw [List.getElem?_append_right le_rfl, Nat.sub_self]
          rfl
        · intro value hvalue
          rcases List.mem_append.mp hvalue with hvalue | hvalue
          · exact hmem value hvalue
          · exact List.mem_append_right _ hvalue
        · have hle := h.length_le
          simp only [List.length_append, List.length_singleton]
          omega

theorem collected_foldl (keys : List Bytes) :
    Collected keys (keys.foldl DictionaryBuilder.push {}) := by
  have hfold : ∀ (rest seen : List Bytes) (builder : DictionaryBuilder), Collected seen builder →
      Collected (seen ++ rest) (rest.foldl DictionaryBuilder.push builder) := by
    intro rest
    induction rest with
    | nil =>
      intro seen builder h
      rwa [List.append_nil]
    | cons key rest ih =>
      intro seen builder h
      have hnext := ih (seen ++ [key]) (builder.push key) (h.push key)
      rwa [List.append_assoc, List.singleton_append] at hnext
  exact hfold keys [] {} ⟨fun _ ↦ rfl, by simp, Nat.zero_le _⟩

/-- What a finished dictionary establishes of the keys it was built from. -/
structure Dictionary (keys : List Bytes) (dictionary : DictionaryProfile) : Prop where
  lookups : dictionary.indices.map (dictionary.values[·]?) = keys.map some
  values_mem : ∀ value ∈ dictionary.values, value ∈ keys
  length_le : dictionary.values.length ≤ distinctValueLimit
  packs : PacksIn (bitWidth (dictionary.values.length - 1)) dictionary.indices

/-- **The indices of a dictionary point at the keys they stand for.** -/
theorem dictionary_of_finish {keys : List Bytes} {dictionary : DictionaryProfile}
    (h : (keys.foldl DictionaryBuilder.push {}).finish = some dictionary) :
    Dictionary keys dictionary := by
  have hcollected := collected_foldl keys
  unfold DictionaryBuilder.finish at h
  split at h
  case isTrue => cases h
  case isFalse hexceeded =>
    cases h
    have hlookups := hcollected.lookups (by simpa using hexceeded)
    have hlength := hcollected.length_le
    refine ⟨hlookups, hcollected.values_mem, hlength, bitWidth_le ?_, fun index hindex ↦ ?_⟩
    · simp only [distinctValueLimit] at hlength ⊢
      omega
    · have hsome : (keys.foldl DictionaryBuilder.push {}).values[index]? ∈ keys.map some := by
        rw [← hlookups]
        exact List.mem_map_of_mem hindex
      obtain ⟨value, -, hvalue⟩ := List.mem_map.mp hsome
      have hlt : index < (keys.foldl DictionaryBuilder.push {}).values.length := by
        by_contra hge
        rw [List.getElem?_eq_none (by omega)] at hvalue
        cases hvalue
      refine Nat.lt_of_le_of_lt ?_ (lt_two_pow_bitWidth _)
      simp only
      omega

theorem Dictionary.length_indices {keys : List Bytes} {dictionary : DictionaryProfile}
    (h : Dictionary keys dictionary) : dictionary.indices.length = keys.length := by
  have hlength := congrArg List.length h.lookups
  simpa using hlength

/-! ### Runs -/

/-- **The first key of every run** of a list that its runs spell is the key of the run. -/
theorem runKeys_expand {runs : List (Bytes × ℕ)} (hpos : ∀ run ∈ runs, 0 < run.2)
    (hlength : ∀ run ∈ runs, run.1.length ≤ u32Max) :
    runKeys (Runs.expand runs) (runs.map Prod.snd) = .ok (runs.map Prod.fst) := by
  induction runs with
  | nil => rfl
  | cons run runs ih =>
    obtain ⟨key, length⟩ := run
    obtain ⟨hfirstPos, hpos⟩ := List.forall_mem_cons.mp hpos
    obtain ⟨hfirstLength, hlength⟩ := List.forall_mem_cons.mp hlength
    have hexpand : Runs.expand ((key, length) :: runs) =
        List.replicate length key ++ Runs.expand runs := rfl
    have hdrop : (Runs.expand ((key, length) :: runs)).drop length = Runs.expand runs := by
      rw [hexpand, List.drop_left' (by simp)]
    have hhead : (Runs.expand ((key, length) :: runs)).head? = some key := by
      obtain ⟨count, rfl⟩ : ∃ count, length = count + 1 :=
        ⟨length - 1, by simp only at hfirstPos; omega⟩
      rw [hexpand, List.replicate_succ, List.cons_append, List.head?_cons]
    rw [List.map_cons, runKeys, hhead, okOr, ok_bind, failIf_neg (Nat.not_lt.mpr hfirstLength),
      ok_bind, failIf_neg (Nat.ne_of_gt hfirstPos), ok_bind, hdrop, ih hpos hlength, ok_bind,
      pure_eq_ok, List.map_cons]

end Acta
