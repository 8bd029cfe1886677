import Acta.RoundTrip.Dense
import Acta.RoundTrip.Profile

/-!
# The numeric transforms

The integer-like types store every dense value as an integer of one width.  Their profile offers
each transform exactly when the numbers allow it (`Profiled`).  Where a transform is offered, its
encoder reaches none of its expectations (`expectedWords`), and the stream it makes is decoded into
the values it was made from.
-/

namespace Acta

open Machine Wire Candidates

/-! ### What the encoders expect -/

namespace Candidates

/-- A number as an unsigned 64-bit one, if it is one. -/
def toU64 (value : ℤ) : Option ℕ :=
  if 0 ≤ value ∧ value ≤ u64Max then some value.toNat else none

/-- A number as a signed 64-bit one, if it is one. -/
def toI64 (value : ℤ) : Option ℤ :=
  if IntType.int64.InRange value then some value else none

/-- The difference of two signed 128-bit numbers, held at the ends of their range. -/
def saturatingSub (value earlier : ℤ) : ℤ :=
  max (-2 ^ 127) (min (2 ^ 127 - 1) (value - earlier))

/-- Adjacent differences as the encoders walk them.  There are none where an expectation fails. -/
def expectedDeltas : List ℤ → Option (List ℤ)
  | first :: second :: rest => do
    let delta ← toI64 (saturatingSub second first)
    let deltas ← expectedDeltas (second :: rest)
    return delta :: deltas
  | _ => some []

/-- The words a numeric encoder packs, where `base` is the least of the numbers.  There are none
where an expectation of the encoder fails. -/
def expectedWords (base : ℤ) (numbers : List ℤ) : ValueEncoding → Option (List ℕ)
  | .bitPacked => numbers.mapM toU64
  | .frameOfReference => numbers.mapM fun value ↦ toU64 (saturatingSub value base)
  | .delta => (expectedDeltas numbers).map (·.map zigzag)
  | .deltaOfDelta => do
    let deltas ← expectedDeltas numbers
    (expectedDeltas deltas).map (·.map zigzag)
  | _ => some []

/-- The width the profile offers a numeric transform at. -/
def offeredBits (numeric : NumericProfile) : ValueEncoding → Option ℕ
  | .bitPacked => numeric.bitPackedBits
  | .frameOfReference => numeric.frameOfReferenceBits
  | .delta => numeric.deltaBits
  | .deltaOfDelta => numeric.deltaOfDeltaBits
  | _ => none

end Candidates

/-- Nothing saturates where the difference is a 128-bit number. -/
theorem saturatingSub_eq {value earlier : ℤ} (hlo : -2 ^ 127 ≤ value - earlier)
    (hhi : value - earlier < 2 ^ 127) : saturatingSub value earlier = value - earlier := by
  rw [saturatingSub, min_eq_right (by omega), max_eq_right hlo]

theorem mapM_eq_some {α β : Type} {expected : α → Option β} {word : α → β} {values : List α}
    (h : ∀ value ∈ values, expected value = some (word value)) :
    values.mapM expected = some (values.map word) := by
  induction values with
  | nil => rfl
  | cons value values ih =>
    obtain ⟨hvalue, hvalues⟩ := List.forall_mem_cons.mp h
    rw [List.mapM_cons, hvalue, ih hvalues]
    rfl

/-- **No difference of 65-bit numbers fails an expectation** where all of them are 64-bit ones. -/
theorem expectedDeltas_eq {numbers : List ℤ}
    (hbounds : ∀ number ∈ numbers, -(2 ^ 63) ≤ number ∧ number < 2 ^ 64)
    (hdeltas : ∀ delta ∈ adjacentDeltas numbers, IntType.int64.InRange delta) :
    expectedDeltas numbers = some (adjacentDeltas numbers) := by
  induction numbers with
  | nil => rfl
  | cons first rest ih =>
    cases rest with
    | nil => rfl
    | cons second rest =>
      obtain ⟨hfirst, hrest⟩ := List.forall_mem_cons.mp hbounds
      obtain ⟨hsecond, -⟩ := List.forall_mem_cons.mp hrest
      rw [adjacentDeltas] at hdeltas
      obtain ⟨hdelta, hdeltas⟩ := List.forall_mem_cons.mp hdeltas
      have hsub : saturatingSub second first = second - first :=
        saturatingSub_eq (by omega) (by omega)
      have hexpected : toI64 (second - first) = some (second - first) := if_pos hdelta
      rw [expectedDeltas, hsub, hexpected, ih hrest hdeltas]
      rfl

/-! ### The integer-like types -/

/-- A logical type whose dense values are stored integers. -/
inductive IntegerLike
  | integer (type : IntType)
  | decimal (precision : UInt16) (scale : Int16)
  | timestamp (unit : TimeUnit) (timezone : TimeZone)
  | date32

namespace IntegerLike

def logicalType : IntegerLike → LogicalType
  | integer type => .integer type
  | decimal precision scale => .decimal precision scale
  | timestamp unit timezone => .timestamp unit timezone
  | date32 => .date32

/-- The width and the signedness its values are stored in. -/
def type : IntegerLike → IntType
  | integer type => type
  | decimal _ _ | timestamp _ _ => .int64
  | date32 => .int32

/-- The array value an integer stands for. -/
def arrayValue : (like : IntegerLike) → like.type.Value → like.logicalType.arrayType.Value
  | integer _, value => value
  | decimal _ _, value => value
  | timestamp _ _, value => value
  | date32, value => value

/-- The dense values an encoder is given. -/
def dense (like : IntegerLike) (values : List like.type.Value) : List (Result ScalarValue) :=
  presentValues like.logicalType (values.map like.arrayValue)

/-- What the encoder prepares from integers. -/
def prepared (like : IntegerLike) (values : List like.type.Value) : PreparedValues :=
  .fixed like.type.width (some like.type.signed) (integerBytes values)

variable {like : IntegerLike} {values : List like.type.Value}

theorem pushValue_prepared (value : like.type.Value) :
    pushValue like.logicalType (like.prepared values)
        ⟨like.logicalType.arrayType, like.arrayValue value⟩ =
      .ok (like.prepared (values ++ [value])) := by
  have hstored : storedBytes ⟨like.logicalType.arrayType, like.arrayValue value⟩ =
      IntType.toLeBytes value := by
    cases like <;> rfl
  have hdeclared : hasDeclaredWidth like.logicalType
      ⟨like.logicalType.arrayType, like.arrayValue value⟩ = true := by
    cases like <;> rfl
  show (if like.logicalType.describes like.logicalType.arrayType then (do
    failIf (¬hasDeclaredWidth like.logicalType ⟨_, like.arrayValue value⟩) _
    return PreparedValues.fixed like.type.width (some like.type.signed)
      (integerBytes values ++ storedBytes ⟨_, like.arrayValue value⟩)) else _) = _
  rw [if_pos (describes_arrayType _), failIf_neg (not_not.mpr hdeclared), ok_bind, hstored,
    pure_eq_ok, prepared, integerBytes,
    integerBytes, List.flatMap_append, List.flatMap_singleton]

/-- **The encoder prepares every sequence of integers.** -/
theorem prepare_dense (like : IntegerLike) (values : List like.type.Value) :
    prepare like.logicalType (like.dense values) =
      .ok (like.prepared values, profile (like.prepared values)) := by
  have hstart : emptyValues like.logicalType = .ok (like.prepared []) := by
    cases like <;> rfl
  have hfold : ∀ rest seen : List like.type.Value,
      (like.dense rest).foldlM
          (fun prepared value ↦ do pushValue like.logicalType prepared (← value))
          (like.prepared seen) = .ok (like.prepared (seen ++ rest)) := by
    intro rest
    induction rest with
    | nil =>
      intro seen
      rw [List.append_nil]
      rfl
    | cons value rest ih =>
      intro seen
      have hrest := ih (seen ++ [value])
      rw [List.append_assoc, List.singleton_append] at hrest
      rw [dense, List.map_cons, presentValues, List.map_cons, List.foldlM_cons, ok_bind,
        pushValue_prepared, ok_bind]
      exact hrest
  rw [prepare, hstart, ok_bind, hfold values [], ok_bind, List.nil_append]
  rfl

theorem numbers_prepared : (like.prepared values).numbers = some (values.map Subtype.val) := by
  have hchunks : PreparedValues.chunksExact like.type.width (integerBytes values) =
      values.map IntType.toLeBytes :=
    chunksExact_flatMap like.type.width_pos fun value _ ↦ IntType.length_toLeBytes value
  rw [prepared, PreparedValues.numbers, hchunks, List.map_map]
  congr 1
  exact List.map_congr_left fun value _ ↦ readInteger_toLeBytes value

theorem count_prepared : (profile (like.prepared values)).count = values.length := by
  show (integerBytes values).length / like.type.width = values.length
  rw [length_integerBytes, Nat.mul_div_cancel _ like.type.width_pos]

/-- **The profile of at least one integer is the profile of the numbers.** -/
theorem exists_profiled (hne : values ≠ []) :
    ∃ numeric, (profile (like.prepared values)).numeric = some numeric ∧
      Profiled (values.map Subtype.val) numeric := by
  obtain ⟨first, rest, rfl⟩ := List.exists_cons_of_ne_nil hne
  refine ⟨_, ?_, (scanned_foldl first.val (rest.map Subtype.val)).profiled ?_⟩
  · show PreparedValues.numericProfile _ = _
    rw [PreparedValues.numericProfile, numbers_prepared]
    rfl
  · intro number hnumber
    rw [← List.map_cons (f := Subtype.val)] at hnumber
    obtain ⟨value, -, rfl⟩ := List.mem_map.mp hnumber
    have hmax : (u64Max : ℤ) = 2 ^ 64 - 1 := rfl
    have hbounds := value.property.bounds
    omega

/-! ### The streams -/

/-- What a numeric transform stores in front of its packed words. -/
def leadLength (width : ℕ) : ValueEncoding → ℕ
  | .frameOfReference | .delta => width
  | .deltaOfDelta => width + 8
  | _ => 0

/-- How many words a numeric transform packs. -/
def packedCount (count : ℕ) : ValueEncoding → ℕ
  | .delta => count - 1
  | .deltaOfDelta => count - 2
  | _ => count

/-- **A stream inverts**: its encoder reaches no failing expectation and packs the words it expects
behind a lead, at the least width that has room for them, and what it makes is decoded into the
values it was made from.  A delta stream of one value has no packed part. -/
structure Inverts (like : IntegerLike) (values : List like.type.Value) (base : ℤ)
    (encoding : ValueEncoding) (bits : ℕ) (stream : CandidateStream) : Prop where
  packed : ∃ lead words,
    expectedWords base (values.map Subtype.val) encoding = some words ∧
      IsLeast (Widths words) bits ∧ bits ≤ 64 ∧ lead.length = leadLength like.type.width encoding ∧
        words.length = packedCount values.length encoding ∧
          stream.bytes = lead ++ if encoding = .delta ∧ values.length = 1 then [] else
            UInt8.ofNat bits :: packBits (wordBits bits words)
  decodes : values.length ≤ u32Max → ∀ what,
    Transform.integer like.type stream.bytes values.length like.type.width like.type.signed
      stream.transform what = .ok values

/-- Every integer type is stored at a canonical width. -/
theorem width_mem (type : IntType) : ¬type.width ∉ Transform.canonicalIntegerWidths := by
  cases type <;> decide

section Streams

variable {numeric : NumericProfile} {bits : ℕ}

theorem number_bounds {number : ℤ} (h : number ∈ values.map Subtype.val) :
    -(2 ^ 63) ≤ number ∧ number < 2 ^ 64 := by
  obtain ⟨value, -, rfl⟩ := List.mem_map.mp h
  exact value.property.bounds

theorem bitPacked_inverts (hnumeric : (profile (like.prepared values)).numeric = some numeric)
    (h : Profiled (values.map Subtype.val) numeric) (hbits : numeric.bitPackedBits = some bits) :
    ∃ stream, encodeStreams (like.prepared values) (profile (like.prepared values)) .bitPacked =
        .ok [stream] ∧ Inverts like values numeric.minimum .bitPacked bits stream := by
  obtain ⟨hnonneg, hleast⟩ := (h.bitPacked bits).mp hbits
  have hmax : (u64Max : ℤ) = 2 ^ 64 - 1 := rfl
  have hwords : (values.map Subtype.val).mapM toU64 =
      some ((values.map Subtype.val).map Int.toNat) := by
    refine mapM_eq_some fun number hnumber ↦ if_pos ⟨hnonneg number hnumber, ?_⟩
    have hbounds := number_bounds hnumber
    omega
  have hwidth : bits ≤ 64 := by
    refine hleast.2 fun word hword ↦ ?_
    obtain ⟨number, hnumber, rfl⟩ := List.mem_map.mp hword
    have hbounds := number_bounds hnumber
    omega
  have hpacked : packFrom bits values.length ((values.map Subtype.val).map Int.toNat) = _ :=
    packFrom_of_length (by simp)
  refine ⟨valuesStream transformBitPacked values.length _, ?_,
    ⟨[], _, hwords, hleast, hwidth, rfl, by simp [packedCount], rfl⟩,
    fun hcount what ↦ ?_⟩
  · show (do
      let numbers ← okOr (like.prepared values).numbers _
      let width ← okOr ((profile (like.prepared values)).numeric.bind (·.bitPackedBits)) _
      let bytes ← packFrom width (profile (like.prepared values)).count (numbers.map Int.toNat)
      return [valuesStream transformBitPacked (profile (like.prepared values)).count bytes]) = _
    rw [numbers_prepared, hnumeric, Option.bind_some, hbits, count_prepared]
    simp only [okOr, ok_bind, hpacked, pure_eq_ok]
    rfl
  · show (do
      failIf (like.type.width ∉ Transform.canonicalIntegerWidths) _
      Transform.packedIntegers like.type _ values.length what) = _
    rw [failIf_neg (width_mem _), ok_bind, List.map_map]
    refine packedIntegers_packFrom hwidth hcount (fun value hvalue ↦ ?_)
      (fun value hvalue ↦ ?_) what
    · exact hnonneg _ (List.mem_map_of_mem hvalue)
    · exact hleast.1 _ (List.mem_map_of_mem (List.mem_map_of_mem hvalue))

/-- A number of an integer type is stored at its canonical width. -/
theorem exists_canonicalNumber {type : IntType} {number : ℤ} (h : type.InRange number) :
    ∃ stored, canonicalNumber number type.width type.signed = .ok stored := by
  have hbounds := h.bounds
  obtain ⟨hlo, hhi⟩ := h
  have hmax : (u64Max : ℤ) = 2 ^ 64 - 1 := rfl
  cases type with
  | int8 | int16 | int32 | int64 =>
    simp [IntType.lowest, IntType.limit, IntType.width, IntType.signed] at hlo hhi
    rw [canonicalNumber, IntType.signed, if_pos rfl, failIf_neg (by decide), ok_bind,
      failIf_neg (by simp [IntType.width]; omega), ok_bind]
    exact ⟨_, rfl⟩
  | uint8 | uint16 | uint32 | uint64 =>
    simp [IntType.lowest, IntType.limit, IntType.width, IntType.signed] at hlo hhi
    rw [canonicalNumber, IntType.signed, if_neg (by decide), failIf_neg (by omega), ok_bind]
    exact ⟨_, rfl⟩

theorem frameOfReference_inverts
    (hnumeric : (profile (like.prepared values)).numeric = some numeric) (hne : values ≠ [])
    (h : Profiled (values.map Subtype.val) numeric)
    (hbits : numeric.frameOfReferenceBits = some bits) :
    ∃ stream, encodeStreams (like.prepared values) (profile (like.prepared values))
        .frameOfReference = .ok [stream] ∧
      Inverts like values numeric.minimum .frameOfReference bits stream := by
  obtain ⟨hspan, hleast⟩ := (h.frameOfReference bits).mp hbits
  obtain ⟨hminimum, hlower⟩ := h.minimum
  have hmax : (u64Max : ℤ) = 2 ^ 64 - 1 := rfl
  have hdifference : ∀ number ∈ values.map Subtype.val,
      0 ≤ number - numeric.minimum ∧ number - numeric.minimum < 2 ^ 64 := fun number hnumber ↦
    ⟨Int.sub_nonneg_of_le (hlower hnumber), hspan number hnumber _ hminimum⟩
  have hwords : (values.map Subtype.val).mapM (fun value ↦ toU64 (saturatingSub value
      numeric.minimum)) = some ((values.map Subtype.val).map fun value ↦
        (value - numeric.minimum).toNat) := by
    refine mapM_eq_some fun number hnumber ↦ ?_
    obtain ⟨hlo, hhi⟩ := hdifference number hnumber
    rw [saturatingSub_eq (by omega) (by omega)]
    exact if_pos ⟨hlo, by omega⟩
  have hwidth : bits ≤ 64 := by
    refine hleast.2 fun word hword ↦ ?_
    obtain ⟨number, hnumber, rfl⟩ := List.mem_map.mp hword
    have hbounds := hdifference number hnumber
    omega
  have hbase : like.type.InRange numeric.minimum := by
    obtain ⟨value, -, hvalue⟩ := List.mem_map.mp hminimum
    exact hvalue ▸ value.property
  obtain ⟨stored, hstored⟩ := exists_canonicalNumber hbase
  have hpacked : packFrom bits values.length ((values.map Subtype.val).map
      fun value ↦ (value - numeric.minimum).toNat) = _ := packFrom_of_length (by simp)
  refine ⟨valuesStream transformFrameOfReference values.length _, ?_,
    ⟨stored, _, hwords, hleast, hwidth, (canonicalNumber_eq_ok hbase hstored).1,
      by simp [packedCount], rfl⟩, fun hcount what ↦ ?_⟩
  · show (do
      let numeric ← okOr (profile (like.prepared values)).numeric _
      let bits ← okOr numeric.frameOfReferenceBits _
      let numbers ← okOr (like.prepared values).numbers _
      let stored ← canonicalNumber numeric.minimum like.type.width like.type.signed
      let packed ← packFrom bits (profile (like.prepared values)).count
        (numbers.map fun value ↦ (value - numeric.minimum).toNat)
      return [valuesStream transformFrameOfReference (profile (like.prepared values)).count
        (stored ++ packed)]) = _
    simp only [numbers_prepared, hnumeric, hbits, count_prepared, okOr, ok_bind, hstored, hpacked,
      pure_eq_ok]
    rfl
  · show (do
      failIf (like.type.width ∉ Transform.canonicalIntegerWidths) _
      Transform.frameOfReference like.type _ values.length like.type.width like.type.signed
        what) = _
    rw [failIf_neg (width_mem _), ok_bind, List.map_map]
    refine frameOfReference_decodes hwidth hne hcount hbase hstored (fun value hvalue ↦ ?_)
      (fun value hvalue ↦ ?_) what
    · exact hlower (List.mem_map_of_mem hvalue)
    · exact hleast.1 _ (List.mem_map.mpr ⟨_, List.mem_map_of_mem hvalue, rfl⟩)

/-- The first value of the column is stored as it is. -/
theorem firstValue_prepared (first : like.type.Value) (rest : List like.type.Value) :
    firstValue (like.prepared (first :: rest)) like.type.width =
      .ok (IntType.toLeBytes first) := by
  have hlength : (IntType.toLeBytes first).length = like.type.width :=
    IntType.length_toLeBytes first
  show (do
    failIf ((integerBytes (first :: rest)).length < like.type.width) _
    return (integerBytes (first :: rest)).take like.type.width) = _
  rw [integerBytes, List.flatMap_cons, failIf_neg (by rw [List.length_append]; omega), ok_bind,
    List.take_left' hlength, pure_eq_ok]

/-- The codes of 64-bit differences are words of at most 64 bits. -/
theorem le_of_isLeast_zigzag {deltas : List ℤ}
    (hdeltas : ∀ delta ∈ deltas, IntType.int64.InRange delta)
    (h : IsLeast (Widths (deltas.map zigzag)) bits) : bits ≤ 64 := by
  refine h.2 fun word hword ↦ ?_
  obtain ⟨delta, hdelta, rfl⟩ := List.mem_map.mp hword
  exact zigzag_lt (hdeltas delta hdelta)

theorem delta_inverts (hnumeric : (profile (like.prepared values)).numeric = some numeric)
    (hne : values ≠ []) (h : Profiled (values.map Subtype.val) numeric)
    (hbits : numeric.deltaBits = some bits) :
    ∃ stream, encodeStreams (like.prepared values) (profile (like.prepared values)) .delta =
        .ok [stream] ∧ Inverts like values numeric.minimum .delta bits stream := by
  obtain ⟨hdeltas, hleast⟩ := (h.delta bits).mp hbits
  have hwords : (expectedDeltas (values.map Subtype.val)).map (·.map zigzag) =
      some ((adjacentDeltas (values.map Subtype.val)).map zigzag) := by
    rw [expectedDeltas_eq (fun number hnumber ↦ number_bounds hnumber) hdeltas]
    rfl
  have hwidth := le_of_isLeast_zigzag hdeltas hleast
  obtain ⟨first, rest, rfl⟩ := List.exists_cons_of_ne_nil hne
  have hencode : encodeStreams (like.prepared (first :: rest))
      (profile (like.prepared (first :: rest))) .delta = (do
        let bits ← okOr ((profile (like.prepared (first :: rest))).numeric.bind (·.deltaBits)) _
        let stored ← firstValue (like.prepared (first :: rest)) like.type.width
        if 1 < (profile (like.prepared (first :: rest))).count then
          let numbers ← okOr (like.prepared (first :: rest)).numbers _
          let packed ← packFrom bits ((profile (like.prepared (first :: rest))).count - 1)
            ((adjacentDeltas numbers).map zigzag)
          return [valuesStream transformDelta (profile (like.prepared (first :: rest))).count
            (stored ++ packed)]
        else
          return [valuesStream transformDelta (profile (like.prepared (first :: rest))).count
            stored]) := rfl
  rw [hencode, hnumeric, Option.bind_some, hbits, numbers_prepared, count_prepared]
  simp only [okOr, ok_bind, firstValue_prepared]
  by_cases hone : 1 < (first :: rest).length
  · have hpacked : packFrom bits ((first :: rest).length - 1)
        ((adjacentDeltas ((first :: rest).map Subtype.val)).map zigzag) = .ok _ :=
      packFrom_of_length (by simp)
    rw [if_pos hone, hpacked, ok_bind, pure_eq_ok]
    refine ⟨_, rfl, ⟨_, _, hwords, hleast, hwidth, IntType.length_toLeBytes first,
      by simp [packedCount], ?_⟩,
      fun hcount what ↦ ?_⟩
    · rw [if_neg fun hsingle ↦ absurd hsingle.2 (by omega)]
      rfl
    have hrest : rest ≠ [] := by
      rintro rfl
      exact absurd hone (by simp)
    show (do
      failIf (like.type.width ∉ Transform.canonicalIntegerWidths) _
      Transform.delta like.type _ (first :: rest).length like.type.width like.type.signed what) = _
    rw [failIf_neg (width_mem _), ok_bind]
    exact delta_decodes hwidth hrest hcount
      (fun delta hdelta ↦ hleast.1 _ (List.mem_map_of_mem hdelta)) what
  · -- One value has no differences, and nothing is packed.
    have hrest : rest = [] := List.eq_nil_of_length_eq_zero (by simpa using hone)
    subst hrest
    rw [if_neg hone, pure_eq_ok]
    refine ⟨_, rfl, ⟨_, _, hwords, hleast, hwidth, IntType.length_toLeBytes first,
      by simp [packedCount], ?_⟩,
      fun hcount what ↦ ?_⟩
    · exact (List.append_nil _).symm
    show (do
      failIf (like.type.width ∉ Transform.canonicalIntegerWidths) _
      Transform.delta like.type _ 1 like.type.width like.type.signed what) = _
    rw [failIf_neg (width_mem _), ok_bind]
    exact delta_decodes_single first what

theorem deltaOfDelta_inverts (hnumeric : (profile (like.prepared values)).numeric = some numeric)
    (h : Profiled (values.map Subtype.val) numeric)
    (hbits : numeric.deltaOfDeltaBits = some bits) :
    ∃ stream, encodeStreams (like.prepared values) (profile (like.prepared values))
        .deltaOfDelta = .ok [stream] ∧
      Inverts like values numeric.minimum .deltaOfDelta bits stream := by
  obtain ⟨htwo, hdeltas, hseconds, hleast⟩ := (h.deltaOfDelta bits).mp hbits
  obtain ⟨first, second, rest, rfl⟩ : ∃ first second rest, values = first :: second :: rest := by
    match values, htwo with
    | first :: second :: rest, _ => exact ⟨first, second, rest, rfl⟩
  have hwords : (do
      let deltas ← expectedDeltas ((first :: second :: rest).map Subtype.val)
      (expectedDeltas deltas).map (·.map zigzag)) =
        some ((adjacentDeltas
          (adjacentDeltas ((first :: second :: rest).map Subtype.val))).map zigzag) := by
    have hbounds : ∀ delta ∈ adjacentDeltas ((first :: second :: rest).map Subtype.val),
        -(2 ^ 63) ≤ delta ∧ delta < 2 ^ 64 := fun delta hdelta ↦ (hdeltas delta hdelta).bounds
    rw [expectedDeltas_eq (fun number hnumber ↦ number_bounds hnumber) hdeltas]
    show (expectedDeltas _).map _ = _
    rw [expectedDeltas_eq hbounds hseconds]
    rfl
  have hwidth := le_of_isLeast_zigzag hseconds hleast
  have hpacked : packFrom bits ((first :: second :: rest).length - 2) ((adjacentDeltas
      (adjacentDeltas ((first :: second :: rest).map Subtype.val))).map zigzag) = .ok _ :=
    packFrom_of_length (by simp)
  have hhead : (adjacentDeltas ((first :: second :: rest).map Subtype.val)).head? =
      some (second.val - first.val) := rfl
  refine ⟨valuesStream transformDeltaOfDelta (first :: second :: rest).length _, ?_,
    ⟨IntType.toLeBytes first ++ leBytes 8 (toTwos 64 (second.val - first.val)), _, hwords, hleast,
      hwidth,
      by simp [leadLength], by simp [packedCount], rfl⟩, fun hcount what ↦ ?_⟩
  · show (do
      let bits ← okOr ((profile (like.prepared (first :: second :: rest))).numeric.bind
        (·.deltaOfDeltaBits)) _
      let numbers ← okOr (like.prepared (first :: second :: rest)).numbers _
      let firstDelta ← okOr (adjacentDeltas numbers).head? _
      let stored ← firstValue (like.prepared (first :: second :: rest)) like.type.width
      let packed ← packFrom bits ((profile (like.prepared (first :: second :: rest))).count - 2)
        ((adjacentDeltas (adjacentDeltas numbers)).map zigzag)
      return [valuesStream transformDeltaOfDelta
        (profile (like.prepared (first :: second :: rest))).count
        (stored ++ leBytes 8 (toTwos 64 firstDelta) ++ packed)]) = _
    rw [hnumeric, Option.bind_some, hbits, numbers_prepared, count_prepared]
    simp only [okOr, ok_bind, hhead, firstValue_prepared, hpacked, pure_eq_ok]
    rfl
  · show (do
      failIf (like.type.width ∉ Transform.canonicalIntegerWidths) _
      Transform.deltaOfDelta like.type _ (first :: second :: rest).length like.type.width
        like.type.signed what) = _
    rw [failIf_neg (width_mem _), ok_bind]
    exact deltaOfDelta_decodes hwidth hcount hdeltas
      (fun second hsecond ↦ hleast.1 _ (List.mem_map_of_mem hsecond)) what

/-- **Whatever transform is offered inverts.** -/
theorem exists_inverts (hnumeric : (profile (like.prepared values)).numeric = some numeric)
    (hne : values ≠ []) (h : Profiled (values.map Subtype.val) numeric) {encoding : ValueEncoding}
    (hbits : offeredBits numeric encoding = some bits) :
    ∃ stream, encodeStreams (like.prepared values) (profile (like.prepared values)) encoding =
        .ok [stream] ∧ Inverts like values numeric.minimum encoding bits stream := by
  cases encoding with
  | bitPacked => exact bitPacked_inverts hnumeric h hbits
  | frameOfReference => exact frameOfReference_inverts hnumeric hne h hbits
  | delta => exact delta_inverts hnumeric hne h hbits
  | deltaOfDelta => exact deltaOfDelta_inverts hnumeric h hbits
  | _ => cases hbits

/-- What is offered is not refused. -/
theorem isValid_of_offered (hnumeric : (profile (like.prepared values)).numeric = some numeric)
    (hne : values ≠ []) {encoding : ValueEncoding}
    (hbits : offeredBits numeric encoding = some bits) :
    isValid encoding like.logicalType (like.prepared values) (profile (like.prepared values)) =
      true := by
  have hcount : (profile (like.prepared values)).count ≠ 0 := by
    rw [count_prepared]
    exact fun hzero ↦ hne (List.eq_nil_of_length_eq_zero hzero)
  refine (if_neg hcount).trans ?_
  cases encoding with
  | bitPacked | frameOfReference | delta | deltaOfDelta =>
    show (profile (like.prepared values)).numeric.any _ = true
    rw [hnumeric, Option.any_some]
    exact Option.isSome_iff_exists.mpr ⟨bits, hbits⟩
  | _ => cases hbits

end Streams

/-- **The numeric transforms are offered exactly when the numbers allow them, at the least width,
and invert.**  Of every nonempty sequence of integers the profile offers each transform as
`Profiled` says, and where it offers one, the encoder makes one stream of the plain layout that
`Inverts`. -/
theorem transforms_invert (like : IntegerLike) (values : List like.type.Value) (hne : values ≠ []) :
    ∃ prepared profiled numeric,
      prepare like.logicalType (like.dense values) = .ok (prepared, profiled) ∧
        profiled.numeric = some numeric ∧ Profiled (values.map Subtype.val) numeric ∧
          ∀ encoding bits, offeredBits numeric encoding = some bits →
            ∃ stream, encode like.logicalType prepared profiled encoding =
                .ok { layout := columnLayoutPlain, streams := [stream] } ∧
              Inverts like values numeric.minimum encoding bits stream := by
  obtain ⟨numeric, hnumeric, hprofiled⟩ := exists_profiled hne
  refine ⟨_, _, numeric, prepare_dense like values, hnumeric, hprofiled, fun encoding bits hbits ↦
    ?_⟩
  obtain ⟨stream, hstream, hinverts⟩ := exists_inverts hnumeric hne hprofiled hbits
  have hvalid := isValid_of_offered hnumeric hne hbits
  have hlayout : layoutOf encoding = columnLayoutPlain := by
    cases encoding with
    | bitPacked | frameOfReference | delta | deltaOfDelta => rfl
    | _ => cases hbits
  refine ⟨stream, ?_, hinverts⟩
  rw [encode, failIf_neg (not_not.mpr hvalid), ok_bind, hstream, ok_bind, hlayout, pure_eq_ok]

/-- The two ends of the signed 64-bit integers, which no 64-bit difference leads between. -/
def ends : List IntType.int64.Value :=
  [⟨-2 ^ 63, by decide⟩, ⟨2 ^ 63 - 1, by decide⟩]

theorem transforms_invert_ends :
    ∃ prepared profiled numeric,
      prepare (.integer .int64) (dense (.integer .int64) ends) = .ok (prepared, profiled) ∧
        profiled.numeric = some numeric ∧ Profiled [-2 ^ 63, 2 ^ 63 - 1] numeric ∧
          ∀ encoding bits, offeredBits numeric encoding = some bits →
            ∃ stream, encode (.integer .int64) prepared profiled encoding =
                .ok { layout := columnLayoutPlain, streams := [stream] } ∧
              Inverts (.integer .int64) ends numeric.minimum encoding bits stream :=
  transforms_invert (.integer .int64) ends (List.cons_ne_nil _ _)

end IntegerLike

end Acta
