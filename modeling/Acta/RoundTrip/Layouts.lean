import Acta.RoundTrip.Booleans
import Acta.RoundTrip.Dictionary
import Acta.RoundTrip.Estimates
import Acta.RoundTrip.RawColumn
import Acta.RoundTrip.Values

/-!
# The layouts of a column

Each layout stores some values once, and says how the dense values of the column are made of them
(`Stands`).  Whatever encoding is chosen for a column, its streams stand for the dense values they
were made from, in the layout of the encoding (`stands_of_encode`).
-/

namespace Acta

open Machine Wire Candidates BlockDecoder

/-! ### Streams that hold values -/

/-- The lengths stream beside values that vary in width. -/
def lengthsBeside (logicalType : LogicalType) (kind : ℕ)
    (values : List logicalType.storedType.Value) : List CandidateStream :=
  if Write.isVariableWidth logicalType then
    [{ kind, transform := transformRaw, elementCount := values.length,
       bytes := lengthBytes ((keysOf logicalType values).map List.length) }]
  else
    []

/-- The candidates hold values: a stream of them, and their lengths beside it where they vary in
width. -/
structure Held (logicalType : LogicalType) (valuesKind lengthsKind : ℕ)
    (values : List logicalType.storedType.Value) (candidates : List CandidateStream)
    (candidate : CandidateStream) : Prop where
  kind : candidate.kind = valuesKind
  elementCount : candidate.elementCount = values.length
  represents : Represents logicalType values candidate
  streams : candidates = candidate :: lengthsBeside logicalType lengthsKind values

section Represents

variable {logicalType : LogicalType} {values : List logicalType.storedType.Value}

theorem integer_raw {type : IntType} (values : List type.Value) (hcount : values.length ≤ u32Max)
    (what : String) :
    Transform.integer type (values.flatMap IntType.toLeBytes) values.length type.width type.signed
      transformRaw what = .ok values := by
  show (do
    failIf (type.width ∉ Transform.canonicalIntegerWidths) _
    Transform.rawIntegers type _ values.length type.width type.signed what) = _
  rw [failIf_neg (IntegerLike.width_mem _), ok_bind]
  exact rawIntegers_integerBytes values hcount what

/-- **Canonical bytes represent the values** they are the bytes of. -/
theorem represents_raw {stream : CandidateStream} (hbool : logicalType ≠ .bool)
    (hcount : values.length ≤ u32Max) (htransform : stream.transform = transformRaw)
    (hbytes : stream.bytes = values.flatMap logicalType.storedType.key) :
    Represents logicalType values stream := by
  cases logicalType with
  | bool => exact absurd rfl hbool
  | integer type =>
    intro what
    rw [htransform, hbytes]
    exact integer_raw values hcount what
  | date32 =>
    intro what
    rw [htransform, hbytes]
    exact @integer_raw .int32 values hcount what
  | decimal _ _ | timestamp _ _ =>
    intro what
    rw [htransform, hbytes]
    exact @integer_raw .int64 values hcount what
  | float32 | float64 | fixedBinary _ => exact .inl ⟨htransform, hbytes⟩
  | utf8 | categorical _ | binary => exact ⟨htransform, hbytes⟩

/-- Whether a type varies in width shows in what is prepared of its values. -/
theorem byteStringStreams_prepared (kind lengthsKind : ℕ)
    {chosen : List logicalType.storedType.Value} :
    byteStringStreams (logicalType.prepared values) kind lengthsKind (keysOf logicalType chosen) =
      { kind, transform := transformRaw, elementCount := chosen.length,
        bytes := chosen.flatMap logicalType.storedType.key } ::
        lengthsBeside logicalType lengthsKind chosen := by
  have hflatten : (keysOf logicalType chosen).flatten =
      chosen.flatMap logicalType.storedType.key := List.flatMap_def.symm
  rw [byteStringStreams.eq_def, length_keysOf, hflatten, lengthsBeside]
  cases logicalType <;> rfl

/-- **Byte strings hold the values** whose keys they are. -/
theorem held_byteStringStreams (hbool : logicalType ≠ .bool) (kind lengthsKind : ℕ)
    {chosen : List logicalType.storedType.Value} (hcount : chosen.length ≤ u32Max) :
    ∃ candidate, Held logicalType kind lengthsKind chosen (byteStringStreams
      (logicalType.prepared values) kind lengthsKind (keysOf logicalType chosen)) candidate :=
  ⟨_, rfl, rfl, represents_raw hbool hcount rfl rfl, byteStringStreams_prepared kind lengthsKind⟩

end Represents

/-! ### Encodings of the plain layout -/

section Plain

variable {logicalType : LogicalType} {values : List logicalType.storedType.Value}
  {candidates : List CandidateStream}

/-- The encodings a profile offers for numbers. -/
def IsNumeric (encoding : ValueEncoding) : Prop :=
  encoding = .bitPacked ∨ encoding = .frameOfReference ∨ encoding = .delta ∨
    encoding = .deltaOfDelta

/-- A numeric encoder makes one stream, at a width that the profile offers. -/
theorem numeric_streams {like : IntegerLike} {values : List like.type.Value}
    {numeric : NumericProfile} {encoding : ValueEncoding} (hencoding : IsNumeric encoding)
    (hnumeric : (profile (like.prepared values)).numeric = some numeric)
    (h : encodeStreams (like.prepared values) (profile (like.prepared values)) encoding =
      .ok candidates) :
    ∃ bits transform bytes, offeredBits numeric encoding = some bits ∧
      candidates = [valuesStream transform values.length bytes] := by
  have hcount : (profile (like.prepared values)).count = values.length :=
    IntegerLike.count_prepared
  rcases hencoding with rfl | rfl | rfl | rfl
  · obtain ⟨numbers, -, h⟩ := bind_eq_ok.mp h
    obtain ⟨bits, hbits, h⟩ := bind_eq_ok.mp h
    obtain ⟨bytes, -, h⟩ := bind_eq_ok.mp h
    rw [okOr_eq_ok, hnumeric] at hbits
    rw [hcount] at h
    cases h
    exact ⟨bits, _, _, hbits, rfl⟩
  · obtain ⟨signed, -, h⟩ := bind_eq_ok.mp h
    obtain ⟨other, hother, h⟩ := bind_eq_ok.mp h
    obtain ⟨bits, hbits, h⟩ := bind_eq_ok.mp h
    obtain ⟨numbers, -, h⟩ := bind_eq_ok.mp h
    obtain ⟨stored, -, h⟩ := bind_eq_ok.mp h
    obtain ⟨packed, -, h⟩ := bind_eq_ok.mp h
    rw [hcount, pure_eq_ok, Except.ok.injEq] at h
    subst h
    rw [okOr_eq_ok, hnumeric] at hother
    cases hother
    rw [okOr_eq_ok] at hbits
    exact ⟨bits, _, _, hbits, rfl⟩
  · obtain ⟨bits, hbits, h⟩ := bind_eq_ok.mp h
    obtain ⟨first, -, h⟩ := bind_eq_ok.mp h
    rw [okOr_eq_ok, hnumeric] at hbits
    rw [hcount] at h
    split at h
    · obtain ⟨numbers, -, h⟩ := bind_eq_ok.mp h
      obtain ⟨packed, -, h⟩ := bind_eq_ok.mp h
      cases h
      exact ⟨bits, _, _, hbits, rfl⟩
    · cases h
      exact ⟨bits, _, _, hbits, rfl⟩
  · obtain ⟨bits, hbits, h⟩ := bind_eq_ok.mp h
    obtain ⟨numbers, -, h⟩ := bind_eq_ok.mp h
    obtain ⟨firstDelta, -, h⟩ := bind_eq_ok.mp h
    obtain ⟨first, -, h⟩ := bind_eq_ok.mp h
    obtain ⟨packed, -, h⟩ := bind_eq_ok.mp h
    rw [okOr_eq_ok, hnumeric] at hbits
    rw [hcount] at h
    cases h
    exact ⟨bits, _, _, hbits, rfl⟩

/-- What is decoded into integers represents the values of a type that stores integers. -/
theorem represents_integers {like : IntegerLike}
    {values : List like.logicalType.storedType.Value} {numbers : List like.type.Value}
    (hsame : HEq values numbers) {stream : CandidateStream}
    (h : ∀ what, Transform.integer like.type stream.bytes numbers.length like.type.width
      like.type.signed stream.transform what = .ok numbers) :
    Represents like.logicalType values stream := by
  cases like <;> cases hsame <;> exact h

theorem held_numeric {like : IntegerLike} {values : List like.logicalType.storedType.Value}
    {encoding : ValueEncoding} (hencoding : IsNumeric encoding) (hne : values ≠ [])
    (hcount : values.length ≤ u32Max)
    (h : encodeStreams (like.logicalType.prepared values)
      (profile (like.logicalType.prepared values)) encoding = .ok candidates) :
    ∃ candidate, Held like.logicalType streamKindValues streamKindLengths values candidates
      candidate := by
  -- The stored integers of the type are its dense values.
  obtain ⟨numbers, hsame⟩ : ∃ numbers : List like.type.Value, HEq values numbers := by
    cases like <;> exact ⟨values, HEq.rfl⟩
  have hprepared : like.logicalType.prepared values = like.prepared numbers := by
    cases like <;> cases hsame <;> rfl
  have hlength : values.length = numbers.length := by
    cases like <;> cases hsame <;> rfl
  have hnumbers : numbers ≠ [] := by
    rintro rfl
    exact hne (List.eq_nil_of_length_eq_zero hlength)
  have hvariable : Write.isVariableWidth like.logicalType = false := by
    cases like <;> rfl
  rw [hprepared] at h
  obtain ⟨numeric, hnumeric, hprofiled⟩ := IntegerLike.exists_profiled hnumbers
  obtain ⟨bits, transform, bytes, hbits, rfl⟩ := numeric_streams hencoding hnumeric h
  obtain ⟨stream, hstream, hinverts⟩ := IntegerLike.exists_inverts hnumeric hnumbers hprofiled hbits
  rw [h] at hstream
  cases hstream
  refine ⟨_, rfl, hlength.symm, represents_integers hsame
    (hinverts.decodes (hlength ▸ hcount)), ?_⟩
  rw [lengthsBeside, hvariable]
  rfl

theorem truth_bool (values : List Bool) : values.map StoredType.bool.truth = values :=
  List.map_id values

/-- **The raw encoding holds the values.** -/
theorem held_rawStreams (hfit : FitBlock logicalType values) :
    ∃ candidate, Held logicalType streamKindValues streamKindLengths values
      (rawStreams (logicalType.prepared values)) candidate := by
  have hcount : values.length ≤ u32Max := hfit.rows.trans (by decide)
  have hprepared := count_prepared hfit.hasWidth hfit.keys
  cases hshape : logicalType.shape with
  | bits =>
    cases logicalType with
    | bool =>
      refine ⟨valuesStream transformRaw values.length (packBits values), rfl, rfl, fun what ↦ ?_,
        ?_⟩
      · refine rawBooleans_packBits ?_ what
        simp only [u32Max] at hcount
        simp only [u64Max]
        omega
      · show [valuesStream transformRaw (values.map StoredType.bool.truth).length
          (packBits (values.map StoredType.bool.truth))] = _
        rw [truth_bool]
        rfl
    | _ => cases hshape
  | fixed width signed =>
    have hbool : logicalType ≠ .bool := by
      rintro rfl
      cases hshape
    have hvariable : ¬Write.isVariableWidth logicalType = true := by
      rw [Write.isVariableWidth_iff, hshape]
      exact LogicalType.Shape.noConfusion
    rw [LogicalType.prepared, hshape] at hprepared ⊢
    refine ⟨valuesStream transformRaw values.length (values.flatMap logicalType.storedType.key),
      rfl, rfl, represents_raw hbool hcount rfl rfl, ?_⟩
    rw [lengthsBeside, if_neg hvariable]
    show [valuesStream transformRaw (_ / width) _] = _
    rw [show (values.flatMap logicalType.storedType.key).length / width = values.length
      from hprepared]
  | variableWidth =>
    have hbool : logicalType ≠ .bool := by
      rintro rfl
      cases hshape
    rw [LogicalType.prepared, hshape]
    refine ⟨valuesStream transformRaw values.length (values.flatMap logicalType.storedType.key),
      rfl, rfl, represents_raw hbool hcount rfl rfl, ?_⟩
    rw [lengthsBeside, if_pos ((Write.isVariableWidth_iff _).mpr hshape), keysOf, List.map_map]
    show [valuesStream transformRaw (values.map _).length _,
      { kind := streamKindLengths, transform := transformRaw,
        elementCount := (values.map _).length, bytes := _ }] = _
    rw [List.length_map]
    rfl

theorem held_bitPacked_bool {values : List Bool} (hcount : values.length ≤ u32Max)
    (h : encodeStreams (LogicalType.bool.prepared values) (profile (LogicalType.bool.prepared
      values)) .bitPacked = .ok candidates) :
    ∃ candidate, Held .bool streamKindValues streamKindLengths values candidates candidate := by
  obtain ⟨bytes, hbytes, h⟩ := bind_eq_ok.mp h
  cases h
  have htruth : values.map StoredType.bool.truth = values := truth_bool values
  rw [htruth] at hbytes
  obtain ⟨-, rfl⟩ := packFrom_eq_ok hbytes
  have hbit : (values.any id).toNat ≤ 1 := Bool.toNat_le _
  have hsmall : values.length * (values.any id).toNat ≤ values.length * 1 :=
    Nat.mul_le_mul_left _ hbit
  refine ⟨_, rfl, congrArg List.length htruth, fun what ↦ ?_, rfl⟩
  refine packedBooleans_packFrom (hbit.trans (by decide)) ?_ (fun value hvalue ↦ ?_) what
  · simp only [u32Max] at hcount
    simp only [u64Max]
    omega
  · -- A flag that holds makes the width one.
    cases value with
    | false => exact Nat.two_pow_pos _
    | true =>
      rw [List.any_eq_true.mpr ⟨true, hvalue, rfl⟩]
      decide

/-- What the writer lays out as boolean runs is read back. -/
theorem booleans_booleanRle {values : List Bool} {bytes : Bytes} (hcount : values.length ≤ u32Max)
    (h : Candidates.booleanRle values = .ok bytes) (what : String) :
    Transform.booleans bytes values.length transformBooleanRle what = .ok values := by
  have hroom : values.length ≤ u64Max := hcount.trans (by decide)
  obtain ⟨made, packed, hmade, hruns⟩ :=
    booleanRuns_runs hroom ((Runs.runs_bounds values).1.trans hcount)
  rw [h] at hmade
  cases hmade
  refine (booleanRle_eq_ok hroom).mpr ⟨_, _, _, hruns, ?_⟩
  rw [storedRuns_packBits, Runs.expand_runs]

theorem held_booleanRle {values : List Bool} (hcount : values.length ≤ u32Max)
    (h : encodeStreams (LogicalType.bool.prepared values) (profile (LogicalType.bool.prepared
      values)) .booleanRle = .ok candidates) :
    ∃ candidate, Held .bool streamKindValues streamKindLengths values candidates candidate := by
  obtain ⟨bytes, hbytes, h⟩ := bind_eq_ok.mp h
  cases h
  have htruth : values.map StoredType.bool.truth = values := truth_bool values
  rw [htruth] at hbytes
  refine ⟨_, rfl, congrArg List.length htruth, fun what ↦ ?_, rfl⟩
  exact booleans_booleanRle hcount hbytes what

/-- Values of one width, split into their byte streams, are put together again. -/
theorem holdsCanonical_byteStreamSplit {width : ℕ} {canonical : Bytes} {count : ℕ}
    (hcount : count ≤ u32Max) (hwidth : width ≤ u32Max) (hlength : canonical.length = count * width)
    (hpos : 0 < width)
    (h : encodeStreams (.fixed width none canonical) (profile (.fixed width none canonical))
      .byteStreamSplit = .ok candidates) :
    ∃ bytes, candidates = [valuesStream transformByteStreamSplit count bytes] ∧
      HoldsCanonical (valuesStream transformByteStreamSplit count bytes) canonical count width := by
  cases h
  rw [hlength, Nat.mul_div_cancel _ hpos]
  exact ⟨_, rfl, .inr ⟨rfl, byteStreamSplit_decodes hcount hwidth hlength⟩⟩

theorem held_byteStreamSplit (hfit : FitBlock logicalType values)
    (hsupports : supports logicalType .byteStreamSplit = true)
    (h : encodeStreams (logicalType.prepared values) (profile (logicalType.prepared values))
      .byteStreamSplit = .ok candidates) :
    ∃ candidate, Held logicalType streamKindValues streamKindLengths values candidates
      candidate := by
  have hcount : values.length ≤ u32Max := hfit.rows.trans (by decide)
  cases logicalType with
  | float32 =>
    obtain ⟨bytes, rfl, hholds⟩ := holdsCanonical_byteStreamSplit hcount (by decide)
      (length_flatMap_of_forall fun _ _ ↦ length_leBytes 4 _) (by decide) h
    exact ⟨_, rfl, rfl, hholds, rfl⟩
  | float64 =>
    obtain ⟨bytes, rfl, hholds⟩ := holdsCanonical_byteStreamSplit hcount (by decide)
      (length_flatMap_of_forall fun _ _ ↦ length_leBytes 8 _) (by decide) h
    exact ⟨_, rfl, rfl, hholds, rfl⟩
  | fixedBinary byteWidth =>
    have hwidth : byteWidth.toNat ≤ u32Max := by
      have hlt := byteWidth.toNat_lt
      simp only [u32Max]
      omega
    obtain ⟨bytes, rfl, hholds⟩ := holdsCanonical_byteStreamSplit hcount hwidth
      (length_flatMap_of_forall hfit.keys) (hfit.hasWidth.pos rfl) h
    exact ⟨_, rfl, rfl, hholds, rfl⟩
  | _ => cases hsupports

/-- Only types that store integers are offered these. -/
theorem exists_integerLike {encoding : ValueEncoding} (hencoding : IsNumeric encoding)
    (hsupports : supports logicalType encoding = true) (hbool : logicalType ≠ .bool) :
    ∃ like : IntegerLike, like.logicalType = logicalType := by
  cases logicalType with
  | integer type => exact ⟨.integer type, rfl⟩
  | decimal precision scale => exact ⟨.decimal precision scale, rfl⟩
  | timestamp unit timezone => exact ⟨.timestamp unit timezone, rfl⟩
  | date32 => exact ⟨.date32, rfl⟩
  | bool => exact absurd rfl hbool
  | _ => rcases hencoding with rfl | rfl | rfl | rfl <;> cases hsupports

/-- **An encoding of the plain layout holds the values** it was given. -/
theorem exists_held_of_plain (hfit : FitBlock logicalType values) (hne : values ≠ [])
    {encoding : ValueEncoding} (hsupports : supports logicalType encoding = true)
    (hplain : layoutOf encoding = columnLayoutPlain)
    (h : encodeStreams (logicalType.prepared values) (profile (logicalType.prepared values))
      encoding = .ok candidates) :
    ∃ candidate, Held logicalType streamKindValues streamKindLengths values candidates
      candidate := by
  have hcount : values.length ≤ u32Max := hfit.rows.trans (by decide)
  have hnumeric (hencoding : IsNumeric encoding) (hbool : logicalType ≠ .bool) :
      ∃ candidate, Held logicalType streamKindValues streamKindLengths values candidates
        candidate := by
    obtain ⟨like, rfl⟩ := exists_integerLike hencoding hsupports hbool
    exact held_numeric hencoding hne hcount h
  cases encoding with
  | raw =>
    cases h
    exact held_rawStreams hfit
  | bitPacked =>
    by_cases hbool : logicalType = .bool
    · subst hbool
      exact held_bitPacked_bool hcount h
    · exact hnumeric (.inl rfl) hbool
  | booleanRle =>
    cases logicalType with
    | bool => exact held_booleanRle hcount h
    | _ => cases hsupports
  | frameOfReference =>
    refine hnumeric (.inr (.inl rfl)) ?_
    rintro rfl
    cases hsupports
  | delta =>
    refine hnumeric (.inr (.inr (.inl rfl))) ?_
    rintro rfl
    cases hsupports
  | deltaOfDelta =>
    refine hnumeric (.inr (.inr (.inr rfl))) ?_
    rintro rfl
    cases hsupports
  | byteStreamSplit => exact held_byteStreamSplit hfit hsupports h
  | constant | dictionary | runLength => cases hplain

end Plain

/-! ### What a layout stands for -/

/-- Numbers packed beside the values of a layout. -/
def packedBeside (kind width : ℕ) (numbers : List ℕ) : CandidateStream where
  kind := kind
  transform := transformBitPacked
  elementCount := numbers.length
  bytes := UInt8.ofNat width :: packBits (wordBits width numbers)

/-- **The streams of a layout stand for dense values.** -/
inductive Stands (logicalType : LogicalType) (values : List logicalType.storedType.Value) :
    ℕ → List CandidateStream → Prop
  /-- Every value is stored. -/
  | plain {candidates : List CandidateStream} {candidate : CandidateStream}
      (held : Held logicalType streamKindValues streamKindLengths values candidates candidate) :
      Stands logicalType values columnLayoutPlain candidates
  /-- One value stands for all of them. -/
  | constant {candidates : List CandidateStream} {candidate : CandidateStream}
      {value : logicalType.storedType.Value}
      (same : values = List.replicate values.length value)
      (held : Held logicalType streamKindValues streamKindLengths [value] candidates candidate) :
      Stands logicalType values columnLayoutConstant candidates
  /-- Each value is looked up among the values of a dictionary. -/
  | dictionary {candidates : List CandidateStream} {candidate : CandidateStream}
      {chosen : List logicalType.storedType.Value} {indices : List ℕ} {width : ℕ}
      (lookups : indices.map (chosen[·]?) = values.map some)
      (used : ∀ value ∈ chosen, value ∈ values)
      (length_le : chosen.length ≤ distinctValueLimit)
      (bytes_le : (chosen.flatMap logicalType.storedType.key).length ≤ distinctByteLimit)
      (packs : PacksIn width indices)
      (held : Held logicalType streamKindDictionaryValues streamKindDictionaryLengths chosen
        candidates candidate) :
      Stands logicalType values columnLayoutDictionary
        (candidates ++ [packedBeside streamKindIndices width indices])
  /-- Each value is one of a run of equal values. -/
  | runLength {candidates : List CandidateStream} {candidate : CandidateStream}
      {chosen : List logicalType.storedType.Value} {lengths : List ℕ} {width : ℕ}
      (expands : Runs.expand (chosen.zip lengths) = values)
      (positive : ∀ length ∈ lengths, 0 < length) (length_eq : chosen.length = lengths.length)
      (packs : PacksIn width lengths)
      (held : Held logicalType streamKindRunValues streamKindLengths chosen candidates
        candidate) :
      Stands logicalType values columnLayoutRunLength
        (candidates ++ [packedBeside streamKindRunLengths width lengths])

section Stands

variable {logicalType : LogicalType} {values : List logicalType.storedType.Value}
  {candidates : List CandidateStream}

/-- The kinds of the streams that hold values. -/
theorem Held.map_kind {valuesKind lengthsKind : ℕ} {candidate : CandidateStream}
    (h : Held logicalType valuesKind lengthsKind values candidates candidate) :
    candidates.map (·.kind) =
      valuesKind :: if Write.isVariableWidth logicalType then [lengthsKind] else [] := by
  rw [h.streams, List.map_cons, h.kind, lengthsBeside]
  split <;> rfl

theorem map_kind_packed (part : List CandidateStream) (kind width : ℕ) (numbers : List ℕ) :
    (part ++ [packedBeside kind width numbers]).map (·.kind) = part.map (·.kind) ++ [kind] :=
  List.map_append

/-- The streams of a layout are of kinds that belong to it, and each of another kind. -/
theorem Stands.kinds {layout : ℕ} (h : Stands logicalType values layout candidates) :
    (streamKindValidity :: candidates.map (·.kind)).Nodup ∧
      ∀ kind ∈ candidates.map (·.kind), kind ∈ (Read.allowedKinds layout).tail := by
  cases h with
  | plain held | constant _ held =>
    rw [held.map_kind]
    cases Write.isVariableWidth logicalType <;> decide
  | dictionary _ _ _ _ _ held | runLength _ _ _ _ held =>
    rw [map_kind_packed, held.map_kind]
    cases Write.isVariableWidth logicalType <;> decide

/-- Keys in one run are copies of one key. -/
theorem eq_replicate_of_runs {keys : List Bytes} (hne : keys ≠ [])
    (h : (Runs.runs keys).length ≤ 1) : ∃ key, keys = List.replicate keys.length key := by
  obtain ⟨run, rest, hruns⟩ := List.exists_cons_of_ne_nil (Runs.runs_ne_nil hne)
  rw [hruns, List.length_cons] at h
  obtain rfl := List.eq_nil_of_length_eq_zero (Nat.le_zero.mp (Nat.le_of_succ_le_succ h))
  have hexpand := Runs.expand_runs keys
  rw [hruns, Runs.expand, List.flatMap_singleton] at hexpand
  refine ⟨run.1, ?_⟩
  rw [← hexpand, List.length_replicate]

theorem eq_replicate_of_constant (hne : values ≠ [])
    (hkeys : (logicalType.prepared values).keys = keysOf logicalType values)
    (h : (profile (logicalType.prepared values)).constant = true) :
    ∃ value, values = List.replicate values.length value := by
  have hruns : (Runs.runs (keysOf logicalType values)).length ≤ 1 := by
    rw [← hkeys, ← List.length_map (f := Prod.snd)]
    exact of_decide_eq_true h
  have hnonempty : keysOf logicalType values ≠ [] := fun hnil ↦ hne (List.map_eq_nil_iff.mp hnil)
  obtain ⟨key, hkey⟩ := eq_replicate_of_runs hnonempty hruns
  rw [length_keysOf] at hkey
  obtain ⟨value, rest, rfl⟩ := List.exists_cons_of_ne_nil hne
  refine ⟨value, keysOf_injective ?_⟩
  have hvalue : logicalType.storedType.key value = key := by
    have hmem : logicalType.storedType.key value ∈ keysOf logicalType (value :: rest) :=
      List.mem_cons_self
    rw [hkey] at hmem
    exact List.eq_of_mem_replicate hmem
  rw [hkey, keysOf, List.map_replicate, hvalue]

/-- The constant layout stores the value that all values are. -/
theorem held_constantStreams (hfit : FitBlock logicalType values)
    {value : logicalType.storedType.Value} {rest : List logicalType.storedType.Value}
    (hvalues : values = value :: rest)
    (h : encodeStreams (logicalType.prepared values) (profile (logicalType.prepared values))
      .constant = .ok candidates) :
    ∃ candidate, Held logicalType streamKindValues streamKindLengths [value] candidates
      candidate := by
  have hkeys := keys_prepared hfit.hasWidth hfit.keys
  have hhead : (logicalType.prepared values).keys.head? =
      some (logicalType.storedType.key value) := by
    rw [hkeys, hvalues]
    rfl
  obtain ⟨first, hfirst, h⟩ := bind_eq_ok.mp h
  rw [okOr_eq_ok, hhead, Option.some.injEq] at hfirst
  subst hfirst
  have hone : [value].length ≤ u32Max := by simp [u32Max]
  cases hshape : logicalType.shape with
  | bits =>
    cases logicalType with
    | bool =>
      cases h
      rw [hvalues]
      have hread (what : String) :
          Transform.rawBooleans (packBits [value]) 1 what = .ok [value] :=
        rawBooleans_packBits (Nat.le_add_left 8 _) what
      exact ⟨valuesStream transformRaw 1 (packBits [value]), rfl, rfl, hread, rfl⟩
    | _ => cases hshape
  | fixed width signed =>
    have hbool : logicalType ≠ .bool := by
      rintro rfl
      cases hshape
    have hvariable : ¬Write.isVariableWidth logicalType = true := by
      rw [Write.isVariableWidth_iff, hshape]
      exact LogicalType.Shape.noConfusion
    rw [LogicalType.prepared, hshape] at h
    cases h
    refine ⟨valuesStream transformRaw 1 (logicalType.storedType.key value), rfl, rfl,
      represents_raw hbool hone rfl ?_, ?_⟩
    · rw [List.flatMap_singleton]
      rfl
    · rw [lengthsBeside, if_neg hvariable]
  | variableWidth =>
    have hbool : logicalType ≠ .bool := by
      rintro rfl
      cases hshape
    rw [LogicalType.prepared, hshape] at h
    cases h
    refine ⟨valuesStream transformRaw 1 (logicalType.storedType.key value), rfl, rfl,
      represents_raw hbool hone rfl ?_, ?_⟩
    · rw [List.flatMap_singleton]
      rfl
    · rw [lengthsBeside, if_pos ((Write.isVariableWidth_iff _).mpr hshape), hvalues]
      rfl

/-- The keys of a dictionary are within its cap of bytes. -/
theorem bytes_le_of_finish {keys : List Bytes} {dictionary : DictionaryProfile}
    (h : (keys.foldl DictionaryBuilder.push {}).finish = some dictionary) :
    (dictionary.values.map List.length).sum ≤ distinctByteLimit := by
  have hcounted := counted_foldl keys
  unfold DictionaryBuilder.finish at h
  split at h
  case isTrue => cases h
  case isFalse hexceeded =>
    cases h
    have hfits : FitsDictionary keys := by
      by_contra hnot
      exact hexceeded (hcounted.exceeded.mpr hnot)
    have hsum := ((fitsDictionary_iff keys).mp hfits).2
    rwa [← hcounted.values (by simpa using hexceeded)] at hsum

theorem stands_dictionary (hfit : FitBlock logicalType values)
    (hbool : logicalType ≠ .bool)
    (h : encodeStreams (logicalType.prepared values) (profile (logicalType.prepared values))
      .dictionary = .ok candidates) :
    Stands logicalType values columnLayoutDictionary candidates := by
  have hkeys := keys_prepared hfit.hasWidth hfit.keys
  obtain ⟨found, hfound, h⟩ := bind_eq_ok.mp h
  obtain ⟨_, -, h⟩ := bind_eq_ok.mp h
  obtain ⟨packed, hpacked, h⟩ := bind_eq_ok.mp h
  rw [okOr_eq_ok] at hfound
  have hdictionary : Dictionary (keysOf logicalType values) found := by
    rw [← hkeys]
    exact dictionary_of_finish hfound
  obtain ⟨-, rfl⟩ := packFrom_eq_ok hpacked
  obtain ⟨chosen, hchosen, hmem⟩ := exists_values_of_keys hdictionary.values_mem
  have hlength : chosen.length = found.values.length := by rw [← hchosen, length_keysOf]
  have hlimit := hdictionary.length_le
  have hlookups : found.indices.map (chosen[·]?) = values.map some := by
    have hlookup := hdictionary.lookups
    have hget (index : ℕ) :
        found.values[index]? = chosen[index]?.map logicalType.storedType.key := by
      rw [← hchosen, keysOf, List.getElem?_map]
    simp only [hget] at hlookup
    have hinjective : Function.Injective (Option.map logicalType.storedType.key) :=
      Option.map_injective logicalType.storedType.key_injective
    refine List.map_injective_iff.mpr hinjective ?_
    rw [List.map_map, List.map_map]
    rw [keysOf, List.map_map] at hlookup
    exact hlookup
  have hsmall : chosen.length ≤ u32Max := by
    rw [hlength]
    exact hlimit.trans (by decide)
  obtain ⟨candidate, hheld⟩ := @held_byteStringStreams _ values hbool
    streamKindDictionaryValues streamKindDictionaryLengths chosen hsmall
  rw [hchosen] at hheld
  have hbytes : (chosen.flatMap logicalType.storedType.key).length ≤ distinctByteLimit := by
    have hsum := bytes_le_of_finish hfound
    rw [← hchosen, keysOf, List.map_map] at hsum
    rw [List.length_flatMap]
    exact hsum
  cases h
  exact .dictionary hlookups hmem (hlength ▸ hlimit) hbytes hdictionary.packs hheld

/-- Runs of keys are runs of the values that the keys are of. -/
theorem keysOf_expand {chosen : List logicalType.storedType.Value} {lengths : List ℕ} :
    keysOf logicalType (Runs.expand (chosen.zip lengths)) =
      Runs.expand ((keysOf logicalType chosen).zip lengths) := by
  rw [keysOf, keysOf, Runs.expand, Runs.expand, List.map_flatMap, List.zip_map_left,
    List.flatMap_map]
  simp only [List.map_replicate]
  rfl

/-- Only flags have the shape of bits. -/
theorem shape_ne_bits (hbool : logicalType ≠ .bool) : logicalType.shape ≠ .bits := by
  cases logicalType with
  | bool => exact absurd rfl hbool
  | _ => exact LogicalType.Shape.noConfusion

theorem runLengthStreams_prepared (hbool : logicalType ≠ .bool) (profiled : ValueProfile) :
    runLengthStreams (logicalType.prepared values) profiled = (do
      let keys ← runKeys (logicalType.prepared values).keys profiled.runLengths
      let lengths ← packFrom (bitWidth profiled.maxRunLength) profiled.runLengths.length
        profiled.runLengths
      return byteStringStreams (logicalType.prepared values) streamKindRunValues streamKindLengths
          keys ++ [{ kind := streamKindRunLengths, transform := transformBitPacked,
                     elementCount := profiled.runLengths.length, bytes := lengths }]) := by
  have hshape := shape_ne_bits hbool
  rw [LogicalType.prepared]
  cases hcase : logicalType.shape with
  | bits => exact absurd hcase hshape
  | fixed width signed => rfl
  | variableWidth => rfl

/-- The keys of values are not too long to have their lengths stored. -/
theorem length_le_of_mem_keysOf (hfit : FitBlock logicalType values) (hbool : logicalType ≠ .bool)
    {key : Bytes} (hkey : key ∈ keysOf logicalType values) : key.length ≤ u32Max := by
  obtain ⟨value, hvalue, rfl⟩ := List.mem_map.mp hkey
  exact FitsKey.le (shape_ne_bits hbool) (hfit.keys value hvalue)

/-- **Values are cut into the runs of their keys**, whatever they are. -/
theorem encodeStreams_runLength (hfit : FitBlock logicalType values) (hbool : logicalType ≠ .bool) :
    encodeStreams (logicalType.prepared values) (profile (logicalType.prepared values)) .runLength =
      .ok (byteStringStreams (logicalType.prepared values) streamKindRunValues streamKindLengths
        ((Runs.runs (keysOf logicalType values)).map Prod.fst) ++ [packedBeside streamKindRunLengths
          (bitWidth (((Runs.runs (keysOf logicalType values)).map Prod.snd).foldl max 0))
          ((Runs.runs (keysOf logicalType values)).map Prod.snd)]) := by
  have hkeys := keys_prepared hfit.hasWidth hfit.keys
  have hprofile : (profile (logicalType.prepared values)).runLengths =
      (Runs.runs (keysOf logicalType values)).map Prod.snd := by
    rw [← hkeys]
    rfl
  have hmax : (profile (logicalType.prepared values)).maxRunLength =
      ((Runs.runs (keysOf logicalType values)).map Prod.snd).foldl max 0 := by
    rw [← hprofile]
    rfl
  have hrunKeys : runKeys (logicalType.prepared values).keys
      ((Runs.runs (keysOf logicalType values)).map Prod.snd) =
        .ok ((Runs.runs (keysOf logicalType values)).map Prod.fst) := by
    have hall := @runKeys_expand (Runs.runs (keysOf logicalType values))
      (fun run hmem ↦ Runs.length_pos_of_mem_runs hmem)
      fun run hmem ↦ length_le_of_mem_keysOf hfit hbool (Runs.mem_of_mem_runs hmem)
    rw [Runs.expand_runs] at hall
    rwa [hkeys]
  have hpacked := @packFrom_of_length
    (bitWidth (((Runs.runs (keysOf logicalType values)).map Prod.snd).foldl max 0)) _
    ((Runs.runs (keysOf logicalType values)).map Prod.snd) rfl
  show runLengthStreams _ _ = _
  rw [runLengthStreams_prepared hbool, hprofile, hrunKeys, ok_bind, hmax, hpacked, ok_bind]
  rfl

theorem stands_runLength (hfit : FitBlock logicalType values) (hbool : logicalType ≠ .bool)
    (h : encodeStreams (logicalType.prepared values) (profile (logicalType.prepared values))
      .runLength = .ok candidates) :
    Stands logicalType values columnLayoutRunLength candidates := by
  rw [encodeStreams_runLength hfit hbool, Except.ok.injEq] at h
  subst h
  have hcount : values.length ≤ u32Max := hfit.rows.trans (by decide)
  generalize hruns : Runs.runs (keysOf logicalType values) = runs
  have hexpand : Runs.expand runs = keysOf logicalType values := by
    rw [← hruns]
    exact Runs.expand_runs _
  obtain ⟨hfew, hbounds⟩ := Runs.runs_bounds (keysOf logicalType values)
  rw [hruns, length_keysOf] at hfew hbounds
  have hknown : ∀ key ∈ runs.map Prod.fst, key ∈ keysOf logicalType values := fun key hkey ↦ by
    obtain ⟨run, hin, rfl⟩ := List.mem_map.mp hkey
    exact Runs.mem_of_mem_runs (hruns ▸ hin)
  obtain ⟨chosen, hchosen, hmem⟩ := exists_values_of_keys hknown
  have hlength : chosen.length = (runs.map Prod.snd).length := by
    have hkeysLength := congrArg List.length hchosen
    rw [length_keysOf, List.length_map] at hkeysLength
    rw [hkeysLength, List.length_map]
  have hexpands : Runs.expand (chosen.zip (runs.map Prod.snd)) = values := by
    refine keysOf_injective ?_
    rw [keysOf_expand, hchosen, ← hexpand]
    have hunzip := List.zip_unzip runs
    rw [List.unzip_eq_map] at hunzip
    exact congrArg Runs.expand hunzip
  obtain ⟨hwidth, hfits⟩ := fits_bitWidth_foldl_max (runs.map Prod.snd) fun length hin ↦
    ((hbounds length hin).2.trans hcount).trans (by decide)
  have hsmall : chosen.length ≤ u32Max := by
    rw [hlength, List.length_map]
    exact hfew.trans hcount
  obtain ⟨candidate, hheld⟩ := @held_byteStringStreams _ values hbool
    streamKindRunValues streamKindLengths chosen hsmall
  rw [hchosen] at hheld
  exact .runLength hexpands (fun length hin ↦ (hbounds length hin).1) hlength ⟨hwidth, hfits⟩ hheld

/-- **Whatever encoding is chosen, its streams stand for the values** they were made from. -/
theorem stands_of_encode (hfit : FitBlock logicalType values) (hne : values ≠ [])
    {encoding : ValueEncoding} (hsupports : supports logicalType encoding = true)
    {candidate : ValueCandidate}
    (h : encode logicalType (logicalType.prepared values) (profile (logicalType.prepared values))
      encoding = .ok candidate) :
    Stands logicalType values candidate.layout candidate.streams := by
  obtain ⟨_, hvalid, h⟩ := bind_eq_ok.mp h
  obtain ⟨streams, hstreams, h⟩ := bind_eq_ok.mp h
  rw [failIf_eq_ok, not_not] at hvalid
  cases h
  have hplain (hlayout : layoutOf encoding = columnLayoutPlain) :
      Stands logicalType values (layoutOf encoding) streams := by
    obtain ⟨held, hheld⟩ := exists_held_of_plain hfit hne hsupports hlayout hstreams
    rw [hlayout]
    exact .plain hheld
  cases encoding with
  | constant =>
    have hcount : ¬(profile (logicalType.prepared values)).count = 0 := by
      rw [show (profile (logicalType.prepared values)).count = values.length
        from count_prepared hfit.hasWidth hfit.keys]
      exact fun hzero ↦ hne (List.eq_nil_of_length_eq_zero hzero)
    rw [isValid, if_neg hcount] at hvalid
    obtain ⟨value, hsame⟩ :=
      eq_replicate_of_constant hne (keys_prepared hfit.hasWidth hfit.keys) hvalid
    obtain ⟨first, rest, hfirst⟩ := List.exists_cons_of_ne_nil hne
    have hvalue : first = value := by
      have hmem : first ∈ values := hfirst ▸ List.mem_cons_self
      rw [hsame] at hmem
      exact List.eq_of_mem_replicate hmem
    obtain ⟨held, hheld⟩ := held_constantStreams hfit hfirst hstreams
    exact .constant (hvalue ▸ hsame) hheld
  | dictionary =>
    refine stands_dictionary hfit ?_ hstreams
    rintro rfl
    cases hsupports
  | runLength =>
    refine stands_runLength hfit ?_ hstreams
    rintro rfl
    cases hsupports
  | _ => exact hplain rfl

end Stands

end Acta
