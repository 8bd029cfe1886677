import Acta.RoundTrip.Layouts

/-!
# Reading a layout back

A layout is decoded into the dense values that its streams stand for (`Stands.decodes`).  What that
costs is the sum of what its streams cost, kind by kind, and of what making the dense values out of
the stored ones costs.
-/

namespace Acta

open Machine Wire Candidates

/-! ### What streams cost -/

/-- The decoded bytes that unpacking a stream of a kind asks for.  A lengths stream is unpacked with
the values it stands beside. -/
def LogicalType.kindCost (logicalType : LogicalType) (kind transform count length : ℕ) : ℕ :=
  if kind = streamKindValidity then count * 9
  else if kind = streamKindIndices then count * 8
  else if kind = streamKindRunLengths then count * 16
  else if kind = streamKindLengths ∨ kind = streamKindDictionaryLengths then 0
  else logicalType.unpackCost transform count length

/-- The decoded bytes that a stream asks for, read and unpacked. -/
def StreamDescriptor.decodeCost (stream : StreamDescriptor) (logicalType : LogicalType) : ℕ :=
  stream.readCost + logicalType.kindCost stream.kind stream.transform stream.elementCount
    stream.transformedLength

/-- The decoded bytes that the streams of one kind ask for. -/
def costOfKind (logicalType : LogicalType) (streams : List StreamDescriptor) (kind : ℕ) : ℕ :=
  ((streams.filter (·.kind = kind)).map (·.decodeCost logicalType)).sum

/-- The decoded bytes that copying one of the values asks for. -/
def LogicalType.copyCost (logicalType : LogicalType)
    (values : List logicalType.storedType.Value) : ℕ :=
  DenseValues.valueBytes ⟨logicalType.storedType, values⟩

/-- The decoded bytes that making the dense values of a layout asks for. -/
def expansionCost (logicalType : LogicalType) (layout : ℕ)
    (values : List logicalType.storedType.Value) : ℕ :=
  if layout = columnLayoutPlain then 0 else values.length * logicalType.copyCost values

/-- **The sum over streams is the sum over their kinds.** -/
theorem sum_eq_sum_of_kinds (cost : StreamDescriptor → ℕ) {kinds : List ℕ} (hnodup : kinds.Nodup)
    {streams : List StreamDescriptor} (h : ∀ stream ∈ streams, stream.kind ∈ kinds) :
    (streams.map cost).sum =
      (kinds.map fun kind ↦ ((streams.filter (·.kind = kind)).map cost).sum).sum := by
  induction streams with
  | nil => simp
  | cons stream streams ih =>
    obtain ⟨hstream, hstreams⟩ := List.forall_mem_cons.mp h
    -- Among different kinds, the cost of one more stream is added to its own.
    have hadd (rest : List ℕ) (hrest : rest.Nodup) (costs : ℕ → ℕ) :
        (rest.map fun kind ↦ (if stream.kind = kind then cost stream else 0) + costs kind).sum =
          (if stream.kind ∈ rest then cost stream else 0) + (rest.map costs).sum := by
      induction rest with
      | nil => rfl
      | cons kind rest ihr =>
        obtain ⟨hnot, hrest⟩ := List.nodup_cons.mp hrest
        rw [List.map_cons, List.sum_cons, ihr hrest, List.map_cons, List.sum_cons]
        by_cases hkind : stream.kind = kind
        · rw [if_pos hkind, if_neg (hkind ▸ hnot), if_pos (hkind ▸ List.mem_cons_self)]
          omega
        · have hmem : stream.kind ∈ kind :: rest ↔ stream.kind ∈ rest := by simp [hkind]
          rw [if_neg hkind]
          simp only [hmem]
          omega
    have hfilter (kind : ℕ) : (((stream :: streams).filter (·.kind = kind)).map cost).sum =
        (if stream.kind = kind then cost stream else 0) +
          ((streams.filter (·.kind = kind)).map cost).sum := by
      by_cases hkind : stream.kind = kind
      · rw [List.filter_cons_of_pos (by simp [hkind]), if_pos hkind, List.map_cons, List.sum_cons]
      · rw [List.filter_cons_of_neg (by simp [hkind]), if_neg hkind, Nat.zero_add]
    rw [List.map_cons, List.sum_cons, ih hstreams]
    simp only [hfilter]
    rw [hadd kinds hnodup, if_pos hstream]

theorem costOfKind_eq_zero {logicalType : LogicalType} {streams : List StreamDescriptor} {kind : ℕ}
    (h : streams.filter (·.kind = kind) = []) : costOfKind logicalType streams kind = 0 := by
  rw [costOfKind, h]
  rfl

theorem Finds.costOfKind_eq {logicalType : LogicalType} {streams : List StreamDescriptor} {kind : ℕ}
    {stream : StreamDescriptor} (h : Finds streams kind stream) :
    costOfKind logicalType streams kind = stream.decodeCost logicalType := by
  rw [costOfKind, h, List.map_singleton, List.sum_singleton]

/-- A lengths stream costs what reading it costs. -/
theorem costOfKind_lengths {logicalType : LogicalType} {streams : List StreamDescriptor} {kind : ℕ}
    (hkind : kind = streamKindLengths ∨ kind = streamKindDictionaryLengths) :
    costOfKind logicalType streams kind = readCostOf streams kind := by
  rw [costOfKind, readCostOf]
  congr 1
  refine List.map_congr_left fun stream hstream ↦ ?_
  have hsame : stream.kind = kind := by simpa using (List.mem_filter.mp hstream).2
  rw [StreamDescriptor.decodeCost, hsame]
  rcases hkind with rfl | rfl <;> rfl

/-! ### Expanding values -/

section Expanding

variable {logicalType : LogicalType} {values : List logicalType.storedType.Value}

/-- Values that are the same values are as costly to copy. -/
theorem copyCost_congr {chosen : List logicalType.storedType.Value}
    (h : ∀ value, value ∈ chosen ↔ value ∈ values) :
    logicalType.copyCost chosen = logicalType.copyCost values := by
  unfold LogicalType.copyCost DenseValues.valueBytes
  generalize logicalType.storedType = type at *
  cases type with
  | bytes =>
    have hmax {left right : List Bytes} (hsub : ∀ value ∈ left, value ∈ right) :
        (left.map List.length).foldl max 0 ≤ (right.map List.length).foldl max 0 := by
      refine Runs.foldl_max_le (Nat.zero_le _) fun length hlength ↦ ?_
      obtain ⟨value, hvalue, rfl⟩ := List.mem_map.mp hlength
      exact (Runs.foldl_max_bounds _ 0).2 _ (List.mem_map_of_mem (hsub value hvalue))
    dsimp only
    rw [Nat.le_antisymm (hmax fun value hvalue ↦ (h value).mp hvalue)
      (hmax fun value hvalue ↦ (h value).mpr hvalue)]
  | _ => rfl

/-- Copying a value of a column costs no more than a value may be wide. -/
theorem copyCost_le (hfit : BlockDecoder.FitBlock logicalType values) :
    logicalType.copyCost values ≤ 2 ^ 33 := by
  have hkeys := hfit.keys
  cases logicalType with
  | bool => exact (show 1 ≤ 2 ^ 33 by decide)
  | float32 | date32 => exact (show 4 ≤ 2 ^ 33 by decide)
  | float64 | decimal _ _ | timestamp _ _ => exact (show 8 ≤ 2 ^ 33 by decide)
  | integer type =>
    show type.width ≤ 2 ^ 33
    exact type.width_le.trans (by decide)
  | utf8 | categorical _ | binary | fixedBinary _ =>
    have hmax : (values.map List.length).foldl max 0 ≤ u32Max := by
      refine Runs.foldl_max_le (Nat.zero_le _) fun length hlength ↦ ?_
      obtain ⟨value, hvalue, rfl⟩ := List.mem_map.mp hlength
      exact FitsKey.le LogicalType.Shape.noConfusion (hkeys value hvalue)
    show saturatingAdd ((values.map List.length).foldl max 0) Read.valueHandleBytes ≤ 2 ^ 33
    simp only [saturatingAdd, Read.valueHandleBytes, u32Max] at hmax ⊢
    omega

variable {column : Column}

theorem expand_eq {type : StoredType} {values expanded : List type.Value}
    {expansion : List type.Value → Result (List type.Value)} (h : expansion values = .ok expanded) :
    DenseValues.expand ⟨type, values⟩ expansion = .ok ⟨type, expanded⟩ := by
  rw [DenseValues.expand, h, ok_bind, pure_eq_ok]

/-- **The constant layout** repeats its value. -/
theorem repeated_decodes {column : Column} {value : column.logicalType.storedType.Value} {count : ℕ}
    (hcount : count ≤ defaultMaxRowsPerBlock)
    (hfit : BlockDecoder.FitBlock column.logicalType [value]) :
    Decodes (DenseValues.repeated ⟨column.logicalType.storedType, [value]⟩ count column)
      (count * column.logicalType.copyCost [value])
      ⟨column.logicalType.storedType, List.replicate count value⟩ := by
  have hcharge := decodes_chargeElements (mul_le_u64Max hcount (copyCost_le hfit))
  exact .congr (.bind hcharge (Metered.costs_lift (expand_eq rfl))) (Nat.add_zero _)

theorem lookup_eq {α : Type} {chosen values : List α} {indices : List ℕ}
    (h : indices.map (chosen[·]?) = values.map some) (column : Column) :
    Read.lookup indices column chosen = .ok values := by
  rw [Read.lookup]
  induction indices generalizing values with
  | nil =>
    obtain rfl := List.map_eq_nil_iff.mp h.symm
    rfl
  | cons index indices ih =>
    obtain ⟨value, rest, rfl, hvalue, hrest⟩ := List.map_eq_cons_iff.mp h.symm
    have hfound : chosen[index]? = some value := hvalue.symm
    rw [List.mapM_cons, hfound, okOr, ok_bind, ih hrest.symm, ok_bind, pure_eq_ok]

/-- **The dictionary layout** looks its values up. -/
theorem expanded_decodes {column : Column}
    {chosen values : List column.logicalType.storedType.Value} {indices : List ℕ}
    (hcount : indices.length ≤ defaultMaxRowsPerBlock)
    (hfit : BlockDecoder.FitBlock column.logicalType chosen)
    (h : indices.map (chosen[·]?) = values.map some) :
    Decodes (DenseValues.expanded ⟨column.logicalType.storedType, chosen⟩ indices column)
      (indices.length * column.logicalType.copyCost chosen)
      ⟨column.logicalType.storedType, values⟩ := by
  have hcharge := decodes_chargeElements (mul_le_u64Max hcount (copyCost_le hfit))
  exact .congr (.bind hcharge (Metered.costs_lift (expand_eq (lookup_eq h column))))
    (Nat.add_zero _)

theorem foldlM_checkedAdd_eq {lengths : List ℕ} {total : ℕ} (h : total + lengths.sum ≤ u64Max) :
    lengths.foldlM checkedAdd total = some (total + lengths.sum) := by
  induction lengths generalizing total with
  | nil => rfl
  | cons length lengths ih =>
    rw [List.sum_cons] at h ⊢
    rw [List.foldlM_cons, checkedAdd_of_le (by omega), Option.bind_eq_bind, Option.bind_some,
      ih (by omega), Nat.add_assoc]

theorem length_expand_zip {α : Type} {chosen : List α} {lengths : List ℕ}
    (h : chosen.length = lengths.length) :
    (Runs.expand (chosen.zip lengths)).length = lengths.sum := by
  induction chosen generalizing lengths with
  | nil =>
    obtain rfl := List.eq_nil_of_length_eq_zero h.symm
    rfl
  | cons value chosen ih =>
    obtain ⟨length, rest, rfl⟩ := List.exists_cons_of_length_eq_add_one h.symm
    have hrest := ih (Nat.succ.inj h)
    rw [Runs.expand] at hrest ⊢
    rw [List.zip_cons_cons, List.flatMap_cons, List.length_append, List.length_replicate, hrest,
      List.sum_cons]

/-- **The run-length layout** repeats each value for its run. -/
theorem runs_decodes {column : Column}
    {chosen values : List column.logicalType.storedType.Value} {lengths : List ℕ}
    (hcount : values.length ≤ defaultMaxRowsPerBlock)
    (hfit : BlockDecoder.FitBlock column.logicalType chosen)
    (hlength : chosen.length = lengths.length)
    (h : Runs.expand (chosen.zip lengths) = values) :
    Decodes (DenseValues.runs ⟨column.logicalType.storedType, chosen⟩ lengths column)
      (values.length * column.logicalType.copyCost chosen)
      ⟨column.logicalType.storedType, values⟩ := by
  have hsum : lengths.sum = values.length := by rw [← h, length_expand_zip hlength]
  have htotal : lengths.foldlM checkedAdd 0 = some values.length := by
    have hroom : 0 + lengths.sum ≤ u64Max := by
      rw [hsum, Nat.zero_add]
      exact hcount.trans (by decide)
    rw [foldlM_checkedAdd_eq hroom, hsum, Nat.zero_add]
  have hruns : Read.expandRuns lengths column chosen = .ok values := by
    rw [Read.expandRuns, failIf_neg (by rw [hlength, not_not]), ok_bind, pure_eq_ok, ← h]
    rfl
  have hcharge := decodes_chargeElements (mul_le_u64Max hcount (copyCost_le hfit))
  rw [DenseValues.runs, htotal]
  exact .lift_bind rfl (.congr (.bind hcharge (Metered.costs_lift (expand_eq hruns)))
    (Nat.add_zero _))

theorem checkRunLengths_eq {column : Column} {count total : ℕ} {lengths : List ℕ}
    (hpositive : ∀ length ∈ lengths, 0 < length) (hsum : total + lengths.sum = count)
    (hcount : count ≤ u64Max) : Read.checkRunLengths column count total lengths = .ok () := by
  induction lengths generalizing total with
  | nil =>
    rw [List.sum_nil, Nat.add_zero] at hsum
    rw [Read.checkRunLengths, failIf_neg (by rw [hsum, not_not])]
  | cons length lengths ih =>
    obtain ⟨hlength, hrest⟩ := List.forall_mem_cons.mp hpositive
    rw [List.sum_cons] at hsum
    have hle : total + length ≤ count := by omega
    rw [Read.checkRunLengths, failIf_neg (Nat.pos_iff_ne_zero.mp hlength), ok_bind,
      checkedAdd_of_le (hle.trans hcount), Option.filter_some, if_pos (decide_eq_true hle), okOr,
      ok_bind]
    exact ih hrest (by omega)

end Expanding

/-! ### The streams of a layout -/

namespace BlockDecoder

variable {decoder : BlockDecoder} {column : Column} {streams : List StreamDescriptor}
  {all candidates : List CandidateStream} {candidate : CandidateStream}

/-- Streams that deliver what holds values hold the values. -/
theorem exists_holdsValues {valuesKind lengthsKind : ℕ}
    {values : List column.logicalType.storedType.Value}
    (h : Held column.logicalType valuesKind lengthsKind values candidates candidate)
    (hsub : ∀ held ∈ candidates, held ∈ all) (hdelivers : List.Forall₂ decoder.Delivers all streams)
    (hkinds : (all.map (·.kind)).Nodup)
    (hwithout : Write.isVariableWidth column.logicalType = false →
      lengthsKind ∉ all.map (·.kind)) :
    ∃ stream,
      HoldsValues decoder column streams valuesKind lengthsKind values candidate stream := by
  have hstreams := h.streams
  obtain ⟨stream, hfinds, hdelivered⟩ := finds_of_forall₂ hdelivers hkinds
    (hsub candidate (by rw [hstreams]; exact List.mem_cons_self))
  rw [h.kind] at hfinds
  refine ⟨stream, hfinds, hdelivered, h.elementCount, h.represents, fun hvariable ↦ ?_,
    fun hfixed ↦ filter_kind_of_notMem hdelivers (hwithout hfixed)⟩
  rw [lengthsBeside, if_pos hvariable] at hstreams
  obtain ⟨beside, hbeside, hlengths⟩ := finds_of_forall₂ hdelivers hkinds
    (hsub _ (by rw [hstreams]; exact List.mem_cons_of_mem _ List.mem_cons_self))
  exact ⟨_, beside, hbeside, hlengths, rfl, length_keysOf.symm, rfl⟩

/-- What reading values costs, by the kinds of their streams. -/
theorem HoldsValues.cost_eq {valuesKind lengthsKind : ℕ}
    {values : List column.logicalType.storedType.Value} {stream : StreamDescriptor}
    (h : HoldsValues decoder column streams valuesKind lengthsKind values candidate stream)
    (hvalues : ∀ transform count length,
      column.logicalType.kindCost valuesKind transform count length =
        column.logicalType.unpackCost transform count length)
    (hlengths : lengthsKind = streamKindLengths ∨ lengthsKind = streamKindDictionaryLengths) :
    readCostOf streams valuesKind + readCostOf streams lengthsKind +
        column.logicalType.unpackCost candidate.transform values.length candidate.bytes.length =
      costOfKind column.logicalType streams valuesKind +
        costOfKind column.logicalType streams lengthsKind := by
  rw [costOfKind_lengths hlengths, h.finds.costOfKind_eq, h.finds.readCostOf_eq,
    StreamDescriptor.decodeCost, h.finds.kind_eq, hvalues, h.delivers.transform,
    h.delivers.elementCount, h.elementCount, h.delivers.transformedLength]
  omega

/-- Packed numbers are read back. -/
theorem unpack_decodes {kind width : ℕ} {numbers : List ℕ} {stream : StreamDescriptor}
    (h : decoder.Delivers (packedBeside kind width numbers) stream) (hpacks : PacksIn width numbers)
    (hcount : numbers.length ≤ defaultMaxRowsPerBlock) (what : String) :
    Decodes (decoder.unpack stream column numbers.length what)
      (stream.readCost + numbers.length * 8) numbers := by
  have hcharge : Decodes (Budget.chargeElements numbers.length Read.unpackedValueBytes)
      (numbers.length * 8) () :=
    decodes_chargeElements (mul_le_u64Max hcount (by decide))
  have htransform : stream.transform = transformBitPacked := h.transform
  have hread := bitUnpack_of_packFrom hpacks.bits_le (hcount.trans (by decide)) hpacks.lt
    (Read.description column what)
  rw [unpack, failIf_neg (by rw [htransform, not_not])]
  refine .lift_bind rfl (.congr (.bind (h.bytes column) (.bind hcharge
    (Metered.costs_lift hread))) ?_)
  rw [Nat.add_zero]

/-! ### Decoding a layout -/

section Decodes

variable {values : List column.logicalType.storedType.Value} {validity : List CandidateStream}

/-- Every value that is looked up is in the dictionary. -/
theorem mem_of_lookups {α : Type} {chosen values : List α} {indices : List ℕ}
    (h : indices.map (chosen[·]?) = values.map some) {value : α} (hvalue : value ∈ values) :
    value ∈ chosen := by
  have hmem : some value ∈ indices.map (chosen[·]?) := h ▸ List.mem_map_of_mem hvalue
  obtain ⟨index, -, hindex⟩ := List.mem_map.mp hmem
  exact List.mem_of_getElem? hindex

/-- The values of runs are the values they repeat. -/
theorem mem_expand_zip {α : Type} {chosen : List α} {lengths : List ℕ}
    (hlength : chosen.length = lengths.length) (hpositive : ∀ length ∈ lengths, 0 < length)
    {value : α} : value ∈ Runs.expand (chosen.zip lengths) ↔ value ∈ chosen := by
  rw [Runs.expand, List.mem_flatMap]
  constructor
  · rintro ⟨run, hrun, hvalue⟩
    rw [List.eq_of_mem_replicate hvalue]
    exact (List.of_mem_zip hrun).1
  · intro hvalue
    obtain ⟨index, hindex, rfl⟩ := List.mem_iff_getElem.mp hvalue
    refine ⟨(chosen[index], lengths[index]), List.mem_iff_getElem.mpr ⟨index, ?_, ?_⟩, ?_⟩
    · rw [List.length_zip]
      omega
    · rw [List.getElem_zip]
    · exact List.mem_replicate.mpr
        ⟨Nat.pos_iff_ne_zero.mp (hpositive _ (List.getElem_mem _)), rfl⟩

/-- The streams of a column are a validity stream, if any, and the streams of its layout. -/
structure DeliversColumn (decoder : BlockDecoder) (validity candidates : List CandidateStream)
    (streams : List StreamDescriptor) : Prop where
  isValidity : List.Sublist (validity.map (·.kind)) [streamKindValidity]
  nodup : (streamKindValidity :: candidates.map (·.kind)).Nodup
  delivers : List.Forall₂ decoder.Delivers (validity ++ candidates) streams

section DeliversColumn

variable (h : DeliversColumn decoder validity candidates streams)
include h

theorem DeliversColumn.nodup_kinds : ((validity ++ candidates).map (·.kind)).Nodup := by
  refine h.nodup.sublist ?_
  rw [List.map_append]
  exact h.isValidity.append (.refl _)

theorem DeliversColumn.kind_notMem {kind : ℕ} (hkind : kind ≠ streamKindValidity)
    (hnot : kind ∉ candidates.map (·.kind)) : kind ∉ (validity ++ candidates).map (·.kind) := by
  rw [List.map_append, List.mem_append, not_or]
  exact ⟨fun hmem ↦ hkind (List.mem_singleton.mp (h.isValidity.subset hmem)), hnot⟩

/-- The values of a layout are found among the streams of the column. -/
theorem DeliversColumn.exists_holdsValues {valuesKind lengthsKind : ℕ}
    {stored : List column.logicalType.storedType.Value} {part : List CandidateStream}
    (held : Held column.logicalType valuesKind lengthsKind stored part candidate)
    (hpart : ∀ held ∈ part, held ∈ candidates) (hvalidity : lengthsKind ≠ streamKindValidity)
    (hwithout : Write.isVariableWidth column.logicalType = false →
      lengthsKind ∉ candidates.map (·.kind)) :
    ∃ stream, HoldsValues decoder column streams valuesKind lengthsKind stored candidate stream :=
  BlockDecoder.exists_holdsValues held (fun _ hmem ↦ List.mem_append_right _ (hpart _ hmem))
    h.delivers h.nodup_kinds fun hfixed ↦ h.kind_notMem hvalidity (hwithout hfixed)

/-- The packed numbers of a layout are found among the streams of the column. -/
theorem DeliversColumn.exists_packed {kind width : ℕ} {numbers : List ℕ}
    (hmem : packedBeside kind width numbers ∈ candidates) :
    ∃ packed, Finds streams kind packed ∧
      decoder.Delivers (packedBeside kind width numbers) packed :=
  finds_of_forall₂ h.delivers h.nodup_kinds (List.mem_append_right _ hmem)

theorem constant_decodes {value : column.logicalType.storedType.Value}
    (hfit : FitBlock column.logicalType values)
    (same : values = List.replicate values.length value) (hne : values ≠ [])
    (held : Held column.logicalType streamKindValues streamKindLengths [value] candidates
      candidate) :
    Decodes (decoder.constant streams column values.length)
      (costOfKind column.logicalType streams streamKindValues +
        costOfKind column.logicalType streams streamKindLengths +
          values.length * column.logicalType.copyCost values)
      ⟨column.logicalType.storedType, values⟩ := by
  have hmem (other : column.logicalType.storedType.Value) : other ∈ [value] ↔ other ∈ values := by
    have hpos : values.length ≠ 0 := fun hzero ↦ hne (List.eq_nil_of_length_eq_zero hzero)
    rw [same, List.mem_replicate, List.mem_singleton]
    exact (and_iff_right hpos).symm
  have hone : FitBlock column.logicalType [value] :=
    ⟨hfit.hasWidth, by simp [defaultMaxRowsPerBlock],
      fun other hother ↦ hfit.keys other ((hmem other).mp hother)⟩
  obtain ⟨stream, hholds⟩ := h.exists_holdsValues held (fun _ hin ↦ hin) (by decide)
    fun hfixed ↦ by rw [held.map_kind, hfixed]; decide
  have hvalue := plain_decodes hholds hone
  rw [hholds.cost_eq (fun _ _ _ ↦ rfl) (.inl rfl)] at hvalue
  have hrepeated := repeated_decodes hfit.rows hone
  rw [← same, copyCost_congr hmem] at hrepeated
  exact hvalue.bind hrepeated

theorem dictionary_decodes {chosen : List column.logicalType.storedType.Value}
    {indices : List ℕ} {width : ℕ} {part : List CandidateStream}
    (hfit : FitBlock column.logicalType values) (hne : values ≠ [])
    (lookups : indices.map (chosen[·]?) = values.map some)
    (used : ∀ value ∈ chosen, value ∈ values) (length_le : chosen.length ≤ distinctValueLimit)
    (packs : PacksIn width indices)
    (held : Held column.logicalType streamKindDictionaryValues streamKindDictionaryLengths chosen
      part candidate)
    (hcandidates : candidates = part ++ [packedBeside streamKindIndices width indices]) :
    Decodes (decoder.dictionary streams column values.length)
      (costOfKind column.logicalType streams streamKindIndices +
        (costOfKind column.logicalType streams streamKindDictionaryValues +
          costOfKind column.logicalType streams streamKindDictionaryLengths +
            values.length * column.logicalType.copyCost values))
      ⟨column.logicalType.storedType, values⟩ := by
  have hchosen : FitBlock column.logicalType chosen :=
    ⟨hfit.hasWidth, length_le.trans (by decide), fun value hvalue ↦
      hfit.keys value (used value hvalue)⟩
  have hlength : indices.length = values.length := by
    rw [← List.length_map (f := (chosen[·]?)), lookups, List.length_map]
  have hrows : indices.length ≤ defaultMaxRowsPerBlock := hlength ▸ hfit.rows
  have hnonempty : chosen ≠ [] := by
    obtain ⟨value, rest, rfl⟩ := List.exists_cons_of_ne_nil hne
    exact List.ne_nil_of_mem (mem_of_lookups lookups List.mem_cons_self)
  -- The indices are read first.
  obtain ⟨packed, hpacked, hdelivered⟩ := @DeliversColumn.exists_packed _ _ _ _ h
    streamKindIndices width indices (by rw [hcandidates]; simp)
  have helements : packed.elementCount = indices.length := hdelivered.elementCount
  have hcost : costOfKind column.logicalType streams streamKindIndices =
      packed.readCost + indices.length * 8 := by
    rw [hpacked.costOfKind_eq, StreamDescriptor.decodeCost, hpacked.kind_eq, helements]
    rfl
  have hindices : Decodes (decoder.indices streams column indices.length)
      (costOfKind column.logicalType streams streamKindIndices) indices := by
    have hexpect : Read.expectElements packed indices.length column = .ok () :=
      failIf_neg (by rw [helements, not_not])
    rw [hcost, BlockDecoder.indices]
    exact .lift_bind (hpacked.requiredStream_eq column) (.lift_bind hexpect
      (unpack_decodes hdelivered packs hrows "dictionary indices"))
  obtain ⟨stream, hholds⟩ := h.exists_holdsValues held
    (fun _ hin ↦ by rw [hcandidates]; exact List.mem_append_left _ hin) (by decide)
    fun hfixed ↦ by rw [hcandidates, map_kind_packed, held.map_kind, hfixed]; decide
  have hcount : stream.elementCount = chosen.length :=
    hholds.delivers.elementCount.trans hholds.elementCount
  have hvalues := layoutValues_decodes hholds hchosen
  rw [hholds.cost_eq (fun _ _ _ ↦ rfl) (.inr rfl), ← hcount] at hvalues
  have hexpanded := @expanded_decodes column _ _ _ hrows hchosen lookups
  rw [hlength, copyCost_congr fun value ↦ ⟨used value, mem_of_lookups lookups⟩] at hexpanded
  rw [hlength] at hindices
  have hsome : ¬stream.elementCount = 0 := by
    rw [hcount]
    exact fun hzero ↦ hnonempty (List.eq_nil_of_length_eq_zero hzero)
  exact hindices.bind (.lift_bind (hholds.finds.requiredStream_eq column) (.lift_bind
    (failIf_neg hsome) (hvalues.bind hexpanded)))

theorem runLength_decodes {chosen : List column.logicalType.storedType.Value}
    {lengths : List ℕ} {width : ℕ} {part : List CandidateStream}
    (hfit : FitBlock column.logicalType values)
    (expands : Runs.expand (chosen.zip lengths) = values)
    (positive : ∀ length ∈ lengths, 0 < length) (length_eq : chosen.length = lengths.length)
    (packs : PacksIn width lengths)
    (held : Held column.logicalType streamKindRunValues streamKindLengths chosen part candidate)
    (hcandidates : candidates = part ++ [packedBeside streamKindRunLengths width lengths]) :
    Decodes (decoder.runLength streams column values.length)
      (costOfKind column.logicalType streams streamKindRunLengths +
        (costOfKind column.logicalType streams streamKindRunValues +
          costOfKind column.logicalType streams streamKindLengths +
            values.length * column.logicalType.copyCost values))
      ⟨column.logicalType.storedType, values⟩ := by
  have hsum : lengths.sum = values.length := by rw [← expands, length_expand_zip length_eq]
  have hfew : lengths.length ≤ defaultMaxRowsPerBlock := by
    refine (Runs.length_le_sum positive).trans ?_
    rw [hsum]
    exact hfit.rows
  have hmem (value : column.logicalType.storedType.Value) : value ∈ chosen ↔ value ∈ values := by
    rw [← expands, mem_expand_zip length_eq positive]
  have hchosen : FitBlock column.logicalType chosen :=
    ⟨hfit.hasWidth, length_eq ▸ hfew, fun value hvalue ↦ hfit.keys value ((hmem value).mp hvalue)⟩
  -- The run lengths are read first, and checked.
  obtain ⟨packed, hpacked, hdelivered⟩ := @DeliversColumn.exists_packed _ _ _ _ h
    streamKindRunLengths width lengths (by rw [hcandidates]; simp)
  have helements : packed.elementCount = lengths.length := hdelivered.elementCount
  have hcost : costOfKind column.logicalType streams streamKindRunLengths =
      packed.readCost + lengths.length * 16 := by
    rw [hpacked.costOfKind_eq, StreamDescriptor.decodeCost, hpacked.kind_eq, helements]
    rfl
  have hcharge : Decodes (Budget.chargeElements lengths.length 8) (lengths.length * 8) () :=
    decodes_chargeElements (mul_le_u64Max hfew (by decide))
  have hcheck : Read.checkRunLengths column values.length 0 lengths = .ok () :=
    checkRunLengths_eq positive (by rw [hsum, Nat.zero_add]) (hfit.rows.trans (by decide))
  have hlengths : Decodes (decoder.runLengths streams column values.length)
      (costOfKind column.logicalType streams streamKindRunLengths) lengths := by
    rw [hcost, BlockDecoder.runLengths]
    refine .lift_bind (hpacked.requiredStream_eq column) ?_
    rw [helements]
    refine ((unpack_decodes hdelivered packs hfew "run lengths").bind (hcharge.bind
      (.lift_bind hcheck (Metered.costs_pure lengths)))).congr ?_
    omega
  obtain ⟨stream, hholds⟩ := h.exists_holdsValues held
    (fun _ hin ↦ by rw [hcandidates]; exact List.mem_append_left _ hin) (by decide)
    fun hfixed ↦ by rw [hcandidates, map_kind_packed, held.map_kind, hfixed]; decide
  have hcount : stream.elementCount = lengths.length :=
    (hholds.delivers.elementCount.trans hholds.elementCount).trans length_eq
  have hvalues := layoutValues_decodes hholds hchosen
  rw [hholds.cost_eq (fun _ _ _ ↦ rfl) (.inl rfl), length_eq] at hvalues
  have hruns := @runs_decodes column _ _ _ hfit.rows hchosen length_eq expands
  rw [copyCost_congr hmem] at hruns
  exact hlengths.bind (.lift_bind (hholds.finds.requiredStream_eq column) (.lift_bind
    (failIf_neg (by rw [hcount, not_not])) (hvalues.bind hruns)))

end DeliversColumn

/-- **A layout is decoded into the values that its streams stand for.** -/
theorem Stands.decodes {layout : ℕ} (h : Stands column.logicalType values layout candidates)
    (hfit : FitBlock column.logicalType values) (hne : values ≠ [])
    (hdelivers : DeliversColumn decoder validity candidates streams)
    {descriptor : ColumnBlockDescriptor} (hlayout : descriptor.layout = layout) :
    Decodes (decoder.denseValues streams column descriptor values.length)
      (((Read.allowedKinds layout).tail.map (costOfKind column.logicalType streams)).sum +
        expansionCost column.logicalType layout values)
      ⟨column.logicalType.storedType, values⟩ := by
  rw [denseValues, hlayout]
  cases h with
  | plain held =>
    obtain ⟨stream, hholds⟩ := hdelivers.exists_holdsValues held (fun _ hin ↦ hin) (by decide)
      fun hfixed ↦ by rw [held.map_kind, hfixed]; decide
    have hdecodes := plain_decodes hholds hfit
    rw [hholds.cost_eq (fun _ _ _ ↦ rfl) (.inl rfl)] at hdecodes
    rw [if_pos rfl, expansionCost, if_pos rfl]
    refine hdecodes.congr ?_
    show _ = costOfKind _ _ _ + (costOfKind _ _ _ + 0) + 0
    omega
  | constant same held =>
    rw [if_neg (by decide), if_pos rfl, expansionCost, if_neg (by decide)]
    refine (constant_decodes hdelivers hfit same hne held).congr ?_
    show _ = costOfKind _ _ _ + (costOfKind _ _ _ + 0) + _
    omega
  | dictionary lookups used length_le _ packs held =>
    rw [if_neg (by decide), if_neg (by decide), if_pos rfl, expansionCost, if_neg (by decide)]
    refine (dictionary_decodes hdelivers hfit hne lookups used length_le packs held rfl).congr ?_
    show _ = costOfKind _ _ _ + (costOfKind _ _ _ + (costOfKind _ _ _ + 0)) + _
    omega
  | runLength expands positive length_eq packs held =>
    rw [if_neg (by decide), if_neg (by decide), if_neg (by decide), if_pos rfl, expansionCost,
      if_neg (by decide)]
    refine (runLength_decodes hdelivers hfit expands positive length_eq packs held rfl).congr ?_
    show _ = costOfKind _ _ _ + (costOfKind _ _ _ + (costOfKind _ _ _ + 0)) + _
    omega

end Decodes

end BlockDecoder

end Acta
