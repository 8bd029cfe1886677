import Acta.RoundTrip.Layouts
import Acta.Write.Selection
import Mathlib.Data.Bool.Count

/-!
# The streams selected for a column

Whatever policy selects the streams of a column, they are the streams of its validity and of a
layout that stands for its dense values (`selects_of_selectColumn`).  A column without values has
neither.
-/

namespace Acta

open Machine Wire Candidates BlockDecoder

namespace Write

/-! ### Validity -/

/-- The candidates hold a validity: nothing where every row is valid or none is, and otherwise one
stream that is read as its bits. -/
def HoldsValidity (bits : List Bool) (candidates : List CandidateStream) : Prop :=
  if isImplicit bits then candidates = [] else
    ∃ candidate, candidates = [candidate] ∧ candidate.kind = streamKindValidity ∧
      candidate.elementCount = bits.length ∧ ∀ what,
        Transform.booleans candidate.bytes bits.length candidate.transform what = .ok bits

section Validity

variable {bits : List Bool}

theorem booleans_raw (hcount : bits.length ≤ u32Max) (what : String) :
    Transform.booleans (packBits bits) bits.length transformRaw what = .ok bits := by
  refine rawBooleans_packBits ?_ what
  simp only [u32Max] at hcount
  simp only [u64Max]
  omega

theorem holdsValidity_raw (hcount : bits.length ≤ u32Max) :
    HoldsValidity bits (rawValidityStreams bits) := by
  rw [HoldsValidity, rawValidityStreams]
  split
  · rfl
  · exact ⟨_, rfl, rfl, rfl, booleans_raw hcount⟩

/-- A validity stream goes ahead of the streams of values. -/
theorem prependTo_eq_append (validity : Validity) (streams : List CandidateStream) :
    validity.prependTo streams = validity.prependTo [] ++ streams := by
  rw [Validity.prependTo, Validity.prependTo]
  cases validity.bytes <;> rfl

theorem isImplicit_nil : isImplicit [] = true := rfl

theorem prependTo_raw (bits : List Bool) :
    (Validity.raw bits).prependTo [] = rawValidityStreams bits := by
  by_cases himplicit : isImplicit bits = true
  · simp [Validity.prependTo, Validity.raw, rawValidityStreams, himplicit]
  · have hne : bits ≠ [] := by
      rintro rfl
      exact himplicit isImplicit_nil
    simp [Validity.prependTo, Validity.raw, rawValidityStreams, himplicit, hne]

/-- **The planned validity holds the bits**, raw or as runs. -/
theorem holdsValidity_plan (hcount : bits.length ≤ u32Max) {codec : WriterCodec}
    {validity : Validity} (h : Validity.plan bits codec = .ok validity) :
    HoldsValidity bits (validity.prependTo []) := by
  have hraw : HoldsValidity bits ((Validity.raw bits).prependTo []) := by
    rw [prependTo_raw]
    exact holdsValidity_raw hcount
  rw [Validity.plan] at h
  split at h
  · cases h
    exact hraw
  · rename_i rawBytes hbytes
    obtain ⟨rle, hrle, h⟩ := bind_eq_ok.mp h
    dsimp only at h
    split at h
    · cases h
      have hexplicit : ¬isImplicit bits = true := by
        intro himplicit
        rw [Validity.raw, himplicit, Bool.or_true, if_pos rfl] at hbytes
        cases hbytes
      rw [HoldsValidity, if_neg hexplicit]
      exact ⟨_, rfl, rfl, rfl, booleans_booleanRle hcount hrle⟩
    · cases h
      exact hraw

theorem HoldsValidity.kinds {candidates : List CandidateStream}
    (h : HoldsValidity bits candidates) :
    List.Sublist (candidates.map (·.kind)) [streamKindValidity] := by
  rw [HoldsValidity] at h
  split at h
  · rw [h]
    exact List.nil_sublist _
  · obtain ⟨candidate, rfl, hkind, -⟩ := h
    rw [List.map_singleton, hkind]

/-- No bit holds where every bit is false. -/
theorem all_not_iff {bits : List Bool} : bits.all (!·) = true ↔ bits.count true = 0 := by
  rw [List.count_eq_zero, List.all_eq_true]
  constructor
  · intro h hmem
    cases h true hmem
  · intro h bit hbit
    cases bit with
    | false => rfl
    | true => exact absurd hbit h

theorem isImplicit_of_count_true (h : bits.count true = 0) : isImplicit bits = true := by
  rw [isImplicit, all_not_iff.mpr h, Bool.or_true]

end Validity

/-! ### The selection -/

/-- Only what the writer offers is shortlisted. -/
theorem supports_of_mem_shortlist {logicalType : LogicalType} {values : PreparedValues}
    {profile : ValueProfile} {validity : Validity} {codec : WriterCodec} {entry : ℕ × ValueEncoding}
    (h : entry ∈ shortlist logicalType values profile validity codec) :
    supports logicalType entry.2 = true := by
  rw [shortlist, List.mem_mergeSort] at h
  obtain ⟨candidate, hcandidate, hentry⟩ := List.mem_filterMap.mp h
  obtain ⟨cost, -, rfl⟩ := Option.map_eq_some_iff.mp hentry
  exact decide_eq_true (List.mem_of_mem_filter (List.mem_of_mem_filter hcandidate))

/-- What is selected for a column: the stored streams of a validity and of a layout that stands for
the dense values. -/
structure Selects (zstd : Zstd) (codec : WriterCodec) (level : ℤ) (column : Column)
    (bits : List Bool) (values : List column.logicalType.storedType.Value)
    (validity candidates : List CandidateStream) (selected : SelectedColumn) : Prop where
  fits : FitBlock column.logicalType values
  stored : (validity ++ candidates).mapM (storeStream zstd codec level) = .ok selected.streams
  holdsValidity : HoldsValidity bits validity
  stands : values ≠ [] → Stands column.logicalType values selected.layout candidates
  absent : values = [] → candidates = [] ∧ selected.layout = columnLayoutPlain

theorem materializeSelected_eq_ok {zstd : Zstd} {layout : ℕ} {streams : List CandidateStream}
    {codec : WriterCodec} {level : ℤ} {selected : SelectedColumn} :
    materializeSelected zstd layout streams codec level = .ok selected ↔
      streams.mapM (storeStream zstd codec level) = .ok selected.streams ∧
        selected.layout = layout := by
  rw [materializeSelected, bind_eq_ok]
  constructor
  · rintro ⟨stored, hstored, h⟩
    cases h
    exact ⟨hstored, rfl⟩
  · rintro ⟨hstored, rfl⟩
    exact ⟨_, hstored, rfl⟩

section Selection

variable {zstd : Zstd} {codec : WriterCodec} {level : ℤ} {column : Column} {rows : BlockRows}
  {index : ℕ} {present : List column.logicalType.arrayType.Value} {selected : SelectedColumn}

/-- The dense values of the rows that are present. -/
def storedValues (column : Column) (present : List column.logicalType.arrayType.Value) :
    List column.logicalType.storedType.Value :=
  present.map column.logicalType.stored

@[simp] theorem length_storedValues : (storedValues column present).length = present.length :=
  List.length_map _

/-- A column of a block that can be encoded: its type has a width, and its rows are known. -/
structure Encodable (column : Column) (rows : BlockRows) (index : ℕ)
    (present : List column.logicalType.arrayType.Value) : Prop where
  hasWidth : column.logicalType.HasWidth
  present_eq : (rows.logical index).reduceOption =
    present.map (ScalarValue.mk column.logicalType.arrayType)
  rows_le : (rows.logical index).length ≤ defaultMaxRowsPerBlock

variable (h : Encodable column rows index present)
include h

theorem Encodable.length_bits_le : (validityBits rows index).length ≤ u32Max := by
  rw [validityBits_eq, List.length_map]
  exact h.rows_le.trans (by decide)

theorem Encodable.present_le : present.length ≤ defaultMaxRowsPerBlock := by
  have hlength := congrArg List.length h.present_eq
  rw [List.length_map] at hlength
  rw [← hlength]
  exact (List.reduceOption_length_le _).trans h.rows_le

theorem Encodable.fitBlock
    (hkeys : ∀ value ∈ storedValues column present,
      column.logicalType.FitsKey (column.logicalType.storedType.key value)) :
    FitBlock column.logicalType (storedValues column present) :=
  ⟨h.hasWidth, length_storedValues.trans_le h.present_le, hkeys⟩

theorem Encodable.count_true : (validityBits rows index).count true = present.length :=
  count_validityBits h.present_eq

/-- A column without values has no streams. -/
theorem Encodable.selects_absent (hnone : present = [])
    (hselected : materializeSelected zstd columnLayoutPlain [] codec level = .ok selected) :
    Selects zstd codec level column (validityBits rows index) (storedValues column present) [] []
      selected := by
  obtain ⟨hstored, hlayout⟩ := materializeSelected_eq_ok.mp hselected
  have himplicit : isImplicit (validityBits rows index) = true := by
    refine isImplicit_of_count_true ?_
    rw [h.count_true, hnone]
    rfl
  subst hnone
  exact ⟨h.fitBlock fun _ hvalue ↦ absurd hvalue List.not_mem_nil, hstored,
    by rw [HoldsValidity, if_pos himplicit], fun hne ↦ absurd rfl hne, fun _ ↦ ⟨rfl, hlayout⟩⟩

/-- **The raw encoding selects streams** that hold every value. -/
theorem Encodable.selects_raw
    (hselected : rawColumnCandidate zstd column rows index (validityBits rows index) codec level =
      .ok selected) :
    ∃ validity candidates, Selects zstd codec level column (validityBits rows index)
      (storedValues column present) validity candidates selected := by
  obtain ⟨streams, hstreams, hselected⟩ := bind_eq_ok.mp hselected
  obtain ⟨hkeys, hvalues⟩ := rawValueStreams_eq_ok h.hasWidth h.present_eq hstreams
  obtain ⟨hstored, hlayout⟩ := materializeSelected_eq_ok.mp hselected
  have hfit := h.fitBlock hkeys
  refine ⟨_, streams, hfit, hstored, holdsValidity_raw h.length_bits_le, fun hne ↦ ?_,
    fun hnone ↦ ?_⟩
  · have hpresent : present ≠ [] := fun hnil ↦ hne (by rw [hnil]; rfl)
    obtain ⟨candidate, hheld⟩ := held_rawStreams hfit
    rw [hlayout, hvalues, if_neg hpresent]
    exact .plain hheld
  · have hpresent : present = [] := List.map_eq_nil_iff.mp hnone
    rw [hvalues, if_pos hpresent]
    exact ⟨rfl, hlayout⟩

/-- What an encoding that the writer offers makes of the values is selected with a validity. -/
theorem Encodable.selects_encoded {prepared : PreparedValues} {profiled : ValueProfile}
    {encoding : ValueEncoding} {value : ValueCandidate} {validity : List CandidateStream}
    (hprepare : prepare column.logicalType (denseValues column rows index
      (validityBits rows index)) = .ok (prepared, profiled))
    (hne : present ≠ []) (hsupports : supports column.logicalType encoding = true)
    (hencode : encode column.logicalType prepared profiled encoding = .ok value)
    (hvalidity : HoldsValidity (validityBits rows index) validity)
    (hselected : materializeSelected zstd value.layout (validity ++ value.streams) codec level =
      .ok selected) :
    Selects zstd codec level column (validityBits rows index) (storedValues column present)
      validity value.streams selected := by
  rw [denseValues_eq_present h.present_eq] at hprepare
  obtain ⟨hkeys, rfl, rfl⟩ := prepare_eq_ok hprepare
  obtain ⟨hstored, hlayout⟩ := materializeSelected_eq_ok.mp hselected
  have hfit := h.fitBlock hkeys
  have hvalues : storedValues column present ≠ [] :=
    fun hnil ↦ hne (List.map_eq_nil_iff.mp hnil)
  refine ⟨hfit, hstored, hvalidity, fun _ ↦ ?_, fun hnil ↦ absurd hnil hvalues⟩
  rw [hlayout]
  exact stands_of_encode hfit hvalues hsupports hencode

theorem Encodable.present_eq_nil_iff :
    present = [] ↔ (validityBits rows index).count false = (validityBits rows index).length := by
  have hsum := List.count_true_add_count_false (validityBits rows index)
  have htrue := h.count_true
  rw [← List.length_eq_zero_iff]
  omega

/-- **The adaptive policy selects streams** that hold every value, whichever column it keeps. -/
theorem Encodable.selects_adaptive
    (hselected : adaptiveColumnCandidate zstd column rows index (validityBits rows index) codec
      level = .ok selected) :
    ∃ validity candidates, Selects zstd codec level column (validityBits rows index)
      (storedValues column present) validity candidates selected := by
  rw [adaptiveColumnCandidate] at hselected
  by_cases hnone : present = []
  · rw [if_pos (h.present_eq_nil_iff.mp hnone)] at hselected
    exact ⟨[], [], h.selects_absent hnone hselected⟩
  rw [if_neg fun hall ↦ hnone (h.present_eq_nil_iff.mpr hall)] at hselected
  obtain ⟨⟨prepared, profiled⟩, hprepare, hselected⟩ := bind_eq_ok.mp hselected
  obtain ⟨validity, hplan, hselected⟩ := bind_eq_ok.mp hselected
  obtain ⟨raw, hraw, hselected⟩ := bind_eq_ok.mp hselected
  let materialized := ((shortlist column.logicalType prepared profiled validity codec).take 2).map
    fun entry ↦
      materializeCandidate zstd column.logicalType prepared profiled validity codec level entry.2
  have hfold := foldl_chooseCheaper (storedColumnCost raw) materialized raw
  rw [List.foldl_map] at hfold
  have hresult : (made materialized).foldl
      (Ranking.better (Saves (storedColumnCost raw)) merit) raw = selected :=
    (congrArg Prod.snd hfold).symm.trans (Except.ok.inj hselected)
  rcases @Ranking.foldl_better_mem _ _ _ (Saves (storedColumnCost raw)) _ merit
    (made materialized) raw with hsame | ⟨hmem, -⟩
  · rw [hresult] at hsame
    exact h.selects_raw (hsame ▸ hraw)
  -- What is kept instead of the raw column is one of the encodings that are offered.
  rw [hresult, mem_made] at hmem
  obtain ⟨entry, hentry, hmaterialized⟩ := List.mem_map.mp hmem
  obtain ⟨value, hencode, hstored⟩ := bind_eq_ok.mp hmaterialized
  rw [prependTo_eq_append] at hstored
  exact ⟨_, _, h.selects_encoded hprepare hnone
    (supports_of_mem_shortlist (List.mem_of_mem_take hentry)) hencode
    (holdsValidity_plan h.length_bits_le hplan) hstored⟩

/-- **A fixed transform selects streams** that hold every value, where the writer offers it. -/
theorem Encodable.selects_fixed {transform : WriterTransform}
    (hsupports : supports column.logicalType (valueEncoding transform) = true)
    (hselected : fixedColumnCandidate zstd column rows index (validityBits rows index) transform
      codec level = .ok selected) :
    ∃ validity candidates, Selects zstd codec level column (validityBits rows index)
      (storedValues column present) validity candidates selected := by
  rw [fixedColumnCandidate] at hselected
  by_cases hnone : present = []
  · have hall : (validityBits rows index).all (!·) = true := by
      rw [all_not_iff, h.count_true, hnone]
      rfl
    rw [if_pos hall] at hselected
    exact ⟨[], [], h.selects_absent hnone hselected⟩
  have hall : ¬(validityBits rows index).all (!·) = true := by
    rw [all_not_iff, h.count_true]
    exact fun hzero ↦ hnone (List.eq_nil_of_length_eq_zero hzero)
  rw [if_neg hall] at hselected
  by_cases hraw : transform = .raw
  · rw [if_pos hraw] at hselected
    exact h.selects_raw hselected
  rw [if_neg hraw] at hselected
  obtain ⟨⟨prepared, profiled⟩, hprepare, hselected⟩ := bind_eq_ok.mp hselected
  obtain ⟨value, hencode, hselected⟩ := bind_eq_ok.mp hselected
  rw [mapError_eq_ok] at hprepare hencode
  rw [prependTo_eq_append] at hselected
  refine ⟨_, _, h.selects_encoded hprepare hnone hsupports hencode ?_ hselected⟩
  rw [prependTo_raw]
  exact holdsValidity_raw h.length_bits_le

/-- **Every policy selects streams** that hold every value of the column. -/
theorem selects_of_selectColumn {schema : Schema} {options : WriterOptions}
    (hencoding : validateEncoding schema options.encoding = .ok ())
    (hcolumn : column ∈ schema.columns)
    (hselected : selectColumn zstd column rows index (validityBits rows index) options =
      .ok selected) :
    ∃ validity candidates, Selects zstd options.codec options.zstdLevel column
      (validityBits rows index) (storedValues column present) validity candidates selected := by
  rw [selectColumn] at hselected
  cases hpolicy : options.encoding with
  | raw =>
    rw [hpolicy] at hselected
    exact h.selects_raw hselected
  | adaptive =>
    rw [hpolicy] at hselected
    exact h.selects_adaptive hselected
  | fixed transform =>
    rw [hpolicy] at hselected hencoding
    have hsupports := forM_eq_ok.mp hencoding column hcolumn
    rw [failIf_eq_ok, not_not] at hsupports
    exact h.selects_fixed hsupports hselected

end Selection

end Write

end Acta
