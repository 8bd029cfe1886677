import Acta.Representation
import Acta.RoundTrip.Dense
import Mathlib.Data.List.ReduceOption

/-!
# The raw encoding of a column

The raw encoding goes over the dense values of a column once and fills one buffer, or two for a type
that varies in width.  What it stores is what the candidates store for their raw encoding of the
same dense values (`rawValueStreams_eq_ok`), so everything known about the stored form of dense
values applies to it.
-/

namespace Acta

open Machine Wire Candidates

/-! ### Dense values -/

/-- Every value that is present has the representation a logical type calls for. -/
def LogicalType.Types (logicalType : LogicalType) (values : List (Option ScalarValue)) : Prop :=
  ∀ value, some value ∈ values → value.type = logicalType.arrayType

theorem LogicalArray.type_of_valueAt {array : LogicalArray} {row : ℕ} {value : ScalarValue}
    (h : array.valueAt row = some value) : value.type = array.type := by
  rw [valueAt] at h
  split at h
  · cases h
  · obtain ⟨stored, -, rfl⟩ := Option.map_eq_some_iff.mp h
    rfl

/-- The rows of a block of the schema have the types of their columns. -/
theorem BlockRows.Of.types {schema : Schema} {rows : BlockRows} (h : rows.Of schema)
    {column : Column} {index : ℕ} (hcolumn : schema.columns[index]? = some column) :
    column.logicalType.Types (rows.logical index) := by
  intro value hvalue
  obtain ⟨⟨array, row⟩, hrow, heq⟩ := List.mem_map.mp hvalue
  obtain ⟨held, hheld, hmem⟩ := List.mem_flatMap.mp hrow
  obtain ⟨position, -, hpair⟩ := List.mem_map.mp hmem
  cases hpair
  obtain ⟨chunk, hchunk, harray⟩ := List.mem_filterMap.mp hheld
  obtain ⟨declared, hdeclared, htype, -⟩ := (h chunk hchunk).column_eq_some hcolumn
  rw [hdeclared] at harray
  cases harray
  exact (LogicalArray.type_of_valueAt heq).trans htype

/-- The values that are present, each at its declared type. -/
theorem LogicalType.Types.exists_present {logicalType : LogicalType}
    {values : List (Option ScalarValue)} (h : logicalType.Types values) :
    ∃ present : List logicalType.arrayType.Value,
      values.reduceOption = present.map (ScalarValue.mk logicalType.arrayType) := by
  induction values with
  | nil => exact ⟨[], rfl⟩
  | cons value values ih =>
    obtain ⟨present, hpresent⟩ := ih fun other hother ↦ h other (List.mem_cons_of_mem _ hother)
    cases value with
    | none => exact ⟨present, hpresent⟩
    | some scalar =>
      obtain ⟨type, stored⟩ := scalar
      have htype : type = logicalType.arrayType := h ⟨type, stored⟩ List.mem_cons_self
      subst htype
      exact ⟨stored :: present, by rw [List.reduceOption_cons_of_some, hpresent, List.map_cons]⟩

namespace Write

section Dense

variable {column : Column} {rows : BlockRows} {index : ℕ}
  {present : List column.logicalType.arrayType.Value}

/-- **What the encoder is given are the values that are present**, in row order. -/
theorem denseValues_eq_reduceOption (column : Column) (rows : BlockRows) (index : ℕ) :
    denseValues column rows index (validityBits rows index) =
      (rows.logical index).reduceOption.map .ok := by
  have hdense (values : List (Option ScalarValue)) (missing : Error) :
      ((values.zip (values.map Option.isSome)).filter (·.2)).map
          (fun entry : Option ScalarValue × Bool ↦ okOr entry.1 missing) =
        values.reduceOption.map .ok := by
    induction values with
    | nil => rfl
    | cons value values ih =>
      cases value with
      | none => exact ih
      | some scalar => exact congrArg (.ok scalar :: ·) ih
  rw [denseValues_eq, validityBits_eq]
  exact hdense _ _

theorem denseValues_eq_present (h : (rows.logical index).reduceOption =
    present.map (ScalarValue.mk column.logicalType.arrayType)) :
    denseValues column rows index (validityBits rows index) =
      presentValues column.logicalType present := by
  rw [denseValues_eq_reduceOption, h, presentValues, List.map_map]
  rfl

/-- As many rows have a value as there are values. -/
theorem count_true_isSome {α : Type} (rows : List (Option α)) :
    (rows.map Option.isSome).count true = rows.reduceOption.length := by
  rw [List.reduceOption_length_eq, List.count, List.countP_map, List.countP_eq_length_filter]
  congr 2
  funext value
  cases value <;> rfl

theorem count_validityBits (h : (rows.logical index).reduceOption =
    present.map (ScalarValue.mk column.logicalType.arrayType)) :
    (validityBits rows index).count true = present.length := by
  rw [validityBits_eq, count_true_isSome, h, List.length_map]

theorem any_validityBits (h : (rows.logical index).reduceOption =
    present.map (ScalarValue.mk column.logicalType.arrayType)) :
    (validityBits rows index).any id = true ↔ present ≠ [] := by
  rw [List.any_eq_true, ← List.length_pos_iff, ← count_validityBits h, List.count_pos_iff]
  simp only [id_eq, exists_eq_right]

end Dense

/-! ### The buffers of the raw encoding -/

/-- The buffers once the raw encoding has gone over dense values. -/
def buffersOf (logicalType : LogicalType) (values : List logicalType.storedType.Value) :
    DenseBuffers :=
  match logicalType.prepared values with
  | .bool flags => { bools := flags }
  | .fixed _ _ bytes => { values := bytes }
  | .variableWidth bytes lengths => { variableValues := bytes, lengths := lengthBytes lengths }

theorem buffersOf_nil (logicalType : LogicalType) : buffersOf logicalType [] = {} := by
  cases logicalType <;> rfl

/-- One more dense value is stored after the others, if it fits its column. -/
theorem pushDense_eq_ok {column : Column} {values : List column.logicalType.storedType.Value}
    {value : column.logicalType.arrayType.Value} {next : DenseBuffers}
    (h : pushDense column (buffersOf column.logicalType values)
      (.ok ⟨column.logicalType.arrayType, value⟩) = .ok next) :
    column.logicalType.FitsKey
        (column.logicalType.storedType.key (column.logicalType.stored value)) ∧
      next = buffersOf column.logicalType (values ++ [column.logicalType.stored value]) := by
  obtain ⟨id, name, logicalType, nullable⟩ := column
  dsimp only at values value h ⊢
  have hdescribes := describes_arrayType logicalType
  have hkey := storedBytes_eq_key logicalType value
  rw [pushDense] at h
  obtain ⟨scalar, hscalar, h⟩ := bind_eq_ok.mp h
  cases hscalar
  obtain ⟨-, -, h⟩ := bind_eq_ok.mp h
  cases logicalType with
  | bool =>
    cases h
    refine ⟨trivial, ?_⟩
    simp only [buffersOf, LogicalType.prepared, LogicalType.shape, List.map_append]
    rfl
  | utf8 | categorical _ | binary =>
    obtain ⟨_, hlength, h⟩ := bind_eq_ok.mp h
    cases h
    rw [failIf_eq_ok, hkey, not_lt] at hlength
    refine ⟨hlength, ?_⟩
    simp only [buffersOf, LogicalType.prepared, LogicalType.shape, List.flatMap_append,
      List.map_append, List.flatMap_singleton, List.map_singleton, lengthBytes, hkey]
  | fixedBinary byteWidth =>
    obtain ⟨_, hwidth, h⟩ := bind_eq_ok.mp h
    cases h
    rw [failIf_eq_ok, hkey, not_not] at hwidth
    refine ⟨hwidth, ?_⟩
    simp only [buffersOf, LogicalType.prepared, LogicalType.shape, List.flatMap_append,
      List.flatMap_singleton, hkey]
  | integer _ | decimal _ _ | timestamp _ _ | date32 =>
    cases h
    refine ⟨IntType.length_toLeBytes _, ?_⟩
    simp only [buffersOf, LogicalType.prepared, LogicalType.shape, List.flatMap_append,
      List.flatMap_singleton, hkey]
  | float32 | float64 =>
    cases h
    refine ⟨length_leBytes _ _, ?_⟩
    simp only [buffersOf, LogicalType.prepared, LogicalType.shape, List.flatMap_append,
      List.flatMap_singleton, hkey]

/-- **The buffers hold the stored form of the dense values**, all of which fit their column. -/
theorem foldlM_pushDense_eq_ok {column : Column}
    {present : List column.logicalType.arrayType.Value} {final : DenseBuffers}
    (h : (presentValues column.logicalType present).foldlM (pushDense column) {} = .ok final) :
    (∀ value ∈ present.map column.logicalType.stored,
        column.logicalType.FitsKey (column.logicalType.storedType.key value)) ∧
      final = buffersOf column.logicalType (present.map column.logicalType.stored) := by
  -- The values stored so far stand in front of those to come.
  have hfold : ∀ (rest : List column.logicalType.arrayType.Value)
      (seen : List column.logicalType.storedType.Value),
      (presentValues column.logicalType rest).foldlM (pushDense column)
          (buffersOf column.logicalType seen) = .ok final →
        (∀ value ∈ rest.map column.logicalType.stored,
            column.logicalType.FitsKey (column.logicalType.storedType.key value)) ∧
          final = buffersOf column.logicalType (seen ++ rest.map column.logicalType.stored) := by
    intro rest
    induction rest with
    | nil =>
      intro seen hseen
      cases hseen
      exact ⟨by simp, by simp⟩
    | cons value rest ih =>
      intro seen hseen
      rw [presentValues, List.map_cons, List.foldlM_cons] at hseen
      obtain ⟨next, hnext, hrest⟩ := bind_eq_ok.mp hseen
      obtain ⟨hfits, rfl⟩ := pushDense_eq_ok hnext
      obtain ⟨hall, hfinal⟩ := ih _ hrest
      refine ⟨?_, by simpa using hfinal⟩
      rw [List.map_cons]
      exact List.forall_mem_cons.mpr ⟨hfits, hall⟩
  rw [← buffersOf_nil column.logicalType] at h
  exact hfold present [] h

theorem isVariableWidth_iff (logicalType : LogicalType) :
    isVariableWidth logicalType = true ↔ logicalType.shape = .variableWidth := by
  cases logicalType <;> simp [isVariableWidth, LogicalType.shape]

/-- **The raw encoding of a column stores what the raw candidate stores.**  A column without values
stores none. -/
theorem rawValueStreams_eq_ok {column : Column} {rows : BlockRows} {index : ℕ}
    {present : List column.logicalType.arrayType.Value} {streams : List CandidateStream}
    (hwidth : column.logicalType.HasWidth)
    (hpresent : (rows.logical index).reduceOption =
      present.map (ScalarValue.mk column.logicalType.arrayType))
    (h : rawValueStreams column rows index (validityBits rows index) = .ok streams) :
    (∀ value ∈ present.map column.logicalType.stored,
        column.logicalType.FitsKey (column.logicalType.storedType.key value)) ∧
      streams = if present = [] then [] else
        rawStreams (column.logicalType.prepared (present.map column.logicalType.stored)) := by
  rw [rawValueStreams] at h
  by_cases hnone : present = []
  · rw [if_neg fun hany ↦ (any_validityBits hpresent).mp hany hnone] at h
    cases h
    rw [if_pos hnone, hnone]
    exact ⟨fun _ hvalue ↦ (List.not_mem_nil hvalue).elim, rfl⟩
  rw [if_pos ((any_validityBits hpresent).mpr hnone)] at h
  obtain ⟨⟨values, lengths⟩, hencoded, h⟩ := bind_eq_ok.mp h
  rw [encodeDenseValues, denseValues_eq_present hpresent] at hencoded
  obtain ⟨buffers, hbuffers, hencoded⟩ := bind_eq_ok.mp hencoded
  obtain ⟨hfits, rfl⟩ := foldlM_pushDense_eq_ok hbuffers
  have hcount := count_prepared hwidth hfits
  rw [List.length_map] at hcount
  refine ⟨hfits, ?_⟩
  rw [if_neg hnone]
  rw [count_validityBits hpresent, ← hcount] at h
  rw [buffersOf] at hencoded
  -- The type says which buffers were filled, and so what was prepared.
  cases hshape : column.logicalType.shape with
  | bits =>
    have hbool : column.logicalType = .bool := by
      cases htype : column.logicalType <;> rw [htype] at hshape <;> cases hshape
    have hvariable : ¬isVariableWidth column.logicalType = true := by rw [hbool]; decide
    rw [if_neg hvariable, if_pos hbool] at hencoded
    rw [LogicalType.prepared, hshape] at hencoded h ⊢
    cases hencoded
    cases h
    rfl
  | fixed width signed =>
    have hbool : column.logicalType ≠ .bool := by
      rintro htype
      rw [htype] at hshape
      cases hshape
    have hvariable : ¬isVariableWidth column.logicalType = true := by
      rw [isVariableWidth_iff, hshape]
      exact LogicalType.Shape.noConfusion
    rw [if_neg hvariable, if_neg hbool] at hencoded
    rw [LogicalType.prepared, hshape] at hencoded h ⊢
    cases hencoded
    cases h
    rfl
  | variableWidth =>
    rw [if_pos ((isVariableWidth_iff _).mpr hshape)] at hencoded
    rw [LogicalType.prepared, hshape] at hencoded h ⊢
    cases hencoded
    cases h
    rfl

end Write

end Acta
