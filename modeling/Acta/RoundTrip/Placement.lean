import Acta.RoundTrip.Expansion
import Acta.RoundTrip.Selected

/-!
# Placing dense values

The last step of a decode puts the dense values of a column back into its rows.  From the validity
of the rows and the dense values that the encoder took out of them come back the same rows
(`rows_arrayOf`, `intoArray_decodes`), whatever stands in the rows without a value.
-/

namespace Acta

open Machine Wire Candidates

namespace LogicalType

variable (logicalType : LogicalType)

/-- What is left in a row without a value. -/
def fallback : (logicalType : LogicalType) → logicalType.arrayType.Value
  | .bool => false
  | .integer type => (default : type.Value)
  | .float32 => (0 : UInt32)
  | .float64 => (0 : UInt64)
  | .decimal _ _ => (default : IntType.int64.Value)
  | .timestamp _ _ => (default : IntType.int64.Value)
  | .utf8 => ""
  | .categorical _ => ""
  | .binary => ([] : Bytes)
  | .fixedBinary _ => ([] : Bytes)
  | .date32 => (default : IntType.int32.Value)

/-- The rows of a column, each with the value it has at the declared type. -/
abbrev Rows : Type := List (Option logicalType.arrayType.Value)

variable {logicalType}

/-- The scalars that rows show. -/
def Rows.scalars (rows : logicalType.Rows) : List (Option ScalarValue) :=
  rows.map (Option.map (ScalarValue.mk logicalType.arrayType))

/-- Which rows have a value. -/
def Rows.bits (rows : logicalType.Rows) : List Bool := rows.map Option.isSome

/-- The dense values of the rows. -/
def Rows.dense (rows : logicalType.Rows) : List logicalType.storedType.Value :=
  rows.reduceOption.map logicalType.stored

end LogicalType

/-- A validity is only kept where a row has no value. -/
def validityOf (bits : List Bool) : Option (List Bool) :=
  if bits.count false = 0 then none else some bits

/-- The array that rows are decoded into. -/
def arrayOf {logicalType : LogicalType} (rows : logicalType.Rows) : LogicalArray where
  type := logicalType.arrayType
  values := rows.map (·.getD logicalType.fallback)
  validity := validityOf rows.bits

section Rows

variable {logicalType : LogicalType} {rows : logicalType.Rows}

@[simp] theorem LogicalType.Rows.length_bits : rows.bits.length = rows.length :=
  List.length_map _

@[simp] theorem LogicalType.Rows.length_scalars : rows.scalars.length = rows.length :=
  List.length_map _

theorem LogicalType.Rows.count_true_bits : rows.bits.count true = rows.reduceOption.length :=
  Write.count_true_isSome rows

theorem LogicalType.Rows.isSome_scalars : rows.scalars.map Option.isSome = rows.bits := by
  rw [scalars, bits, List.map_map]
  refine List.map_congr_left fun value _ ↦ ?_
  cases value <;> rfl

theorem LogicalType.Rows.reduceOption_scalars : rows.scalars.reduceOption =
    rows.reduceOption.map (ScalarValue.mk logicalType.arrayType) := by
  induction rows with
  | nil => rfl
  | cons value rows ih =>
    cases value with
    | none => exact ih
    | some value => exact congrArg (ScalarValue.mk logicalType.arrayType value :: ·) ih

/-- Where every row has a value, the rows are their values. -/
theorem map_some_reduceOption {α : Type} {rows : List (Option α)}
    (h : (rows.map Option.isSome).count false = 0) : rows = rows.reduceOption.map some := by
  induction rows with
  | nil => rfl
  | cons value rows ih =>
    cases value with
    | none => simp at h
    | some value =>
      rw [List.map_cons, List.count_cons] at h
      rw [List.reduceOption_cons_of_some, List.map_cons, ← ih (by omega)]

theorem isNull_arrayOf {index : ℕ} (h : index < rows.length) :
    (arrayOf rows).isNull index = !rows[index].isSome := by
  show isNullAt (validityOf rows.bits) index = _
  rw [validityOf]
  split
  · rename_i hall
    have hmem : rows[index] ∈ rows.reduceOption.map some :=
      map_some_reduceOption hall ▸ List.getElem_mem h
    obtain ⟨value, -, hvalue⟩ := List.mem_map.mp hmem
    rw [← hvalue]
    rfl
  · rw [isNullAt, Option.any_some, LogicalType.Rows.bits, List.getElem?_map,
      List.getElem?_eq_getElem h]
    cases rows[index] <;> rfl

theorem valueAt_arrayOf {index : ℕ} (h : index < rows.length) :
    (arrayOf rows).valueAt index =
      rows[index].map (ScalarValue.mk logicalType.arrayType) := by
  have hvalue : (rows.map (Option.getD · logicalType.fallback))[index]? =
      some (rows[index].getD logicalType.fallback) := by
    rw [List.getElem?_map, List.getElem?_eq_getElem h]
    rfl
  rw [LogicalArray.valueAt, isNull_arrayOf h]
  show (if _ then none else ((rows.map (Option.getD · logicalType.fallback))[index]?).map _) = _
  rw [hvalue]
  cases rows[index] <;> rfl

theorem len_arrayOf : (arrayOf rows).len = rows.length :=
  List.length_map _

/-- **The array shows the rows** it is made from. -/
theorem rows_arrayOf : (arrayOf rows).rows = rows.scalars := by
  refine List.ext_getElem ?_ fun index hindex hrow ↦ ?_
  · rw [LogicalArray.length_rows, len_arrayOf, LogicalType.Rows.length_scalars]
  · rw [LogicalType.Rows.length_scalars] at hrow
    simp only [LogicalArray.rows, LogicalType.Rows.scalars, List.getElem_map, List.getElem_range]
    exact valueAt_arrayOf hrow

/-- A value that is present is of the declared type, so rows of scalars are rows of values. -/
theorem LogicalType.Types.exists_rows {values : List (Option ScalarValue)}
    (h : logicalType.Types values) : ∃ rows : logicalType.Rows, rows.scalars = values := by
  induction values with
  | nil => exact ⟨[], rfl⟩
  | cons value values ih =>
    obtain ⟨rows, hrows⟩ := ih fun other hother ↦ h other (List.mem_cons_of_mem _ hother)
    cases value with
    | none => exact ⟨none :: rows, congrArg (none :: ·) hrows⟩
    | some scalar =>
      obtain ⟨type, stored⟩ := scalar
      have htype : type = logicalType.arrayType := h ⟨type, stored⟩ List.mem_cons_self
      subst htype
      exact ⟨some stored :: rows,
        congrArg (some (ScalarValue.mk logicalType.arrayType stored) :: ·) hrows⟩

end Rows

/-! ### Placing -/

section Placing

variable {column : Column} {rows : column.logicalType.Rows}

/-- Dense values go back to the rows they were taken from. -/
theorem placeRows_eq {α β : Type} {stored : β → α} {convert : α → Result β}
    (h : ∀ value, convert (stored value) = .ok value) (fallback : β) (rows : List (Option β)) :
    Read.placeRows column fallback convert (rows.map Option.isSome)
        (rows.reduceOption.map stored) = .ok (rows.map (·.getD fallback)) := by
  induction rows with
  | nil => rfl
  | cons value rows ih =>
    cases value with
    | none =>
      show (Read.placeRows column fallback convert (rows.map Option.isSome)
        (rows.reduceOption.map stored) >>= _) = _
      rw [ih, ok_bind]
      rfl
    | some value =>
      show (convert (stored value) >>= fun value ↦ Read.placeRows column fallback convert
        (rows.map Option.isSome) (rows.reduceOption.map stored) >>= _) = _
      rw [h, ok_bind, ih, ok_bind]
      rfl

theorem place_eq {α β : Type} {stored : β → α} {convert : α → Result β}
    (h : ∀ value, convert (stored value) = .ok value) (fallback : β) (rows : List (Option β)) :
    Read.place column fallback convert (rows.reduceOption.map stored)
        (rows.map Option.isSome) = .ok (rows.map (·.getD fallback)) := by
  rw [Read.place, failIf_neg (by rw [List.length_map, Write.count_true_isSome, not_not]), ok_bind,
    placeRows_eq h]

/-- Where every row has a value, the values are the rows. -/
theorem map_getD_of_all {β : Type} {fallback : β} {rows : List (Option β)}
    (h : (rows.map Option.isSome).count false = 0) :
    rows.map (·.getD fallback) = rows.reduceOption := by
  conv_lhs => rw [map_some_reduceOption h]
  rw [List.map_map]
  exact List.map_id _

theorem length_reduceOption_of_all {β : Type} {rows : List (Option β)}
    (h : (rows.map Option.isSome).count false = 0) : rows.reduceOption.length = rows.length := by
  conv_rhs => rw [map_some_reduceOption h]
  rw [List.length_map]

theorem scatter_eq {β : Type} {stored : β → β} (h : ∀ value, stored value = value) (fallback : β)
    (rows : List (Option β)) :
    Read.scatter column fallback (rows.reduceOption.map stored)
        (validityOf (rows.map Option.isSome)) rows.length =
      .ok (rows.map (·.getD fallback)) := by
  have hstored : rows.reduceOption.map stored = rows.reduceOption := by
    rw [List.map_congr_left fun value _ ↦ h value, List.map_id']
  rw [validityOf]
  split
  · rename_i hall
    have hlength := length_reduceOption_of_all hall
    rw [hstored, Read.scatter, failIf_neg (by rw [hlength, not_not]), ok_bind, pure_eq_ok,
      map_getD_of_all hall]
  · exact place_eq (fun value ↦ congrArg Except.ok (h value)) fallback rows

theorem intoText_eq (rows : List (Option String)) :
    Read.intoText column (rows.reduceOption.map utf8Bytes) (validityOf (rows.map Option.isSome))
      rows.length = .ok (rows.map (·.getD "")) := by
  have htext (text : String) : Read.asText column (utf8Bytes text) = .ok text := by
    rw [Read.asText, utf8Decode_utf8Bytes, okOr]
  rw [validityOf]
  split
  · rename_i hall
    have hlength := length_reduceOption_of_all hall
    rw [Read.intoText, failIf_neg (by rw [List.length_map, hlength, not_not]), ok_bind,
      map_getD_of_all hall, List.mapM_map]
    refine mapM_eq_ok.mpr ?_
    rw [List.forall₂_same]
    exact fun text _ ↦ htext text
  · exact place_eq htext "" rows

/-- **The values of the array** are the dense values, each in its row. -/
theorem positions_eq (column : Column) {logicalType : LogicalType} (rows : logicalType.Rows) :
    Read.positions column (validityOf rows.bits) rows.length logicalType rows.dense =
      .ok (rows.map (·.getD logicalType.fallback)) := by
  cases logicalType with
  | utf8 | categorical _ => exact intoText_eq rows
  | _ => exact scatter_eq (fun _ ↦ rfl) _ rows

/-- The decoded bytes that putting dense values into their rows asks for. -/
def placementCost (column : Column) (rows : column.logicalType.Rows) : ℕ :=
  if Read.movesIntoPlace column (validityOf rows.bits) then 0
  else rows.length * DenseValues.slotBytes ⟨column.logicalType.storedType, rows.dense⟩

theorem slotBytes_le (dense : DenseValues) : dense.slotBytes ≤ Read.valueHandleBytes := by
  rw [DenseValues.slotBytes]
  split
  · decide
  · exact (IntType.width_le _).trans (by decide)
  · decide
  · decide
  · decide

/-- **Dense values are put into the rows they came from.** -/
theorem intoArray_decodes (hrows : rows.length ≤ defaultMaxRowsPerBlock) :
    Decodes (DenseValues.intoArray ⟨column.logicalType.storedType, rows.dense⟩ column
        (validityOf rows.bits) rows.length)
      (placementCost column rows) (arrayOf rows) := by
  have hbitmap : ¬(validityOf rows.bits).any (·.length ≠ rows.length) = true := by
    rw [validityOf]
    split
    · exact Bool.false_ne_true
    · simp
  have hbuild : Read.buildArray column ⟨column.logicalType.storedType, rows.dense⟩
      (validityOf rows.bits) rows.length = .ok (arrayOf rows) := by
    rw [Read.buildArray, dif_pos rfl, positions_eq, ok_bind]
    rfl
  have hplace : Decodes (liftM (failIf ((validityOf rows.bits).any (·.length ≠ rows.length) = true)
      (Read.corrupt column "validity bitmap has the wrong row count")) >>= fun _ ↦
        liftM (Read.buildArray column ⟨column.logicalType.storedType, rows.dense⟩
          (validityOf rows.bits) rows.length)) 0 (arrayOf rows) :=
    .lift_bind (failIf_neg hbitmap) (Metered.costs_lift hbuild)
  rw [DenseValues.intoArray, placementCost]
  by_cases hmoves : Read.movesIntoPlace column (validityOf rows.bits) = true
  · rw [if_pos hmoves, if_pos hmoves]
    exact hplace
  · rw [if_neg hmoves, if_neg hmoves]
    have hcharge := decodes_chargeElements (mul_le_u64Max hrows
      ((slotBytes_le ⟨column.logicalType.storedType, rows.dense⟩).trans (by decide)))
    refine .congr (.bind hcharge ?_) (Nat.add_zero _)
    exact hplace

end Placing

/-! ### Validity -/

theorem Write.isImplicit_iff {bits : List Bool} :
    Write.isImplicit bits = true ↔ bits.count false = 0 ∨ bits.count true = 0 := by
  have hall : bits.all id = true ↔ bits.count false = 0 := by
    rw [List.count_eq_zero, List.all_eq_true]
    constructor
    · intro h hmem
      cases h false hmem
    · intro h bit hbit
      cases bit with
      | true => rfl
      | false => exact absurd hbit h
  rw [Write.isImplicit, Bool.or_eq_true, hall, Write.all_not_iff]

/-- What the descriptor of a column says about which of its rows have a value. -/
structure DescribesRows (column : Column) (bits : List Bool) (descriptor : ColumnBlockDescriptor) :
    Prop where
  nullCount : descriptor.nullCount = bits.count false
  denseCount : descriptor.denseCount = bits.count true
  implicit : descriptor.flags &&& columnImplicitValidityFlag ≠ 0 ↔
    column.nullable = true ∧ Write.isImplicit bits = true

/-- The decoded bytes that reading a validity asks for. -/
def validityCost (logicalType : LogicalType) (streams : List StreamDescriptor)
    (bits : List Bool) : ℕ :=
  costOfKind logicalType streams streamKindValidity +
    if bits.count true = 0 then bits.length else 0

namespace BlockDecoder

section Validity

variable {decoder : BlockDecoder} {column : Column} {streams : List StreamDescriptor}
  {validity candidates : List CandidateStream} {bits : List Bool}
  {descriptor : ColumnBlockDescriptor}

/-- A column with an implicit validity stores no validity stream. -/
theorem DeliversColumn.filter_validity (h : DeliversColumn decoder validity candidates streams)
    (hnone : validity = []) : streams.filter (·.kind = streamKindValidity) = [] := by
  refine filter_kind_of_notMem h.delivers ?_
  rw [hnone, List.nil_append]
  exact (List.nodup_cons.mp h.nodup).1

theorem implicitValidity_decodes (hdescribes : DescribesRows column bits descriptor)
    (himplicit : Write.isImplicit bits = true) (hrows : bits.length ≤ defaultMaxRowsPerBlock) :
    Decodes (implicitValidity column descriptor none bits.length)
      (if bits.count true = 0 then bits.length else 0) (validityOf bits) := by
  have hsum := List.count_true_add_count_false bits
  refine .lift_bind (failIf_neg Bool.false_ne_true) ?_
  rw [hdescribes.nullCount, validityOf]
  by_cases hall : bits.count false = 0
  · rw [if_pos hall, if_pos hall]
    refine (Metered.costs_pure none).congr ?_
    split <;> omega
  · have hnone : bits.count true = 0 := (Write.isImplicit_iff.mp himplicit).resolve_left hall
    have hbits : bits = List.replicate bits.length false := by
      refine List.eq_replicate_of_mem fun bit hbit ↦ ?_
      cases bit with
      | false => rfl
      | true => exact absurd hbit (List.count_eq_zero.mp hnone)
    rw [if_neg hall, if_neg hall, if_pos hnone]
    have hcharge := decodes_chargeElements (mul_le_u64Max hrows (show 1 ≤ 2 ^ 33 by decide))
    have hplain := hcharge.map fun _ ↦ some (List.replicate bits.length false)
    rw [← hbits, Nat.mul_one] at hplain
    rw [← hbits]
    exact .lift_bind (failIf_neg (by omega)) hplain

theorem storedValidity_decodes (hdescribes : DescribesRows column bits descriptor)
    {candidate : CandidateStream} {stream : StreamDescriptor}
    (hdelivers : decoder.Delivers candidate stream) (hcount : candidate.elementCount = bits.length)
    (hread : ∀ what,
      Transform.booleans candidate.bytes bits.length candidate.transform what = .ok bits)
    (hrows : bits.length ≤ defaultMaxRowsPerBlock) :
    Decodes (decoder.storedValidity column descriptor stream bits.length)
      (stream.readCost + bits.length * 9) (some bits) := by
  have helements : stream.elementCount = bits.length := hdelivers.elementCount.trans hcount
  have hexpect : Read.expectElements stream bits.length column = .ok () :=
    failIf_neg (by rw [helements, not_not])
  have hbits := hread (Read.description column "validity")
  rw [← hdelivers.transform, ← helements] at hbits
  have hcharge : Decodes (Read.chargeBooleans bits.length) (bits.length * 9) () :=
    decodes_chargeElements (mul_le_u64Max hrows (show 9 ≤ 2 ^ 33 by decide))
  have hchecked : failIf (bits.count false ≠ descriptor.nullCount) (Read.corrupt column
      "the validity stream does not match the declared null count") = .ok () :=
    failIf_neg (by rw [hdescribes.nullCount, not_not])
  exact .lift_bind hexpect ((hdelivers.bytes column).bind (.congr (.bind hcharge (.lift_bind hbits
    (.lift_bind hchecked (Metered.costs_pure _)))) (Nat.add_zero _)))

/-- **The validity of a column is read back**, whether or not a stream is stored for it. -/
theorem validity_decodes (h : DeliversColumn decoder validity candidates streams)
    (holds : Write.HoldsValidity bits validity) (hdescribes : DescribesRows column bits descriptor)
    (hnullable : column.nullable = false → bits.count false = 0)
    (hrows : bits.length ≤ defaultMaxRowsPerBlock) :
    Decodes (decoder.validity streams column descriptor bits.length)
      (validityCost column.logicalType streams bits) (validityOf bits) := by
  rw [Write.HoldsValidity] at holds
  rw [BlockDecoder.validity, validityCost]
  split at holds
  · rename_i himplicit
    have hfilter := h.filter_validity holds
    have hfind : Read.findStream streams streamKindValidity column = .ok none := by
      rw [Read.findStream, hfilter]
    rw [costOfKind_eq_zero hfilter, Nat.zero_add]
    refine .lift_bind hfind ?_
    by_cases hcolumn : column.nullable = true
    · rw [if_neg (not_not.mpr hcolumn), if_pos (hdescribes.implicit.mpr ⟨hcolumn, himplicit⟩)]
      exact implicitValidity_decodes hdescribes himplicit hrows
    · have hall := hnullable (Bool.eq_false_iff.mpr hcolumn)
      have hsum := List.count_true_add_count_false bits
      have hplain : ¬(descriptor.nullCount ≠ 0 ∨
          (none : Option StreamDescriptor).isSome = true) := by
        rw [hdescribes.nullCount, hall]
        simp
      rw [if_pos hcolumn, validityOf, if_pos hall]
      refine .lift_bind (failIf_neg hplain) ((Metered.costs_pure none).congr ?_)
      split <;> omega
  · -- Some rows have a value and some have none, so the column is nullable.
    rename_i hexplicit
    obtain ⟨candidate, rfl, hkind, hcount, hread⟩ := holds
    rw [Write.isImplicit_iff, not_or] at hexplicit
    obtain ⟨hsome, hpresent⟩ := hexplicit
    have hcolumn : column.nullable = true := by
      by_contra hcolumn
      exact hsome (hnullable (Bool.eq_false_iff.mpr hcolumn))
    have hflag : ¬descriptor.flags &&& columnImplicitValidityFlag ≠ 0 := by
      rw [hdescribes.implicit, Write.isImplicit_iff]
      rintro ⟨-, himplicit⟩
      exact himplicit.elim hsome hpresent
    obtain ⟨stream, hfinds, hdelivers⟩ := finds_of_forall₂ h.delivers h.nodup_kinds
      (List.mem_append_left _ List.mem_cons_self)
    rw [hkind] at hfinds
    have hcost : costOfKind column.logicalType streams streamKindValidity +
        (if bits.count true = 0 then bits.length else 0) = stream.readCost + bits.length * 9 := by
      rw [if_neg hpresent, hfinds.costOfKind_eq, StreamDescriptor.decodeCost, hfinds.kind_eq,
        hdelivers.elementCount, hcount]
      rfl
    rw [hcost, validityOf, if_neg hsome]
    refine .lift_bind (hfinds.findStream_eq column) ?_
    rw [if_neg (not_not.mpr hcolumn), if_neg hflag]
    exact storedValidity_decodes hdescribes hdelivers hcount hread hrows

end Validity

end BlockDecoder

end Acta
