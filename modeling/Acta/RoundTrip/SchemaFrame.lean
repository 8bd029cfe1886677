import Acta.Format.SchemaFrame
import Acta.RoundTrip.Framing
import Acta.Write.Input

/-!
# The schema is read back

The schema frame the writer builds of a valid schema is parsed to that schema
(`parse_buildSchemaFrame`): its logical types from their IDs and parameters, each column from its
descriptor, the columns in order, and the primary selection from the header.
-/

namespace Acta

open Machine Wire

namespace Write

theorem readExactAt_of_holdsAt {file bytes : Bytes} {offset : ℕ} (h : HoldsAt file offset bytes) :
    readExactAt file offset bytes.length = .ok bytes := by
  rw [readExactAt_of_le h.fits, h.slice_eq]

/-! ### Logical types -/

theorem timeUnitOf_timeUnitCode (unit : TimeUnit) (offset : ℕ) :
    SchemaFrame.timeUnitOf (timeUnitCode unit) offset = .ok unit := by
  cases unit <;> rfl

theorem utf8Bytes_eq_nil {text : String} : utf8Bytes text = [] ↔ text = "" := by
  constructor
  · intro h
    exact utf8Bytes_injective h
  · rintro rfl
    rfl

theorem timeZoneOf_timeZoneModeAndName {timezone : TimeZone} {mode : ℕ} {name : String}
    (h : timeZoneModeAndName timezone = .ok (mode, name)) (offset : ℕ) :
    SchemaFrame.timeZoneOf mode (utf8Bytes name) offset = .ok timezone := by
  cases timezone with
  | naive =>
    cases h
    rfl
  | utc =>
    cases h
    rfl
  | iana stored =>
    simp only [timeZoneModeAndName, bind_eq_ok, failIf_eq_ok, pure_eq_ok, Except.ok.injEq,
      Prod.mk.injEq] at h
    obtain ⟨-, hname, rfl, rfl⟩ := h
    have hne : (utf8Bytes stored).length ≠ 0 := by
      rw [Ne, List.length_eq_zero_iff, utf8Bytes_eq_nil]
      exact hname
    rw [SchemaFrame.timeZoneOf, if_neg (by simp), if_neg (by simp), if_pos ⟨rfl, hne⟩,
      utf8Decode_utf8Bytes]
    rfl

theorem mode_lt_of_timeZoneModeAndName {timezone : TimeZone} {mode : ℕ} {name : String}
    (h : timeZoneModeAndName timezone = .ok (mode, name)) : mode < 256 ^ 1 := by
  cases timezone with
  | naive =>
    cases h
    decide
  | utc =>
    cases h
    decide
  | iana stored =>
    obtain ⟨-, -, h⟩ := bind_eq_ok.mp h
    cases h
    decide

/-- Padding appends zeros up to the next multiple of the alignment. -/
theorem padToAlignment_eq (bytes : Bytes) : ∃ padding,
    padToAlignment bytes = bytes ++ zeros padding ∧
      bytes.length + padding = (bytes.length + 7) / 8 * 8 := by
  unfold padToAlignment
  dsimp only [frameAlignment]
  split
  · exact ⟨_, rfl, by omega⟩
  · exact ⟨0, by simp [zeros], by omega⟩

theorem length_padToAlignment (bytes : Bytes) :
    (padToAlignment bytes).length = (bytes.length + 7) / 8 * 8 := by
  obtain ⟨padding, hpad, hlength⟩ := padToAlignment_eq bytes
  rw [hpad, List.length_append, length_zeros, hlength]

theorem checkedNextMultipleOf_eq {n : ℕ} (h : n + 7 ≤ u64Max) :
    SchemaFrame.checkedNextMultipleOf n SchemaFrame.parameterAlignment =
      some ((n + 7) / 8 * 8) := by
  have halignment : SchemaFrame.parameterAlignment = 8 := rfl
  rw [SchemaFrame.checkedNextMultipleOf, halignment]
  split
  · rw [Option.some.injEq]
    omega
  · rw [checkedAdd_of_le (by omega), Option.some.injEq]
    omega

theorem parseTimestamp_padToAlignment {unit : TimeUnit} {timezone : TimeZone} {mode : ℕ}
    {name : String} (h : timeZoneModeAndName timezone = .ok (mode, name))
    (hname : (utf8Bytes name).length ≤ u32Max) (offset : ℕ) (invalidLength : Error) :
    SchemaFrame.parseTimestamp (padToAlignment (leBytes 1 (timeUnitCode unit) ++ leBytes 1 mode ++
      zeros 2 ++ leBytes 4 (utf8Bytes name).length ++ utf8Bytes name)) offset invalidLength =
        .ok (.timestamp unit timezone) := by
  have hmode := mode_lt_of_timeZoneModeAndName h
  have hcode : timeUnitCode unit < 256 ^ 1 := by cases unit <;> decide
  have hlength : (utf8Bytes name).length < 256 ^ 4 := by
    simp only [u32Max] at hname
    omega
  obtain ⟨padding, hpad, hpadding⟩ := padToAlignment_eq (leBytes 1 (timeUnitCode unit) ++
    leBytes 1 mode ++ zeros 2 ++ leBytes 4 (utf8Bytes name).length ++ utf8Bytes name)
  have hcontent : (leBytes 1 (timeUnitCode unit) ++ leBytes 1 mode ++ zeros 2 ++
      leBytes 4 (utf8Bytes name).length ++ utf8Bytes name).length =
        8 + (utf8Bytes name).length := by
    simp only [List.length_append, length_leBytes, length_zeros]
  rw [hcontent] at hpadding
  rw [hpad]
  generalize hparameters : leBytes 1 (timeUnitCode unit) ++ leBytes 1 mode ++ zeros 2 ++
    leBytes 4 (utf8Bytes name).length ++ utf8Bytes name ++ zeros padding = parameters
  have htotal : parameters.length = 8 + (utf8Bytes name).length + padding := by
    rw [← hparameters, List.length_append, hcontent, length_zeros]
  have hu : parameters.length ≤ u64Max := by
    simp only [u32Max] at hname
    simp only [u64Max]
    omega
  have hunit : leNat (slice parameters 0 1) = timeUnitCode unit := by
    rw [← hparameters]
    simp [slice_field, leNat_leBytes_of_lt hcode]
  have hmodeAt : leNat (slice parameters 1 1) = mode := by
    rw [← hparameters]
    simp [slice_append_right', slice_field, leNat_leBytes_of_lt hmode]
  have hlengthAt : leNat (slice parameters 4 4) = (utf8Bytes name).length := by
    rw [← hparameters]
    simp [slice_append_right', slice_field, leNat_leBytes_of_lt hlength]
  have hnameAt : slice parameters 8 (utf8Bytes name).length = utf8Bytes name := by
    rw [← hparameters]
    simp [slice_append_right', slice_field]
  have hread : Cursor.readUInt 1 "timestamp unit" (Cursor.new parameters offset) =
      .ok (timeUnitCode unit, ⟨parameters, 1, offset⟩) := by
    rw [← bind_pure (Cursor.readUInt 1 "timestamp unit"), Cursor.new,
      Cursor.readUInt_bind (by omega) hu, hunit]
    rfl
  have hrest : (do
      let mode ← Cursor.readUInt 1 "timestamp timezone mode"
      let _ ← Cursor.readU16 "timestamp reserved field"
      let length ← Cursor.readU32 "timezone name length"
      return (mode, length) : CursorM (ℕ × ℕ)).run' ⟨parameters, 1, offset⟩ =
        .ok (mode, (utf8Bytes name).length) := by
    simp (disch := first | assumption | omega) only [StateT.run', Cursor.readU16, Cursor.readU32,
      Cursor.readUInt_bind, hmodeAt, hlengthAt]
    rfl
  have hroom : 8 + (utf8Bytes name).length + 7 ≤ u64Max := by
    simp only [u32Max] at hname
    simp only [u64Max]
    omega
  have hnext := checkedNextMultipleOf_eq hroom
  rw [SchemaFrame.parseTimestamp, failIf_neg (by
      simp only [SchemaFrame.timestampParameterPrefixSize]
      omega), ok_bind, hread]
  simp only [ok_bind, timeUnitOf_timeUnitCode, hrest, SchemaFrame.timestampParameterPrefixSize]
  rw [checkedAdd_of_le (by omega)]
  simp only [okOr, ok_bind, hnext, hnameAt, timeZoneOf_timeZoneModeAndName h]
  rw [failIf_neg (by omega)]
  rfl

theorem parseDecimal_parameters {precision : UInt16} (scale : Int16)
    (h : 1 ≤ precision.toNat ∧ precision.toNat ≤ 18) (offset : ℕ) (invalidLength : Error) :
    SchemaFrame.parseDecimal (leBytes 2 precision.toNat ++ leBytes 2 scale.toUInt16.toNat ++
      leBytes 4 0) offset invalidLength = .ok (.decimal precision scale) := by
  generalize hparameters : leBytes 2 precision.toNat ++ leBytes 2 scale.toUInt16.toNat ++
    leBytes 4 0 = parameters
  have hlength : parameters.length = 8 := by
    rw [← hparameters]
    simp
  have hu : parameters.length ≤ u64Max := by rw [hlength]; decide
  have hprecision : leNat (slice parameters 0 2) = precision.toNat := by
    rw [← hparameters]
    simp [slice_field]
  have hscale : leNat (slice parameters 2 2) = scale.toUInt16.toNat := by
    rw [← hparameters]
    simp only [length_leBytes, slice_append_right', slice_field, List.append_assoc, Nat.sub_self,
      leNat_leBytes_uint16, Nat.le_refl]
  have hread : (do
      let precision ← Cursor.readU16 "decimal precision"
      let scale ← Cursor.readU16 "decimal scale"
      let _ ← Cursor.readU32 "decimal reserved field"
      return (precision, scale) : CursorM (ℕ × ℕ)).run' (Cursor.new parameters offset) =
        .ok (precision.toNat, scale.toUInt16.toNat) := by
    simp (disch := first | assumption | omega) only [StateT.run', Cursor.new, Cursor.readU16,
      Cursor.readU32, Cursor.readUInt_bind, hprecision, hscale]
    rfl
  rw [SchemaFrame.parseDecimal, failIf_neg (by simp [hlength, SchemaFrame.decimalParameterSize]),
    ok_bind, hread]
  simp only [ok_bind]
  rw [failIf_neg (not_not.mpr h)]
  simp

theorem parseFixedBinary_parameters {byteWidth : UInt32} (h : byteWidth ≠ 0) (offset : ℕ)
    (invalidLength : Error) :
    SchemaFrame.parseFixedBinary (leBytes 4 byteWidth.toNat ++ leBytes 4 0) offset invalidLength =
      .ok (.fixedBinary byteWidth) := by
  generalize hparameters : leBytes 4 byteWidth.toNat ++ leBytes 4 0 = parameters
  have hlength : parameters.length = 8 := by
    rw [← hparameters]
    simp
  have hu : parameters.length ≤ u64Max := by rw [hlength]; decide
  have hwidth : leNat (slice parameters 0 4) = byteWidth.toNat := by
    rw [← hparameters]
    simp [slice_field]
  have hread : (do
      let width ← Cursor.readU32 "fixed_binary byte width"
      let _ ← Cursor.readU32 "fixed_binary reserved field"
      return width : CursorM ℕ).run' (Cursor.new parameters offset) = .ok byteWidth.toNat := by
    simp (disch := first | assumption | omega) only [StateT.run', Cursor.new, Cursor.readU32,
      Cursor.readUInt_bind, hwidth]
    rfl
  have hne : byteWidth.toNat ≠ 0 := by
    rwa [Ne, ← UInt32.toNat_zero, UInt32.toNat_inj]
  rw [SchemaFrame.parseFixedBinary,
    failIf_neg (by simp [hlength, SchemaFrame.fixedBinaryParameterSize]), ok_bind, hread, ok_bind,
    failIf_neg hne]
  simp

theorem parseCategorical_parameters (ordered : Bool) (offset : ℕ) (invalidLength : Error) :
    SchemaFrame.parseCategorical (leBytes 1 ordered.toNat ++ zeros 7) offset invalidLength =
      .ok (.categorical ordered) := by
  cases ordered <;> rfl

/-- **A logical type is read back** from its ID and its parameters. -/
theorem parseType_of_typeIdAndParameters {logicalType : LogicalType} {typeId : ℕ}
    {parameters : Bytes} (h : typeIdAndParameters logicalType = .ok (typeId, parameters))
    (parametersOffset descriptorOffset : ℕ) :
    SchemaFrame.parseType typeId parameters parametersOffset descriptorOffset =
      .ok logicalType := by
  cases logicalType with
  | bool | float32 | float64 | utf8 | binary | date32 =>
    cases h
    rfl
  | integer type =>
    cases h
    cases type <;> rfl
  | decimal precision scale =>
    simp only [typeIdAndParameters, bind_eq_ok, failIf_eq_ok, not_not, pure_eq_ok, Except.ok.injEq,
      Prod.mk.injEq] at h
    obtain ⟨-, hprecision, rfl, rfl⟩ := h
    exact parseDecimal_parameters scale hprecision _ _
  | timestamp unit timezone =>
    simp only [typeIdAndParameters, bind_eq_ok, failIf_eq_ok, not_lt, pure_eq_ok, Except.ok.injEq,
      Prod.mk.injEq] at h
    obtain ⟨⟨mode, name⟩, hzone, -, hname, rfl, rfl⟩ := h
    exact parseTimestamp_padToAlignment hzone hname _ _
  | categorical ordered =>
    cases h
    exact parseCategorical_parameters ordered _ _
  | fixedBinary byteWidth =>
    simp only [typeIdAndParameters, bind_eq_ok, failIf_eq_ok, pure_eq_ok, Except.ok.injEq,
      Prod.mk.injEq] at h
    obtain ⟨-, hwidth, rfl, rfl⟩ := h
    exact parseFixedBinary_parameters hwidth _ _

/-! ### Column descriptors -/

/-- The fixed part of a column's descriptor. -/
def descriptorFixed (column : Column) (typeId length parametersLength : ℕ) : Bytes :=
  leBytes 4 length ++ leBytes 4 column.id.toNat ++ leBytes 2 typeId ++
    leBytes 2 (if column.nullable then nullableColumnFlag else 0) ++
      leBytes 4 (utf8Bytes column.name).length ++ leBytes 4 parametersLength ++ leBytes 4 0

@[simp] theorem length_descriptorFixed (column : Column) (typeId length parametersLength : ℕ) :
    (descriptorFixed column typeId length parametersLength).length = 24 := by
  simp [descriptorFixed]

/-- What a built descriptor consists of. -/
structure IsDescriptor (column : Column) (typeId : ℕ) (parameters : Bytes) (padding : ℕ)
    (image : Bytes) : Prop where
  type : typeIdAndParameters column.logicalType = .ok (typeId, parameters)
  parameters_le : parameters.length ≤ Limits.default.maxSchemaFieldLength
  image_eq : image = descriptorFixed column typeId image.length parameters.length ++
    (utf8Bytes column.name ++ (parameters ++ zeros padding))
  aligned : image.length % frameAlignment = 0
  length_le : image.length ≤ u32Max

theorem paddedLength_eq_ok {length padded : ℕ} (h : paddedLength length = .ok padded) :
    length ≤ padded ∧ padded % frameAlignment = 0 := by
  simp only [paddedLength, frameAlignment, bind_eq_ok, okOr_eq_ok, checkedAdd_eq_some, pure_eq_ok,
    Except.ok.injEq] at h
  obtain ⟨_, ⟨-, rfl⟩, rfl⟩ := h
  simp only [frameAlignment]
  omega

theorem exists_isDescriptor {column : Column} {image : Bytes}
    (h : buildDescriptor column = .ok image) :
    ∃ typeId parameters padding, IsDescriptor column typeId parameters padding image := by
  simp only [buildDescriptor, bind_eq_ok, failIf_eq_ok, not_lt, okOr_eq_ok, Option.bind_eq_bind,
    Option.bind_eq_some_iff, checkedAdd_eq_some, pure_eq_ok, Except.ok.injEq] at h
  obtain ⟨⟨typeId, parameters⟩, htype, -, hparameters, _, ⟨_, ⟨-, rfl⟩, -, rfl⟩, length, hpadded,
    -, hlength, -, hname, -, -, rfl⟩ := h
  dsimp only at htype hparameters hpadded
  obtain ⟨hle, haligned⟩ := paddedLength_eq_ok hpadded
  refine ⟨typeId, parameters,
    length - (schemaDescriptorSize + (utf8Bytes column.name).length + parameters.length), ?_⟩
  have hfixed : schemaDescriptorSize = 24 := rfl
  generalize himage : leBytes 4 length ++ leBytes 4 column.id.toNat ++ leBytes 2 typeId ++
    leBytes 2 (if column.nullable then nullableColumnFlag else 0) ++
      leBytes 4 (utf8Bytes column.name).length ++ leBytes 4 parameters.length ++ leBytes 4 0 ++
        utf8Bytes column.name ++ parameters ++ zeros (length -
          (schemaDescriptorSize + (utf8Bytes column.name).length + parameters.length)) = image
  have htotal : image.length = length := by
    rw [← himage]
    simp only [List.length_append, length_leBytes, length_zeros]
    omega
  refine ⟨htype, hparameters, ?_, ?_, ?_⟩
  · rw [htotal, ← himage, descriptorFixed]
    simp only [List.append_assoc]
  · rwa [htotal]
  · rwa [htotal]

theorem typeId_lt {logicalType : LogicalType} {typeId : ℕ} {parameters : Bytes}
    (h : typeIdAndParameters logicalType = .ok (typeId, parameters)) : typeId < 256 ^ 2 := by
  cases logicalType with
  | bool | float32 | float64 | utf8 | binary | date32 | categorical =>
    cases h
    decide
  | integer type =>
    cases h
    cases type <;> decide
  | decimal precision scale =>
    simp only [typeIdAndParameters, bind_eq_ok, pure_eq_ok, Except.ok.injEq, Prod.mk.injEq] at h
    obtain ⟨-, -, rfl, -⟩ := h
    decide
  | timestamp unit timezone =>
    simp only [typeIdAndParameters, bind_eq_ok, pure_eq_ok, Except.ok.injEq, Prod.mk.injEq] at h
    obtain ⟨-, -, -, -, rfl, -⟩ := h
    decide
  | fixedBinary byteWidth =>
    simp only [typeIdAndParameters, bind_eq_ok, pure_eq_ok, Except.ok.injEq, Prod.mk.injEq] at h
    obtain ⟨-, -, rfl, -⟩ := h
    decide

theorem parseDescriptorFields_descriptorFixed {column : Column} {typeId length parametersLength : ℕ}
    (htype : typeId < 256 ^ 2) (hlength : length ≤ u32Max)
    (hname : (utf8Bytes column.name).length ≤ u32Max) (hparameters : parametersLength ≤ u32Max)
    (offset : ℕ) :
    SchemaFrame.parseDescriptorFields (descriptorFixed column typeId length parametersLength)
      offset = .ok
        { length, columnId := column.id.toNat, typeId,
          flags := if column.nullable then nullableColumnFlag else 0,
          nameLength := (utf8Bytes column.name).length, parametersLength } := by
  have hu32 (n : ℕ) (h : n ≤ u32Max) : leNat (leBytes 4 n) = n := by
    apply leNat_leBytes_of_lt
    simp only [u32Max] at h
    omega
  have hflags : leNat (leBytes 2 (if column.nullable then nullableColumnFlag else 0)) =
      if column.nullable then nullableColumnFlag else 0 := by
    split <;> decide
  have hu : (descriptorFixed column typeId length parametersLength).length ≤ u64Max := by
    rw [length_descriptorFixed]
    decide
  have hfixed := length_descriptorFixed column typeId length parametersLength
  simp (disch := first | assumption | omega) only [SchemaFrame.parseDescriptorFields,
    SchemaFrame.descriptorFields, StateT.run', Cursor.new, Cursor.readU16, Cursor.readU32,
    Cursor.readUInt_bind, Cursor.skip_bind, schemaDescriptorReservedSize]
  simp [descriptorFixed, slice_append_right', slice_field, hu32, hlength, hname, hparameters,
    hflags, leNat_leBytes_of_lt htype]
  rfl

section Descriptors

variable {file : Bytes} {frame : FrameMetadata} {limits : Limits}

theorem readAllocated_of_holdsAt {bytes : Bytes} {offset maxLength : ℕ} {field : String}
    (h : HoldsAt file offset bytes) (hlimit : bytes.length ≤ maxLength) :
    SchemaFrame.readAllocated file offset bytes.length field maxLength = .ok bytes := by
  rw [SchemaFrame.readAllocated, failIf_neg (by omega), ok_bind, readExactAt_of_holdsAt h]
  rfl

theorem readName_of_holdsAt {name : String} {offset : ℕ} (h : HoldsAt file offset (utf8Bytes name))
    (hlimit : (utf8Bytes name).length ≤ limits.maxSchemaFieldLength) :
    SchemaFrame.readName file offset (utf8Bytes name).length limits = .ok name := by
  rw [SchemaFrame.readName, readAllocated_of_holdsAt h hlimit, ok_bind, utf8Decode_utf8Bytes]
  rfl

theorem checkedOffset_of_le {base relative : ℕ} {message : String} (h : base + relative ≤ u64Max) :
    SchemaFrame.checkedOffset base relative message = .ok (base + relative) := by
  rw [SchemaFrame.checkedOffset, checkedAdd_of_le h]
  rfl

theorem locateDescriptor_of_le {position : ℕ}
    (hroom : position + schemaDescriptorSize ≤ frame.payloadLength)
    (hmax : frame.payloadOffset + frame.payloadLength ≤ u64Max) :
    SchemaFrame.locateDescriptor frame position = .ok
      { offset := frame.payloadOffset + position,
        remaining := frame.payloadLength - position } := by
  rw [SchemaFrame.locateDescriptor, checkedOffset_of_le (by omega), ok_bind,
    checkedSub_of_le (by omega), okOr, ok_bind, failIf_neg (by omega)]
  rfl

/-- **A column is read back** from its descriptor. -/
theorem parseDescriptor_buildDescriptor {column : Column} {image : Bytes} {position : ℕ}
    (h : buildDescriptor column = .ok image)
    (hname : (utf8Bytes column.name).length ≤ limits.maxSchemaFieldLength)
    (hlimit : Limits.default.maxSchemaFieldLength ≤ limits.maxSchemaFieldLength)
    (hholds : HoldsAt file (frame.payloadOffset + position) image)
    (hfits : position + image.length ≤ frame.payloadLength)
    (hmax : frame.payloadOffset + frame.payloadLength ≤ u64Max) :
    SchemaFrame.parseDescriptor file frame position limits = .ok
      { offset := frame.payloadOffset + position, nextPosition := position + image.length,
        columnId := column.id.toNat, nullable := column.nullable, name := column.name,
        logicalType := column.logicalType } := by
  obtain ⟨typeId, parameters, padding, hdescriptor⟩ := exists_isDescriptor h
  have hparameters := hdescriptor.parameters_le
  have haligned := hdescriptor.aligned
  have hlength := hdescriptor.length_le
  have hcontent : image.length = 24 + ((utf8Bytes column.name).length +
      (parameters.length + padding)) := by
    conv_lhs => rw [hdescriptor.image_eq]
    simp only [List.length_append, length_descriptorFixed, length_zeros]
  have hholds' := hholds
  rw [hdescriptor.image_eq] at hholds'
  have hfixedAt := hholds'.left
  have hnameAt := hholds'.right.left
  have hparametersAt := hholds'.right.right.left
  rw [length_descriptorFixed] at hnameAt hparametersAt
  have hread := readExactAt_of_holdsAt hfixedAt
  rw [length_descriptorFixed] at hread
  have hsize : schemaDescriptorSize = 24 := rfl
  have hhead : SchemaFrame.descriptorPrefixSize = 24 := rfl
  have hflags : (if column.nullable then nullableColumnFlag else 0) &&&
      (2 ^ 16 - 1 - nullableColumnFlag) = 0 := by
    split <;> decide
  have hnullable : decide ((if column.nullable then nullableColumnFlag else 0) &&&
      nullableColumnFlag ≠ 0) = column.nullable := by
    cases column.nullable <;> decide
  have hcheck : SchemaFrame.checkDescriptorFields
      { length := image.length, columnId := column.id.toNat, typeId,
        flags := if column.nullable then nullableColumnFlag else 0,
        nameLength := (utf8Bytes column.name).length, parametersLength := parameters.length }
      { offset := frame.payloadOffset + position, remaining := frame.payloadLength - position }
      limits = .ok () := by
    rw [SchemaFrame.checkDescriptorFields]
    dsimp only
    rw [failIf_neg (by omega), ok_bind, failIf_neg (by omega), ok_bind,
      failIf_neg (not_not.mpr hflags), ok_bind]
    have hsum : (do
        let length ← checkedAdd SchemaFrame.descriptorPrefixSize (utf8Bytes column.name).length
        checkedAdd length parameters.length) =
          some (24 + (utf8Bytes column.name).length + parameters.length) := by
      rw [hhead, checkedAdd_of_le (by omega), Option.bind_eq_bind, Option.bind_some,
        checkedAdd_of_le (by omega)]
    rw [hsum, okOr, ok_bind, failIf_neg (by omega), ok_bind, SchemaFrame.checkFieldLength,
      failIf_neg (by omega), ok_bind, SchemaFrame.checkFieldLength, failIf_neg (by omega)]
  have hname32 : (utf8Bytes column.name).length ≤ u32Max := by omega
  have hfields := parseDescriptorFields_descriptorFixed (typeId_lt hdescriptor.type) hlength
    hname32 (show parameters.length ≤ u32Max by omega) (frame.payloadOffset + position)
  rw [SchemaFrame.parseDescriptor, locateDescriptor_of_le (by omega) hmax]
  simp only [ok_bind, hhead, hread, SchemaFrame.inRegion, Except.mapError, hfields, hcheck]
  rw [checkedOffset_of_le (by omega), ok_bind, readName_of_holdsAt hnameAt hname, ok_bind,
    checkedOffset_of_le (by omega), ok_bind,
    readAllocated_of_holdsAt hparametersAt (by omega), ok_bind,
    parseType_of_typeIdAndParameters hdescriptor.type, ok_bind, checkedAdd_of_le (by omega), okOr,
    ok_bind, hnullable]
  rfl

/-! ### The columns -/

theorem insertColumn_eq {columns : List Column} {column : Column} {offset nextPosition : ℕ}
    (hid : column.id ≠ 0) (hids : column.id ∉ columns.map Column.id)
    (hnames : column.name ∉ columns.map Column.name) :
    SchemaFrame.insertColumn columns
      { offset, nextPosition, columnId := column.id.toNat, nullable := column.nullable,
        name := column.name, logicalType := column.logicalType } = .ok (columns ++ [column]) := by
  have hid' : column.id.toNat ≠ 0 := by
    rwa [Ne, ← UInt32.toNat_zero, UInt32.toNat_inj]
  rw [SchemaFrame.insertColumn, failIf_neg hid', ok_bind, UInt32.ofNat_toNat, failIf_neg hids,
    ok_bind, failIf_neg hnames]
  rfl

/-- What the writer has checked of one column, among the ones before it. -/
structure ColumnValid (seen : List Column) (column : Column) : Prop where
  id : column.id ≠ 0
  ids : column.id ∉ seen.map Column.id
  names : column.name ∉ seen.map Column.name
  name_le : (utf8Bytes column.name).length ≤ Limits.default.maxSchemaFieldLength

theorem columnValid_of_validateColumn {seen : List Column} {column : Column} {u : Unit}
    (h : validateColumn seen column = .ok u) : ColumnValid seen column := by
  simp only [validateColumn, bind_eq_ok, failIf_eq_ok, not_lt] at h
  obtain ⟨-, hid, -, hids, -, hnames, -, -, -, -, hname⟩ := h
  exact ⟨hid, hids, hnames, hname⟩

/-- **The columns are read back** in order, after those already read. -/
theorem readDescriptors_of_mapM {columns seen : List Column} {descriptors : List Bytes}
    {position : ℕ} (h : columns.mapM buildDescriptor = .ok descriptors)
    (hvalid : validateColumns seen columns = .ok ())
    (hlimit : Limits.default.maxSchemaFieldLength ≤ limits.maxSchemaFieldLength)
    (hholds : HoldsAt file (frame.payloadOffset + position) descriptors.flatten)
    (hfits : position + descriptors.flatten.length ≤ frame.payloadLength)
    (hmax : frame.payloadOffset + frame.payloadLength ≤ u64Max) :
    SchemaFrame.readDescriptors file frame limits columns.length position seen =
      .ok (position + descriptors.flatten.length, seen ++ columns) := by
  induction columns generalizing seen descriptors position with
  | nil =>
    rw [List.mapM_nil] at h
    cases h
    simp [SchemaFrame.readDescriptors]
  | cons column rest ih =>
    rw [List.mapM_cons] at h
    obtain ⟨image, himage, h⟩ := bind_eq_ok.mp h
    obtain ⟨images, himages, h⟩ := bind_eq_ok.mp h
    cases h
    obtain ⟨⟨⟩, hcolumn, hrest⟩ := bind_eq_ok.mp hvalid
    have hok := columnValid_of_validateColumn hcolumn
    rw [List.flatten_cons] at hholds hfits
    rw [List.length_append] at hfits
    have hdescriptor := parseDescriptor_buildDescriptor himage (hok.name_le.trans hlimit) hlimit
      hholds.left (by omega) hmax
    have hholds' := hholds.right
    rw [Nat.add_assoc] at hholds'
    rw [List.length_cons, SchemaFrame.readDescriptors, hdescriptor, ok_bind,
      insertColumn_eq hok.id hok.ids hok.names, ok_bind,
      ih himages hrest hholds' (by omega), List.flatten_cons, List.length_append, List.append_assoc,
      Nat.add_assoc]
    rfl

theorem readColumns_of_mapM {columns : List Column} {descriptors : List Bytes}
    (h : columns.mapM buildDescriptor = .ok descriptors)
    (hvalid : validateColumns [] columns = .ok ())
    (hlimit : Limits.default.maxSchemaFieldLength ≤ limits.maxSchemaFieldLength)
    (hholds : HoldsAt file frame.payloadOffset descriptors.flatten)
    (hlength : frame.payloadLength = descriptors.flatten.length)
    (hmax : frame.payloadOffset + frame.payloadLength ≤ u64Max) :
    SchemaFrame.readColumns file frame columns.length limits = .ok columns := by
  have hholds' : HoldsAt file (frame.payloadOffset + 0) descriptors.flatten := hholds
  have hread := readDescriptors_of_mapM h hvalid hlimit hholds' (by omega) hmax
  rw [Nat.zero_add, List.nil_append] at hread
  rw [SchemaFrame.readColumns, hread]
  simp only [ok_bind]
  rw [failIf_neg (not_not.mpr hlength.symm)]
  rfl

end Descriptors

/-! ### The schema -/

/-- What the writer has checked of the columns of a schema. -/
theorem columns_of_validateColumns {seen columns : List Column}
    (h : validateColumns seen columns = .ok ()) :
    (∀ column ∈ columns, column.id ≠ 0) ∧ (columns.map Column.id).Nodup ∧
      ∀ column ∈ columns, column.id ∉ seen.map Column.id := by
  induction columns generalizing seen with
  | nil => simp
  | cons column rest ih =>
    obtain ⟨⟨⟩, hcolumn, hrest⟩ := bind_eq_ok.mp h
    have hvalid := columnValid_of_validateColumn hcolumn
    obtain ⟨hids, hnodup, hfresh⟩ := ih hrest
    refine ⟨?_, ?_, ?_⟩
    · simpa [hvalid.id] using hids
    · rw [List.map_cons, List.nodup_cons]
      refine ⟨?_, hnodup⟩
      rw [List.mem_map]
      rintro ⟨other, hmem, heq⟩
      have hnot := hfresh other hmem
      rw [List.map_append, List.mem_append, not_or] at hnot
      exact hnot.2 (by simp [heq])
    · intro other hmem
      rcases List.mem_cons.mp hmem with rfl | hmem
      · exact hvalid.ids
      · have hnot := hfresh other hmem
        rw [List.map_append, List.mem_append, not_or] at hnot
        exact hnot.1

/-- The facts a valid schema offers a reader. -/
structure SchemaValid (schema : Schema) : Prop where
  schemaId : schema.schemaId ≠ 0
  columns_ne : schema.columns ≠ []
  columns_le : schema.columns.length ≤ Limits.default.maxSchemaColumns
  columns : validateColumns [] schema.columns = .ok ()
  primary : validatePrimary schema = .ok ()

theorem validateSchema_eq_ok {schema : Schema} :
    validateSchema schema = .ok () ↔ SchemaValid schema := by
  simp only [validateSchema, bind_eq_ok, failIf_eq_ok, not_lt]
  constructor
  · rintro ⟨-, hid, -, hne, -, hle, ⟨⟩, hcolumns, hprimary⟩
    exact ⟨hid, hne, hle, hcolumns, hprimary⟩
  · rintro ⟨hid, hne, hle, hcolumns, hprimary⟩
    exact ⟨(), hid, (), hne, (), hle, (), hcolumns, hprimary⟩

/-- The column a valid schema selects. -/
theorem exists_primary {schema : Schema} (h : SchemaValid schema) {id : UInt32}
    (hprimary : schema.primaryColumnId = some id) :
    ∃ column ∈ schema.columns, schema.columnById id = some column ∧ column.id = id ∧
      SchemaFrame.isPrimaryCandidate column = true := by
  have hcheck := h.primary
  simp only [validatePrimary, hprimary, bind_eq_ok, okOr_eq_ok, failIf_eq_ok, not_or] at hcheck
  obtain ⟨column, hfind, hnullable, hselectable⟩ := hcheck
  have hid : column.id = id := by simpa using List.find?_some hfind
  refine ⟨column, List.mem_of_find?_eq_some hfind, hfind, hid, ?_⟩
  rw [Bool.not_eq_true] at hnullable
  rw [not_not] at hselectable
  rw [SchemaFrame.isPrimaryCandidate, hnullable, Bool.not_false, Bool.true_and]
  exact hselectable

/-- The primary selection as the header stores it. -/
def storedPrimary (schema : Schema) : ℕ :=
  (schema.primaryColumnId.map UInt32.toNat).getD noPrimaryColumnId

theorem resolvePrimary_storedPrimary {schema : Schema} (h : SchemaValid schema)
    {fields : SchemaHeaderFields} (hfields : fields.primaryColumnId = storedPrimary schema)
    (frame : FrameMetadata) :
    SchemaFrame.resolvePrimary schema.columns fields frame = .ok schema.primaryColumnId := by
  rw [SchemaFrame.resolvePrimary, hfields, storedPrimary]
  cases hprimary : schema.primaryColumnId with
  | none => rfl
  | some id =>
    obtain ⟨column, hmem, hfind, rfl, hcandidate⟩ := exists_primary h hprimary
    have hne : column.id.toNat ≠ noPrimaryColumnId := by
      rw [noPrimaryColumnId, Ne, ← UInt32.toNat_zero, UInt32.toNat_inj]
      exact (columns_of_validateColumns h.columns).1 column hmem
    have hfind' : schema.columns.find? (fun c ↦ c.id.toNat = column.id.toNat) = some column := by
      simpa only [UInt32.toNat_inj, Schema.columnById] using hfind
    rw [Option.map_some, Option.getD_some, if_neg hne]
    simp only [hfind', okOr, ok_bind, hcandidate, not_true_eq_false, UInt32.ofNat_toNat]
    rfl

theorem length_schemaHeader (schema : Schema) :
    (schemaHeader schema).length = schemaFrameHeaderSize := by
  simp [schemaHeader, schemaFrameHeaderSize]

theorem parseHeader_schemaHeader {schema : Schema} (hcolumns : schema.columns.length ≤ u32Max)
    (offset : ℕ) : SchemaFrame.parseHeader (schemaHeader schema) offset = .ok
      { schemaId := schema.schemaId.toNat, columnCount := schema.columns.length,
        primaryColumnId := storedPrimary schema, flags := 0 } := by
  have hlength : (schemaHeader schema).length = 24 := length_schemaHeader schema
  have hu : (schemaHeader schema).length ≤ u64Max := by rw [hlength]; decide
  have hcount : leNat (leBytes 4 schema.columns.length) = schema.columns.length := by
    apply leNat_leBytes_of_lt
    simp only [u32Max] at hcolumns
    omega
  have hprimary : leNat (leBytes 4 (storedPrimary schema)) = storedPrimary schema := by
    rw [storedPrimary]
    cases schema.primaryColumnId with
    | none => rfl
    | some id => exact leNat_leBytes_uint32 id
  have hzero : leNat (leBytes 4 0) = 0 := by decide
  simp (disch := first | assumption | omega) only [SchemaFrame.parseHeader,
    SchemaFrame.parseHeaderFields, StateT.run', Cursor.new, Cursor.readU32, Cursor.readU64,
    Cursor.readUInt_bind, Cursor.skip_bind, schemaReservedSize]
  rw [storedPrimary] at hprimary
  simp [schemaHeader, slice_append_right', slice_field, hcount, hprimary, hzero, storedPrimary]
  rfl

/-- A built schema frame and its payload. -/
theorem buildSchemaFrame_eq_ok {schema : Schema} {image : Bytes}
    (h : buildSchemaFrame schema = .ok image) : ∃ descriptors : List Bytes,
      schema.columns.length ≤ u32Max ∧ schema.columns.mapM buildDescriptor = .ok descriptors ∧
        descriptors.flatten.length ≤ defaultMaxFramePayloadLength ∧
          buildFrame schemaFrameType schemaFrameSequence (schemaHeader schema)
            descriptors.flatten = .ok image := by
  simp only [buildSchemaFrame, bind_eq_ok, failIf_eq_ok, not_lt] at h
  obtain ⟨-, hcolumns, descriptors, hdescriptors, -, hpayload, hframe⟩ := h
  exact ⟨descriptors, hcolumns, hdescriptors, hpayload, hframe⟩

/-- Every descriptor takes up at least its fixed part. -/
theorem length_flatten_of_mapM {columns : List Column} {descriptors : List Bytes}
    (h : columns.mapM buildDescriptor = .ok descriptors) :
    schemaDescriptorSize * columns.length ≤ descriptors.flatten.length := by
  induction columns generalizing descriptors with
  | nil => simp
  | cons column rest ih =>
    rw [List.mapM_cons] at h
    obtain ⟨image, himage, h⟩ := bind_eq_ok.mp h
    obtain ⟨images, himages, h⟩ := bind_eq_ok.mp h
    cases h
    obtain ⟨typeId, parameters, padding, hdescriptor⟩ := exists_isDescriptor himage
    have hlength : schemaDescriptorSize ≤ image.length := by
      rw [hdescriptor.image_eq, List.length_append, length_descriptorFixed]
      exact Nat.le_add_right _ _
    have hrest := ih himages
    rw [List.flatten_cons, List.length_append, List.length_cons, Nat.mul_succ]
    omega

section Schema

variable {schema : Schema} {image file : Bytes} {offset : ℕ} {limits : Limits}

theorem framable_schemaFrame {descriptors : List Bytes} (hlimits : limits.CoversDefault)
    (hpayload : descriptors.flatten.length ≤ defaultMaxFramePayloadLength) :
    Framable schemaFrameType schemaFrameSequence (schemaHeader schema) descriptors.flatten
      limits where
  expectedType := rfl
  sequence_lt := by decide
  schemaHeader _ := length_schemaHeader schema
  dataHeader h := absurd h (by decide)
  headerLimit := by
    rw [length_schemaHeader]
    exact le_trans (by decide) hlimits.header
  payloadLimit := hpayload.trans hlimits.payload

/-- The schema frame the writer builds is a complete frame. -/
theorem isFrame_of_buildSchemaFrame (h : buildSchemaFrame schema = .ok image)
    (hlimits : limits.CoversDefault) : Frame.IsFrame image schemaFrameSequence limits := by
  obtain ⟨descriptors, -, -, hpayload, hframe⟩ := buildSchemaFrame_eq_ok h
  exact isFrame_of_buildFrame hframe (framable_schemaFrame hlimits hpayload)

/-- **The schema is read back** from the schema frame the writer builds of it. -/
theorem parse_buildSchemaFrame (hvalid : SchemaValid schema)
    (h : buildSchemaFrame schema = .ok image) (hlimits : limits.CoversDefault)
    (hholds : HoldsAt file offset image) (hmax : offset + image.length ≤ u64Max) :
    SchemaFrame.parse file (Frame.metadataAt image offset) limits = .ok schema := by
  obtain ⟨descriptors, hcolumns, hdescriptors, hpayload, hframe⟩ := buildSchemaFrame_eq_ok h
  have hfits := hholds.fits
  have htotal : prefixSize + (schemaHeader schema).length + descriptors.flatten.length +
      trailerSize = image.length := (length_of_buildFrame hframe).symm
  have hcapacity := length_flatten_of_mapM hdescriptors
  have hheaderLength := length_schemaHeader schema
  have hheader : HoldsAt file (offset + prefixSize) (schemaHeader schema) :=
    hholds.inside ⟨slice_header_of_buildFrame hframe, by omega⟩
  have hpayloadAt : HoldsAt file (offset + prefixSize + (schemaHeader schema).length)
      descriptors.flatten := by
    have hinside : HoldsAt image (prefixSize + (schemaHeader schema).length) descriptors.flatten :=
      ⟨slice_payload_of_buildFrame hframe, by omega⟩
    have hshifted := hholds.inside hinside
    rwa [← Nat.add_assoc] at hshifted
  have hread := readExactAt_of_holdsAt hheader
  rw [hheaderLength] at hread
  have hid : schema.schemaId.toNat ≠ 0 := by
    rw [Ne, ← UInt64.toNat_zero, UInt64.toNat_inj]
    exact hvalid.schemaId
  have hcount : schema.columns.length ≠ 0 := by
    rw [Ne, List.length_eq_zero_iff]
    exact hvalid.columns_ne
  have hlimit : schema.columns.length ≤ limits.maxSchemaColumns :=
    hvalid.columns_le.trans hlimits.columns
  have hdescriptorSize : schemaDescriptorSize = 24 := rfl
  have hroom : ¬descriptors.flatten.length / schemaDescriptorSize < schema.columns.length := by
    rw [hdescriptorSize] at hcapacity ⊢
    omega
  rw [metadataAt_of_buildFrame hframe (framable_schemaFrame hlimits hpayload), SchemaFrame.parse,
    SchemaFrame.checkFrameType, failIf_neg (by simp), ok_bind]
  simp only [SchemaFrame.readHeader, SchemaFrame.inRegion, hread, Except.mapError, ok_bind,
    parseHeader_schemaHeader hcolumns]
  rw [SchemaFrame.checkHeader, failIf_neg hid, ok_bind, failIf_neg hcount, ok_bind,
    failIf_neg (by simp), ok_bind, failIf_neg (by exact Nat.not_lt.mpr hlimit), ok_bind,
    failIf_neg hroom, ok_bind,
    readColumns_of_mapM hdescriptors hvalid.columns hlimits.field hpayloadAt rfl
      (by dsimp only; omega), ok_bind]
  have hprimary (frame : FrameMetadata) := resolvePrimary_storedPrimary hvalid
    (show (SchemaHeaderFields.mk schema.schemaId.toNat schema.columns.length (storedPrimary schema)
      0).primaryColumnId = storedPrimary schema from rfl) frame
  rw [hprimary, ok_bind, UInt64.ofNat_toNat]
  rfl

end Schema

end Write

end Acta
