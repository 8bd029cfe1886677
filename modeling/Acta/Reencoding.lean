import Acta.RoundTrip.Opening
import Acta.Write.Session

/-!
# The schemas of a reader and of a writer

A schema the reader takes from a file is one the writer accepts: the parameters of its types take up
as many bytes as were read (`Spells`), so each of its columns has a descriptor no longer than the
one that was read (`Recovered`), and all of them fit a frame.  With the round trip of a built frame,
the reader and the writer agree on which schemas there are (`schemas_agree`).
-/

namespace Acta

open Machine Wire

namespace Write

/-! ### What the parser has checked of a type -/

/-- The writer describes a type by parameters of this length. -/
def Spells (logicalType : LogicalType) (length : ℕ) : Prop :=
  ∃ typeId image, typeIdAndParameters logicalType = .ok (typeId, image) ∧ image.length = length

theorem spells_of_noParameters {parameters : Bytes} {invalidLength : Error}
    {value logicalType : LogicalType}
    (h : SchemaFrame.noParameters parameters invalidLength value = .ok logicalType)
    (hvalue : Spells value 0) : Spells logicalType parameters.length := by
  obtain ⟨_, hempty, h⟩ := bind_eq_ok.mp h
  cases h
  rw [failIf_eq_ok, not_not] at hempty
  rw [hempty]
  exact hvalue

theorem spells_of_parseDecimal {parameters : Bytes} {offset : ℕ} {invalidLength : Error}
    {logicalType : LogicalType}
    (h : SchemaFrame.parseDecimal parameters offset invalidLength = .ok logicalType) :
    Spells logicalType parameters.length := by
  obtain ⟨_, hlength, h⟩ := bind_eq_ok.mp h
  obtain ⟨⟨precision, scale⟩, -, h⟩ := bind_eq_ok.mp h
  obtain ⟨_, hprecision, h⟩ := bind_eq_ok.mp h
  cases h
  rw [failIf_eq_ok, not_not] at hlength hprecision
  have hsmall : (UInt16.ofNat precision).toNat = precision := by
    rw [UInt16.toNat_ofNat']
    exact Nat.mod_eq_of_lt (by omega)
  have hspelled : typeIdAndParameters
      (.decimal (UInt16.ofNat precision) (UInt16.ofNat scale).toInt16) =
        .ok (typeDecimal64, leBytes 2 precision ++
          leBytes 2 (UInt16.ofNat scale).toInt16.toUInt16.toNat ++ leBytes 4 0) := by
    rw [typeIdAndParameters, hsmall, failIf_neg (not_not.mpr hprecision)]
    rfl
  refine ⟨_, _, hspelled, ?_⟩
  rw [hlength]
  simp [SchemaFrame.decimalParameterSize]

theorem spells_of_parseCategorical {parameters : Bytes} {offset : ℕ} {invalidLength : Error}
    {logicalType : LogicalType}
    (h : SchemaFrame.parseCategorical parameters offset invalidLength = .ok logicalType) :
    Spells logicalType parameters.length := by
  obtain ⟨_, hlength, h⟩ := bind_eq_ok.mp h
  obtain ⟨_, -, h⟩ := bind_eq_ok.mp h
  cases h
  rw [failIf_eq_ok, not_not] at hlength
  refine ⟨_, _, rfl, ?_⟩
  rw [hlength]
  simp [SchemaFrame.categoricalParameterSize]

/-- A number the cursor has read fits its field. -/
theorem lt_of_readUInt {width : ℕ} {field : String} {cursor next : Cursor} {n : ℕ}
    (h : Cursor.readUInt width field cursor = .ok (n, next)) : n < 256 ^ width := by
  obtain ⟨⟨bytes, after⟩, hbytes, h⟩ := bind_eq_ok.mp h
  obtain ⟨stop, -, hbytes⟩ := bind_eq_ok.mp hbytes
  obtain ⟨_, -, hbytes⟩ := bind_eq_ok.mp hbytes
  cases hbytes
  cases h
  refine Nat.lt_of_lt_of_le (leNat_lt _) (Nat.pow_le_pow_right (by omega) ?_)
  rw [length_slice]
  omega

/-- What a parser that starts with a number goes on with. -/
theorem exists_of_readUInt_bind {α : Type} {width : ℕ} {field : String} {f : ℕ → CursorM α}
    {cursor : Cursor} {result : α × Cursor}
    (h : (Cursor.readUInt width field >>= f) cursor = .ok result) :
    ∃ n next, n < 256 ^ width ∧ f n next = .ok result := by
  obtain ⟨⟨n, next⟩, hread, h⟩ := bind_eq_ok.mp h
  exact ⟨n, next, lt_of_readUInt hread, h⟩

theorem exists_of_run' {α : Type} {parser : CursorM α} {cursor : Cursor} {value : α}
    (h : parser.run' cursor = .ok value) : ∃ next, parser cursor = .ok (value, next) := by
  rcases hparsed : parser cursor with e | ⟨parsed, next⟩
  · rw [StateT.run', hparsed] at h
    cases h
  · rw [StateT.run', hparsed] at h
    cases h
    exact ⟨next, rfl⟩

theorem spells_of_parseFixedBinary {parameters : Bytes} {offset : ℕ} {invalidLength : Error}
    {logicalType : LogicalType}
    (h : SchemaFrame.parseFixedBinary parameters offset invalidLength = .ok logicalType) :
    Spells logicalType parameters.length := by
  obtain ⟨_, hlength, h⟩ := bind_eq_ok.mp h
  obtain ⟨width, hread, h⟩ := bind_eq_ok.mp h
  obtain ⟨_, hwidth, h⟩ := bind_eq_ok.mp h
  cases h
  rw [failIf_eq_ok] at hwidth
  rw [failIf_eq_ok, not_not] at hlength
  obtain ⟨_, hread⟩ := exists_of_run' hread
  obtain ⟨_, _, hfits, hread⟩ := exists_of_readUInt_bind hread
  obtain ⟨_, _, -, hread⟩ := exists_of_readUInt_bind hread
  cases hread
  have hsmall : (UInt32.ofNat width).toNat = width := by
    rw [UInt32.toNat_ofNat']
    exact Nat.mod_eq_of_lt hfits
  have hne : UInt32.ofNat width ≠ 0 := by
    rwa [Ne, ← UInt32.toNat_inj, hsmall, UInt32.toNat_zero]
  have hspelled : typeIdAndParameters (.fixedBinary (UInt32.ofNat width)) =
      .ok (typeFixedBinary, leBytes 4 width ++ leBytes 4 0) := by
    rw [typeIdAndParameters, hsmall, failIf_neg hne]
    rfl
  refine ⟨_, _, hspelled, ?_⟩
  rw [hlength]
  simp [SchemaFrame.fixedBinaryParameterSize]

/-- A timezone that was read is stored under the name it was read from. -/
theorem timeZoneModeAndName_of_timeZoneOf {mode offset : ℕ} {name : Bytes} {timezone : TimeZone}
    (h : SchemaFrame.timeZoneOf mode name offset = .ok timezone) :
    ∃ text, timeZoneModeAndName timezone = .ok (mode, text) ∧ utf8Bytes text = name := by
  rw [SchemaFrame.timeZoneOf] at h
  split at h
  · rename_i hnaive
    cases h
    exact ⟨"", by rw [hnaive.1]; rfl, (List.length_eq_zero_iff.mp hnaive.2).symm⟩
  split at h
  · rename_i hutc
    cases h
    exact ⟨"", by rw [hutc.1]; rfl, (List.length_eq_zero_iff.mp hutc.2).symm⟩
  split at h
  · rename_i hiana
    obtain ⟨text, htext, h⟩ := bind_eq_ok.mp h
    cases h
    have hbytes := utf8Bytes_of_utf8Decode (okOr_eq_ok.mp htext)
    have hne : text ≠ "" := by
      rintro rfl
      rw [← hbytes] at hiana
      exact hiana.2 rfl
    exact ⟨text, by rw [timeZoneModeAndName, failIf_neg hne, hiana.1]; rfl, hbytes⟩
  · cases h

theorem spells_of_parseTimestamp {parameters : Bytes} {offset : ℕ} {invalidLength : Error}
    {logicalType : LogicalType}
    (h : SchemaFrame.parseTimestamp parameters offset invalidLength = .ok logicalType) :
    Spells logicalType parameters.length := by
  obtain ⟨_, -, h⟩ := bind_eq_ok.mp h
  obtain ⟨⟨code, cursor⟩, -, h⟩ := bind_eq_ok.mp h
  obtain ⟨unit, -, h⟩ := bind_eq_ok.mp h
  obtain ⟨⟨mode, nameLength⟩, hread, h⟩ := bind_eq_ok.mp h
  obtain ⟨nameEnd, hend, h⟩ := bind_eq_ok.mp h
  obtain ⟨expected, hexpected, h⟩ := bind_eq_ok.mp h
  obtain ⟨_, hlength, h⟩ := bind_eq_ok.mp h
  obtain ⟨timezone, hzone, h⟩ := bind_eq_ok.mp h
  cases h
  obtain ⟨_, hread⟩ := exists_of_run' hread
  obtain ⟨_, _, -, hread⟩ := exists_of_readUInt_bind hread
  obtain ⟨_, _, -, hread⟩ := exists_of_readUInt_bind hread
  obtain ⟨_, _, hsmall, hread⟩ := exists_of_readUInt_bind hread
  cases hread
  rw [okOr_eq_ok, checkedAdd_eq_some] at hend
  rw [okOr_eq_ok] at hexpected
  rw [failIf_eq_ok, not_or, not_not, not_lt] at hlength
  obtain ⟨-, rfl⟩ := hend
  have hfixed : SchemaFrame.timestampParameterPrefixSize = 8 := rfl
  obtain ⟨text, hmode, htext⟩ := timeZoneModeAndName_of_timeZoneOf hzone
  have hname : (utf8Bytes text).length = nameLength := by
    rw [htext]
    exact length_slice_of_le hlength.2
  have hfits : ¬u32Max < (utf8Bytes text).length := by
    rw [hname, u32Max]
    omega
  have hspelled : typeIdAndParameters (.timestamp unit timezone) =
      .ok (typeTimestamp64, padToAlignment (leBytes 1 (timeUnitCode unit) ++ leBytes 1 mode ++
        zeros 2 ++ leBytes 4 (utf8Bytes text).length ++ utf8Bytes text)) := by
    rw [typeIdAndParameters, hmode, ok_bind]
    show (do
      failIf (u32Max < (utf8Bytes text).length) _
      _) = _
    rw [failIf_neg hfits]
    rfl
  refine ⟨_, _, hspelled, ?_⟩
  have hroom : 8 + nameLength + 7 ≤ u64Max := by
    rw [u64Max]
    omega
  rw [hfixed, checkedNextMultipleOf_eq hroom] at hexpected
  rw [length_padToAlignment, ← hlength.1, ← Option.some.inj hexpected]
  simp only [List.length_append, length_leBytes, length_zeros, hname]

/-- **The parameters of a type that was read** take up as many bytes when they are written. -/
theorem spells_of_parseType {typeId parametersOffset descriptorOffset : ℕ} {parameters : Bytes}
    {logicalType : LogicalType}
    (h : SchemaFrame.parseType typeId parameters parametersOffset descriptorOffset =
      .ok logicalType) : Spells logicalType parameters.length := by
  rw [SchemaFrame.parseType] at h
  -- The types without parameters come first.
  iterate 14
    rcases ite_eq_iff.mp h with ⟨-, htype⟩ | ⟨-, h⟩
    · exact spells_of_noParameters htype ⟨_, _, rfl, rfl⟩
  rcases ite_eq_iff.mp h with ⟨-, hdecimal⟩ | ⟨-, h⟩
  · exact spells_of_parseDecimal hdecimal
  rcases ite_eq_iff.mp h with ⟨-, htimestamp⟩ | ⟨-, h⟩
  · exact spells_of_parseTimestamp htimestamp
  rcases ite_eq_iff.mp h with ⟨-, hcategorical⟩ | ⟨-, h⟩
  · exact spells_of_parseCategorical hcategorical
  rcases ite_eq_iff.mp h with ⟨-, hfixed⟩ | ⟨-, h⟩
  · exact spells_of_parseFixedBinary hfixed
  · cases h

/-! ### What the parser has checked of a column -/

/-- A column whose type and name fit a descriptor of some length is described within that length. -/
theorem exists_buildDescriptor {column : Column} {parametersLength length : ℕ}
    (hspells : Spells column.logicalType parametersLength)
    (hparameters : parametersLength ≤ Limits.default.maxSchemaFieldLength)
    (hname : (utf8Bytes column.name).length ≤ Limits.default.maxSchemaFieldLength)
    (hfits : schemaDescriptorSize + (utf8Bytes column.name).length + parametersLength ≤ length)
    (haligned : length % frameAlignment = 0) (hlength : length ≤ u32Max) :
    ∃ image, buildDescriptor column = .ok image ∧ image.length ≤ length ∧
      image.length % frameAlignment = 0 := by
  obtain ⟨typeId, parameters, htype, rfl⟩ := hspells
  have hfield : Limits.default.maxSchemaFieldLength = 16 * 1024 * 1024 := rfl
  have hsize : schemaDescriptorSize = 24 := rfl
  have halignment : frameAlignment = 8 := rfl
  have hu32 : u32Max = 2 ^ 32 - 1 := rfl
  have hu64 : u64Max = 2 ^ 64 - 1 := rfl
  obtain ⟨content, hcontentEq⟩ : ∃ content,
      content = schemaDescriptorSize + (utf8Bytes column.name).length + parameters.length :=
        ⟨_, rfl⟩
  have hcontent : (do
      let length ← checkedAdd schemaDescriptorSize (utf8Bytes column.name).length
      checkedAdd length parameters.length) = some content := by
    rw [checkedAdd_of_le (by omega), Option.bind_eq_bind, Option.bind_some,
      checkedAdd_of_le (by omega), hcontentEq]
  have hpadded : paddedLength content = .ok ((content + 7) / 8 * 8) := by
    rw [paddedLength, checkedAdd_of_le (by omega)]
    rfl
  have hbuilds : buildDescriptor column = .ok (leBytes 4 ((content + 7) / 8 * 8) ++
      leBytes 4 column.id.toNat ++ leBytes 2 typeId ++
        leBytes 2 (if column.nullable then nullableColumnFlag else 0) ++
          leBytes 4 (utf8Bytes column.name).length ++ leBytes 4 parameters.length ++ leBytes 4 0 ++
            utf8Bytes column.name ++ parameters ++ zeros ((content + 7) / 8 * 8 - content)) := by
    rw [buildDescriptor, htype, ok_bind]
    dsimp only
    rw [failIf_neg (by omega), ok_bind, hcontent, okOr, ok_bind, hpadded, ok_bind,
      failIf_neg (by omega), ok_bind, failIf_neg (by omega), ok_bind, failIf_neg (by omega),
      ok_bind]
    rfl
  have htotal : 4 + 4 + 2 + 2 + 4 + 4 + 4 + (utf8Bytes column.name).length + parameters.length +
      ((content + 7) / 8 * 8 - content) = (content + 7) / 8 * 8 := by
    omega
  rw [halignment] at haligned ⊢
  refine ⟨_, hbuilds, ?_, ?_⟩
  · simp only [List.length_append, length_leBytes, length_zeros]
    omega
  · simp only [List.length_append, length_leBytes, length_zeros]
    omega

theorem le_of_parseDescriptorFields {bytes : Bytes} {offset : ℕ} {fields : DescriptorFields}
    (h : SchemaFrame.parseDescriptorFields bytes offset = .ok fields) :
    fields.length ≤ u32Max ∧ fields.columnId ≤ u32Max := by
  have hu32 : u32Max = 256 ^ 4 - 1 := rfl
  obtain ⟨_, h⟩ := exists_of_run' h
  obtain ⟨length, _, hlength, h⟩ := exists_of_readUInt_bind h
  obtain ⟨columnId, _, hcolumnId, h⟩ := exists_of_readUInt_bind h
  obtain ⟨_, _, -, h⟩ := exists_of_readUInt_bind h
  obtain ⟨_, _, -, h⟩ := exists_of_readUInt_bind h
  obtain ⟨_, _, -, h⟩ := exists_of_readUInt_bind h
  obtain ⟨_, _, -, h⟩ := exists_of_readUInt_bind h
  obtain ⟨_, -, h⟩ := bind_eq_ok.mp h
  cases h
  dsimp only
  omega

theorem inRegion_eq_ok {α : Type} {result : Result α} {region : ErrorContext} {value : α} :
    SchemaFrame.inRegion result region = .ok value ↔ result = .ok value := by
  cases result with
  | error e => exact ⟨fun h ↦ (nomatch h), fun h ↦ (nomatch h)⟩
  | ok other => exact Iff.rfl

theorem length_of_readAllocated {file bytes : Bytes} {offset length maxLength : ℕ} {field : String}
    (h : SchemaFrame.readAllocated file offset length field maxLength = .ok bytes) :
    bytes.length = length := by
  obtain ⟨_, -, h⟩ := bind_eq_ok.mp h
  have hread := inRegion_eq_ok.mp h
  rw [readExactAt] at hread
  split at hread
  · rename_i hfits
    cases hread
    rcases hfits with rfl | hfits
    · rw [slice_length_zero]
      rfl
    · exact length_slice_of_le hfits
  · cases hread

/-- The column a descriptor declares. -/
def columnOf (descriptor : Descriptor) : Column where
  id := UInt32.ofNat descriptor.columnId
  name := descriptor.name
  logicalType := descriptor.logicalType
  nullable := descriptor.nullable

/-- What a parsed descriptor says of the column it declares. -/
structure Recovered (position : ℕ) (descriptor : Descriptor) : Prop where
  columnId_le : descriptor.columnId ≤ u32Max
  typed : ∃ typeId image, typeIdAndParameters descriptor.logicalType = .ok (typeId, image)
  name_le : (utf8Bytes descriptor.name).length ≤ Limits.default.maxSchemaFieldLength
  builds : ∃ image, buildDescriptor (columnOf descriptor) = .ok image ∧
    position + image.length ≤ descriptor.nextPosition ∧ image.length % frameAlignment = 0

/-- **A column that was read has a descriptor** no longer than the one it was read from. -/
theorem recovered_of_parseDescriptor {file : Bytes} {frame : FrameMetadata} {position : ℕ}
    {descriptor : Descriptor}
    (h : SchemaFrame.parseDescriptor file frame position Limits.default = .ok descriptor) :
    Recovered position descriptor := by
  obtain ⟨place, -, h⟩ := bind_eq_ok.mp h
  obtain ⟨bytes, -, h⟩ := bind_eq_ok.mp h
  obtain ⟨fields, hfields, h⟩ := bind_eq_ok.mp h
  obtain ⟨_, hchecked, h⟩ := bind_eq_ok.mp h
  obtain ⟨nameOffset, -, h⟩ := bind_eq_ok.mp h
  obtain ⟨name, hname, h⟩ := bind_eq_ok.mp h
  obtain ⟨parametersOffset, -, h⟩ := bind_eq_ok.mp h
  obtain ⟨parameters, hparameters, h⟩ := bind_eq_ok.mp h
  obtain ⟨logicalType, htype, h⟩ := bind_eq_ok.mp h
  obtain ⟨nextPosition, hnext, h⟩ := bind_eq_ok.mp h
  cases h
  obtain ⟨hlength, hcolumnId⟩ := le_of_parseDescriptorFields hfields
  obtain ⟨_, haligned, hchecked⟩ := bind_eq_ok.mp hchecked
  obtain ⟨_, -, hchecked⟩ := bind_eq_ok.mp hchecked
  obtain ⟨_, -, hchecked⟩ := bind_eq_ok.mp hchecked
  obtain ⟨contentLength, hcontent, hchecked⟩ := bind_eq_ok.mp hchecked
  obtain ⟨_, hfits, hchecked⟩ := bind_eq_ok.mp hchecked
  obtain ⟨_, hnameLength, hparametersLength⟩ := bind_eq_ok.mp hchecked
  obtain ⟨nameBytes, hnameBytes, hname⟩ := bind_eq_ok.mp hname
  rw [SchemaFrame.checkFieldLength] at hnameLength hparametersLength
  rw [failIf_eq_ok, not_or, not_lt, not_not] at haligned
  rw [failIf_eq_ok, not_lt] at hfits hnameLength hparametersLength
  rw [okOr_eq_ok] at hname hnext hcontent
  rw [checkedAdd_eq_some] at hnext
  simp only [Option.bind_eq_bind, Option.bind_eq_some_iff, checkedAdd_eq_some] at hcontent
  obtain ⟨_, ⟨-, rfl⟩, -, rfl⟩ := hcontent
  have hread : (utf8Bytes name).length = fields.nameLength := by
    rw [utf8Bytes_of_utf8Decode hname]
    exact length_of_readAllocated hnameBytes
  have hspells := spells_of_parseType htype
  rw [length_of_readAllocated hparameters] at hspells
  have hfixed : SchemaFrame.descriptorPrefixSize = schemaDescriptorSize := rfl
  have hfits' : schemaDescriptorSize + (utf8Bytes name).length + fields.parametersLength ≤
      fields.length := by
    rw [hread, ← hfixed]
    exact hfits
  let column := columnOf ⟨place.offset, nextPosition, fields.columnId,
    fields.flags &&& nullableColumnFlag ≠ 0, name, logicalType⟩
  obtain ⟨image, hbuilds, hle, himage⟩ : ∃ image, buildDescriptor column = .ok image ∧
      image.length ≤ fields.length ∧ image.length % frameAlignment = 0 :=
    exists_buildDescriptor hspells hparametersLength (hread.trans_le hnameLength) hfits' haligned.2
      hlength
  obtain ⟨typeId, spelled, hspelled, -⟩ := hspells
  refine ⟨hcolumnId, ⟨typeId, spelled, hspelled⟩, hread.trans_le hnameLength, image, hbuilds, ?_,
    himage⟩
  obtain ⟨-, rfl⟩ := hnext
  exact Nat.add_le_add_left hle position

/-! ### What the parser has checked of a schema -/

theorem toNat_ofNat_columnId {position : ℕ} {descriptor : Descriptor}
    (h : Recovered position descriptor) :
    (columnOf descriptor).id.toNat = descriptor.columnId := by
  have hle := h.columnId_le
  rw [u32Max] at hle
  show (UInt32.ofNat descriptor.columnId).toNat = _
  rw [UInt32.toNat_ofNat']
  exact Nat.mod_eq_of_lt (by omega)

/-- A column that was accepted among others is valid among them. -/
theorem validateColumn_of_insertColumn {seen columns : List Column} {position : ℕ}
    {descriptor : Descriptor} (h : Recovered position descriptor)
    (hinsert : SchemaFrame.insertColumn seen descriptor = .ok columns) :
    validateColumn seen (columnOf descriptor) = .ok () ∧ columns =
      seen ++ [columnOf descriptor] := by
  obtain ⟨_, hid, hinsert⟩ := bind_eq_ok.mp hinsert
  obtain ⟨_, hids, hinsert⟩ := bind_eq_ok.mp hinsert
  obtain ⟨_, hnames, hinsert⟩ := bind_eq_ok.mp hinsert
  cases hinsert
  rw [failIf_eq_ok] at hid hids hnames
  obtain ⟨typeId, image, htyped⟩ := h.typed
  have hname := h.name_le
  have hfield : Limits.default.maxSchemaFieldLength = 16 * 1024 * 1024 := rfl
  have hne : (columnOf descriptor).id ≠ 0 := by
    rw [Ne, ← UInt32.toNat_inj, toNat_ofNat_columnId h, UInt32.toNat_zero]
    exact hid
  have hsmall : ¬u32Max < (utf8Bytes (columnOf descriptor).name).length := by
    show ¬u32Max < (utf8Bytes descriptor.name).length
    rw [u32Max]
    omega
  have htyped' : typeIdAndParameters (columnOf descriptor).logicalType = .ok (typeId, image) :=
    htyped
  refine ⟨?_, rfl⟩
  rw [validateColumn, failIf_neg hne, ok_bind,
    failIf_neg (show ¬(columnOf descriptor).id ∈ _ from hids),
    ok_bind, failIf_neg (show ¬(columnOf descriptor).name ∈ _ from hnames), ok_bind, htyped',
      ok_bind,
    failIf_neg hsmall, ok_bind]
  exact failIf_neg (Nat.not_lt.mpr hname)

/-- **The columns that were read** are valid, and have descriptors no longer than the ones they were
read from. -/
theorem validateColumns_of_readDescriptors {file : Bytes} {frame : FrameMetadata}
    {count position final : ℕ} {seen columns : List Column}
    (h : SchemaFrame.readDescriptors file frame Limits.default count position seen =
      .ok (final, columns)) :
    ∃ read descriptors, columns = seen ++ read ∧ read.length = count ∧
      validateColumns seen read = .ok () ∧ read.mapM buildDescriptor = .ok descriptors ∧
        position + descriptors.flatten.length ≤ final ∧
          descriptors.flatten.length % frameAlignment = 0 := by
  induction count generalizing position seen with
  | zero =>
    cases h
    exact ⟨[], [], (List.append_nil _).symm, rfl, rfl, rfl, le_rfl, rfl⟩
  | succ count ih =>
    obtain ⟨descriptor, hdescriptor, h⟩ := bind_eq_ok.mp h
    obtain ⟨inserted, hinsert, h⟩ := bind_eq_ok.mp h
    have hrecovered := recovered_of_parseDescriptor hdescriptor
    obtain ⟨hvalid, rfl⟩ := validateColumn_of_insertColumn hrecovered hinsert
    obtain ⟨image, hbuilds, hnext, haligned⟩ := hrecovered.builds
    obtain ⟨read, descriptors, hcolumns, hcount, hrest, hmap, hfinal, hflat⟩ := ih h
    refine ⟨columnOf descriptor :: read, image :: descriptors, ?_, ?_, ?_, ?_, ?_, ?_⟩
    · rw [hcolumns, List.append_assoc]
      rfl
    · rw [List.length_cons, hcount]
    · rw [validateColumns, hvalid]
      exact hrest
    · rw [List.mapM_cons, hbuilds, ok_bind, hmap]
      rfl
    · rw [List.flatten_cons, List.length_append]
      omega
    · rw [List.flatten_cons, List.length_append, Nat.add_mod, haligned, hflat]
      rfl

theorem le_of_parseHeader {bytes : Bytes} {offset : ℕ} {fields : SchemaHeaderFields}
    (h : SchemaFrame.parseHeader bytes offset = .ok fields) :
    fields.schemaId ≤ u64Max ∧ fields.columnCount ≤ u32Max ∧ fields.primaryColumnId ≤ u32Max := by
  have hu32 : u32Max = 256 ^ 4 - 1 := rfl
  have hu64 : u64Max = 256 ^ 8 - 1 := rfl
  obtain ⟨_, h⟩ := exists_of_run' h
  obtain ⟨schemaId, _, hschemaId, h⟩ := exists_of_readUInt_bind h
  obtain ⟨columnCount, _, hcolumnCount, h⟩ := exists_of_readUInt_bind h
  obtain ⟨primary, _, hprimary, h⟩ := exists_of_readUInt_bind h
  obtain ⟨_, _, -, h⟩ := exists_of_readUInt_bind h
  obtain ⟨_, -, h⟩ := bind_eq_ok.mp h
  cases h
  dsimp only
  omega

/-- The primary column that was read is one the writer accepts. -/
theorem validatePrimary_of_resolvePrimary {schema : Schema} {fields : SchemaHeaderFields}
    {frame : FrameMetadata} (hle : fields.primaryColumnId ≤ u32Max)
    (h : SchemaFrame.resolvePrimary schema.columns fields frame = .ok schema.primaryColumnId) :
    validatePrimary schema = .ok () := by
  rw [SchemaFrame.resolvePrimary] at h
  split at h
  · have hnone : schema.primaryColumnId = none := (Except.ok.inj h).symm
    rw [validatePrimary, hnone]
  · obtain ⟨column, hfind, h⟩ := bind_eq_ok.mp h
    obtain ⟨_, hcandidate, h⟩ := bind_eq_ok.mp h
    have hsome : schema.primaryColumnId = some (UInt32.ofNat fields.primaryColumnId) :=
      (Except.ok.inj h).symm
    rw [okOr_eq_ok] at hfind
    rw [failIf_eq_ok, not_not, SchemaFrame.isPrimaryCandidate, Bool.and_eq_true] at hcandidate
    have hsmall : (UInt32.ofNat fields.primaryColumnId).toNat = fields.primaryColumnId := by
      rw [u32Max] at hle
      rw [UInt32.toNat_ofNat']
      exact Nat.mod_eq_of_lt (by omega)
    have hcolumn : schema.columnById (UInt32.ofNat fields.primaryColumnId) = some column := by
      rw [← hfind, Schema.columnById]
      congr 1
      funext other
      rw [decide_eq_decide, ← UInt32.toNat_inj, hsmall]
    rw [validatePrimary, hsome]
    dsimp only
    rw [hcolumn]
    refine failIf_neg ?_
    rintro (hnullable | hselectable)
    · rw [hnullable] at hcandidate
      cases hcandidate.1
    · exact hselectable hcandidate.2

/-- The columns of a schema that was read are described within its payload. -/
theorem descriptors_of_readColumns {file : Bytes} {frame : FrameMetadata} {count : ℕ}
    {columns : List Column}
    (h : SchemaFrame.readColumns file frame count Limits.default = .ok columns) :
    columns.length = count ∧ validateColumns [] columns = .ok () ∧
      ∃ descriptors, columns.mapM buildDescriptor = .ok descriptors ∧
        descriptors.flatten.length ≤ frame.payloadLength ∧
          descriptors.flatten.length % frameAlignment = 0 := by
  obtain ⟨⟨final, read⟩, hdescriptors, h⟩ := bind_eq_ok.mp h
  obtain ⟨_, hfinal, h⟩ := bind_eq_ok.mp h
  cases h
  rw [failIf_eq_ok, not_not] at hfinal
  obtain ⟨read, descriptors, hsame, hcount, hvalid, hmap, hle, haligned⟩ :=
    validateColumns_of_readDescriptors hdescriptors
  rw [List.nil_append] at hsame
  rw [Nat.zero_add, hfinal] at hle
  rw [hsame]
  exact ⟨hcount, hvalid, descriptors, hmap, hle, haligned⟩

/-- **A schema that was read is valid**, and described within the payload it was read from. -/
theorem schemaValid_of_parse {file : Bytes} {frame : FrameMetadata} {schema : Schema}
    (h : SchemaFrame.parse file frame Limits.default = .ok schema) :
    SchemaValid schema ∧
      ∃ descriptors, schema.columns.mapM buildDescriptor = .ok descriptors ∧
        descriptors.flatten.length ≤ frame.payloadLength ∧
          descriptors.flatten.length % frameAlignment = 0 := by
  obtain ⟨_, -, h⟩ := bind_eq_ok.mp h
  obtain ⟨fields, hfields, h⟩ := bind_eq_ok.mp h
  obtain ⟨_, hheader, h⟩ := bind_eq_ok.mp h
  obtain ⟨columns, hcolumns, h⟩ := bind_eq_ok.mp h
  obtain ⟨primaryColumnId, hprimary, h⟩ := bind_eq_ok.mp h
  cases h
  obtain ⟨bytes, -, hfields⟩ := bind_eq_ok.mp hfields
  obtain ⟨hschemaId, hcount, hprimaryLe⟩ := le_of_parseHeader (inRegion_eq_ok.mp hfields)
  obtain ⟨_, hid, hheader⟩ := bind_eq_ok.mp hheader
  obtain ⟨_, hne, hheader⟩ := bind_eq_ok.mp hheader
  obtain ⟨_, -, hheader⟩ := bind_eq_ok.mp hheader
  obtain ⟨_, hlimit, -⟩ := bind_eq_ok.mp hheader
  rw [failIf_eq_ok] at hid hne hlimit
  obtain ⟨hlength, hvalid, hdescriptors⟩ := descriptors_of_readColumns hcolumns
  have hschemaIdNe : UInt64.ofNat fields.schemaId ≠ 0 := by
    have hsmall : (UInt64.ofNat fields.schemaId).toNat = fields.schemaId := by
      rw [u64Max] at hschemaId
      rw [UInt64.toNat_ofNat']
      exact Nat.mod_eq_of_lt (by omega)
    rw [Ne, ← UInt64.toNat_inj, hsmall, UInt64.toNat_zero]
    exact hid
  have hcolumnsNe : columns ≠ [] := by
    rintro rfl
    exact hne hlength.symm
  have hcolumnsLe : columns.length ≤ Limits.default.maxSchemaColumns := by
    rw [hlength]
    exact Nat.not_lt.mp hlimit
  exact ⟨⟨hschemaIdNe, hcolumnsNe, hcolumnsLe, hvalid,
    validatePrimary_of_resolvePrimary hprimaryLe hprimary⟩, hdescriptors⟩

/-- A valid schema whose descriptors fit a frame has a frame. -/
theorem exists_buildSchemaFrame {schema : Schema} (h : SchemaValid schema)
    {descriptors : List Bytes}
    (hmap : schema.columns.mapM buildDescriptor = .ok descriptors)
    (hfits : descriptors.flatten.length ≤ Limits.default.maxFramePayloadLength)
    (haligned : descriptors.flatten.length % frameAlignment = 0) :
    ∃ image, buildSchemaFrame schema = .ok image := by
  have hheader := length_schemaHeader schema
  have hcolumns := h.columns_le
  have hmax : Limits.default.maxFramePayloadLength = 4 * 1024 * 1024 * 1024 := rfl
  have hmaxColumns : Limits.default.maxSchemaColumns = 65536 := rfl
  have hu32 : u32Max = 2 ^ 32 - 1 := rfl
  have hu64 : u64Max = 2 ^ 64 - 1 := rfl
  have hframe : buildFrame schemaFrameType schemaFrameSequence (schemaHeader schema)
      descriptors.flatten =
        .ok (frameImage schemaFrameType schemaFrameSequence (schemaHeader schema)
        descriptors.flatten) := by
    refine (buildFrame_eq_ok _ _ _ _).mpr ⟨⟨?_, haligned⟩, ?_, ?_, rfl⟩
    · rw [hheader]
      decide
    · rw [hheader]
      decide
    · have hsizes : prefixSize = 48 ∧ trailerSize = 32 ∧ schemaFrameHeaderSize = 24 :=
        ⟨rfl, rfl, rfl⟩
      rw [frameLength, hheader]
      omega
  have hbuilds : buildSchemaFrame schema = .ok (frameImage schemaFrameType schemaFrameSequence
      (schemaHeader schema) descriptors.flatten) := by
    rw [buildSchemaFrame, failIf_neg (by omega), ok_bind, hmap, ok_bind]
    dsimp only
    rw [failIf_neg (Nat.not_lt.mpr hfits), ok_bind]
    exact hframe
  exact ⟨_, hbuilds⟩

/-! ### The reader and the writer -/

/-- The reader takes a schema from the frame at an offset of some bytes, within the default
limits. -/
def Parses (file : Bytes) (offset : ℕ) (schema : Schema) : Prop :=
  ∃ frame, Frame.readFrame file file.length offset schemaFrameSequence Limits.default =
      .ok (.complete frame) ∧
    SchemaFrame.parse file frame Limits.default = .ok schema

variable {schema : Schema}

theorem payloadLength_le_of_readFrame {file : Bytes} {offset sequence : ℕ} {frame : FrameMetadata}
    (h : Frame.readFrame file file.length offset sequence Limits.default = .ok (.complete frame)) :
    frame.payloadLength ≤ Limits.default.maxFramePayloadLength := by
  obtain ⟨total, -, -, hframe, rfl⟩ := (Frame.readFrame_eq_complete le_rfl).mp h
  exact hframe.accepted.fields.payloadLimit

/-- **A schema that was read is one the writer accepts**, and builds a frame of. -/
theorem Parses.writable {file : Bytes} {offset : ℕ} (h : Parses file offset schema) :
    validateSchema schema = .ok () ∧ ∃ image, buildSchemaFrame schema = .ok image := by
  obtain ⟨frame, hread, hparse⟩ := h
  obtain ⟨hvalid, descriptors, hmap, hle, haligned⟩ := schemaValid_of_parse hparse
  have hfits := Nat.le_trans hle (payloadLength_le_of_readFrame hread)
  exact ⟨validateSchema_eq_ok.mpr hvalid, exists_buildSchemaFrame hvalid hmap hfits haligned⟩

/-- **A built schema frame is read back** wherever it stands. -/
theorem parses_of_buildSchemaFrame {image : Bytes} (hvalid : validateSchema schema = .ok ())
    (hbuild : buildSchemaFrame schema = .ok image) (before after : Bytes)
    (hlength : before.length + image.length ≤ u64Max) :
    Parses (before ++ image ++ after) before.length schema := by
  have hholds := holdsAt_append_middle before image after
  refine ⟨Frame.metadataAt image before.length,
    (Frame.readFrame_eq_complete le_rfl).mpr ⟨image.length, hholds.fits, by omega, ?_, ?_⟩,
    parse_buildSchemaFrame (validateSchema_eq_ok.mp hvalid) hbuild Limits.coversDefault_default
      hholds
      hlength⟩
  · rw [hholds.slice_eq]
    exact isFrame_of_buildSchemaFrame hbuild Limits.coversDefault_default
  · rw [hholds.slice_eq]

/-- A file that is read whole can be appended to. -/
theorem open_of_walk (zstd : Zstd) {file : Bytes} {scan : FileScan} {walk : Walk}
    {options : WriterOptions} (hopens : FileScan.fromFile file Limits.default = .ok scan)
    (hwalk : scan.walkDataFrames (fun _ _ _ ↦ .ok ()) () = .ok (walk, ()))
    (hwhole : walk.incompleteTail = false) (hoptions : validateOptions zstd options = .ok ())
    (hencoding : options.encoding = .raw) (hrowIds : options.rowIds = scan.rowIdsEnabled) :
    ∃ writer, Writer.«open» zstd { contents := some file } options = (.ok writer, some file) := by
  obtain ⟨frame, hopened⟩ := FileScan.fromFile_eq_ok.mp hopens
  obtain ⟨state, hcomplete, -, -⟩ := FileScan.Complete.of_walk hopens hwalk hwhole
  obtain ⟨hvalid, -⟩ := Parses.writable ⟨frame, hopened.read, hopened.schema⟩
  have hencodings : validateEncoding scan.schema options.encoding = .ok () := by
    rw [hencoding]
    rfl
  have hchecked : Writer.checkReopen scan none options = .ok () := by
    rw [Writer.checkReopen, hvalid, hencodings, failIf_neg (by simp), hrowIds, failIf_neg (by simp)]
    rfl
  have hpos : 0 < options.rowBlockTarget := by
    obtain ⟨_, hzero, -⟩ := bind_eq_ok.mp hoptions
    rw [failIf_eq_ok] at hzero
    exact Nat.pos_of_ne_zero hzero
  have hopen : Writer.«open» zstd { contents := some file } options = _ :=
    Writer.openInternal_of_complete zstd hoptions rfl rfl rfl hcomplete hchecked
  rw [Writer.startSession, dif_pos hpos] at hopen
  exact ⟨_, hopen⟩

/-- **The reader and the writer agree on which schemas there are.**  A schema the writer accepts and
builds a frame of is read back wherever that frame stands; a schema the reader takes from any bytes
is accepted by the writer, whose own frame of it is read back; and a file that is read whole can be
appended to. -/
theorem schemas_agree (zstd : Zstd) :
    (∀ schema image, validateSchema schema = .ok () → buildSchemaFrame schema = .ok image →
      ∀ before after : Bytes, before.length + image.length ≤ u64Max →
        ∀ read, Parses (before ++ image ++ after) before.length read ↔ read = schema) ∧
    (∀ file offset schema, Parses file offset schema →
      validateSchema schema = .ok () ∧ validateEncoding schema .raw = .ok () ∧
        ∃ image, buildSchemaFrame schema = .ok image ∧ Parses image 0 schema) ∧
    ∀ file scan walk (options : WriterOptions), FileScan.fromFile file Limits.default = .ok scan →
      scan.walkDataFrames (fun _ _ _ ↦ .ok ()) () = .ok (walk, ()) → walk.incompleteTail = false →
        validateOptions zstd options = .ok () → options.encoding = .raw →
          options.rowIds = scan.rowIdsEnabled →
            ∃ writer, Writer.«open» zstd { contents := some file } options =
              (.ok writer, some file) := by
  refine ⟨?_, ?_, ?_⟩
  · intro schema image hvalid hbuild before after hlength read
    have hparses := parses_of_buildSchemaFrame hvalid hbuild before after hlength
    constructor
    · rintro ⟨frame, hread, hparse⟩
      obtain ⟨frame', hread', hparse'⟩ := hparses
      rw [hread] at hread'
      cases hread'
      rw [hparse] at hparse'
      cases hparse'
      rfl
    · rintro rfl
      exact hparses
  · intro file offset schema hparses
    obtain ⟨hvalid, image, hbuild⟩ := hparses.writable
    have hread := parses_of_buildSchemaFrame hvalid hbuild [] [] (by
      have hsmall := length_le_of_buildSchemaFrame hbuild
      rw [defaultMaxFramePayloadLength] at hsmall
      rw [List.length_nil, u64Max]
      omega)
    rw [List.nil_append, List.append_nil] at hread
    exact ⟨hvalid, rfl, image, hbuild, hread⟩
  · intro file scan walk options hopens hwalk hwhole hoptions hencoding hrowIds
    exact open_of_walk zstd hopens hwalk hwhole hoptions hencoding hrowIds

/-- The schema of one column of integers, read back from between two bytes. -/
theorem schemas_agree_numberSchema :
    ∃ image, buildSchemaFrame numberSchema = .ok image ∧
      Parses ([0] ++ image ++ [0]) 1 numberSchema := by
  obtain ⟨image, hbuild, hlength⟩ : ∃ image, buildSchemaFrame numberSchema = .ok image ∧
      image.length ≤ 1000 :=
    exists_ok_and (by decide +kernel) (by decide +kernel)
  have hfits : [(0 : UInt8)].length + image.length ≤ u64Max := by
    rw [List.length_singleton, u64Max]
    omega
  have hread := (schemas_agree storingZstd).1 numberSchema image (by decide) hbuild [0] [0] hfits
    numberSchema
  exact ⟨image, hbuild, hread.mpr rfl⟩

end Write

end Acta
