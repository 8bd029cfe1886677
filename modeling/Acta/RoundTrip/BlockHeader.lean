import Acta.RoundTrip.Opening

/-!
# Block headers

The fixed header of a data frame is read back from the bytes the writer lays it out in
(`parseHeader_blockHeader`), and the walk accepts it under the schema and the row IDs it was written
for (`parse_of_buildFrame`).
-/

namespace Acta

open Machine Wire

namespace Write

/-- The bounds a block header claims, and whether it claims to be sorted. -/
structure PrimaryHeader (schema : Schema) (primary : ℤ × ℤ × Bool) : Prop where
  minimum : IntType.int64.InRange primary.1
  maximum : IntType.int64.InRange primary.2.1
  ordered : primary.1 ≤ primary.2.1
  absent : schema.primaryColumnId = none → primary = (0, 0, false)

/-- The flags of a block header. -/
def blockFlags (rowIds tsSorted : Bool) : ℕ :=
  let rowIdsFlag := if rowIds then rowIdsBlockFlag else 0
  if tsSorted then rowIdsFlag ||| tsSortedBlockFlag else rowIdsFlag

theorem blockFlags_facts (rowIds tsSorted : Bool) :
    blockFlags rowIds tsSorted < 2 ^ 32 ∧
      blockFlags rowIds tsSorted &&& (2 ^ 32 - 1 - (rowIdsBlockFlag ||| tsSortedBlockFlag)) = 0 ∧
        decide (blockFlags rowIds tsSorted &&& rowIdsBlockFlag ≠ 0) = rowIds ∧
          decide (blockFlags rowIds tsSorted &&& tsSortedBlockFlag ≠ 0) = tsSorted := by
  cases rowIds <;> cases tsSorted <;> decide

section Header

variable {schema : Schema} {baseRowId rowCount : ℕ} {primary : ℤ × ℤ × Bool} {rowIds : Bool}
  {streamTableOffset statisticsOffset statisticsLength : ℕ}

@[simp] theorem length_blockHeader : (blockHeader schema baseRowId rowCount primary rowIds
    streamTableOffset statisticsOffset statisticsLength).length = 64 := by
  simp [blockHeader]

/-- The sizes a block header can hold. -/
structure HeaderFits (schema : Schema) (baseRowId rowCount streamTableOffset statisticsOffset
    statisticsLength : ℕ) : Prop where
  baseRowId : baseRowId ≤ u64Max
  rowCount : rowCount ≤ u32Max
  columns : schema.columns.length ≤ u32Max
  streamTableOffset : streamTableOffset ≤ u32Max
  statisticsOffset : statisticsOffset ≤ u32Max
  statisticsLength : statisticsLength ≤ u32Max

theorem leNat_leBytes_u32 {n : ℕ} (h : n ≤ u32Max) : leNat (leBytes 4 n) = n := by
  refine leNat_leBytes_of_lt ?_
  simp only [u32Max] at h
  omega

theorem leNat_leBytes_u64 {n : ℕ} (h : n ≤ u64Max) : leNat (leBytes 8 n) = n := by
  refine leNat_leBytes_of_lt ?_
  simp only [u64Max] at h
  omega

theorem ofTwos_leNat_leBytes {value : ℤ} (h : IntType.int64.InRange value) :
    ofTwos 64 (leNat (leBytes 8 (toTwos 64 value))) = value := by
  have hlt := toTwos_lt 64 value
  obtain ⟨hlo, hhi⟩ := h
  rw [leNat_leBytes_of_lt (by omega)]
  refine ofTwos_toTwos (by decide) ?_ ?_
  · simpa [IntType.lowest, IntType.width, IntType.signed] using hlo
  · simpa [IntType.limit, IntType.width, IntType.signed] using hhi

/-- **The fixed block header is read back.** -/
theorem parseHeader_blockHeader (hfits : HeaderFits schema baseRowId rowCount streamTableOffset
      statisticsOffset statisticsLength) (hprimary : PrimaryHeader schema primary) (offset : ℕ) :
    DataFrame.parseHeader (blockHeader schema baseRowId rowCount primary rowIds streamTableOffset
        statisticsOffset statisticsLength) offset = .ok
      { schemaId := schema.schemaId.toNat, baseRowId, rowCount,
        columnCount := schema.columns.length, primaryMin := primary.1, primaryMax := primary.2.1,
        columnTableOffset := dataBlockHeaderSize, streamTableOffset, statisticsOffset,
        statisticsLength, flags := blockFlags rowIds primary.2.2 } := by
  obtain ⟨minimum, maximum, tsSorted⟩ := primary
  obtain ⟨hflags, -⟩ := blockFlags_facts rowIds tsSorted
  have hlength : (blockHeader schema baseRowId rowCount (minimum, maximum, tsSorted) rowIds
      streamTableOffset statisticsOffset statisticsLength).length = 64 := length_blockHeader
  have hu : (blockHeader schema baseRowId rowCount (minimum, maximum, tsSorted) rowIds
      streamTableOffset statisticsOffset statisticsLength).length ≤ u64Max := by
    rw [hlength]
    decide
  have hbase := leNat_leBytes_u64 hfits.baseRowId
  have hrows := leNat_leBytes_u32 hfits.rowCount
  have hcolumns := leNat_leBytes_u32 hfits.columns
  have hstreams := leNat_leBytes_u32 hfits.streamTableOffset
  have hstatistics := leNat_leBytes_u32 hfits.statisticsOffset
  have harea := leNat_leBytes_u32 hfits.statisticsLength
  have htable : leNat (leBytes 4 dataBlockHeaderSize) = dataBlockHeaderSize := by decide
  have hflag : leNat (leBytes 4 (blockFlags rowIds tsSorted)) = blockFlags rowIds tsSorted :=
    leNat_leBytes_of_lt (by omega)
  have hmin : ofTwos 64 (leNat (leBytes 8 (toTwos 64 minimum))) = minimum :=
    ofTwos_leNat_leBytes hprimary.minimum
  have hmax : ofTwos 64 (leNat (leBytes 8 (toTwos 64 maximum))) = maximum :=
    ofTwos_leNat_leBytes hprimary.maximum
  simp only [blockFlags] at hflag
  simp (disch := first | assumption | omega) only [DataFrame.parseHeader,
    DataFrame.blockHeaderFields, StateT.run', Cursor.new, Cursor.readU32, Cursor.readU64,
    Cursor.readUInt_bind, Cursor.skip_bind, blockReservedSize]
  simp [blockHeader, blockFlags, slice_append_right', slice_field, hbase, hrows, hcolumns, hstreams,
    hstatistics, harea, htable, hflag, hmin, hmax]
  rfl

/-- What the walk records of a block. -/
def blockMetadata (schema : Schema) (baseRowId rowCount : ℕ) (primary : ℤ × ℤ × Bool)
    (rowIds : Bool) : DataFrameMetadata where
  rowCount := rowCount
  baseRowId := if rowIds then some baseRowId else none
  primaryBounds := if schema.primaryColumnId.isSome then some (primary.1, primary.2.1) else none
  tsSorted := primary.2.2

/-- The tables of a block header follow each other, inside a header of `headerLength` bytes. -/
structure TablesFit (schema : Schema) (streamCount headerLength streamTableOffset statisticsOffset
    statisticsLength : ℕ) : Prop where
  streamTable : streamTableOffset =
    dataBlockHeaderSize + schema.columns.length * blockColumnDescriptorSize
  statistics : statisticsOffset = streamTableOffset + streamCount * blockStreamDescriptorSize
  header : statisticsOffset + statisticsLength ≤ headerLength
  headerLength_le : headerLength ≤ u32Max

/-- The base row ID a block carries: the next row ID of the file, or the mark of its absence. -/
def CarriesBase (rowIds : Bool) (expected : Option ℕ) (baseRowId : ℕ) : Prop :=
  if rowIds then baseRowId = expected.getD firstBaseRowId else baseRowId = unavailableBaseRowId

/-- The feature bits that go with row IDs. -/
def featuresOf (rowIds : Bool) : ℕ :=
  if rowIds then rowIdsFeature else 0

theorem features_and_rowIdsFeature (rowIds : Bool) :
    decide (featuresOf rowIds &&& rowIdsFeature ≠ 0) = rowIds := by
  cases rowIds <;> decide

theorem resolveBaseRowId_blockHeader {fields : BlockHeaderFields} {expected : Option ℕ}
    (hflags : fields.flags = blockFlags rowIds primary.2.2) (hfield : fields.baseRowId = baseRowId)
    (hbase : CarriesBase rowIds expected baseRowId) (frame : FrameMetadata) :
    DataFrame.resolveBaseRowId fields (featuresOf rowIds) expected frame =
      .ok (if rowIds then some baseRowId else none) := by
  obtain ⟨-, -, hrowIds, -⟩ := blockFlags_facts rowIds primary.2.2
  rw [← hflags] at hrowIds
  have hfeature := features_and_rowIdsFeature rowIds
  simp only [DataFrame.resolveBaseRowId, hrowIds, hfeature]
  rw [failIf_neg (by simp), ok_bind]
  cases rowIds with
  | true =>
    have heq : baseRowId = expected.getD firstBaseRowId := hbase
    simp only [if_true, hfield]
    rw [failIf_neg (by rw [heq, not_not]), ok_bind, pure_eq_ok]
  | false =>
    have heq : baseRowId = unavailableBaseRowId := hbase
    simp only [Bool.false_eq_true, if_false, hfield]
    rw [failIf_neg (by rw [heq, not_not]), ok_bind, pure_eq_ok]

theorem resolvePrimaryBounds_blockHeader {fields : BlockHeaderFields}
    (hminimum : fields.primaryMin = primary.1) (hmaximum : fields.primaryMax = primary.2.1)
    (hprimary : PrimaryHeader schema primary) (frame : FrameMetadata) :
    DataFrame.resolvePrimaryBounds fields schema primary.2.2 frame =
      .ok (if schema.primaryColumnId.isSome then some (primary.1, primary.2.1) else none) := by
  simp only [DataFrame.resolvePrimaryBounds, hminimum, hmaximum]
  cases hid : schema.primaryColumnId with
  | some id =>
    rw [Option.isSome_some, if_pos rfl, if_pos rfl,
      failIf_neg (Int.not_lt.mpr hprimary.ordered), ok_bind, pure_eq_ok]
  | none =>
    have hzero := hprimary.absent hid
    rw [hzero]
    rfl

theorem validateLayout_eq_ok {fields : BlockHeaderFields} {streamCount : ℕ} {frame : FrameMetadata}
    (htable : fields.columnTableOffset = dataBlockHeaderSize)
    (htables : TablesFit schema streamCount frame.headerLength fields.streamTableOffset
      fields.statisticsOffset fields.statisticsLength) :
    DataFrame.validateLayout fields frame.headerLength schema.columns.length frame = .ok () := by
  obtain ⟨hstream, hstatistics, hheader, hmax⟩ := htables
  have hu : u32Max ≤ u64Max := by decide
  have hmultiple : (fields.statisticsOffset - fields.streamTableOffset) %
      blockStreamDescriptorSize = 0 := by
    rw [hstatistics, Nat.add_sub_cancel_left, Nat.mul_mod_left]
  simp only [DataFrame.validateLayout, bind_eq_ok, failIf_eq_ok, okOr_eq_ok, checkedMul_eq_some,
    checkedAdd_eq_some, not_not, not_lt, htable, hmultiple]
  exact ⟨(), trivial, _, ⟨by omega, rfl⟩, _, ⟨by omega, rfl⟩, (), hstream, (), by omega, (),
    trivial, _, ⟨by omega, rfl⟩, hheader⟩

/-- **A block header the writer lays out passes every check of the reader.** -/
theorem checkBlockHeader_blockHeader {streamCount : ℕ} {expected : Option ℕ} {frame : FrameMetadata}
    (hrows : rowCount ≠ 0) (hprimary : PrimaryHeader schema primary)
    (htables : TablesFit schema streamCount frame.headerLength streamTableOffset statisticsOffset
      statisticsLength) (hbase : CarriesBase rowIds expected baseRowId) :
    DataFrame.checkBlockHeader
        { schemaId := schema.schemaId.toNat, baseRowId, rowCount,
          columnCount := schema.columns.length, primaryMin := primary.1, primaryMax := primary.2.1,
          columnTableOffset := dataBlockHeaderSize, streamTableOffset, statisticsOffset,
          statisticsLength, flags := blockFlags rowIds primary.2.2 }
        frame schema (featuresOf rowIds) expected =
      .ok (blockMetadata schema baseRowId rowCount primary rowIds) := by
  obtain ⟨-, hunknown, -, hsorted⟩ := blockFlags_facts rowIds primary.2.2
  simp only [DataFrame.checkBlockHeader, DataFrame.checkSchemaAgreement, DataFrame.checkFlags,
    bind_eq_ok, failIf_eq_ok, not_not, hunknown, hsorted, hrows, not_false_eq_true, pure_eq_ok,
    Except.ok.injEq]
  exact ⟨_, ⟨(), trivial, (), trivial, (), trivial, rfl⟩, (), validateLayout_eq_ok rfl htables, (),
    trivial, _, resolveBaseRowId_blockHeader rfl rfl hbase frame, _,
    resolvePrimaryBounds_blockHeader rfl rfl hprimary _, rfl⟩

end Header

/-! ### The frame in the file -/

/-- The header of a data frame: the fixed part and the tables after it. -/
structure IsBlockHeader (schema : Schema) (baseRowId rowCount : ℕ) (primary : ℤ × ℤ × Bool)
    (rowIds : Bool) (streamCount : ℕ) (header : Bytes) : Prop where
  layout : ∃ streamTableOffset statisticsOffset statisticsLength rest,
    header = blockHeader schema baseRowId rowCount primary rowIds streamTableOffset
      statisticsOffset statisticsLength ++ rest ∧
    HeaderFits schema baseRowId rowCount streamTableOffset statisticsOffset statisticsLength ∧
    TablesFit schema streamCount header.length streamTableOffset statisticsOffset statisticsLength
  primary : PrimaryHeader schema primary
  rows : rowCount ≠ 0

section InFile

variable {schema : Schema} {baseRowId rowCount streamCount : ℕ} {primary : ℤ × ℤ × Bool}
  {rowIds : Bool} {sequence : ℕ} {header payload image file : Bytes} {limits : Limits}
  {offset : ℕ}

theorem IsBlockHeader.size_le
    (h : IsBlockHeader schema baseRowId rowCount primary rowIds streamCount
    header) : dataBlockHeaderSize ≤ header.length := by
  obtain ⟨_, _, _, rest, hheader, -⟩ := h.layout
  rw [hheader, List.length_append, length_blockHeader]
  exact Nat.le_add_right _ _

/-- **The walk accepts a data frame the writer lays out**, wherever the frame stands. -/
theorem parse_of_buildFrame (hframe : buildFrame dataFrameType sequence header payload = .ok image)
    (hframable : Framable dataFrameType sequence header payload limits)
    (hheader : IsBlockHeader schema baseRowId rowCount primary rowIds streamCount header)
    {expected : Option ℕ} (hbase : CarriesBase rowIds expected baseRowId)
    (hholds : HoldsAt file offset image) :
    DataFrame.parse file (Frame.metadataAt image offset) schema (featuresOf rowIds) expected =
      .ok (blockMetadata schema baseRowId rowCount primary rowIds) := by
  obtain ⟨streamTableOffset, statisticsOffset, statisticsLength, rest, hlayout, hfits, htables⟩ :=
    hheader.layout
  have hlength : prefixSize + header.length ≤ image.length := by
    rw [length_of_buildFrame hframe, frameLength]
    omega
  have hheld : HoldsAt file (offset + prefixSize) header :=
    hholds.inside ⟨slice_header_of_buildFrame hframe, hlength⟩
  rw [hlayout] at hheld
  have hread := readExactAt_of_holdsAt hheld.left
  rw [length_blockHeader] at hread
  rw [metadataAt_of_buildFrame hframe hframable, DataFrame.parse, DataFrame.checkFrameType,
    failIf_neg (by simp), ok_bind]
  simp only [DataFrame.readHeader, DataFrame.inHeader, dataBlockHeaderSize, hread, Except.mapError,
    ok_bind, parseHeader_blockHeader hfits hheader.primary]
  exact checkBlockHeader_blockHeader hheader.rows hheader.primary htables hbase

end InFile

end Write

end Acta
