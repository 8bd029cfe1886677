import Acta.RoundTrip.BlockHeader

/-!
# What a built data frame is made of

`Built` says everything the writer establishes on the way to a data frame: the columns it assembled,
the bounds it claims, the header and the payload it framed, and the limits it kept to
(`buildDataFrame_eq_ok`).  From this alone the walk accepts the frame (`Built.parse`) and, further
on, a decode gives back the rows.
-/

namespace Acta

open Machine Wire

namespace Write

/-- Where the stream table of a block begins. -/
def streamTableStart (schema : Schema) : ℕ :=
  dataBlockHeaderSize + schema.columns.length * blockColumnDescriptorSize

/-- Where the statistics area of a block begins. -/
def statisticsStart (schema : Schema) (assembly : BlockAssembly) : ℕ :=
  streamTableStart schema + assembly.streamCount * blockStreamDescriptorSize

/-- The padded statistics area of a block. -/
def statisticsArea (schema : Schema) (assembly : BlockAssembly) : Bytes :=
  padToAlignment (layOutStatistics (statisticsStart schema assembly) assembly.columns []).1

/-- Each column with the place of its statistics. -/
def columnEntries (schema : Schema) (assembly : BlockAssembly) : List (EncodedColumn × Option ℕ) :=
  assembly.columns.zip (layOutStatistics (statisticsStart schema assembly) assembly.columns []).2

/-- The header of a block up to its statistics. -/
def headerTables (schema : Schema) (rows : BlockRows) (options : WriterOptions) (baseRowId : ℕ)
    (assembly : BlockAssembly) (primary : ℤ × ℤ × Bool) : Bytes :=
  blockHeader schema baseRowId rows.rowCount primary options.rowIds (streamTableStart schema)
      (statisticsStart schema assembly) (statisticsArea schema assembly).length ++
    ((columnEntries schema assembly).flatMap fun (column, offset) ↦
      columnDescriptorBytes column offset) ++
    (assembly.columns.flatMap EncodedColumn.streams).flatMap (streamDescriptorBytes options.codec)

/-- What the writer establishes on the way to a data frame. -/
structure Built (zstd : Zstd) (schema : Schema) (rows : BlockRows) (options : WriterOptions)
    (baseRowId sequence : ℕ) (assembly : BlockAssembly) (primary : ℤ × ℤ × Bool) (image : Bytes) :
    Prop where
  rows_le : rows.rowCount ≤ defaultMaxRowsPerBlock
  assembled : (sortedColumns schema).foldlM (assembleColumn zstd schema rows options) {} =
    .ok assembly
  bounds : primaryMetadata schema rows = .ok primary
  header_le : statisticsStart schema assembly + (statisticsArea schema assembly).length ≤
    defaultMaxFrameHeaderLength
  payload_le : assembly.payload.length ≤ defaultMaxFramePayloadLength
  columns_le : schema.columns.length ≤ u32Max
  entries : ∀ entry ∈ columnEntries schema assembly, entry.1.streams.length < 2 ^ 16 ∧
    entry.2.getD 0 ≤ u32Max ∧ (entry.1.statistics.map List.length).getD 0 ≤ u32Max
  tables : (headerTables schema rows options baseRowId assembly primary).length =
    statisticsStart schema assembly
  frame : buildFrame dataFrameType sequence (headerTables schema rows options baseRowId assembly
    primary ++ statisticsArea schema assembly) assembly.payload = .ok image

variable {zstd : Zstd} {schema : Schema} {rows : BlockRows} {options : WriterOptions}
  {baseRowId sequence : ℕ} {assembly : BlockAssembly} {primary : ℤ × ℤ × Bool} {image : Bytes}

theorem checkColumnEntry_eq_ok {column : EncodedColumn} {offset : Option ℕ} {u : Unit} :
    checkColumnEntry column offset = .ok u ↔ column.streams.length < 2 ^ 16 ∧
      offset.getD 0 ≤ u32Max ∧ (column.statistics.map List.length).getD 0 ≤ u32Max := by
  simp only [checkColumnEntry, bind_eq_ok, failIf_eq_ok, not_le, not_lt]
  constructor
  · rintro ⟨_, hstreams, _, hoffset, hlength⟩
    exact ⟨hstreams, hoffset, hlength⟩
  · rintro ⟨hstreams, hoffset, hlength⟩
    exact ⟨(), hstreams, (), hoffset, hlength⟩

/-- **What building a data frame establishes.** -/
theorem buildDataFrame_eq_ok
    (h : buildDataFrameWithStatistics zstd schema rows options baseRowId sequence = .ok image) :
    ∃ assembly primary,
      Built zstd schema rows options baseRowId sequence assembly primary image := by
  rw [buildDataFrameWithStatistics] at h
  obtain ⟨-, -, h⟩ := bind_eq_ok.mp h
  obtain ⟨_, hrows, h⟩ := bind_eq_ok.mp h
  obtain ⟨assembly, hassembled, h⟩ := bind_eq_ok.mp h
  obtain ⟨_, hstreams, h⟩ := bind_eq_ok.mp h
  obtain ⟨_, hcolumnTable, h⟩ := bind_eq_ok.mp h
  obtain ⟨_, hstart, h⟩ := bind_eq_ok.mp h
  obtain ⟨_, hstatistics, h⟩ := bind_eq_ok.mp h
  simp only [okOr_eq_ok, checkedMul_eq_some] at hstreams hcolumnTable
  simp only [okOr_eq_ok, checkedAdd_eq_some] at hstart hstatistics
  obtain ⟨-, rfl⟩ := hstreams
  obtain ⟨-, rfl⟩ := hcolumnTable
  obtain ⟨-, rfl⟩ := hstart
  obtain ⟨-, rfl⟩ := hstatistics
  rcases hlay : layOutStatistics (statisticsStart schema assembly) assembly.columns [] with
    ⟨area, offsets⟩
  have harea : statisticsArea schema assembly = padToAlignment area := by
    rw [statisticsArea, hlay]
  have hcolumnEntries : columnEntries schema assembly = assembly.columns.zip offsets := by
    rw [columnEntries, hlay]
  rw [show layOutStatistics
    (dataBlockHeaderSize + schema.columns.length * blockColumnDescriptorSize +
    assembly.streamCount * blockStreamDescriptorSize) assembly.columns [] = (area, offsets)
      from hlay] at h
  dsimp only at h
  rw [← harea, ← hcolumnEntries] at h
  obtain ⟨_, hheader, h⟩ := bind_eq_ok.mp h
  obtain ⟨_, hpayload, h⟩ := bind_eq_ok.mp h
  obtain ⟨primary, hprimary, h⟩ := bind_eq_ok.mp h
  obtain ⟨_, hcolumns, h⟩ := bind_eq_ok.mp h
  obtain ⟨-, -, h⟩ := bind_eq_ok.mp h
  obtain ⟨-, -, h⟩ := bind_eq_ok.mp h
  obtain ⟨-, -, h⟩ := bind_eq_ok.mp h
  obtain ⟨⟨⟩, hentries, h⟩ := bind_eq_ok.mp h
  obtain ⟨_, htables, hframe⟩ := bind_eq_ok.mp h
  rw [failIf_eq_ok, not_lt] at hrows hheader hpayload hcolumns
  rw [failIf_eq_ok, not_not] at htables
  refine ⟨assembly, primary, hrows, hassembled, hprimary, ?_, hpayload, hcolumns, ?_, htables,
    hframe⟩
  · have hsum : saturatingAdd (statisticsStart schema assembly)
        (statisticsArea schema assembly).length ≤ defaultMaxFrameHeaderLength := hheader
    simp only [saturatingAdd, u64Max, defaultMaxFrameHeaderLength] at hsum ⊢
    omega
  · intro entry hentry
    exact checkColumnEntry_eq_ok.mp (forM_eq_ok.mp hentries entry hentry)

/-- **What is established is enough to build the data frame.** -/
theorem Built.buildDataFrame_eq
    (h : Built zstd schema rows options baseRowId sequence assembly primary image) :
    buildDataFrameWithStatistics zstd schema rows options baseRowId sequence = .ok image := by
  have hrows : ¬Limits.default.maxRowsPerBlock < rows.rowCount := not_lt.mpr h.rows_le
  have hcount : ¬u32Max < rows.rowCount := not_lt.mpr (h.rows_le.trans (by decide))
  have hheader : statisticsStart schema assembly + (statisticsArea schema assembly).length ≤
    Limits.default.maxFrameHeaderLength := h.header_le
  have hstart : streamTableStart schema ≤ statisticsStart schema assembly := Nat.le_add_right _ _
  have hpayload : ¬Limits.default.maxFramePayloadLength < assembly.payload.length :=
    not_lt.mpr h.payload_le
  have hmax : Limits.default.maxFrameHeaderLength ≤ u32Max := by decide
  have hwide : u32Max ≤ u64Max := by decide
  have hmul (count width : ℕ) (hle : count * width ≤ statisticsStart schema assembly) :
      checkedMul count width = some (count * width) := if_pos (by omega)
  have hstreams := hmul assembly.streamCount blockStreamDescriptorSize (Nat.le_add_left _ _)
  have hcolumns := hmul schema.columns.length blockColumnDescriptorSize
    ((Nat.le_add_left _ _).trans hstart)
  have htable : checkedAdd dataBlockHeaderSize (schema.columns.length * blockColumnDescriptorSize) =
      some (streamTableStart schema) := checkedAdd_of_le (show streamTableStart schema ≤ _ by omega)
  have hstatistics : checkedAdd (streamTableStart schema)
      (assembly.streamCount * blockStreamDescriptorSize) = some (statisticsStart schema assembly) :=
    checkedAdd_of_le (show statisticsStart schema assembly ≤ _ by omega)
  rcases hlay : layOutStatistics (statisticsStart schema assembly) assembly.columns [] with
    ⟨area, offsets⟩
  have harea : statisticsArea schema assembly = padToAlignment area := by
    rw [statisticsArea, hlay]
  have hcolumnEntries : columnEntries schema assembly = assembly.columns.zip offsets := by
    rw [columnEntries, hlay]
  have hentries : (assembly.columns.zip offsets).forM
      (fun (column, offset) ↦ checkColumnEntry column offset) = .ok () := by
    rw [← hcolumnEntries]
    exact forM_eq_ok.mpr fun entry hentry ↦ checkColumnEntry_eq_ok.mpr (h.entries entry hentry)
  have hsum : ¬Limits.default.maxFrameHeaderLength <
      saturatingAdd (statisticsStart schema assembly) (padToAlignment area).length := by
    rw [← harea]
    exact not_lt.mpr ((Nat.min_le_left _ _).trans hheader)
  have htables := h.tables
  have hframe := h.frame
  rw [headerTables, harea, hcolumnEntries] at htables hframe
  rw [harea] at hheader
  rw [buildDataFrameWithStatistics, failIf_neg hcount, ok_bind, failIf_neg hrows, ok_bind,
    h.assembled, ok_bind, hstreams, okOr, ok_bind, hcolumns, okOr, ok_bind, htable, okOr, ok_bind,
    hstatistics, okOr, ok_bind, hlay]
  dsimp only
  rw [failIf_neg hsum, ok_bind, failIf_neg hpayload, ok_bind, h.bounds, ok_bind,
    failIf_neg (not_lt.mpr h.columns_le), ok_bind, failIf_neg (by omega), ok_bind,
    failIf_neg (by omega), ok_bind, failIf_neg (by omega), ok_bind, hentries, ok_bind,
    failIf_neg (not_not.mpr htables), ok_bind, hframe]

/-! ### The bounds of a block -/

/-- What a scan of the primary values has found once it has seen the rest of them. -/
theorem primaryScan_foldl (rest : List ℤ) (scan : PrimaryScan) :
    (rest.foldl PrimaryScan.push scan).minimum = rest.foldl min scan.minimum ∧
      (rest.foldl PrimaryScan.push scan).maximum = rest.foldl max scan.maximum ∧
        ((rest.foldl PrimaryScan.push scan).sorted = true ↔
          scan.sorted = true ∧ (scan.previous :: rest).IsChain (· ≤ ·)) := by
  induction rest generalizing scan with
  | nil => exact ⟨rfl, rfl, by simp⟩
  | cons value rest ih =>
    obtain ⟨hminimum, hmaximum, hsorted⟩ := ih (scan.push value)
    refine ⟨hminimum, hmaximum, ?_⟩
    rw [List.foldl_cons, hsorted, List.isChain_cons_cons]
    simp only [PrimaryScan.push, decide_eq_true_eq, and_assoc]

/-- The bounds of a block are the bounds of its primary values, and it is sorted when they are. -/
structure PrimaryOf (values : List ℤ) (primary : ℤ × ℤ × Bool) : Prop where
  minimum : values.min? = some primary.1
  maximum : values.max? = some primary.2.1
  sorted : primary.2.2 = true ↔ values.IsChain (· ≤ ·)

theorem primaryOf_scan (first : ℤ) (rest : List ℤ) :
    let scan := rest.foldl PrimaryScan.push
      { minimum := first, maximum := first, previous := first, sorted := true }
    PrimaryOf (first :: rest) (scan.minimum, scan.maximum, scan.sorted) := by
  obtain ⟨hminimum, hmaximum, hsorted⟩ := primaryScan_foldl rest
    { minimum := first, maximum := first, previous := first, sorted := true }
  refine ⟨?_, ?_, ?_⟩
  · rw [List.min?_cons', hminimum]
  · rw [List.max?_cons', hmaximum]
  · rw [hsorted]
    simp

theorem inRange_primaryValue {column : Column} {array : LogicalArray} {row : ℕ} {value : ℤ}
    (h : primaryValue column array row = .ok value) : IntType.int64.InRange value := by
  unfold primaryValue at h
  split at h
  · cases h
  · split at h
    · cases h
      rename_i stored _ _
      exact stored.property
    · cases h
      rename_i stored _ _
      obtain ⟨hlo, hhi⟩ := stored.property
      simp only [IntType.InRange, IntType.lowest, IntType.limit, IntType.width, IntType.signed,
        if_true] at hlo hhi ⊢
      omega
    · cases h

theorem PrimaryOf.header {values : List ℤ} (h : PrimaryOf values primary)
    (hrange : ∀ value ∈ values, IntType.int64.InRange value) {id : UInt32}
    (hid : schema.primaryColumnId = some id) : PrimaryHeader schema primary := by
  obtain ⟨hmin, hle⟩ := List.min?_eq_some_iff.mp h.minimum
  obtain ⟨hmax, -⟩ := List.max?_eq_some_iff.mp h.maximum
  refine ⟨hrange _ hmin, hrange _ hmax, hle _ hmax, fun hnone ↦ ?_⟩
  rw [hid] at hnone
  cases hnone

/-- **The bounds the writer claims are the bounds of the primary values.** -/
theorem primaryMetadata_eq_ok (h : primaryMetadata schema rows = .ok primary) :
    PrimaryHeader schema primary ∧ ∀ id, schema.primaryColumnId = some id →
      ∃ column index values, schema.columns.zipIdx.find? (·.1.id = id) = some (column, index) ∧
        (rows.column index).mapM (fun (array, row) ↦ primaryValue column array row) = .ok values ∧
          PrimaryOf values primary := by
  unfold primaryMetadata at h
  cases hid : schema.primaryColumnId with
  | none =>
    rw [hid] at h
    cases h
    exact ⟨⟨by decide, by decide, le_rfl, fun _ ↦ rfl⟩, fun _ hsome ↦ by cases hsome⟩
  | some id =>
    rw [hid] at h
    obtain ⟨⟨column, index⟩, hfind, h⟩ := bind_eq_ok.mp h
    obtain ⟨values, hvalues, h⟩ := bind_eq_ok.mp h
    rw [okOr_eq_ok] at hfind
    cases values with
    | nil => cases h
    | cons first rest =>
      cases h
      have hprimary := primaryOf_scan first rest
      have hrange : ∀ value ∈ first :: rest, IntType.int64.InRange value := by
        intro value hvalue
        obtain ⟨entry, -, hentry⟩ := exists_of_mapM_eq_ok hvalues hvalue
        exact inRange_primaryValue hentry
      refine ⟨hprimary.header hrange hid, fun other hother ↦ ?_⟩
      cases hother
      exact ⟨column, index, first :: rest, hfind, hvalues, hprimary⟩

/-! ### The frame -/

/-- The header of a built frame. -/
def frameHeader (schema : Schema) (rows : BlockRows) (options : WriterOptions) (baseRowId : ℕ)
    (assembly : BlockAssembly) (primary : ℤ × ℤ × Bool) : Bytes :=
  headerTables schema rows options baseRowId assembly primary ++ statisticsArea schema assembly

/-- A base row ID and a sequence number the header and the frame can hold. -/
structure Numbered (rows : BlockRows) (baseRowId sequence : ℕ) : Prop where
  rows_pos : rows.rowCount ≠ 0
  baseRowId_le : baseRowId ≤ u64Max
  sequence_pos : sequence ≠ schemaFrameSequence
  sequence_le : sequence ≤ u64Max

section Built

variable (h : Built zstd schema rows options baseRowId sequence assembly primary image)
include h

theorem Built.length_frameHeader :
    (frameHeader schema rows options baseRowId assembly primary).length =
      statisticsStart schema assembly + (statisticsArea schema assembly).length := by
  rw [frameHeader, List.length_append, h.tables]

/-- A built frame begins with a block header. -/
theorem Built.isBlockHeader (hnumbered : Numbered rows baseRowId sequence) :
    IsBlockHeader schema baseRowId rows.rowCount primary options.rowIds assembly.streamCount
      (frameHeader schema rows options baseRowId assembly primary) := by
  have hlength := h.length_frameHeader
  have hheader := h.header_le
  have hrows := h.rows_le
  have hstart : statisticsStart schema assembly =
      streamTableStart schema + assembly.streamCount * blockStreamDescriptorSize := rfl
  simp only [defaultMaxFrameHeaderLength] at hheader
  simp only [defaultMaxRowsPerBlock] at hrows
  have hsplit : frameHeader schema rows options baseRowId assembly primary =
      blockHeader schema baseRowId rows.rowCount primary options.rowIds (streamTableStart schema)
          (statisticsStart schema assembly) (statisticsArea schema assembly).length ++
        (((columnEntries schema assembly).flatMap fun (column, offset) ↦
            columnDescriptorBytes column offset) ++
          ((assembly.columns.flatMap EncodedColumn.streams).flatMap
              (streamDescriptorBytes options.codec) ++ statisticsArea schema assembly)) := by
    rw [frameHeader, headerTables, List.append_assoc, List.append_assoc]
  have hfits : HeaderFits schema baseRowId rows.rowCount (streamTableStart schema)
      (statisticsStart schema assembly) (statisticsArea schema assembly).length := by
    refine ⟨hnumbered.baseRowId_le, ?_, h.columns_le, ?_, ?_, ?_⟩ <;> simp only [u32Max] <;> omega
  have htables : TablesFit schema assembly.streamCount
      (frameHeader schema rows options baseRowId assembly primary).length (streamTableStart schema)
      (statisticsStart schema assembly) (statisticsArea schema assembly).length := by
    refine ⟨rfl, rfl, by omega, ?_⟩
    simp only [u32Max]
    omega
  exact ⟨⟨_, _, _, _, hsplit, hfits, htables⟩, (primaryMetadata_eq_ok h.bounds).1,
    hnumbered.rows_pos⟩

theorem Built.framable (hnumbered : Numbered rows baseRowId sequence) {limits : Limits}
    (hlimits : limits.CoversDefault) :
    Framable dataFrameType sequence (frameHeader schema rows options baseRowId assembly primary)
      assembly.payload limits where
  expectedType := by
    rw [Frame.expectedFrameType, if_neg hnumbered.sequence_pos]
  sequence_lt := by
    have hle := hnumbered.sequence_le
    simp only [u64Max] at hle
    omega
  schemaHeader hschema := absurd hschema (by decide)
  dataHeader _ := (h.isBlockHeader hnumbered).size_le
  headerLimit := by
    rw [h.length_frameHeader]
    exact h.header_le.trans hlimits.header
  payloadLimit := h.payload_le.trans hlimits.payload

/-- **The frame the writer builds is a complete frame.** -/
theorem Built.isFrame (hnumbered : Numbered rows baseRowId sequence) {limits : Limits}
    (hlimits : limits.CoversDefault) : Frame.IsFrame image sequence limits :=
  isFrame_of_buildFrame h.frame (h.framable hnumbered hlimits)

/-- **The walk accepts the frame the writer builds**, wherever the frame stands. -/
theorem Built.parse (hnumbered : Numbered rows baseRowId sequence) {limits : Limits}
    (hlimits : limits.CoversDefault) {expected : Option ℕ}
    (hbase : CarriesBase options.rowIds expected baseRowId) {file : Bytes} {offset : ℕ}
    (hholds : HoldsAt file offset image) :
    DataFrame.parse file (Frame.metadataAt image offset) schema (featuresOf options.rowIds)
        expected = .ok (blockMetadata schema baseRowId rows.rowCount primary options.rowIds) :=
  parse_of_buildFrame h.frame (h.framable hnumbered hlimits) (h.isBlockHeader hnumbered) hbase
    hholds

theorem Built.length_image : image.length =
    prefixSize + (frameHeader schema rows options baseRowId assembly primary).length +
      assembly.payload.length + trailerSize :=
  length_of_buildFrame h.frame

end Built

end Write

end Acta
