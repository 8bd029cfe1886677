import Acta.Format.StreamTable
import Acta.RoundTrip.Entries

/-!
# Reading the tables of a block back

The column table and the stream table of a block are rows of fixed-width records, and each record is
read back from the bytes the writer lays it out in (`columnDescriptor_entry`,
`streamDescriptor_encoded`).  The tables of a built block pass every check a read makes of them, so
its layout is the descriptors of its columns and of its streams (`Built.parseLayout_eq`).
-/

namespace Acta

open Machine Wire Candidates

namespace Write

/-! ### Records -/

/-- The descriptor that a column of a block is laid out as. -/
def entryDescriptor (entry : EncodedColumn × Option ℕ) : ColumnBlockDescriptor where
  columnId := entry.1.columnId
  layout := entry.1.layout
  flags := entry.1.flags
  nullCount := entry.1.nullCount
  denseCount := entry.1.denseCount
  firstStream := entry.1.firstStream
  streamCount := entry.1.streams.length
  statsKind := if entry.1.statistics.isSome then statsMinMax else statsNone
  statsOffset := entry.2.getD 0
  statsLength := (entry.1.statistics.map List.length).getD 0

/-- The descriptor that a stream of a block is laid out as. -/
def encodedDescriptor (codec : WriterCodec) (stream : EncodedStream) : StreamDescriptor where
  kind := stream.kind
  transform := stream.transform
  codec := codecId codec
  payloadOffset := stream.payloadOffset
  storedLength := stream.storedLength
  transformedLength := stream.transformedLength
  elementCount := stream.elementCount
  crc := stream.crc

@[simp] theorem length_columnDescriptorBytes (column : EncodedColumn) (offset : Option ℕ) :
    (columnDescriptorBytes column offset).length = blockColumnDescriptorSize := by
  simp [columnDescriptorBytes, blockColumnDescriptorSize]

@[simp] theorem length_streamDescriptorBytes (codec : WriterCodec) (stream : EncodedStream) :
    (streamDescriptorBytes codec stream).length = blockStreamDescriptorSize := by
  simp [streamDescriptorBytes, blockStreamDescriptorSize]

theorem leNat_leBytes_u16 {n : ℕ} (h : n < 2 ^ 16) : leNat (leBytes 2 n) = n :=
  leNat_leBytes_of_lt (by omega)

/-- A column that a record of the column table can hold. -/
structure EntryFits (entry : EncodedColumn × Option ℕ) : Prop where
  layout : entry.1.layout < 2 ^ 16
  flags : entry.1.flags < 2 ^ 16
  nullCount : entry.1.nullCount ≤ u32Max
  denseCount : entry.1.denseCount ≤ u32Max
  firstStream : entry.1.firstStream ≤ u32Max
  streams : entry.1.streams.length < 2 ^ 16
  offset : entry.2.getD 0 ≤ u32Max
  length : (entry.1.statistics.map List.length).getD 0 ≤ u32Max

/-- **A record of the column table is read back.** -/
theorem columnDescriptor_entry {entry : EncodedColumn × Option ℕ} (h : EntryFits entry)
    (offset : ℕ) :
    DataFrame.columnDescriptor.run' (Cursor.new (columnDescriptorBytes entry.1 entry.2) offset) =
      .ok (entryDescriptor entry) := by
  obtain ⟨column, place⟩ := entry
  have hlength : (columnDescriptorBytes column place).length = 32 :=
    length_columnDescriptorBytes _ _
  have hu : (columnDescriptorBytes column place).length ≤ u64Max := by
    rw [hlength]
    decide
  have hid : leNat (leBytes 4 column.columnId.toNat) = column.columnId.toNat :=
    leNat_leBytes_of_lt (by have := column.columnId.toNat_lt; omega)
  have hlayout := leNat_leBytes_u16 h.layout
  have hflags := leNat_leBytes_u16 h.flags
  have hnulls := leNat_leBytes_u32 h.nullCount
  have hdense := leNat_leBytes_u32 h.denseCount
  have hfirst := leNat_leBytes_u32 h.firstStream
  have hstreams := leNat_leBytes_u16 h.streams
  have hoffset := leNat_leBytes_u32 h.offset
  have hlengths := leNat_leBytes_u32 h.length
  have hkind : leNat (leBytes 2 (if column.statistics.isSome then statsMinMax else statsNone)) =
      if column.statistics.isSome then statsMinMax else statsNone := by
    split <;> decide
  dsimp only at hlayout hflags hnulls hdense hfirst hstreams hoffset hlengths
  simp (disch := first | assumption | omega) only [DataFrame.columnDescriptor, StateT.run',
    Cursor.new, Cursor.readU16, Cursor.readU32, Cursor.readUInt_bind]
  simp [columnDescriptorBytes, slice_append_right', slice_field, slice_whole, hid, hlayout, hflags,
    hnulls, hdense, hfirst, hstreams, hkind, hoffset, hlengths]
  rfl

/-- A stream that a record of the stream table can hold. -/
structure StreamFits (stream : EncodedStream) : Prop where
  kind : stream.kind < 2 ^ 16
  transform : stream.transform < 2 ^ 16
  payloadOffset : stream.payloadOffset ≤ u64Max
  storedLength : stream.storedLength ≤ u64Max
  transformedLength : stream.transformedLength ≤ u64Max
  elementCount : stream.elementCount ≤ u64Max
  crc : stream.crc ≤ u32Max

theorem codecId_lt (codec : WriterCodec) : codecId codec < 2 ^ 16 := by
  cases codec <;> decide

/-- **A record of the stream table is read back**, without flags. -/
theorem streamDescriptor_encoded (codec : WriterCodec) {stream : EncodedStream}
    (h : StreamFits stream) (offset : ℕ) :
    DataFrame.streamDescriptor.run' (Cursor.new (streamDescriptorBytes codec stream) offset) =
      .ok (encodedDescriptor codec stream, 0) := by
  have hlength : (streamDescriptorBytes codec stream).length = 48 :=
    length_streamDescriptorBytes _ _
  have hu : (streamDescriptorBytes codec stream).length ≤ u64Max := by
    rw [hlength]
    decide
  have hkind := leNat_leBytes_u16 h.kind
  have htransform := leNat_leBytes_u16 h.transform
  have hcodec := leNat_leBytes_u16 (codecId_lt codec)
  have hflags : leNat (leBytes 2 0) = 0 := by decide
  have hoffset := leNat_leBytes_u64 h.payloadOffset
  have hstored := leNat_leBytes_u64 h.storedLength
  have htransformed := leNat_leBytes_u64 h.transformedLength
  have hcount := leNat_leBytes_u64 h.elementCount
  have hcrc := leNat_leBytes_u32 h.crc
  simp (disch := first | assumption | omega) only [DataFrame.streamDescriptor, StateT.run',
    Cursor.new, Cursor.readU16, Cursor.readU32, Cursor.readU64, Cursor.readUInt_bind,
    Cursor.skip_bind]
  simp [streamDescriptorBytes, slice_append_right', slice_field, hkind, htransform, hcodec, hflags,
    hoffset, hstored, htransformed, hcount, hcrc]
  rfl

/-! ### The column table -/

variable {zstd : Zstd} {schema : Schema} {rows : BlockRows} {options : WriterOptions}
  {payload : Bytes} {entry : Column × ℕ}

/-- What the flags of a column say. -/
theorem columnFlags_facts (column : Column) (implicit hasStatistics : Bool) :
    columnFlags column implicit hasStatistics < 2 ^ 16 ∧
      columnFlags column implicit hasStatistics &&&
          (2 ^ 16 - 1 - (columnImplicitValidityFlag ||| columnHasStatsFlag)) = 0 ∧
        (columnFlags column implicit hasStatistics &&& columnHasStatsFlag ≠ 0 ↔
          hasStatistics = true) ∧
          (columnFlags column implicit hasStatistics &&& columnImplicitValidityFlag ≠ 0 ↔
            column.nullable = true ∧ implicit = true) := by
  rw [columnFlags]
  cases column.nullable <;> cases implicit <;> cases hasStatistics <;> decide

section Entry

variable {assembly : BlockAssembly} {record : EncodedColumn × Option ℕ}
  (h : TableEntry zstd schema rows options assembly entry record)
  (hencodes : Encodes schema rows options) (hentry : schema.columns[entry.2]? = some entry.1)
include h hencodes hentry

theorem TableEntry.exists_held : ∃ selected typed validity candidates,
    EncodedAs zstd schema rows options assembly.payload entry record.1 selected ∧
      ColumnHeld zstd options rows entry selected typed validity candidates := by
  obtain ⟨selected, hencoded⟩ := h.encoded
  obtain ⟨typed, validity, candidates, hheld⟩ := hencoded.exists_held hencodes hentry
  exact ⟨selected, typed, validity, candidates, hencoded, hheld⟩

/-- A column of a built block fits a record of the column table. -/
theorem TableEntry.fits (hstreams : assembly.streamCount ≤ u32Max)
    (hcount : assembly.streamCount = (assembly.columns.flatMap EncodedColumn.streams).length) :
    EntryFits record := by
  obtain ⟨selected, typed, validity, candidates, hencoded, hheld⟩ := h.exists_held hencodes hentry
  have hlayout := hheld.selects.layout_le
  obtain ⟨hflags, -⟩ := columnFlags_facts entry.1
    (record.1.nullCount = 0 ∨ record.1.denseCount = 0) record.1.statistics.isSome
  have hfirst := h.streams.fits
  refine ⟨?_, hencoded.flags ▸ hflags, hencoded.nullCount_le, hencoded.denseCount_le, by omega,
    h.counts.1, h.counts.2.1, h.counts.2.2⟩
  rw [hencoded.layout]
  exact hlayout.trans_lt (by decide)

/-- **The record of a column passes the checks** a read makes of it. -/
theorem TableEntry.validateColumnDescriptor_eq
    (harea : statisticsStart schema assembly + (statisticsArea schema assembly).length ≤ u32Max)
    (hcount : assembly.streamCount = (assembly.columns.flatMap EncodedColumn.streams).length)
    (frame : FrameMetadata) :
    DataFrame.validateColumnDescriptor (entryDescriptor record) entry.1 rows.rowCount
      (statisticsStart schema assembly) (statisticsArea schema assembly).length
      assembly.streamCount frame = .ok () := by
  obtain ⟨selected, typed, validity, candidates, hencoded, hheld⟩ := h.exists_held hencodes hentry
  have hbits := Rows.validityBits_eq hheld.scalars
  have hlength : typed.bits.length = rows.rowCount := by
    rw [LogicalType.Rows.bits, List.length_map, hheld.length]
  have hnulls := List.count_le_length (a := false) (l := typed.bits)
  have hlayout := hheld.selects.layout_le
  rw [← hencoded.layout] at hlayout
  have hnull := hencoded.nullCount
  have hdense := hencoded.denseCount
  rw [hbits] at hnull hdense
  have hu : u32Max ≤ u64Max := by decide
  have hstreams : assembly.streamCount ≤ u32Max := by
    have hstart : statisticsStart schema assembly = streamTableStart schema +
      assembly.streamCount * blockStreamDescriptorSize := rfl
    simp only [blockStreamDescriptorSize] at hstart
    omega
  have hend : (entryDescriptor record).firstStream + (entryDescriptor record).streamCount ≤
      assembly.streamCount := h.streams.fits.trans_eq hcount.symm
  obtain ⟨-, hunknown, hstatistics, -⟩ := columnFlags_facts entry.1
    (record.1.nullCount = 0 ∨ record.1.denseCount = 0) record.1.statistics.isSome
  rw [← hencoded.flags] at hunknown hstatistics
  have hflag : decide ((entryDescriptor record).flags &&& columnHasStatsFlag ≠ 0) =
      record.1.statistics.isSome := Bool.eq_iff_iff.mpr (decide_eq_true_iff.trans hstatistics)
  have hkind : (entryDescriptor record).statsKind ≤ statsMinMax ∧
      decide ((entryDescriptor record).statsKind ≠ statsNone) = record.1.statistics.isSome := by
    show (if record.1.statistics.isSome then statsMinMax else statsNone) ≤ statsMinMax ∧
      decide ((if record.1.statistics.isSome then statsMinMax else statsNone) ≠ statsNone) = _
    cases record.1.statistics.isSome <;> decide
  simp only [DataFrame.validateColumnDescriptor, bind_eq_ok, failIf_eq_ok, okOr_eq_ok,
    checkedAdd_eq_some]
  rw [hflag, hkind.2]
  refine ⟨(), not_not.mpr hunknown, (), by rw [not_lt]; exact hlayout, (), ?_, (), ?_,
    _, ⟨?_, rfl⟩, (), ?_, (), not_lt.mpr hkind.1, (), not_not.mpr rfl, (), ?_, ?_⟩
  · rw [not_or, not_lt, not_not]
    have hrest : record.1.denseCount = rows.rowCount - record.1.nullCount := hnull ▸ hdense
    exact ⟨hnull.trans_le (hnulls.trans_eq hlength), hrest⟩
  · rintro ⟨hnullable, hnonzero⟩
    exact hnonzero (hnull.trans (hheld.nullable (by simpa using hnullable)))
  · exact hend.trans (hstreams.trans hu)
  · exact not_lt.mpr hend
  · rintro ⟨hnone, hnonzero⟩
    rw [Option.not_isSome_iff_eq_none] at hnone
    have hoffset : record.2 = none := h.statistics.absent hnone
    rcases hnonzero with hplace | hsize
    · exact hplace (by rw [entryDescriptor, hoffset]; rfl)
    · exact hsize (by rw [entryDescriptor, hnone]; rfl)
  · split
    · rename_i hsome
      obtain ⟨stored, hstored⟩ := Option.isSome_iff_exists.mp hsome
      obtain ⟨inner, hinner, hheldAt⟩ := h.statistics.present stored hstored
      have hinside := hheldAt.fits
      have hoffset : (entryDescriptor record).statsOffset =
          statisticsStart schema assembly + inner := by
        rw [entryDescriptor, hinner]
        rfl
      have hsize : (entryDescriptor record).statsLength = stored.length := by
        rw [entryDescriptor, hstored]
        rfl
      simp only [bind_eq_ok, failIf_eq_ok, okOr_eq_ok, checkedAdd_eq_some]
      rw [hoffset, hsize]
      exact ⟨_, ⟨by omega, rfl⟩, _, ⟨by omega, rfl⟩, by omega⟩
    · rfl

end Entry

/-! ### The stream table -/

section StreamEntry

variable {candidate : CandidateStream} {stored : StoredStream} {stream : EncodedStream}
  (h : StreamEntry zstd options payload candidate stored stream)
  (hpayload : payload.length ≤ defaultMaxFramePayloadLength)
include h hpayload

theorem StreamEntry.fits : StreamFits stream := by
  obtain ⟨hkind, htransform, hcount, hlength, -⟩ := storeStream_eq_ok h.stores
  obtain ⟨⟨-, hkinds⟩, htransforms, hcounts, hlengths⟩ := h.describable
  have hheld := h.laidOut.held.fits
  have hlimit : defaultMaxFramePayloadLength ≤ u64Max := by decide
  have hrows : defaultMaxRowsPerBlock ≤ u64Max := by decide
  rw [← hkind, ← h.laidOut.kind] at hkinds
  rw [← htransform, ← h.laidOut.transform] at htransforms
  rw [← hcount, ← h.laidOut.elementCount] at hcounts
  rw [← hlength, ← h.laidOut.transformedLength] at hlengths
  refine ⟨hkinds.trans_lt (by decide), htransforms.trans_lt (by decide), by omega, ?_,
    hlengths.trans hlimit, hcounts.trans hrows, ?_⟩
  · rw [h.laidOut.storedLength]
    omega
  · rw [h.laidOut.crc]
    exact Nat.le_of_lt_succ (checksum_lt _)

/-- **The descriptor of a stream passes the checks** a read makes of it. -/
theorem StreamEntry.sound {limits : Limits} (hlimits : limits.CoversDefault) :
    DataFrame.Sound (encodedDescriptor options.codec stream) 0 limits ∧
      DataFrame.Decodable (encodedDescriptor options.codec stream) := by
  obtain ⟨hkind, htransform, -, hlength, hraw⟩ := storeStream_eq_ok h.stores
  obtain ⟨hkinds, htransforms, -, hlengths⟩ := h.describable
  have hheld := h.laidOut.held.fits
  have hlimit := hlimits.payload
  rw [← hkind, ← h.laidOut.kind] at hkinds
  rw [← htransform, ← h.laidOut.transform] at htransforms
  rw [← hlength, ← h.laidOut.transformedLength] at hlengths
  refine ⟨⟨rfl, hkinds, h.laidOut.aligned, ⟨?_, hlengths.trans hlimit⟩, fun hcodec ↦ ?_⟩,
    htransforms, ?_⟩
  · show stream.storedLength ≤ _
    rw [h.laidOut.storedLength]
    omega
  · show stream.storedLength = stream.transformedLength
    rw [h.laidOut.storedLength, h.laidOut.transformedLength, hlength]
    cases hoption : options.codec with
    | none => rw [hraw hoption]
    | zstandard =>
      have hzstd : codecId options.codec = codecNone := hcodec
      rw [hoption] at hzstd
      exact absurd hzstd (by decide)
  · show codecId options.codec = codecNone ∨ codecId options.codec = codecZstd
    cases options.codec with
    | none => exact .inl rfl
    | zstandard => exact .inr rfl

end StreamEntry

/-! ### The whole header -/

/-- The fixed header of a built block, as a read finds it. -/
def headerFields (schema : Schema) (rows : BlockRows) (options : WriterOptions) (baseRowId : ℕ)
    (assembly : BlockAssembly) (primary : ℤ × ℤ × Bool) : BlockHeaderFields where
  schemaId := schema.schemaId.toNat
  baseRowId := baseRowId
  rowCount := rows.rowCount
  columnCount := schema.columns.length
  primaryMin := primary.1
  primaryMax := primary.2.1
  columnTableOffset := dataBlockHeaderSize
  streamTableOffset := streamTableStart schema
  statisticsOffset := statisticsStart schema assembly
  statisticsLength := (statisticsArea schema assembly).length
  flags := blockFlags options.rowIds primary.2.2

/-- The layout of a built block: the descriptors of its columns and of its streams. -/
def builtLayout (schema : Schema) (rows : BlockRows) (options : WriterOptions) (baseRowId : ℕ)
    (assembly : BlockAssembly) (primary : ℤ × ℤ × Bool) : BlockLayout where
  metadata := blockMetadata schema baseRowId rows.rowCount primary options.rowIds
  columns := (columnEntries schema assembly).map entryDescriptor
  streams := (assembly.columns.flatMap EncodedColumn.streams).map (encodedDescriptor options.codec)

/-- The column table holds the schema's columns in ID order. -/
theorem tableColumns_eq (schema : Schema) :
    DataFrame.tableColumns schema = (sortedColumns schema).map Prod.fst := by
  have hmap := @List.map_mergeSort _ _ (fun a b : Column × ℕ ↦ decide (a.1.id ≤ b.1.id))
    (fun a b : Column ↦ decide (a.id ≤ b.id)) Prod.fst schema.columns.zipIdx fun _ _ _ _ ↦ rfl
  rw [List.zipIdx_map_fst] at hmap
  exact hmap.symm

section Built

variable {baseRowId sequence : ℕ} {assembly : BlockAssembly} {primary : ℤ × ℤ × Bool}
  {image : Bytes}
  (h : Built zstd schema rows options baseRowId sequence assembly primary image)
include h

theorem Built.length_columnEntries :
    (columnEntries schema assembly).length = schema.columns.length := by
  rw [← h.tableEntries.length_eq, sortedColumns, List.length_mergeSort, List.length_zipIdx]

theorem Built.streamCount_le : assembly.streamCount ≤ u32Max := by
  have hheader := h.header_le
  have hstart : statisticsStart schema assembly =
      streamTableStart schema + assembly.streamCount * blockStreamDescriptorSize := rfl
  simp only [blockStreamDescriptorSize, defaultMaxFrameHeaderLength, u32Max] at hstart hheader ⊢
  omega

/-- The tables stand in the header one behind the other. -/
theorem Built.holdsAt_tables :
    HoldsAt (frameHeader schema rows options baseRowId assembly primary) dataBlockHeaderSize
        ((columnEntries schema assembly).flatMap fun record ↦
          columnDescriptorBytes record.1 record.2) ∧
      HoldsAt (frameHeader schema rows options baseRowId assembly primary)
        (streamTableStart schema)
        ((assembly.columns.flatMap EncodedColumn.streams).flatMap
          (streamDescriptorBytes options.codec)) ∧
        HoldsAt (frameHeader schema rows options baseRowId assembly primary)
          (statisticsStart schema assembly) (statisticsArea schema assembly) := by
  have hheader : (blockHeader schema baseRowId rows.rowCount primary options.rowIds
      (streamTableStart schema) (statisticsStart schema assembly)
      (statisticsArea schema assembly).length).length = dataBlockHeaderSize := length_blockHeader
  have hcolumns : ((columnEntries schema assembly).flatMap fun record ↦
      columnDescriptorBytes record.1 record.2).length =
        schema.columns.length * blockColumnDescriptorSize := by
    rw [← h.length_columnEntries]
    exact length_flatMap_of_forall fun record _ ↦ length_columnDescriptorBytes _ _
  have harea := holdsAt_append_right (headerTables schema rows options baseRowId assembly primary)
    (statisticsArea schema assembly)
  rw [h.tables] at harea
  refine ⟨?_, ?_, harea⟩
  · refine HoldsAt.append_right (HoldsAt.append_right ?_ _) _
    rw [← hheader]
    exact holdsAt_append_right _ _
  · refine HoldsAt.append_right ?_ _
    have hstart : streamTableStart schema = (blockHeader schema baseRowId rows.rowCount primary
        options.rowIds (streamTableStart schema) (statisticsStart schema assembly)
        (statisticsArea schema assembly).length ++ (columnEntries schema assembly).flatMap
          fun record ↦ columnDescriptorBytes record.1 record.2).length := by
      rw [List.length_append, hheader, hcolumns]
      rfl
    conv => arg 2; rw [hstart]
    exact holdsAt_append_right _ _

end Built

section Read

variable {baseRowId sequence : ℕ} {assembly : BlockAssembly} {primary : ℤ × ℤ × Bool}
  {image : Bytes} {frame : FrameMetadata} {limits : Limits}
  (h : Built zstd schema rows options baseRowId sequence assembly primary image)
  (hencodes : Encodes schema rows options)
include h hencodes

/-- **The column table is read back.** -/
theorem Built.parseColumns_eq (hlimits : limits.CoversDefault) :
    DataFrame.parseColumns (frameHeader schema rows options baseRowId assembly primary)
        (headerFields schema rows options baseRowId assembly primary) schema assembly.streamCount
        frame limits = .ok ((columnEntries schema assembly).map entryDescriptor) := by
  have hcount := h.length_columnEntries
  have hheader := h.header_le
  have hlength := h.length_frameHeader
  obtain ⟨hcolumns, -⟩ := h.holdsAt_tables
  have hsize (record : EncodedColumn × Option ℕ) :
      (columnDescriptorBytes record.1 record.2).length = blockColumnDescriptorSize :=
    length_columnDescriptorBytes _ _
  have htable : ((columnEntries schema assembly).flatMap fun record ↦
      columnDescriptorBytes record.1 record.2).length =
        schema.columns.length * blockColumnDescriptorSize := by
    rw [← hcount]
    exact length_flatMap_of_forall fun record _ ↦ hsize record
  have hinside := hcolumns.fits
  rw [htable] at hinside
  have hu : schema.columns.length * blockColumnDescriptorSize ≤ u64Max ∧
      dataBlockHeaderSize + schema.columns.length * blockColumnDescriptorSize ≤ u64Max := by
    simp only [defaultMaxFrameHeaderLength, u64Max] at hheader ⊢
    omega
  have hfew : schema.columns.length ≤ limits.maxSchemaColumns :=
    hencodes.valid.columns_le.trans hlimits.columns
  have hall := List.forall₂_iff_get.mp h.tableEntries
  rw [DataFrame.parseColumns]
  simp only [bind_eq_ok, failIf_eq_ok, okOr_eq_ok, checkedMul_eq_some, checkedAdd_eq_some]
  refine ⟨(), not_lt.mpr hfew, _, ⟨hu.1, rfl⟩, _, ⟨hu.2, rfl⟩, (), not_lt.mpr hinside, ?_⟩
  rw [mapM_eq_ok, List.forall₂_map_right_iff, tableColumns_eq, List.forall₂_iff_get]
  refine ⟨by rw [List.length_zipIdx, List.length_map]; exact hall.1, fun i hcolumn hrecord ↦ ?_⟩
  rw [List.length_zipIdx, List.length_map] at hcolumn
  have hentry := hall.2 i hcolumn hrecord
  have hget : (((sortedColumns schema).map Prod.fst).zipIdx)[i] =
      ((sortedColumns schema)[i].1, i) := by
    rw [List.getElem_zipIdx, List.getElem_map, Nat.zero_add]
  have hindex := getElem?_of_mem_sortedColumns (List.getElem_mem hcolumn)
  have hslice : slice (frameHeader schema rows options baseRowId assembly primary)
      (dataBlockHeaderSize + i * blockColumnDescriptorSize) blockColumnDescriptorSize =
        columnDescriptorBytes (columnEntries schema assembly)[i].1
          (columnEntries schema assembly)[i].2 := by
    have hroom : i * blockColumnDescriptorSize + blockColumnDescriptorSize ≤
        schema.columns.length * blockColumnDescriptorSize := by
      rw [← Nat.succ_mul]
      exact Nat.mul_le_mul_right _ (hcount ▸ hrecord)
    rw [hcolumns.slice (htable ▸ hroom)]
    exact slice_flatMap (fun record _ ↦ hsize record) hrecord
  have hassembled := h.assembledFrom
  have harea : statisticsStart schema assembly + (statisticsArea schema assembly).length ≤
      u32Max := hheader.trans (by decide)
  have hread := fun offset ↦ columnDescriptor_entry
    (hentry.fits hencodes hindex h.streamCount_le hassembled.streamCount) offset
  have hid : (entryDescriptor (columnEntries schema assembly)[i]).columnId =
      (sortedColumns schema)[i].1.id := by
    obtain ⟨selected, hencoded⟩ := hentry.encoded
    exact hencoded.columnId
  rw [List.get_eq_getElem, List.get_eq_getElem, hget]
  simp only [bind_eq_ok, failIf_eq_ok, headerFields]
  rw [hslice]
  exact ⟨_, hread _, (), not_not.mpr hid, (),
    hentry.validateColumnDescriptor_eq hencodes hindex harea hassembled.streamCount frame, rfl⟩

/-- **The stream table is read back.** -/
theorem Built.parseStreams_eq (hlimits : limits.CoversDefault)
    (owners : DataFrame.StreamOwners) :
    DataFrame.parseStreams (frameHeader schema rows options baseRowId assembly primary)
        (headerFields schema rows options baseRowId assembly primary) assembly.streamCount frame
        limits owners =
      .ok ((assembly.columns.flatMap EncodedColumn.streams).map
        (encodedDescriptor options.codec)) := by
  have hcount := h.assembledFrom.streamCount
  have hheader := h.header_le
  have hlength := h.length_frameHeader
  obtain ⟨-, hstreams, -⟩ := h.holdsAt_tables
  have hsize (stream : EncodedStream) :
      (streamDescriptorBytes options.codec stream).length = blockStreamDescriptorSize :=
    length_streamDescriptorBytes _ _
  have htable : ((assembly.columns.flatMap EncodedColumn.streams).flatMap
      (streamDescriptorBytes options.codec)).length =
        assembly.streamCount * blockStreamDescriptorSize := by
    rw [hcount]
    exact length_flatMap_of_forall fun stream _ ↦ hsize stream
  have hinside := hstreams.fits
  rw [htable] at hinside
  have hu : assembly.streamCount * blockStreamDescriptorSize ≤ u64Max ∧
      streamTableStart schema + assembly.streamCount * blockStreamDescriptorSize ≤ u64Max := by
    simp only [defaultMaxFrameHeaderLength, u64Max] at hheader ⊢
    omega
  rw [DataFrame.parseStreams_eq_ok]
  refine ⟨⟨⟨hu.1, hu.2, hinside⟩, by rw [List.length_map, hcount], fun index stream hstream ↦ ?_⟩,
    fun index stream hstream _ ↦ ?_⟩
  · rw [List.getElem?_map, Option.map_eq_some_iff] at hstream
    obtain ⟨encoded, hencoded, rfl⟩ := hstream
    obtain ⟨hindex, rfl⟩ := List.getElem?_eq_some_iff.mp hencoded
    obtain ⟨candidate, stored, hentry⟩ := h.exists_streamEntry hencodes (List.getElem_mem hindex)
    refine ⟨0, ?_, (hentry.sound h.payload_le hlimits).1⟩
    have hroom : index * blockStreamDescriptorSize + blockStreamDescriptorSize ≤
        assembly.streamCount * blockStreamDescriptorSize := by
      rw [← Nat.succ_mul]
      exact Nat.mul_le_mul_right _ (hcount ▸ hindex)
    have hslice : slice (frameHeader schema rows options baseRowId assembly primary)
        (streamTableStart schema + index * blockStreamDescriptorSize) blockStreamDescriptorSize =
          streamDescriptorBytes options.codec
            (assembly.columns.flatMap EncodedColumn.streams)[index] := by
      rw [hstreams.slice (htable ▸ hroom)]
      exact slice_flatMap (fun stream _ ↦ hsize stream) hindex
    dsimp only [headerFields]
    rw [hslice]
    exact streamDescriptor_encoded options.codec (hentry.fits h.payload_le) _
  · obtain ⟨encoded, hencoded, rfl⟩ := List.mem_map.mp (List.mem_of_getElem? hstream)
    obtain ⟨candidate, stored, hentry⟩ := h.exists_streamEntry hencodes hencoded
    exact (hentry.sound h.payload_le hlimits).2

omit hencodes in
/-- **The streams of a built block lie one behind the other** inside its payload. -/
theorem Built.validateStreamRanges_eq (hframe : frame.payloadLength = assembly.payload.length) :
    DataFrame.validateStreamRanges ((assembly.columns.flatMap EncodedColumn.streams).map
      (encodedDescriptor options.codec)) frame = .ok () := by
  obtain ⟨hpairwise, hinside⟩ := h.assembledFrom.ordered
  have hpayload := h.payload_le
  have hu : assembly.payload.length ≤ u64Max := hpayload.trans (by decide)
  have hextents : ∀ stream ∈ (assembly.columns.flatMap EncodedColumn.streams).map
      (encodedDescriptor options.codec),
      stream.stop ≤ u64Max ∧ stream.stop ≤ frame.payloadLength := by
    intro stream hstream
    obtain ⟨encoded, hencoded, rfl⟩ := List.mem_map.mp hstream
    have hstop : (encodedDescriptor options.codec encoded).stop ≤ assembly.payload.length :=
      (hinside encoded hencoded).2.2
    exact ⟨hstop.trans hu, hframe ▸ hstop⟩
  have hsorted : ((assembly.columns.flatMap EncodedColumn.streams).map
      (encodedDescriptor options.codec)).Pairwise
        fun a b ↦ decide (a.payloadOffset ≤ b.payloadOffset) = true := by
    rw [List.pairwise_map]
    exact hpairwise.imp fun hfollows ↦ decide_eq_true hfollows.1.le
  rw [DataFrame.validateStreamRanges, List.mergeSort_of_pairwise hsorted, bind_eq_ok]
  refine ⟨(), DataFrame.validateNeighbours_eq_ok.mpr ?_,
    DataFrame.validateExtents_eq_ok.mpr hextents⟩
  rw [List.pairwise_map]
  refine List.Pairwise.imp_of_mem (fun {a b} ha _ hfollows ↦ ?_) hpairwise
  have hstop : (encodedDescriptor options.codec a).stop ≤ assembly.payload.length :=
    (hinside a ha).2.2
  exact ⟨hstop.trans hu, hfollows.2⟩

/-- The frame whose header and payload are those of a built block. -/
structure FrameOf (frame : FrameMetadata) (header payload : Bytes) : Prop where
  frameType : frame.frameType = dataFrameType
  headerLength : frame.headerLength = header.length
  payloadLength : frame.payloadLength = payload.length

/-- **The header of a built block is read back**, whichever columns are selected. -/
theorem Built.parseLayout_eq (hnumbered : Numbered rows baseRowId sequence)
    (hlimits : limits.CoversDefault) {expected : Option ℕ}
    (hbase : CarriesBase options.rowIds expected baseRowId)
    (hframe : FrameOf frame (frameHeader schema rows options baseRowId assembly primary)
      assembly.payload) (selectedColumnIds : Option (List UInt32)) :
    DataFrame.parseLayout (frameHeader schema rows options baseRowId assembly primary) frame schema
        (featuresOf options.rowIds) expected limits selectedColumnIds =
      .ok (builtLayout schema rows options baseRowId assembly primary) := by
  have hlength := h.length_frameHeader
  have hheader := h.header_le
  have hrows := h.rows_le
  have hprimary := (primaryMetadata_eq_ok h.bounds).1
  have hstart : statisticsStart schema assembly =
      streamTableStart schema + assembly.streamCount * blockStreamDescriptorSize := rfl
  simp only [defaultMaxFrameHeaderLength] at hheader
  simp only [defaultMaxRowsPerBlock] at hrows
  have hfits : HeaderFits schema baseRowId rows.rowCount (streamTableStart schema)
      (statisticsStart schema assembly) (statisticsArea schema assembly).length := by
    refine ⟨hnumbered.baseRowId_le, ?_, h.columns_le, ?_, ?_, ?_⟩ <;> simp only [u32Max] <;> omega
  have htables : TablesFit schema assembly.streamCount frame.headerLength (streamTableStart schema)
      (statisticsStart schema assembly) (statisticsArea schema assembly).length := by
    refine ⟨rfl, rfl, by rw [hframe.headerLength, hlength], ?_⟩
    rw [hframe.headerLength, hlength]
    simp only [u32Max]
    omega
  have hsize : dataBlockHeaderSize ≤
      (frameHeader schema rows options baseRowId assembly primary).length :=
    (h.isBlockHeader hnumbered).size_le
  have htake : (frameHeader schema rows options baseRowId assembly primary).take
      dataBlockHeaderSize = blockHeader schema baseRowId rows.rowCount primary options.rowIds
        (streamTableStart schema) (statisticsStart schema assembly)
        (statisticsArea schema assembly).length := by
    rw [frameHeader, headerTables, List.append_assoc, List.append_assoc]
    exact List.take_left' length_blockHeader
  have hcounted : DataFrame.streamCount (headerFields schema rows options baseRowId assembly
      primary) frame = .ok assembly.streamCount := by
    have hsub : checkedSub (statisticsStart schema assembly) (streamTableStart schema) =
        some (assembly.streamCount * blockStreamDescriptorSize) := by
      rw [checkedSub, if_pos (by omega), hstart, Nat.add_sub_cancel_left]
    rw [DataFrame.streamCount]
    dsimp only [headerFields]
    rw [hsub, okOr, ok_bind, Nat.mul_div_cancel _ (by decide), pure_eq_ok]
  rw [DataFrame.parseLayout_eq_ok]
  refine ⟨headerFields schema rows options baseRowId assembly primary, assembly.streamCount,
    ⟨failIf_neg (not_not.mpr hframe.frameType), not_lt.mpr hsize, ?_, ?_, hcounted,
      h.parseColumns_eq hencodes hlimits⟩, h.parseStreams_eq hencodes hlimits _,
    h.validateStreamRanges_eq hframe.payloadLength⟩
  · rw [htake, parseHeader_blockHeader hfits hprimary]
    rfl
  · exact checkBlockHeader_blockHeader hnumbered.rows_pos hprimary htables hbase


end Read

end Write

end Acta
