import Acta.Lib.Pairing
import Acta.RoundTrip.Assembled
import Acta.RoundTrip.Described
import Acta.RoundTrip.Placement

/-!
# What the tables of a block stand for

A built block has a record for each of its columns and each of its streams.  A column record stands
for a column of the schema with its rows at their declared type, its streams in the stream table and
its statistics in the statistics area (`Built.tableEntries`, `EncodedAs.exists_held`), and a stream
record for a candidate that is stored in the payload (`Built.exists_streamEntry`).
-/

namespace Acta

open Machine Wire Candidates

namespace Write

/-! ### The columns of a block -/

/-- The bytes that the values of a column are stored as. -/
def columnBytes (rows : BlockRows) (index : ℕ) : ℕ :=
  ((rows.logical index).reduceOption.flatMap storedBytes).length

/-- The bytes of a column of byte strings. -/
def stringBytes (rows : BlockRows) (entry : Column × ℕ) : ℕ :=
  if entry.1.logicalType.storedType = .bytes then columnBytes rows entry.2 else 0

/-- A block of rows that fits its schema, under options that the schema allows, and neither a column
nor all the columns of byte strings together have more bytes than a payload has room for. -/
structure Encodes (schema : Schema) (rows : BlockRows) (options : WriterOptions) : Prop where
  of : rows.Of schema
  valid : SchemaValid schema
  encoding : validateEncoding schema options.encoding = .ok ()
  rows_le : rows.rowCount ≤ defaultMaxRowsPerBlock
  bytes_le : ∀ index < schema.columns.length,
    columnBytes rows index ≤ defaultMaxFramePayloadLength
  strings_le : (schema.columns.zipIdx.map (stringBytes rows)).sum ≤ defaultMaxFramePayloadLength

theorem columnBytes_eq {column : Column} {rows : BlockRows} {index : ℕ}
    {typed : column.logicalType.Rows} (h : typed.scalars = rows.logical index) :
    columnBytes rows index = keyBytes column.logicalType typed.dense := by
  rw [columnBytes, keyBytes, ← h, typed.reduceOption_scalars, LogicalType.Rows.dense,
    List.flatMap_map, List.flatMap_map]
  exact congrArg List.length (List.flatMap_congr fun value _ ↦ storedBytes_eq_key _ value)

/-- A column of a block as it is selected: its rows at their declared type, and the streams that
hold them. -/
structure ColumnHeld (zstd : Zstd) (options : WriterOptions) (rows : BlockRows)
    (entry : Column × ℕ) (selected : SelectedColumn) (typed : entry.1.logicalType.Rows)
    (validity candidates : List CandidateStream) : Prop where
  scalars : typed.scalars = rows.logical entry.2
  length : typed.length = rows.rowCount
  rows_le : typed.length ≤ defaultMaxRowsPerBlock
  nullable : entry.1.nullable = false → typed.bits.count false = 0
  selects : Selects zstd options.codec options.zstdLevel entry.1 typed.bits typed.dense validity
    candidates selected
  describable : ∀ stream ∈ validity ++ candidates, Describable stream

theorem Rows.validityBits_eq {column : Column} {rows : BlockRows} {index : ℕ}
    {typed : column.logicalType.Rows} (h : typed.scalars = rows.logical index) :
    validityBits rows index = typed.bits := by
  rw [Write.validityBits_eq, ← h, typed.isSome_scalars]

/-- A column that is not nullable has a value in every row. -/
theorem count_false_of_not_nullable {schema : Schema} {rows : BlockRows} (h : rows.Of schema)
    {column : Column} {index : ℕ} (hcolumn : schema.columns[index]? = some column)
    (hnullable : column.nullable = false) : (validityBits rows index).count false = 0 := by
  rw [List.count_eq_zero, validityBits, List.mem_map]
  rintro ⟨entry, hentry, hnull⟩
  obtain ⟨array, harray, hmem⟩ := List.mem_flatMap.mp hentry
  obtain ⟨position, -, rfl⟩ := List.mem_map.mp hmem
  obtain ⟨chunk, hchunk, hheld⟩ := List.mem_filterMap.mp harray
  obtain ⟨held, hcolumnOf, -, hfits⟩ := (h chunk hchunk).column_eq_some hcolumn
  cases hheld.symm.trans hcolumnOf
  -- A validity bitmap would make the column a nullable one.
  have hbits : array.validity = none := by
    cases hvalidity : array.validity with
    | none => rfl
    | some bits =>
      have hcontra := (hfits.validity bits hvalidity).2
      rw [hnullable] at hcontra
      cases hcontra
  have hnot : (!isNullAt array.validity position) = false := hnull
  rw [hbits] at hnot
  cases hnot

variable {zstd : Zstd} {schema : Schema} {rows : BlockRows} {options : WriterOptions}
  {payload : Bytes} {entry : Column × ℕ} {column : EncodedColumn} {selected : SelectedColumn}

/-- **An encoded column holds its rows.** -/
theorem EncodedAs.exists_held
    (h : EncodedAs zstd schema rows options payload entry column selected)
    (hencodes : Encodes schema rows options) (hentry : schema.columns[entry.2]? = some entry.1) :
    ∃ typed validity candidates,
      ColumnHeld zstd options rows entry selected typed validity candidates := by
  obtain ⟨hindex, hcolumn⟩ := List.getElem?_eq_some_iff.mp hentry
  have hmem : entry.1 ∈ schema.columns := hcolumn ▸ List.getElem_mem hindex
  obtain ⟨typed, htyped⟩ := (hencodes.of.types hentry).exists_rows
  have hbits := Rows.validityBits_eq htyped
  have hparts := h.parts
  rw [validateColumnParts_eq hencodes.of hentry, failIf_eq_ok, not_not] at hparts
  have hlength : typed.length = rows.rowCount := by
    rw [← hparts, ← htyped, LogicalType.Rows.scalars, List.length_map]
  have hrows : typed.length ≤ defaultMaxRowsPerBlock := hlength ▸ hencodes.rows_le
  have hencodable : Encodable entry.1 rows entry.2 typed.reduceOption :=
    ⟨hasWidth_of_validateColumns hencodes.valid.columns _ hmem,
      htyped ▸ typed.reduceOption_scalars, by rw [hparts]; exact hencodes.rows_le⟩
  obtain ⟨validity, candidates, hselects⟩ :=
    selects_of_selectColumn hencodable hencodes.encoding hmem h.selects
  rw [hbits] at hselects
  refine ⟨typed, validity, candidates, htyped, hlength, hrows, fun hnullable ↦ ?_, hselects,
    hselects.describable ?_ ?_⟩
  · rw [← hbits]
    exact count_false_of_not_nullable hencodes.of hentry hnullable
  · rw [LogicalType.Rows.bits, List.length_map]
    exact hrows
  · exact (columnBytes_eq htyped).symm.trans_le (hencodes.bytes_le _ hindex)

/-! ### The statistics area -/

/-- The statistics of a column stand in the statistics area, where its record says. -/
structure StatisticsAt (start : ℕ) (area : Bytes) (column : EncodedColumn) (offset : Option ℕ) :
    Prop where
  absent : column.statistics = none → offset = none
  present : ∀ stored, column.statistics = some stored →
    ∃ inner, offset = some (start + inner) ∧ HoldsAt area inner stored

theorem StatisticsAt.append {start : ℕ} {area : Bytes} {column : EncodedColumn}
    {offset : Option ℕ} (h : StatisticsAt start area column offset) (more : Bytes) :
    StatisticsAt start (area ++ more) column offset := by
  refine ⟨h.absent, fun stored hstored ↦ ?_⟩
  obtain ⟨inner, hoffset, hheld⟩ := h.present stored hstored
  exact ⟨inner, hoffset, hheld.append_right more⟩

/-- **The statistics are laid out** one behind the other. -/
theorem layOutStatistics_at (start : ℕ) (columns : List EncodedColumn) (area : Bytes) :
    (∃ more, (layOutStatistics start columns area).1 = area ++ more) ∧
      List.Forall₂ (StatisticsAt start (layOutStatistics start columns area).1) columns
        (layOutStatistics start columns area).2 := by
  induction columns generalizing area with
  | nil => exact ⟨⟨[], (List.append_nil area).symm⟩, .nil⟩
  | cons column columns ih =>
    rw [layOutStatistics]
    rcases hpair : column.statistics with - | stored
    · obtain ⟨hmore, hrest⟩ := ih area
      refine ⟨hmore, .cons ⟨fun _ ↦ rfl, fun _ hsome ↦ ?_⟩ hrest⟩
      rw [hpair] at hsome
      cases hsome
    · obtain ⟨⟨more, hmore⟩, hrest⟩ := ih (area ++ stored)
      refine ⟨⟨stored ++ more, by rw [← List.append_assoc]; exact hmore⟩, .cons ?_ hrest⟩
      refine ⟨fun hnone ↦ ?_, fun other hother ↦ ?_⟩
      · rw [hpair] at hnone
        cases hnone
      cases hpair.symm.trans hother
      refine ⟨area.length, rfl, ?_⟩
      dsimp only
      rw [hmore]
      exact holdsAt_append_middle area stored more

/-! ### The streams of a block -/

theorem storeStream_eq_ok {codec : WriterCodec} {level : ℤ} {candidate : CandidateStream}
    {stored : StoredStream} (h : storeStream zstd codec level candidate = .ok stored) :
    stored.kind = candidate.kind ∧ stored.transform = candidate.transform ∧
      stored.elementCount = candidate.elementCount ∧
        stored.transformedLength = candidate.bytes.length ∧
          (codec = .none → stored.stored = candidate.bytes) := by
  obtain ⟨bytes, hbytes, h⟩ := bind_eq_ok.mp h
  cases h
  refine ⟨rfl, rfl, rfl, rfl, ?_⟩
  rintro rfl
  exact (Except.ok.inj hbytes).symm

/-- A stream of a built block: a candidate in range, stored in the payload. -/
structure StreamEntry (zstd : Zstd) (options : WriterOptions) (payload : Bytes)
    (candidate : CandidateStream) (stored : StoredStream) (stream : EncodedStream) : Prop where
  describable : Describable candidate
  stores : storeStream zstd options.codec options.zstdLevel candidate = .ok stored
  laidOut : LaidOut payload stored stream

/-- The streams of a column are laid out from its candidates. -/
theorem EncodedAs.streamEntries
    (h : EncodedAs zstd schema rows options payload entry column selected)
    {typed : entry.1.logicalType.Rows} {validity candidates : List CandidateStream}
    (hheld : ColumnHeld zstd options rows entry selected typed validity candidates) :
    List.Forall₂ (fun candidate stream ↦
      ∃ stored, StreamEntry zstd options payload candidate stored stream) (validity ++ candidates)
        column.streams := by
  have hstored := mapM_eq_ok.mp hheld.selects.stored
  have hpairs := Related.trans hstored h.streams
  refine List.forall₂_iff_zip.mpr ⟨hpairs.length_eq, fun {candidate stream} hmem ↦ ?_⟩
  obtain ⟨stored, hstores, hlaid⟩ := List.forall₂_zip hpairs hmem
  exact ⟨stored, hheld.describable _ (List.of_mem_zip hmem).1, hstores, hlaid⟩

/-! ### The column table -/

section Built

variable {baseRowId sequence : ℕ} {assembly : BlockAssembly} {primary : ℤ × ℤ × Bool}
  {image : Bytes}

/-- What a record of the column table stands for: a column of the schema, with its streams and its
statistics where the record says. -/
structure TableEntry (zstd : Zstd) (schema : Schema) (rows : BlockRows) (options : WriterOptions)
    (assembly : BlockAssembly) (entry : Column × ℕ) (record : EncodedColumn × Option ℕ) :
    Prop where
  encoded : ∃ selected,
    EncodedAs zstd schema rows options assembly.payload entry record.1 selected
  statistics : StatisticsAt (statisticsStart schema assembly) (statisticsArea schema assembly)
    record.1 record.2
  streams : HoldsAt (assembly.columns.flatMap EncodedColumn.streams) record.1.firstStream
    record.1.streams
  counts : record.1.streams.length < 2 ^ 16 ∧ record.2.getD 0 ≤ u32Max ∧
    (record.1.statistics.map List.length).getD 0 ≤ u32Max

/-- The streams of a column stand in the stream table where the column says. -/
theorem AssembledFrom.holdsAt_streams {entries : List (Column × ℕ)}
    (h : AssembledFrom zstd schema rows options entries assembly)
    (hmem : column ∈ assembly.columns) :
    HoldsAt (assembly.columns.flatMap EncodedColumn.streams) column.firstStream
      column.streams := by
  obtain ⟨before, after, hsplit⟩ := List.append_of_mem hmem
  rw [h.firstStream before column after hsplit, hsplit, List.flatMap_append, List.flatMap_cons,
    ← List.append_assoc]
  exact holdsAt_append_middle _ _ _

variable (h : Built zstd schema rows options baseRowId sequence assembly primary image)
include h

theorem Built.assembledFrom :
    AssembledFrom zstd schema rows options (sortedColumns schema) assembly :=
  assembledFrom_of_foldlM h.assembled

/-- **What the column table of a built block stands for.** -/
theorem Built.tableEntries :
    List.Forall₂ (TableEntry zstd schema rows options assembly) (sortedColumns schema)
      (columnEntries schema assembly) := by
  have hassembled := h.assembledFrom
  obtain ⟨-, hlaid⟩ := layOutStatistics_at (statisticsStart schema assembly) assembly.columns []
  obtain ⟨padding, harea, -⟩ := padToAlignment_eq
    (layOutStatistics (statisticsStart schema assembly) assembly.columns []).1
  have hpairs := Related.zip_right hassembled.columns hlaid
  refine List.forall₂_iff_zip.mpr ⟨hpairs.length_eq, fun {entry record} hmem ↦ ?_⟩
  obtain ⟨hencoded, hstatistics⟩ := List.forall₂_zip hpairs hmem
  have hrecord : record ∈ columnEntries schema assembly := (List.of_mem_zip hmem).2
  have hcolumn : record.1 ∈ assembly.columns := (List.of_mem_zip hrecord).1
  refine ⟨hencoded, ?_, hassembled.holdsAt_streams hcolumn, h.entries record hrecord⟩
  rw [statisticsArea, harea]
  exact hstatistics.append _

/-- Every stream of a built block is a stored candidate. -/
theorem Built.exists_streamEntry (hencodes : Encodes schema rows options) {stream : EncodedStream}
    (hstream : stream ∈ assembly.columns.flatMap EncodedColumn.streams) :
    ∃ candidate stored, StreamEntry zstd options assembly.payload candidate stored stream := by
  obtain ⟨column, hcolumn, hstream⟩ := List.mem_flatMap.mp hstream
  obtain ⟨entry, hentry, selected, hencoded⟩ :=
    Related.exists_left h.assembledFrom.columns hcolumn
  obtain ⟨typed, validity, candidates, hheld⟩ :=
    hencoded.exists_held hencodes (getElem?_of_mem_sortedColumns hentry)
  obtain ⟨candidate, -, stored, hstored⟩ :=
    Related.exists_left (hencoded.streamEntries hheld) hstream
  exact ⟨candidate, stored, hstored⟩

end Built

end Write

end Acta
