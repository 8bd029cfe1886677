import Acta.RoundTrip.Statistics
import Acta.RoundTrip.Tables

/-!
# Reading a column back

A decoder that stands on a built block finds the record of each column and its streams, and decodes
them into the rows the column was encoded from (`DecoderOf.column_decodes`).  What that costs is
known from the rows and the layout of the block alone (`columnCost`).
-/

namespace Acta

open Machine Wire Candidates

/-! ### What a column costs -/

/-- The rows of a column at its declared type. -/
def rowsAt (logicalType : LogicalType) (values : List (Option ScalarValue)) : logicalType.Rows :=
  values.map fun value ↦ value.bind fun scalar ↦
    if h : scalar.type = logicalType.arrayType then some (h ▸ scalar.value) else none

theorem rowsAt_scalars {logicalType : LogicalType} (rows : logicalType.Rows) :
    rowsAt logicalType rows.scalars = rows := by
  rw [rowsAt, LogicalType.Rows.scalars, List.map_map]
  refine (List.map_congr_left fun row _ ↦ ?_).trans (List.map_id rows)
  cases row with
  | none => rfl
  | some value => exact dif_pos rfl

/-- The decoded bytes that decoding a column asks for: what its streams cost, the validity of a
column without values, what expanding its layout costs, and what putting values into rows costs. -/
def columnCost (column : Column) (values : List (Option ScalarValue)) (layout : ℕ)
    (streams : List StreamDescriptor) : ℕ :=
  let rows := rowsAt column.logicalType values
  (streams.map (·.decodeCost column.logicalType)).sum +
    (if rows.bits.count true = 0 then rows.length else 0) +
      expansionCost column.logicalType layout rows.dense + placementCost column rows

/-- The decoded bytes that decoding a column of a block asks for. -/
def BlockLayout.columnCost (layout : BlockLayout) (column : Column)
    (values : List (Option ScalarValue)) : ℕ :=
  match layout.columns.find? (·.columnId = column.id) with
  | none => 0
  | some descriptor => Acta.columnCost column values descriptor.layout
      (slice layout.streams descriptor.firstStream descriptor.streamCount)

/-! ### A decoder on a built block -/

open Write

/-- The streams of a column stand in the stream table where its record says. -/
theorem Write.TableEntry.slice_streams {zstd : Zstd} {schema : Schema} {rows : BlockRows}
    {options : WriterOptions} {baseRowId : ℕ} {assembly : BlockAssembly} {primary : ℤ × ℤ × Bool}
    {entry : Column × ℕ} {record : EncodedColumn × Option ℕ}
    (h : TableEntry zstd schema rows options assembly entry record) :
    slice (builtLayout schema rows options baseRowId assembly primary).streams record.1.firstStream
        record.1.streams.length =
      record.1.streams.map (encodedDescriptor options.codec) := by
  show slice ((assembly.columns.flatMap EncodedColumn.streams).map
    (encodedDescriptor options.codec)) _ _ = _
  rw [slice, ← List.map_drop, ← List.map_take]
  exact congrArg _ h.streams.slice_eq

/-- A decoder that stands on a built block in a file. -/
structure DecoderOf (decoder : BlockDecoder) (schema : Schema) (rows : BlockRows)
    (options : WriterOptions) (baseRowId : ℕ) (assembly : BlockAssembly)
    (primary : ℤ × ℤ × Bool) : Prop where
  zstd : decoder.zstd.RoundTrips
  layout : decoder.layout = builtLayout schema rows options baseRowId assembly primary
  limits : decoder.limits.CoversDefault
  frame : FrameOf decoder.frame (frameHeader schema rows options baseRowId assembly primary)
    assembly.payload
  header : HoldsAt decoder.file decoder.frame.headerOffset
    (frameHeader schema rows options baseRowId assembly primary)
  payload : HoldsAt decoder.file decoder.frame.payloadOffset assembly.payload
  headerInside : decoder.frame.headerOffset + decoder.frame.headerLength ≤ decoder.fileSize
  payloadInside : decoder.frame.payloadOffset + assembly.payload.length ≤ decoder.fileSize
  fileSize_le : decoder.fileSize ≤ u64Max

namespace DecoderOf

variable {decoder : BlockDecoder} {schema : Schema} {rows : BlockRows} {options : WriterOptions}
  {baseRowId sequence : ℕ} {assembly : BlockAssembly} {primary : ℤ × ℤ × Bool} {image : Bytes}
  {entry : Column × ℕ} {record : EncodedColumn × Option ℕ}
  (h : DecoderOf decoder schema rows options baseRowId assembly primary)
include h

/-- A stream of the block stands in the file where its descriptor says. -/
theorem placed {candidate : CandidateStream} {stored : StoredStream} {stream : EncodedStream}
    (hstream : StreamEntry decoder.zstd options assembly.payload candidate stored stream) :
    decoder.Placed options.codec stored (encodedDescriptor options.codec stream) := by
  have hlaid := hstream.laidOut
  have hinside := h.payloadInside
  have hfits := hlaid.held.fits
  have hsize := h.fileSize_le
  obtain ⟨-, -, hcount, -⟩ := storeStream_eq_ok hstream.stores
  have helements : stream.elementCount ≤ decoder.limits.maxRowsPerBlock := by
    rw [hlaid.elementCount, hcount]
    exact hstream.describable.elementCount.trans h.limits.rows
  have hstop : decoder.frame.payloadOffset + stream.payloadOffset + stored.stored.length ≤
      decoder.fileSize := by omega
  exact ⟨hlaid.kind, hlaid.transform, rfl, hlaid.storedLength, hlaid.transformedLength,
    hlaid.elementCount, hlaid.crc, helements, h.payload.inside hlaid.held, hstop,
    hstop.trans hsize⟩

/-- **The streams of a column are read back** as its candidates. -/
theorem delivers {selected : SelectedColumn} {column : EncodedColumn}
    (hencoded : EncodedAs decoder.zstd schema rows options assembly.payload entry column selected)
    {typed : entry.1.logicalType.Rows} {validity candidates : List CandidateStream}
    (hheld : ColumnHeld decoder.zstd options rows entry selected typed validity candidates) :
    List.Forall₂ decoder.Delivers (validity ++ candidates)
      (column.streams.map (encodedDescriptor options.codec)) := by
  rw [List.forall₂_map_right_iff]
  refine (hencoded.streamEntries hheld).imp fun candidate stream hentry ↦ ?_
  obtain ⟨stored, hstream⟩ := hentry
  exact (h.placed hstream).delivers h.zstd hstream.stores

/-- The record of a column names its streams. -/
theorem streamsFor_eq
    (hbuilt : Built decoder.zstd schema rows options baseRowId sequence assembly primary image)
    (hrecord : TableEntry decoder.zstd schema rows options assembly entry record)
    (column : Column) :
    decoder.streamsFor (entryDescriptor record) column =
      .ok (record.1.streams.map (encodedDescriptor options.codec)) := by
  have hfits := hrecord.streams.fits
  have hcount := hbuilt.assembledFrom.streamCount
  have hle := hbuilt.streamCount_le
  have hu : u32Max ≤ u64Max := by decide
  have hlength : decoder.layout.streams.length =
      (assembly.columns.flatMap EncodedColumn.streams).length := by
    rw [h.layout]
    exact List.length_map _
  rw [BlockDecoder.streamsFor]
  simp only [bind_eq_ok, okOr_eq_ok, checkedAdd_eq_some, failIf_eq_ok]
  refine ⟨_, ⟨?_, rfl⟩, (), ?_, congrArg Except.ok ?_⟩
  · show record.1.firstStream + record.1.streams.length ≤ u64Max
    omega
  · rw [hlength, not_lt]
    exact hfits
  · rw [h.layout]
    exact hrecord.slice_streams

end DecoderOf

/-! ### The records of a block -/

namespace Write

variable {zstd : Zstd} {schema : Schema} {rows : BlockRows} {options : WriterOptions}
  {baseRowId sequence : ℕ} {assembly : BlockAssembly} {primary : ℤ × ℤ × Bool} {image : Bytes}
  {column : Column} {index : ℕ}

/-- **Every column of the schema has its record**, which is found by the column's ID. -/
theorem Built.exists_record
    (h : Built zstd schema rows options baseRowId sequence assembly primary image)
    (hvalid : SchemaValid schema) (hcolumn : schema.columns[index]? = some column) :
    ∃ record, TableEntry zstd schema rows options assembly (column, index) record ∧
      (builtLayout schema rows options baseRowId assembly primary).columns.find?
        (·.columnId = column.id) = some (entryDescriptor record) := by
  obtain ⟨-, hdistinct, -⟩ := columns_of_validateColumns hvalid.columns
  have hmem : (column, index) ∈ sortedColumns schema := by
    rw [sortedColumns, List.mem_mergeSort, List.mem_zipIdx_iff_getElem?]
    exact hcolumn
  obtain ⟨record, hrecord, hentry⟩ := Related.exists_right h.tableEntries hmem
  refine ⟨record, hentry, ?_⟩
  have hids : (columnEntries schema assembly).map (·.1.columnId) =
      (sortedColumns schema).map (·.1.id) := by
    symm
    rw [← List.forall₂_eq_eq_eq, List.forall₂_map_left_iff, List.forall₂_map_right_iff]
    refine h.tableEntries.imp fun entry other hother ↦ ?_
    obtain ⟨selected, hencoded⟩ := hother.encoded
    exact hencoded.columnId.symm
  have hnodup : ((columnEntries schema assembly).map (·.1.columnId)).Nodup := by
    rw [hids]
    have hperm := (List.mergeSort_perm schema.columns.zipIdx fun a b ↦ decide (a.1.id ≤ b.1.id)).map
      fun entry : Column × ℕ ↦ entry.1.id
    refine hperm.nodup_iff.mpr ?_
    rwa [show (fun entry : Column × ℕ ↦ entry.1.id) = Column.id ∘ Prod.fst from rfl,
      ← List.map_map, List.zipIdx_map_fst]
  obtain ⟨selected, hencoded⟩ := hentry.encoded
  have hid : (entryDescriptor record).columnId = column.id := hencoded.columnId
  cases hfind : (builtLayout schema rows options baseRowId assembly primary).columns.find?
      (·.columnId = column.id) with
  | none =>
    have hnone := List.find?_eq_none.mp hfind (entryDescriptor record)
      (List.mem_map_of_mem hrecord)
    exact absurd hid (by simpa using hnone)
  | some descriptor =>
    obtain ⟨other, hother, rfl⟩ := List.mem_map.mp (List.mem_of_find?_eq_some hfind)
    have hsame : (entryDescriptor other).columnId = column.id := by
      simpa using List.find?_some hfind
    rw [List.inj_on_of_nodup_map hnodup hother hrecord (hsame.trans hid.symm)]

end Write

/-! ### One column -/

/-- The array a column is decoded into. -/
def decodedArray (column : Column) (values : List (Option ScalarValue)) : LogicalArray :=
  arrayOf (rowsAt column.logicalType values)

theorem LogicalType.Rows.length_dense {logicalType : LogicalType} (rows : logicalType.Rows) :
    rows.dense.length = rows.bits.count true := by
  rw [dense, List.length_map, count_true_bits]

/-- Every layout names a kind once, the kind of a validity first. -/
theorem allowedKinds_eq {layout : ℕ} (h : layout ≤ columnLayoutRunLength) :
    Read.allowedKinds layout = streamKindValidity :: (Read.allowedKinds layout).tail ∧
      (Read.allowedKinds layout).Nodup := by
  simp only [columnLayoutRunLength] at h
  have hlayout : layout = 0 ∨ layout = 1 ∨ layout = 2 ∨ layout = 3 := by omega
  rcases hlayout with rfl | rfl | rfl | rfl <;> decide

/-- The streams of a column are of the kinds of its layout. -/
theorem Write.ColumnHeld.kinds {zstd : Zstd} {options : WriterOptions} {rows : BlockRows}
    {entry : Column × ℕ} {selected : SelectedColumn} {typed : entry.1.logicalType.Rows}
    {validity candidates : List CandidateStream}
    (h : ColumnHeld zstd options rows entry selected typed validity candidates) :
    (streamKindValidity :: candidates.map (·.kind)).Nodup ∧
      ∀ kind ∈ (validity ++ candidates).map (·.kind),
        kind ∈ Read.allowedKinds selected.layout := by
  obtain ⟨hallowed, -⟩ := allowedKinds_eq h.selects.layout_le
  have hfirst : ∀ kind ∈ validity.map (·.kind), kind ∈ Read.allowedKinds selected.layout := by
    intro kind hkind
    have hmem := h.selects.holdsValidity.kinds.subset hkind
    rw [hallowed, List.mem_singleton.mp hmem]
    exact List.mem_cons_self
  rw [List.map_append]
  rcases eq_or_ne typed.dense [] with hnil | hne
  · obtain ⟨hcandidates, -⟩ := h.selects.absent hnil
    rw [hcandidates]
    exact ⟨by simp, by simpa using hfirst⟩
  · obtain ⟨hnodup, hkinds⟩ := (h.selects.stands hne).kinds
    refine ⟨hnodup, List.forall_mem_append.mpr ⟨hfirst, fun kind hkind ↦ ?_⟩⟩
    rw [hallowed]
    exact List.mem_cons_of_mem _ (hkinds kind hkind)

namespace DecoderOf

variable {decoder : BlockDecoder} {schema : Schema} {rows : BlockRows} {options : WriterOptions}
  {baseRowId sequence : ℕ} {assembly : BlockAssembly} {primary : ℤ × ℤ × Bool} {image : Bytes}
  {entry : Column × ℕ} {record : EncodedColumn × Option ℕ} {selected : SelectedColumn}
  {typed : entry.1.logicalType.Rows} {validity candidates : List CandidateStream}

section Held

variable (hheld : ColumnHeld decoder.zstd options rows entry selected typed validity candidates)
include hheld

/-- The streams of a column deliver its validity and its values. -/
theorem deliversColumn {streams : List StreamDescriptor}
    (hdelivers : List.Forall₂ decoder.Delivers (validity ++ candidates) streams) :
    decoder.DeliversColumn validity candidates streams :=
  ⟨hheld.selects.holdsValidity.kinds, (hheld.kinds).1, hdelivers⟩

theorem checkStreamKinds_eq {streams : List StreamDescriptor} {descriptor : ColumnBlockDescriptor}
    (hdelivers : List.Forall₂ decoder.Delivers (validity ++ candidates) streams)
    (hlayout : descriptor.layout = selected.layout) (column : Column) :
    Read.checkStreamKinds streams descriptor column = .ok () := by
  obtain ⟨-, hkinds⟩ := hheld.kinds
  rw [← BlockDecoder.map_kind_of_forall₂ hdelivers] at hkinds
  rw [Read.checkStreamKinds, forM_eq_ok]
  intro stream hstream
  rw [hlayout]
  exact failIf_neg (not_not.mpr (hkinds _ (List.mem_map_of_mem hstream)))

/-- What the record of a column says of its rows. -/
theorem describesRows
    (hencoded : EncodedAs decoder.zstd schema rows options assembly.payload entry record.1
      selected) : DescribesRows entry.1 typed.bits (entryDescriptor record) := by
  have hbits := Rows.validityBits_eq hheld.scalars
  have hnull := hencoded.nullCount
  have hdense := hencoded.denseCount
  rw [hbits] at hnull hdense
  have hlength : typed.bits.length = rows.rowCount := by
    rw [LogicalType.Rows.bits, List.length_map, hheld.length]
  have hsum := List.count_true_add_count_false typed.bits
  have hpresent : record.1.denseCount = typed.bits.count true := by omega
  obtain ⟨-, -, -, himplicit⟩ := columnFlags_facts entry.1
    (record.1.nullCount = 0 ∨ record.1.denseCount = 0) record.1.statistics.isSome
  rw [← hencoded.flags, decide_eq_true_iff, hnull, hpresent] at himplicit
  exact ⟨hnull, hpresent, by rw [Write.isImplicit_iff]; exact himplicit⟩

/-- What the dense values of a column cost, and its validity. -/
theorem denseCost_eq {streams : List StreamDescriptor}
    (hdelivers : List.Forall₂ decoder.Delivers (validity ++ candidates) streams) :
    validityCost entry.1.logicalType streams typed.bits +
        ((Read.allowedKinds selected.layout).tail.map
          (costOfKind entry.1.logicalType streams)).sum =
      (streams.map (·.decodeCost entry.1.logicalType)).sum +
        if typed.bits.count true = 0 then typed.length else 0 := by
  obtain ⟨-, hkinds⟩ := hheld.kinds
  obtain ⟨hallowed, hnodup⟩ := allowedKinds_eq hheld.selects.layout_le
  rw [← BlockDecoder.map_kind_of_forall₂ hdelivers] at hkinds
  have hsum := sum_eq_sum_of_kinds (·.decodeCost entry.1.logicalType) hnodup
    fun stream hstream ↦ hkinds _ (List.mem_map_of_mem hstream)
  rw [hsum, hallowed, List.map_cons, List.sum_cons, validityCost, LogicalType.Rows.bits,
    List.length_map]
  exact Nat.add_right_comm _ _ _

/-- **The dense values of a column are read back**, none where no row has a value. -/
theorem dense_decodes
    (hencoded : EncodedAs decoder.zstd schema rows options assembly.payload entry record.1 selected)
    {streams : List StreamDescriptor}
    (hdelivers : List.Forall₂ decoder.Delivers (validity ++ candidates) streams) :
    Decodes
      (if (entryDescriptor record).denseCount = 0 then
        liftM (Read.allNull streams (entryDescriptor record) entry.1)
      else
        decoder.denseValues streams entry.1 (entryDescriptor record)
          (entryDescriptor record).denseCount)
      (((Read.allowedKinds selected.layout).tail.map
          (costOfKind entry.1.logicalType streams)).sum +
        expansionCost entry.1.logicalType selected.layout typed.dense)
      ⟨entry.1.logicalType.storedType, typed.dense⟩ := by
  have hcount : (entryDescriptor record).denseCount = typed.dense.length := by
    rw [LogicalType.Rows.length_dense, (describesRows hheld hencoded).denseCount]
  have hcolumn := deliversColumn hheld hdelivers
  rcases eq_or_ne typed.dense [] with hnil | hne
  · obtain ⟨rfl, hlayout⟩ := hheld.selects.absent hnil
    rw [List.append_nil] at hdelivers
    have hkinds := BlockDecoder.map_kind_of_forall₂ hdelivers
    -- What is stored of a column without values is a validity at most.
    have honly : ∀ stream ∈ streams, stream.kind = streamKindValidity := by
      intro stream hstream
      have hmem := List.mem_map_of_mem (f := fun stream : StreamDescriptor ↦ stream.kind) hstream
      rw [hkinds] at hmem
      exact List.mem_singleton.mp (hheld.selects.holdsValidity.kinds.subset hmem)
    have hzero : ((Read.allowedKinds selected.layout).tail.map
        (costOfKind entry.1.logicalType streams)).sum = 0 := by
      obtain ⟨hallowed, hnodup⟩ := allowedKinds_eq hheld.selects.layout_le
      rw [hallowed, List.nodup_cons] at hnodup
      refine List.sum_eq_zero fun cost hcost ↦ ?_
      obtain ⟨kind, hkind, rfl⟩ := List.mem_map.mp hcost
      refine costOfKind_eq_zero (List.filter_eq_nil_iff.mpr fun stream hstream hsame ↦ ?_)
      have hkindOf : stream.kind = kind := by simpa using hsame
      rw [honly stream hstream] at hkindOf
      exact hnodup.1 (hkindOf ▸ hkind)
    have hall : Read.allNull streams (entryDescriptor record) entry.1 =
        .ok ⟨entry.1.logicalType.storedType, typed.dense⟩ := by
      have hplain : (entryDescriptor record).layout = columnLayoutPlain :=
        hencoded.layout.trans hlayout
      rw [Read.allNull, failIf_neg (not_not.mpr hplain), ok_bind, failIf_neg, ok_bind, hnil]
      · rfl
      · rintro ⟨stream, hstream, hkind⟩
        exact hkind (honly stream hstream)
    rw [if_pos (by rw [hcount, hnil]; rfl), hzero, hlayout, expansionCost, if_pos rfl]
    exact Metered.costs_lift hall
  · have hpositive : (entryDescriptor record).denseCount ≠ 0 := by
      rw [hcount]
      exact fun hzero ↦ hne (List.length_eq_zero_iff.mp hzero)
    rw [if_neg hpositive, hcount]
    exact BlockDecoder.Stands.decodes (hheld.selects.stands hne) hheld.selects.fits hne hcolumn
      hencoded.layout

end Held

section Block

variable (h : DecoderOf decoder schema rows options baseRowId assembly primary)
  (hbuilt : Built decoder.zstd schema rows options baseRowId sequence assembly primary image)
include h hbuilt

/-- **The statistics of a column pass verification** against the rows it was encoded from. -/
theorem verifyColumnStatistics_eq
    (hrecord : TableEntry decoder.zstd schema rows options assembly entry record)
    (hencoded : EncodedAs decoder.zstd schema rows options assembly.payload entry record.1 selected)
    {array : LogicalArray} (hdescribes : entry.1.logicalType.describes array.type = true)
    (hrows : rows.logical entry.2 = array.rows) :
    Validate.verifyColumnStatistics decoder.file decoder.fileSize decoder.frame
      (entryDescriptor record) entry.1 array decoder.limits = .ok () := by
  obtain ⟨-, -, hflag, -⟩ := columnFlags_facts entry.1
    (record.1.nullCount = 0 ∨ record.1.denseCount = 0) record.1.statistics.isSome
  rw [← hencoded.flags] at hflag
  cases hstatistics : record.1.statistics with
  | none =>
    have hoffset : record.2 = none := hrecord.statistics.absent hstatistics
    rw [hstatistics, Option.isSome_none] at hflag
    refine verifyColumnStatistics_absent ?_ (not_not.mp (hflag.not.mpr Bool.false_ne_true)) ?_ ?_
    · rw [entryDescriptor, hstatistics]
      rfl
    · rw [entryDescriptor, hoffset]
      rfl
    · rw [entryDescriptor, hstatistics]
      rfl
  | some stored =>
    obtain ⟨inner, hinner, hheldAt⟩ := hrecord.statistics.present stored hstatistics
    obtain ⟨-, -, harea⟩ := hbuilt.holdsAt_tables
    have hinside := harea.inside hheldAt
    have hfits := hinside.fits
    have hlength := hbuilt.length_frameHeader
    have hheader := hbuilt.header_le
    have hlimit := h.limits.header
    have hframe := h.frame.headerLength
    have hoffset : (entryDescriptor record).statsOffset =
        statisticsStart schema assembly + inner := by
      rw [entryDescriptor, hinner]
      rfl
    have hclaims : ClaimsExtrema decoder.file decoder.fileSize decoder.frame
        (entryDescriptor record) decoder.limits stored := by
      refine ⟨?_, hflag.mpr (by rw [hstatistics]; rfl), ?_, by omega, by omega, h.headerInside,
        h.fileSize_le, ?_⟩
      · rw [entryDescriptor, hstatistics]
        rfl
      · rw [entryDescriptor, hstatistics]
        rfl
      · rw [hoffset]
        exact h.header.inside hinside
    have hgenerated := hencoded.statistics
    rw [hstatistics] at hgenerated
    obtain ⟨width, hwidth⟩ := exists_canonicalWidth hgenerated
    exact hclaims.verify_of_generated hwidth hdescribes hrows hgenerated

variable (hencodes : Encodes schema rows options)
include hencodes

/-- **A column is decoded into the rows it was encoded from**, at a cost that its rows and the
layout of the block determine. -/
theorem column_decodes {column : Column} {index : ℕ}
    (hcolumn : schema.columns[index]? = some column) :
    Decodes (decoder.decodedColumn schema index rows.rowCount)
      (decoder.layout.columnCost column (rows.logical index))
      (decodedArray column (rows.logical index)) := by
  obtain ⟨record, hrecord, hfind⟩ := hbuilt.exists_record hencodes.valid hcolumn
  obtain ⟨selected, typed, validity, candidates, hencoded, hheld⟩ :=
    hrecord.exists_held hencodes hcolumn
  have htyped : rowsAt column.logicalType (rows.logical index) = typed := by
    rw [← hheld.scalars]
    exact rowsAt_scalars typed
  have hlayout : (entryDescriptor record).layout = selected.layout := hencoded.layout
  have hdelivers := h.delivers hencoded hheld
  have hlength : typed.bits.length = rows.rowCount := by
    rw [LogicalType.Rows.bits, List.length_map, hheld.length]
  have hbits : typed.bits.length ≤ defaultMaxRowsPerBlock := by
    rw [LogicalType.Rows.bits, List.length_map]
    exact hheld.rows_le
  have hvalidity := BlockDecoder.validity_decodes (deliversColumn hheld hdelivers)
    hheld.selects.holdsValidity (describesRows hheld hencoded) hheld.nullable hbits
  have hplace := @intoArray_decodes column typed hheld.rows_le
  rw [hlength] at hvalidity
  rw [hheld.length] at hplace
  have hverify : Validate.verifyColumnStatistics decoder.file decoder.fileSize decoder.frame
      (entryDescriptor record) column (arrayOf typed) decoder.limits = .ok () :=
    h.verifyColumnStatistics_eq hbuilt hrecord hencoded (describes_arrayType _)
      (hheld.scalars.symm.trans rows_arrayOf.symm)
  have hslice : slice decoder.layout.streams (entryDescriptor record).firstStream
      (entryDescriptor record).streamCount =
        record.1.streams.map (encodedDescriptor options.codec) := by
    rw [h.layout]
    exact hrecord.slice_streams
  have hcost : validityCost column.logicalType
      (record.1.streams.map (encodedDescriptor options.codec)) typed.bits +
        (((Read.allowedKinds selected.layout).tail.map (costOfKind column.logicalType
          (record.1.streams.map (encodedDescriptor options.codec)))).sum +
          expansionCost column.logicalType selected.layout typed.dense +
            (placementCost column typed + (0 + 0))) =
      Acta.columnCost column (rows.logical index) selected.layout
        (record.1.streams.map (encodedDescriptor options.codec)) := by
    have hstreams := denseCost_eq hheld hdelivers
    rw [Acta.columnCost, htyped]
    dsimp only at hstreams ⊢
    omega
  have hread : Decodes (decoder.column column (entryDescriptor record) rows.rowCount)
      (Acta.columnCost column (rows.logical index) selected.layout
        (record.1.streams.map (encodedDescriptor options.codec))) (arrayOf typed) := by
    have htail : Decodes (DenseValues.intoArray ⟨column.logicalType.storedType, typed.dense⟩ column
        (validityOf typed.bits) rows.rowCount >>= fun array ↦ do
          Validate.verifyColumnStatistics decoder.file decoder.fileSize decoder.frame
            (entryDescriptor record) column array decoder.limits
          Budget.recordBytesRead (entryDescriptor record).statsLength
          return array) (placementCost column typed + (0 + 0)) (arrayOf typed) :=
      hplace.bind (.lift_bind hverify ((decodes_recordBytesRead _).bind
        (Metered.costs_pure (arrayOf typed))))
    have hdense := dense_decodes hheld hencoded hdelivers
    refine .lift_bind (h.streamsFor_eq hbuilt hrecord column) (.lift_bind
      (checkStreamKinds_eq hheld hdelivers hlayout column) ((hvalidity.bind ?_).congr hcost))
    by_cases hzero : (entryDescriptor record).denseCount = 0
    · rw [if_pos hzero] at hdense ⊢
      exact hdense.bind htail
    · rw [if_neg hzero] at hdense ⊢
      exact hdense.bind htail
  have hdescriptor : decoder.descriptorFor column = .ok (entryDescriptor record) := by
    rw [BlockDecoder.descriptorFor, h.layout, hfind]
    rfl
  have hlogical : schema.columns[index]? = some column := hcolumn
  rw [decodedArray, htyped, BlockDecoder.decodedColumn, hlogical]
  refine .lift_bind rfl (.lift_bind hdescriptor (hread.congr ?_))
  rw [BlockLayout.columnCost, h.layout, hfind]
  dsimp only
  rw [← h.layout, hslice, hlayout]

end Block

end DecoderOf

end Acta
