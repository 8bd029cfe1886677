import Acta.RoundTrip.DataFrame
import Acta.RoundTrip.RawColumn
import Acta.RoundTrip.SchemaFrame
import Acta.RoundTrip.Statistics
import Acta.Write.Assembly
import Acta.Write.Pricing
import Mathlib.Algebra.Group.Action.Defs
import Mathlib.Algebra.Order.BigOperators.Group.List

/-!
# The price of a block is its size

The price of a block is computed from three counters for each column, by code that mirrors the
encoder without sharing anything with it.  The counters are those of the logical rows
(`footprints_ofChunks`), and the raw encoding without a codec stores streams of exactly the priced
lengths (`lengths_of_rawColumnCandidate`).  The sums of the price saturate, but the limits a data
frame is built under keep them far from the bound.

The statistics are the one place where the price can exceed the size: it reserves room for the pair
of every column that may get one, and a column whose values turn out not to be worth it, or to be
all NaN, gets none (`reserved_of_generateStatistics`).
-/

namespace Acta

open Machine Wire Candidates

/-! ### Counters -/

namespace ColumnFootprint

/-- The counters of rows, each with its value or a null. -/
def ofValues (values : List (Option ScalarValue)) : ColumnFootprint where
  denseCount := values.reduceOption.length
  nullCount := (values.filter Option.isNone).length
  variableBytes := (values.reduceOption.map Write.variableByteLength).sum

theorem addRow_ofValues (values : List (Option ScalarValue)) (array : LogicalArray) (row : ℕ) :
    (ofValues values).addRow array row = ofValues (values ++ [array.valueAt row]) := by
  rw [addRow]
  cases array.valueAt row with
  | none => simp [ofValues, List.reduceOption_append]
  | some value => simp [ofValues, List.reduceOption_append]

theorem addRows_ofValues (values : List (Option ScalarValue)) (array : LogicalArray)
    (rowCount : ℕ) :
    BlockBuffer.addRows (ofValues values) array rowCount =
      ofValues (values ++ (List.range rowCount).map array.valueAt) := by
  induction rowCount with
  | zero => rw [List.range_zero, List.map_nil, List.append_nil]; rfl
  | succ rowCount ih =>
    have hstep : BlockBuffer.addRows (ofValues values) array (rowCount + 1) =
        (BlockBuffer.addRows (ofValues values) array rowCount).addRow array rowCount := by
      rw [BlockBuffer.addRows, List.range_succ, List.foldl_append]
      rfl
    rw [hstep, ih, addRow_ofValues, List.range_succ, List.map_append, List.append_assoc]
    rfl

end ColumnFootprint

theorem BlockRows.logical_append (chunks : List RecordBatch) (chunk : RecordBatch)
    (rowCount rowCount' index : ℕ) {array : LogicalArray} (h : chunk.column index = some array) :
    ({ chunks := chunks ++ [chunk], rowCount } : BlockRows).logical index =
      ({ chunks, rowCount := rowCount' } : BlockRows).logical index ++
        (List.range array.len).map array.valueAt := by
  simp only [logical, column, List.filterMap_append, List.flatMap_append, List.map_append,
    List.filterMap_cons, h, List.filterMap_nil, List.flatMap_singleton, List.map_map]
  rfl

/-- **The counters of a buffer are those of its logical rows.** -/
theorem BlockBuffer.footprints_ofChunks {schema : Schema} (statistics : WriterStatistics)
    {chunks : List RecordBatch} (h : ∀ chunk ∈ chunks, chunk.Declares schema) {column : Column}
    {index : ℕ} (hcolumn : schema.columns[index]? = some column) :
    (ofChunks schema statistics chunks).footprints[index]? =
      some (.ofValues ((ofChunks schema statistics chunks).blockRows.logical index)) := by
  induction chunks using List.reverseRecOn with
  | nil =>
    obtain ⟨hindex, -⟩ := List.getElem?_eq_some_iff.mp hcolumn
    show (List.replicate schema.columns.length ({} : ColumnFootprint))[index]? = _
    rw [List.getElem?_replicate, if_pos hindex]
    rfl
  | append_singleton chunks chunk ih =>
    have hbefore := ih fun other hother ↦ h other (List.mem_append_left _ hother)
    obtain ⟨array, harray, -, hfits⟩ :=
      (h chunk (List.mem_append_right _ (List.mem_singleton_self _))).column_eq_some hcolumn
    obtain ⟨hchunks, -, -⟩ := ofChunks_fields schema statistics chunks
    have harrays : chunk.columns[index]? = some array := harray
    rw [ofChunks_append]
    show (List.zipWith (BlockBuffer.addRows · · chunk.rowCount)
      (ofChunks schema statistics chunks).footprints chunk.columns)[index]? = some (.ofValues
        (({ chunks := (ofChunks schema statistics chunks).chunks ++ [chunk], rowCount := _ } :
          BlockRows).logical index))
    rw [List.getElem?_zipWith, hbefore, harrays,
      BlockRows.logical_append _ _ _ (ofChunks schema statistics chunks).rows _ harray, hfits.len]
    exact congrArg some (ColumnFootprint.addRows_ofValues _ _ _)

namespace Write

/-! ### Exact sizes -/

/-- The payload bytes a stream takes with its padding.  An empty stream takes an alignment unit. -/
def streamSize (length : ℕ) : ℕ := (max length 1 + 7) / 8 * 8

theorem length_le_streamSize (length : ℕ) : length ≤ streamSize length := by
  rw [streamSize]
  omega

/-- A stream of a possible size is priced at its size. -/
theorem streamPayloadBytes_eq {length : ℕ} (h : length + 7 ≤ u64Max) :
    streamPayloadBytes length = streamSize length := by
  have hsum : saturatingAdd length (frameAlignment - 1) = length + 7 := Nat.min_eq_left h
  rw [streamPayloadBytes, streamSize]
  split
  case isTrue hzero => rw [hzero]; rfl
  case isFalse hpos =>
    rw [alignUp, hsum, Nat.max_eq_left (by omega)]
    rfl

/-- The bytes of a raw values stream. -/
def rawValuesLength (logicalType : LogicalType) (footprint : ColumnFootprint) : ℕ :=
  match logicalType.shape with
  | .bits => bitmapBytes footprint.denseCount
  | .fixed width _ => width * footprint.denseCount
  | .variableWidth => footprint.variableBytes

/-- The length of the stream a column has for its validity, if it needs one. -/
def validityLengths (footprint : ColumnFootprint) (rows : ℕ) : List ℕ :=
  if footprint.hasImplicitValidity then [] else [bitmapBytes rows]

/-- The lengths of the streams a column has for its values, if there is one. -/
def valueLengths (logicalType : LogicalType) (footprint : ColumnFootprint) : List ℕ :=
  if footprint.denseCount = 0 then [] else
    rawValuesLength logicalType footprint ::
      if isVariableWidth logicalType then [lengthEntryBytes * footprint.denseCount] else []

/-- The lengths of the streams a column has in a raw block. -/
def rawLengths (logicalType : LogicalType) (footprint : ColumnFootprint) (rows : ℕ) : List ℕ :=
  validityLengths footprint rows ++ valueLengths logicalType footprint

/-- The payload bytes of streams of these lengths. -/
def payloadSize (lengths : List ℕ) : ℕ := (lengths.map streamSize).sum

theorem payloadSize_append (lengths others : List ℕ) :
    payloadSize (lengths ++ others) = payloadSize lengths + payloadSize others := by
  rw [payloadSize, List.map_append, List.sum_append]
  rfl

@[simp] theorem payloadSize_cons (length : ℕ) (lengths : List ℕ) :
    payloadSize (length :: lengths) = streamSize length + payloadSize lengths := List.sum_cons

@[simp] theorem payloadSize_nil : payloadSize [] = 0 := rfl

theorem saturatingAdd_of_le {a b : ℕ} (h : a + b ≤ defaultMaxFramePayloadLength) :
    saturatingAdd a b = a + b :=
  Nat.min_eq_left (h.trans (by decide))

theorem streamPayloadBytes_of_le {length : ℕ}
    (h : streamSize length ≤ defaultMaxFramePayloadLength) :
    streamPayloadBytes length = streamSize length := by
  have hle := (length_le_streamSize length).trans h
  refine streamPayloadBytes_eq ?_
  simp only [defaultMaxFramePayloadLength] at hle
  simp only [u64Max]
  omega

theorem valuesBytes_of_le {logicalType : LogicalType} {footprint : ColumnFootprint}
    (h : streamSize (rawValuesLength logicalType footprint) ≤ defaultMaxFramePayloadLength) :
    valuesBytes logicalType footprint = rawValuesLength logicalType footprint := by
  have hle : rawValuesLength logicalType footprint ≤ u64Max :=
    (length_le_streamSize _).trans (h.trans (by decide))
  cases logicalType with
  | bool | utf8 | categorical _ | binary => rfl
  | _ => exact Nat.min_eq_left hle

section Column

variable {column : Column} {footprint : ColumnFootprint} {rows : ℕ}

theorem validitySize_eq
    (h : payloadSize (validityLengths footprint rows) ≤ defaultMaxFramePayloadLength) :
    validitySize footprint rows =
      (payloadSize (validityLengths footprint rows), (validityLengths footprint rows).length) := by
  rw [validitySize]
  rw [validityLengths] at h ⊢
  split
  case isTrue => rfl
  case isFalse hexplicit =>
    rw [if_neg hexplicit] at h
    rw [streamPayloadBytes_of_le h]
    rfl

theorem valuesSize_eq
    (h : payloadSize (valueLengths column.logicalType footprint) ≤ defaultMaxFramePayloadLength) :
    valuesSize column footprint = (payloadSize (valueLengths column.logicalType footprint),
      (valueLengths column.logicalType footprint).length) := by
  by_cases hnone : footprint.denseCount = 0
  · rw [valueLengths, valuesSize, if_pos hnone, if_pos hnone]
    rfl
  rw [valuesSize_of_ne_zero column hnone]
  rw [valueLengths, if_neg hnone] at h ⊢
  rw [payloadSize_cons] at h ⊢
  have hvalues : streamSize (rawValuesLength column.logicalType footprint) ≤
    defaultMaxFramePayloadLength := by omega
  rw [valuesBytes_of_le hvalues, streamPayloadBytes_of_le hvalues]
  split
  case isTrue hvariable =>
    rw [if_pos hvariable] at h
    rw [payloadSize_cons, payloadSize_nil] at h
    have hlengths : streamSize (lengthEntryBytes * footprint.denseCount) ≤
      defaultMaxFramePayloadLength := by omega
    have hmul : saturatingMul lengthEntryBytes footprint.denseCount =
        lengthEntryBytes * footprint.denseCount :=
      Nat.min_eq_left ((length_le_streamSize _).trans (hlengths.trans (by decide)))
    rw [hmul, streamPayloadBytes_of_le hlengths, saturatingAdd_of_le (by omega)]
    rfl
  case isFalse hfixed => rfl

/-- **A column is priced at the size of its streams**, where they fit a frame at all. -/
theorem columnSize_eq
    (h : payloadSize (rawLengths column.logicalType footprint rows) ≤
      defaultMaxFramePayloadLength) :
    columnSize column footprint rows =
      (payloadSize (rawLengths column.logicalType footprint rows),
        (rawLengths column.logicalType footprint rows).length) := by
  rw [rawLengths, payloadSize_append] at h
  rw [columnSize, validitySize_eq (by omega), valuesSize_eq (by omega), rawLengths,
    payloadSize_append, List.length_append, saturatingAdd_of_le h]

end Column

/-! ### What the encoder stores -/

section Encoder

variable {column : Column} {rows : BlockRows} {index : ℕ}

/-- The validity the encoder sees as implicit is the one the price sees so. -/
theorem isImplicit_validityBits (rows : BlockRows) (index : ℕ) :
    isImplicit (validityBits rows index) =
      (ColumnFootprint.ofValues (rows.logical index)).hasImplicitValidity := by
  rw [validityBits_eq, isImplicit, ColumnFootprint.hasImplicitValidity]
  generalize rows.logical index = values
  have hpresent : (values.map Option.isSome).all id = true ↔
      (values.filter Option.isNone).length = 0 := by
    rw [List.length_eq_zero_iff, List.filter_eq_nil_iff, List.all_map, List.all_eq_true]
    exact forall₂_congr fun value _ ↦ by cases value <;> simp
  have habsent : (values.map Option.isSome).all (!·) = true ↔ values.reduceOption.length = 0 := by
    rw [List.reduceOption_length_eq, List.length_eq_zero_iff, List.filter_eq_nil_iff, List.all_map,
      List.all_eq_true]
    exact forall₂_congr fun value _ ↦ by cases value <;> simp
  rw [Bool.eq_iff_iff, Bool.or_eq_true, hpresent, habsent, decide_eq_true_eq]
  rfl

theorem storedLengths_of_materializeSelected {zstd : Zstd} {layout : ℕ}
    {streams : List CandidateStream} {zstdLevel : ℤ} {selected : SelectedColumn}
    (h : materializeSelected zstd layout streams .none zstdLevel = .ok selected) :
    selected.streams.map (·.stored.length) = streams.map (·.bytes.length) := by
  obtain ⟨stored, hstored, hselected⟩ := bind_eq_ok.mp h
  cases hselected
  show stored.map (·.stored.length) = _
  have hall := mapM_eq_ok.mp hstored
  clear h hstored
  induction hall with
  | nil => rfl
  | cons hstream _ ih =>
    obtain ⟨bytes, hbytes, hstream⟩ := bind_eq_ok.mp hstream
    cases hbytes
    cases hstream
    exact congrArg (_ :: ·) ih

theorem length_rawStreams {present : List column.logicalType.arrayType.Value}
    (hfits : ∀ value ∈ present.map column.logicalType.stored,
      column.logicalType.FitsKey (column.logicalType.storedType.key value))
    {footprint : ColumnFootprint} (hdense : footprint.denseCount = present.length)
    (hvariable : footprint.variableBytes =
      ((present.map (ScalarValue.mk column.logicalType.arrayType)).map variableByteLength).sum) :
    (rawStreams (column.logicalType.prepared (present.map column.logicalType.stored))).map
        (·.bytes.length) =
      rawValuesLength column.logicalType footprint ::
        if isVariableWidth column.logicalType then [lengthEntryBytes * footprint.denseCount]
        else [] := by
  have hkeys : (present.map column.logicalType.stored).map
      (fun value ↦ (column.logicalType.storedType.key value).length) =
        present.map fun value ↦ (storedBytes ⟨column.logicalType.arrayType, value⟩).length := by
    rw [List.map_map]
    exact List.map_congr_left fun value _ ↦ by
      rw [storedBytes_eq_key]
      rfl
  cases hshape : column.logicalType.shape with
  | bits =>
    have hfixed : ¬isVariableWidth column.logicalType = true := by
      rw [isVariableWidth_iff, hshape]
      exact LogicalType.Shape.noConfusion
    rw [LogicalType.prepared, rawValuesLength, hshape, if_neg hfixed, hdense]
    simp only [rawStreams, List.map_singleton, valuesStream, length_packBits, List.length_map,
      bitmapBytes]
  | fixed width signed =>
    have hfixed : ¬isVariableWidth column.logicalType = true := by
      rw [isVariableWidth_iff, hshape]
      exact LogicalType.Shape.noConfusion
    have hlength : ∀ value ∈ present.map column.logicalType.stored,
        (column.logicalType.storedType.key value).length = width := by
      intro value hvalue
      have hkey := hfits value hvalue
      rwa [LogicalType.FitsKey, hshape] at hkey
    rw [LogicalType.prepared, rawValuesLength, hshape, if_neg hfixed, hdense]
    simp only [rawStreams, List.map_singleton, valuesStream, length_flatMap_of_forall hlength,
      List.length_map, Nat.mul_comm]
  | variableWidth =>
    have hbytes : present.map (fun value ↦
        (storedBytes ⟨column.logicalType.arrayType, value⟩).length) =
          (present.map (ScalarValue.mk column.logicalType.arrayType)).map variableByteLength := by
      rw [List.map_map]
      refine List.map_congr_left fun value _ ↦ ?_
      have hvalue (logicalType : LogicalType) (hshape : logicalType.shape = .variableWidth)
          (value : logicalType.arrayType.Value) :
          (storedBytes ⟨logicalType.arrayType, value⟩).length =
            variableByteLength ⟨logicalType.arrayType, value⟩ := by
        cases logicalType <;> cases hshape <;> rfl
      exact hvalue _ hshape value
    rw [LogicalType.prepared, rawValuesLength, hshape, if_pos ((isVariableWidth_iff _).mpr hshape),
      hvariable, ← hbytes, ← hkeys, hdense]
    simp only [rawStreams, List.map_cons, List.map_nil, valuesStream, List.length_flatMap,
      length_lengthBytes, List.length_map, lengthEntryBytes, Nat.mul_comm]

/-- **The raw encoding stores streams of the priced lengths.** -/
theorem lengths_of_rawColumnCandidate {zstd : Zstd} {zstdLevel : ℤ} {selected : SelectedColumn}
    (hwidth : column.logicalType.HasWidth)
    (htypes : column.logicalType.Types (rows.logical index))
    (h : rawColumnCandidate zstd column rows index (validityBits rows index) .none zstdLevel =
      .ok selected) :
    selected.streams.map (·.stored.length) =
      rawLengths column.logicalType (.ofValues (rows.logical index))
        (rows.logical index).length := by
  obtain ⟨streams, hstreams, h⟩ := bind_eq_ok.mp h
  obtain ⟨present, hpresent⟩ := htypes.exists_present
  obtain ⟨hfits, rfl⟩ := rawValueStreams_eq_ok hwidth hpresent hstreams
  have hdense : (ColumnFootprint.ofValues (rows.logical index)).denseCount = present.length := by
    show (rows.logical index).reduceOption.length = _
    rw [hpresent, List.length_map]
  have hvariable : (ColumnFootprint.ofValues (rows.logical index)).variableBytes =
      ((present.map (ScalarValue.mk column.logicalType.arrayType)).map variableByteLength).sum := by
    show ((rows.logical index).reduceOption.map variableByteLength).sum = _
    rw [hpresent]
  rw [storedLengths_of_materializeSelected h, List.map_append, rawLengths]
  refine congrArg₂ _ ?_ ?_
  · rw [rawValidityStreams, validityLengths, isImplicit_validityBits]
    split
    · rfl
    · rw [validityBits_eq]
      simp only [List.map_cons, List.map_nil, length_packBits, List.length_map, bitmapBytes]
  · rw [valueLengths, hdense]
    by_cases hnone : present = []
    · rw [if_pos hnone, if_pos (by rw [hnone]; rfl)]
      rfl
    · rw [if_neg hnone, if_neg (by rwa [List.length_eq_zero_iff]),
        length_rawStreams hfits hdense hvariable, hdense]

/-! ### Statistics -/

/-- A scan counts no more values than it sees, and finds no extrema where it sees none. -/
theorem scanStatistic_count {values : List (Result ScalarValue)} {start final : Extrema × ℕ}
    (h : values.foldlM (scanStatistic column) start = .ok final) :
    final.2 ≤ start.2 + values.length ∧ (values = [] → final = start) := by
  induction values generalizing start with
  | nil =>
    cases h
    exact ⟨le_rfl, fun _ ↦ rfl⟩
  | cons value values ih =>
    rw [List.foldlM_cons] at h
    obtain ⟨next, hnext, hrest⟩ := bind_eq_ok.mp h
    obtain ⟨hle, -⟩ := ih hrest
    have hstep : next.2 ≤ start.2 + 1 := by
      obtain ⟨scalar, -, hnext⟩ := bind_eq_ok.mp hnext
      obtain ⟨statistic, -, hnext⟩ := bind_eq_ok.mp hnext
      split at hnext
      · cases hnext
        exact Nat.le_succ _
      · cases hnext
        exact le_rfl
    refine ⟨?_, fun hnil ↦ absurd hnil (List.cons_ne_nil _ _)⟩
    rw [List.length_cons]
    omega

theorem statisticWidth_eq_some {logicalType : LogicalType} {width : ℕ}
    (h : statisticWidth logicalType = some width) :
    statisticsWidth logicalType = width ∧ 0 < width ∧ width ≤ u32Max := by
  cases logicalType with
  | integer type =>
    cases h
    exact ⟨rfl, type.width_pos, by cases type <;> decide⟩
  | fixedBinary byteWidth =>
    obtain ⟨hzero, hwidth⟩ := Option.ite_none_left_eq_some.mp h
    cases hwidth
    have hlt := byteWidth.toNat_lt
    refine ⟨rfl, Nat.pos_of_ne_zero fun hnone ↦ hzero (UInt32.toNat_inj.mp (by simpa using hnone)),
      ?_⟩
    simp only [u32Max]
    omega
  | utf8 | categorical _ | binary => cases h
  | bool | float32 | date32 | float64 | decimal _ _ | timestamp _ _ =>
    cases h
    exact ⟨rfl, by omega, by decide⟩

/-- **A column that is given a pair is one the price reserved for**, at the same width. -/
theorem reserved_of_generateStatistics {schema : Schema} {statistics : WriterStatistics}
    {pair : Bytes} (htypes : column.logicalType.Types (rows.logical index))
    (h : generateStatistics column rows index (validityBits rows index) statistics
      (schema.primaryColumnId = some column.id) = .ok (some pair)) :
    shouldReserveStatistics schema column (.ofValues (rows.logical index)) statistics = true ∧
      pair.length = 2 * statisticsWidth column.logicalType := by
  obtain ⟨present, hpresent⟩ := htypes.exists_present
  have hdense : (ColumnFootprint.ofValues (rows.logical index)).denseCount = present.length := by
    show (rows.logical index).reduceOption.length = _
    rw [hpresent, List.length_map]
  rw [generateStatistics, denseValues_eq_present hpresent] at h
  cases hwidth : statisticWidth column.logicalType with
  | none =>
    rw [hwidth] at h
    cases h
  | some width =>
    rw [hwidth] at h
    obtain ⟨hsame, hpositive, -⟩ := statisticWidth_eq_some hwidth
    dsimp only at h
    split at h
    · cases h
    rename_i hwants
    obtain ⟨⟨extrema, valueCount⟩, hscan, h⟩ := bind_eq_ok.mp h
    obtain ⟨hcount, hnone⟩ := scanStatistic_count hscan
    have hlength : (presentValues column.logicalType present).length = present.length :=
      List.length_map _
    rw [hlength, Nat.zero_add] at hcount
    dsimp only at h hcount
    split at h
    · cases h
    rename_i minimum maximum hpair
    have hsome : present ≠ [] := by
      rintro rfl
      cases hnone rfl
      cases hpair
    have hdensePos : present.length ≠ 0 := by rwa [Ne, List.length_eq_zero_iff]
    split at h
    · cases h
    rename_i hworth
    obtain ⟨bytes, hbytes, h⟩ := bind_eq_ok.mp h
    cases h
    refine ⟨(shouldReserveStatistics_iff _ _ _ _).mpr ?_, ?_⟩
    · rw [hdense, hsame]
      refine ⟨hdensePos, hpositive.ne', ?_⟩
      cases statistics with
      | none => exact absurd Bool.false_ne_true hwants
      | minMax => exact .inl rfl
      | automatic =>
        have hworthwhile : automaticStatisticsAreWorthwhile column.logicalType valueCount width =
            true := by simpa using hworth
        have hprimary : schema.primaryColumnId ≠ some column.id := by
          simpa [wantsStatistics] using hwants
        rw [automaticStatisticsAreWorthwhile] at hworthwhile
        split at hworthwhile
        · cases hworthwhile
        rename_i hmany
        rw [automaticMinDenseValues, not_lt] at hmany
        refine .inr ⟨rfl, hprimary, hmany.trans hcount, ?_⟩
        -- There are at least as many dense values as values that are not NaN.
        refine (of_decide_eq_true hworthwhile).trans ?_
        split
        · exact bitmapBytes_mono hcount
        · rw [saturatingMul, saturatingMul, Nat.mul_comm]
          exact saturatingMul_mono le_rfl hcount
    · rw [hsame]
      exact length_of_encodeStatistics hwidth hbytes

end Encoder

/-! ### The assembly of a block -/

/-- A stream is laid out with its padding. -/
theorem length_appendStream (pending : StoredStream) {payload : Bytes}
    (haligned : payload.length % frameAlignment = 0) :
    (appendStream pending payload).2.length =
      payload.length + streamSize pending.stored.length := by
  rw [frameAlignment] at haligned
  rw [appendStream, streamSize]
  dsimp only
  split
  case isTrue hempty =>
    rw [hempty, List.append_nil, List.length_append, length_zeros]
    rfl
  case isFalse hsome =>
    have hpos := List.length_pos_iff.mpr hsome
    rw [length_padToAlignment, List.length_append]
    omega

/-- The streams of a column are laid out one after another. -/
theorem length_appendStreams (pending : List StoredStream) {payload : Bytes}
    (haligned : payload.length % frameAlignment = 0) :
    (appendStreams pending payload).1.length = pending.length ∧
      (appendStreams pending payload).2.length =
        payload.length + payloadSize (pending.map (·.stored.length)) := by
  induction pending generalizing payload with
  | nil => exact ⟨rfl, rfl⟩
  | cons first rest ih =>
    have hfirst := length_appendStream first haligned
    have hnext : (appendStream first payload).2.length % frameAlignment = 0 := by
      rw [frameAlignment] at haligned
      rw [hfirst, frameAlignment, streamSize]
      omega
    obtain ⟨hcount, hlength⟩ := ih hnext
    refine ⟨?_, ?_⟩
    · show (appendStreams rest (appendStream first payload).2).1.length + 1 = _
      rw [hcount]
      rfl
    · show (appendStreams rest (appendStream first payload).2).2.length = _
      rw [hlength, hfirst, List.map_cons, payloadSize_cons, Nat.add_assoc]

/-- The statistics of the columns stand one after another. -/
theorem length_layOutStatistics (statisticsOffset : ℕ) (columns : List EncodedColumn)
    (area : Bytes) :
    (layOutStatistics statisticsOffset columns area).1.length = area.length +
      ((columns.map EncodedColumn.statistics).map fun pair ↦
        (pair.map List.length).getD 0).sum := by
  induction columns generalizing area with
  | nil => rfl
  | cons column columns ih =>
    rw [layOutStatistics]
    rcases hpair : column.statistics with - | bytes
    · simp only [hpair, List.map_cons, List.sum_cons, Option.map_none, Option.getD_none,
        Nat.zero_add]
      exact ih area
    · simp only [hpair, List.map_cons, List.sum_cons, Option.map_some, Option.getD_some]
      rw [ih, List.length_append, Nat.add_assoc]

section Assembly

variable (zstd : Zstd) (schema : Schema) (rows : BlockRows) (options : WriterOptions)

/-- The pair the encoder gives a column, if it gives it one. -/
def pairOf (entry : Column × ℕ) : Option Bytes :=
  (generateStatistics entry.1 rows entry.2 (validityBits rows entry.2) options.statistics
    (schema.primaryColumnId = some entry.1.id)).toOption.join

/-- The counters of a column's rows. -/
def footprintOf (entry : Column × ℕ) : ColumnFootprint := .ofValues (rows.logical entry.2)

/-- The lengths of the streams the raw encoding gives a column. -/
def lengthsOf (entry : Column × ℕ) : List ℕ :=
  rawLengths entry.1.logicalType (footprintOf rows entry) rows.rowCount

/-- The encoder works on the raw bytes of the schema's rows. -/
structure EncodesRaw : Prop where
  of : rows.Of schema
  hasWidth : ∀ column ∈ schema.columns, column.logicalType.HasWidth
  encoding : options.encoding = .raw
  codec : options.codec = .none

variable {zstd schema rows options}

/-- **One more column adds its streams and its pair.** -/
theorem assembleColumn_eq_ok (hraw : EncodesRaw schema rows options) {assembly next : BlockAssembly}
    {entry : Column × ℕ} (hentry : schema.columns[entry.2]? = some entry.1)
    (haligned : assembly.payload.length % frameAlignment = 0)
    (h : assembleColumn zstd schema rows options assembly entry = .ok next) :
    next.streamCount = assembly.streamCount + (lengthsOf rows entry).length ∧
      next.payload.length = assembly.payload.length + payloadSize (lengthsOf rows entry) ∧
        next.columns.map EncodedColumn.statistics =
          assembly.columns.map EncodedColumn.statistics ++ [pairOf schema rows options entry] := by
  obtain ⟨column, index⟩ := entry
  dsimp only at hentry
  obtain ⟨encoded, hencoded, h⟩ := bind_eq_ok.mp h
  obtain ⟨_, -, h⟩ := bind_eq_ok.mp h
  obtain ⟨_, -, h⟩ := bind_eq_ok.mp h
  cases h
  obtain ⟨_, hparts, hencoded⟩ := bind_eq_ok.mp hencoded
  obtain ⟨pair, hpair, hencoded⟩ := bind_eq_ok.mp hencoded
  obtain ⟨selected, hselected, hencoded⟩ := bind_eq_ok.mp hencoded
  obtain ⟨_, -, hencoded⟩ := bind_eq_ok.mp hencoded
  obtain ⟨_, -, hencoded⟩ := bind_eq_ok.mp hencoded
  cases hencoded
  rw [validateColumnParts_eq hraw.of hentry, failIf_eq_ok, not_not] at hparts
  rw [selectColumn, hraw.encoding, hraw.codec] at hselected
  have hlengths := lengths_of_rawColumnCandidate
    (hraw.hasWidth column (List.mem_of_getElem? hentry)) (hraw.of.types hentry) hselected
  rw [hparts] at hlengths
  obtain ⟨hcount, hpayload⟩ := length_appendStreams selected.streams haligned
  have hstreams := congrArg List.length hlengths
  rw [List.length_map] at hstreams
  refine ⟨congrArg (assembly.streamCount + ·) (hcount.trans hstreams), hpayload.trans ?_, ?_⟩
  · rw [hlengths]
    rfl
  · rw [List.map_append, pairOf, hpair]
    rfl

/-- **The columns of a block add up.** -/
theorem foldlM_assembleColumn_eq_ok (hraw : EncodesRaw schema rows options)
    {entries : List (Column × ℕ)}
    (hentries : ∀ entry ∈ entries, schema.columns[entry.2]? = some entry.1)
    {assembly final : BlockAssembly} (haligned : assembly.payload.length % frameAlignment = 0)
    (h : entries.foldlM (assembleColumn zstd schema rows options) assembly = .ok final) :
    final.streamCount =
        assembly.streamCount + (entries.map fun entry ↦ (lengthsOf rows entry).length).sum ∧
      final.payload.length =
          assembly.payload.length +
            (entries.map fun entry ↦ payloadSize (lengthsOf rows entry)).sum ∧
        final.columns.map EncodedColumn.statistics =
          assembly.columns.map EncodedColumn.statistics ++
            entries.map (pairOf schema rows options) := by
  induction entries generalizing assembly with
  | nil =>
    cases h
    exact ⟨rfl, rfl, (List.append_nil _).symm⟩
  | cons entry entries ih =>
    obtain ⟨hentry, hrest⟩ := List.forall_mem_cons.mp hentries
    rw [List.foldlM_cons] at h
    obtain ⟨next, hnext, h⟩ := bind_eq_ok.mp h
    obtain ⟨hcount, hpayload, hpairs⟩ := assembleColumn_eq_ok hraw hentry haligned hnext
    have hnextAligned : next.payload.length % frameAlignment = 0 := by
      have hmultiple : payloadSize (lengthsOf rows entry) % 8 = 0 := by
        generalize lengthsOf rows entry = lengths
        induction lengths with
        | nil => rfl
        | cons length lengths ih =>
          rw [payloadSize_cons, streamSize]
          omega
      rw [frameAlignment] at haligned ⊢
      omega
    obtain ⟨hcounts, hpayloads, hall⟩ := ih hrest hnextAligned h
    rw [hcounts, hpayloads, hall, hcount, hpayload, hpairs]
    simp only [List.map_cons, List.sum_cons, List.append_assoc, List.singleton_append,
      Nat.add_assoc, and_self]

end Assembly

/-! ### The price -/

/-- A saturating sum is the sum, cut off at the largest number. -/
theorem foldl_saturatingAdd_eq {α : Type} (f : α → ℕ) (xs : List α) {start : ℕ}
    (hstart : start ≤ u64Max) :
    xs.foldl (fun total x ↦ saturatingAdd total (f x)) start =
      min (start + (xs.map f).sum) u64Max := by
  induction xs generalizing start with
  | nil => exact (Nat.min_eq_left hstart).symm
  | cons x xs ih =>
    have hnext : saturatingAdd start (f x) ≤ u64Max := Nat.min_le_right _ _
    rw [List.foldl_cons, ih hnext, List.map_cons, List.sum_cons, saturatingAdd]
    omega

/-- What the reserved statistics take in the header. -/
def areaSize (length : ℕ) : ℕ := (length + 7) / 8 * 8

theorem alignUp_eq {length : ℕ} (h : length + 7 ≤ u64Max) : alignUp length = areaSize length := by
  have hsum : saturatingAdd length (frameAlignment - 1) = length + 7 := Nat.min_eq_left h
  rw [alignUp, hsum]
  rfl

section Price

variable {schema : Schema} {rows : BlockRows} {options : WriterOptions}

/-- What the price reserves in the header for a column. -/
def reserveOf (schema : Schema) (rows : BlockRows) (options : WriterOptions)
    (entry : Column × ℕ) : ℕ :=
  statisticsReserve schema options.statistics entry.1 (footprintOf rows entry)

theorem statisticsWidth_le (logicalType : LogicalType) : statisticsWidth logicalType ≤ u32Max := by
  cases logicalType with
  | integer type => cases type <;> decide
  | fixedBinary byteWidth =>
    have hlt := byteWidth.toNat_lt
    show byteWidth.toNat ≤ u32Max
    simp only [u32Max]
    omega
  | utf8 | categorical _ | binary => exact Nat.zero_le _
  | bool | float32 | date32 | float64 | decimal _ _ | timestamp _ _ =>
    simp only [statisticsWidth, u32Max]
    omega

/-- A column is reserved nothing, or twice the width of its statistics. -/
theorem reserveOf_eq (entry : Column × ℕ) :
    reserveOf schema rows options entry =
      if shouldReserveStatistics schema entry.1 (footprintOf rows entry) options.statistics then
        2 * statisticsWidth entry.1.logicalType else 0 := by
  have hwidth := statisticsWidth_le entry.1.logicalType
  have hdouble : saturatingMul (statisticsWidth entry.1.logicalType) 2 =
      2 * statisticsWidth entry.1.logicalType := by
    simp only [saturatingMul, u64Max]
    simp only [u32Max] at hwidth
    omega
  rw [reserveOf, statisticsReserve, hdouble]

/-- The counters of a buffer, column by column. -/
theorem zip_footprints {statistics : WriterStatistics} {chunks : List RecordBatch}
    (h : ∀ chunk ∈ chunks, chunk.Declares schema) :
    schema.columns.zip (BlockBuffer.ofChunks schema statistics chunks).footprints =
      schema.columns.zipIdx.map fun entry ↦
        (entry.1, footprintOf (BlockBuffer.ofChunks schema statistics chunks).blockRows entry) := by
  refine List.ext_getElem? fun index ↦ ?_
  rw [List.zip, List.getElem?_zipWith, List.getElem?_map, List.getElem?_zipIdx]
  cases hcolumn : schema.columns[index]? with
  | none => rfl
  | some column =>
    rw [BlockBuffer.footprints_ofChunks statistics h hcolumn, Nat.zero_add]
    rfl

/-- A sum over the columns of a price is a sum over the columns of the schema. -/
theorem foldl_columns_eq {footprints : List ColumnFootprint}
    (hfootprints : schema.columns.zip footprints =
      schema.columns.zipIdx.map fun entry ↦ (entry.1, footprintOf rows entry))
    {f : Column × ColumnFootprint → ℕ} {g : Column × ℕ → ℕ}
    (hsame : ∀ entry ∈ schema.columns.zipIdx, f (entry.1, footprintOf rows entry) = g entry)
    (hle : (schema.columns.zipIdx.map g).sum ≤ u64Max) :
    (schema.columns.zip footprints).foldl (fun total pair ↦ saturatingAdd total (f pair)) 0 =
      (schema.columns.zipIdx.map g).sum := by
  have hmap : (schema.columns.zip footprints).map f = schema.columns.zipIdx.map g := by
    rw [hfootprints, List.map_map]
    exact List.map_congr_left hsame
  rw [foldl_saturatingAdd_eq f _ (Nat.zero_le _), hmap, Nat.zero_add]
  exact Nat.min_eq_left hle

/-- What is reserved for the columns of a schema is far from the largest number. -/
theorem sum_reserveOf_le (h : streamTableStart schema ≤ u32Max) :
    (schema.columns.zipIdx.map (reserveOf schema rows options)).sum ≤ 2 ^ 62 := by
  have heach : ∀ reserve ∈ schema.columns.zipIdx.map (reserveOf schema rows options),
      reserve ≤ 2 ^ 33 := by
    intro reserve hreserve
    obtain ⟨entry, -, rfl⟩ := List.mem_map.mp hreserve
    have hwidth := statisticsWidth_le entry.1.logicalType
    simp only [u32Max] at hwidth
    rw [reserveOf_eq]
    split <;> omega
  have hsum := List.sum_le_card_nsmul _ _ heach
  rw [List.length_map, List.length_zipIdx, smul_eq_mul] at hsum
  simp only [streamTableStart, dataBlockHeaderSize, blockColumnDescriptorSize, u32Max] at h
  omega

/-- **The price in full**, where the header and the payload it stands for are within bounds. -/
theorem blockSizeWithStatistics_eq {footprints : List ColumnFootprint}
    (hfootprints : schema.columns.zip footprints =
      schema.columns.zipIdx.map fun entry ↦ (entry.1, footprintOf rows entry))
    (hpayload : (schema.columns.zipIdx.map fun entry ↦ payloadSize (lengthsOf rows entry)).sum ≤
      defaultMaxFramePayloadLength)
    (htables : streamTableStart schema +
      (schema.columns.zipIdx.map fun entry ↦ (lengthsOf rows entry).length).sum *
        blockStreamDescriptorSize ≤ u32Max) :
    (blockSizeWithStatistics schema footprints rows.rowCount options.statistics).frameBytes =
      prefixSize + (streamTableStart schema +
        (schema.columns.zipIdx.map fun entry ↦ (lengthsOf rows entry).length).sum *
          blockStreamDescriptorSize +
        areaSize (schema.columns.zipIdx.map (reserveOf schema rows options)).sum) +
      (schema.columns.zipIdx.map fun entry ↦ payloadSize (lengthsOf rows entry)).sum +
      trailerSize := by
  have hcolumn : ∀ entry ∈ schema.columns.zipIdx,
      columnSize entry.1 (footprintOf rows entry) rows.rowCount =
        (payloadSize (lengthsOf rows entry), (lengthsOf rows entry).length) := by
    intro entry hentry
    refine columnSize_eq (le_trans ?_ hpayload)
    exact List.single_le_sum (fun _ _ ↦ Nat.zero_le _) _ (List.mem_map_of_mem hentry)
  have hpayloadBytes : (schema.columns.zip footprints).foldl (fun total pair ↦
      saturatingAdd total (columnSize pair.1 pair.2 rows.rowCount).1) 0 = _ :=
    foldl_columns_eq hfootprints (fun entry hentry ↦ congrArg Prod.fst (hcolumn entry hentry))
      (hpayload.trans (by decide))
  have hreserve := @sum_reserveOf_le schema rows options ((Nat.le_add_right _ _).trans htables)
  have hreserved : (schema.columns.zip footprints).foldl (fun total pair ↦
      saturatingAdd total (statisticsReserve schema options.statistics pair.1 pair.2)) 0 =
        (schema.columns.zipIdx.map (reserveOf schema rows options)).sum :=
    foldl_columns_eq hfootprints (fun _ _ ↦ rfl) (hreserve.trans (by decide))
  generalize hpayloadSum : (schema.columns.zipIdx.map
    fun entry ↦ payloadSize (lengthsOf rows entry)).sum = payload at *
  generalize hreservedSum : (schema.columns.zipIdx.map (reserveOf schema rows options)).sum =
    reserved at *
  have hstreamCount : (schema.columns.zip footprints).foldl (fun total pair ↦
      saturatingAdd total (columnSize pair.1 pair.2 rows.rowCount).2) 0 = _ :=
    foldl_columns_eq hfootprints (fun entry hentry ↦ congrArg Prod.snd (hcolumn entry hentry)) (by
      simp only [blockStreamDescriptorSize, u32Max] at htables
      simp only [u64Max]
      omega)
  generalize hstreamSum : (schema.columns.zipIdx.map
    fun entry ↦ (lengthsOf rows entry).length).sum = streams at *
  have harea : (if reserved ≠ 0 then alignUp reserved else 0) = areaSize reserved := by
    have halign : alignUp reserved = areaSize reserved := alignUp_eq (by
      simp only [u64Max]
      omega)
    split
    · exact halign
    · rename_i hzero
      rw [not_not.mp hzero]
      rfl
  show saturatingAdd (saturatingAdd (saturatingAdd prefixSize (saturatingAdd (saturatingAdd
    (saturatingAdd dataBlockHeaderSize (saturatingMul schema.columns.length
      blockColumnDescriptorSize)) (saturatingMul ((schema.columns.zip footprints).foldl
        (fun total pair ↦ saturatingAdd total (columnSize pair.1 pair.2 rows.rowCount).2) 0)
          blockStreamDescriptorSize)) (if (schema.columns.zip footprints).foldl (fun total pair ↦
            saturatingAdd total (statisticsReserve schema options.statistics pair.1 pair.2)) 0 ≠ 0
            then alignUp ((schema.columns.zip footprints).foldl
              (fun total pair ↦ saturatingAdd total
              (statisticsReserve schema options.statistics pair.1 pair.2)) 0) else 0)))
    ((schema.columns.zip footprints).foldl (fun total pair ↦
      saturatingAdd total (columnSize pair.1 pair.2 rows.rowCount).1) 0)) trailerSize = _
  rw [hpayloadBytes, hstreamCount, hreserved, harea]
  have hareaLe : areaSize reserved ≤ 2 ^ 63 := by
    rw [areaSize]
    omega
  have hbound : (u64Max : ℕ) = 2 ^ 64 - 1 := rfl
  have hsmall : (u32Max : ℕ) = 2 ^ 32 - 1 := rfl
  have hlarge : (defaultMaxFramePayloadLength : ℕ) = 2 ^ 32 := rfl
  have hstart : streamTableStart schema =
      dataBlockHeaderSize + schema.columns.length * blockColumnDescriptorSize := rfl
  have hexact {a b : ℕ} (h : a + b ≤ u64Max) : saturatingAdd a b = a + b := Nat.min_eq_left h
  have hcolumns : saturatingMul schema.columns.length blockColumnDescriptorSize =
      schema.columns.length * blockColumnDescriptorSize := Nat.min_eq_left (by omega)
  have hstreams : saturatingMul streams blockStreamDescriptorSize =
      streams * blockStreamDescriptorSize := Nat.min_eq_left (by omega)
  have hprefix : prefixSize = 48 := rfl
  have htrailer : trailerSize = 32 := rfl
  have htable : saturatingAdd dataBlockHeaderSize
      (schema.columns.length * blockColumnDescriptorSize) = streamTableStart schema :=
    hexact (by omega)
  have hstreamTable : saturatingAdd (streamTableStart schema)
      (streams * blockStreamDescriptorSize) = _ := hexact (by omega)
  have hheader : saturatingAdd (streamTableStart schema + streams * blockStreamDescriptorSize)
      (areaSize reserved) = _ := hexact (by omega)
  have hpadded : saturatingAdd prefixSize (streamTableStart schema +
      streams * blockStreamDescriptorSize + areaSize reserved) = _ := hexact (by omega)
  have hpayloaded : saturatingAdd (prefixSize + (streamTableStart schema +
      streams * blockStreamDescriptorSize + areaSize reserved)) payload = _ := hexact (by omega)
  rw [hcolumns, htable, hstreams, hstreamTable, hheader, hpadded, hpayloaded]
  exact hexact (by omega)

/-! ### The price and the size -/

theorem sum_sortedColumns (f : Column × ℕ → ℕ) :
    ((sortedColumns schema).map f).sum = (schema.columns.zipIdx.map f).sum :=
  ((List.mergeSort_perm _ _).map f).sum_eq

/-- The bytes of the pairs a block carries. -/
def pairBytes (schema : Schema) (rows : BlockRows) (options : WriterOptions)
    (entry : Column × ℕ) : ℕ :=
  ((pairOf schema rows options entry).map List.length).getD 0

/-- The header bytes reserved for a column that the encoder gives no pair. -/
def unusedReserve (schema : Schema) (rows : BlockRows) (options : WriterOptions)
    (entry : Column × ℕ) : ℕ :=
  if (pairOf schema rows options entry).isSome then 0 else reserveOf schema rows options entry

/-- **The size in full.** -/
theorem Built.length_image_eq {zstd : Zstd} {baseRowId sequence : ℕ} {assembly : BlockAssembly}
    {primary : ℤ × ℤ × Bool} {image : Bytes} (hraw : EncodesRaw schema rows options)
    (h : Built zstd schema rows options baseRowId sequence assembly primary image) :
    assembly.streamCount =
      (schema.columns.zipIdx.map fun entry ↦ (lengthsOf rows entry).length).sum ∧
      assembly.payload.length =
          (schema.columns.zipIdx.map fun entry ↦ payloadSize (lengthsOf rows entry)).sum ∧
        image.length = prefixSize + (streamTableStart schema +
            assembly.streamCount * blockStreamDescriptorSize +
            areaSize (schema.columns.zipIdx.map (pairBytes schema rows options)).sum) +
          assembly.payload.length + trailerSize := by
  obtain ⟨hstreams, hpayload, hpairs⟩ := foldlM_assembleColumn_eq_ok hraw
    (fun _ ↦ getElem?_of_mem_sortedColumns) rfl h.assembled
  have harea : (statisticsArea schema assembly).length =
      areaSize (schema.columns.zipIdx.map (pairBytes schema rows options)).sum := by
    rw [statisticsArea, length_padToAlignment, length_layOutStatistics, hpairs, List.length_nil,
      Nat.zero_add, areaSize, ← sum_sortedColumns]
    simp only [List.map_nil, List.nil_append, List.map_map]
    rfl
  refine ⟨?_, ?_, ?_⟩
  · rw [hstreams, sum_sortedColumns]
    exact Nat.zero_add _
  · rw [hpayload, sum_sortedColumns]
    exact Nat.zero_add _
  · rw [h.length_image, h.length_frameHeader, harea]
    rfl

/-- What is reserved for a column is its pair, or is not used. -/
theorem reserveOf_eq_add (hraw : EncodesRaw schema rows options) {entry : Column × ℕ}
    (hentry : schema.columns[entry.2]? = some entry.1) :
    reserveOf schema rows options entry =
      pairBytes schema rows options entry + unusedReserve schema rows options entry := by
  rw [pairBytes, unusedReserve]
  cases hpair : pairOf schema rows options entry with
  | none => exact (Nat.zero_add _).symm
  | some pair =>
    have hgenerated : generateStatistics entry.1 rows entry.2 (validityBits rows entry.2)
        options.statistics (schema.primaryColumnId = some entry.1.id) = .ok (some pair) := by
      rw [pairOf] at hpair
      cases hresult : generateStatistics entry.1 rows entry.2 (validityBits rows entry.2)
          options.statistics (schema.primaryColumnId = some entry.1.id) with
      | error e =>
        rw [hresult] at hpair
        cases hpair
      | ok generated =>
        rw [hresult] at hpair
        exact congrArg Except.ok hpair
    obtain ⟨hreserves, hlength⟩ := reserved_of_generateStatistics (hraw.of.types hentry) hgenerated
    rw [reserveOf_eq, footprintOf, if_pos hreserves, Option.map_some, Option.getD_some, hlength]
    rfl

theorem areaSize_add_le (length other : ℕ) :
    areaSize length ≤ areaSize (length + other) ∧
      areaSize (length + other) ≤ areaSize length + areaSize other := by
  simp only [areaSize]
  omega

/-- The price of a buffer is what its counters say, once something was pushed. -/
theorem frameBytes_ofChunks {statistics : WriterStatistics} {chunks : List RecordBatch}
    (hne : chunks ≠ []) :
    (BlockBuffer.ofChunks schema statistics chunks).frameBytes =
      (blockSizeWithStatistics schema (BlockBuffer.ofChunks schema statistics chunks).footprints
        (BlockBuffer.ofChunks schema statistics chunks).blockRows.rowCount
        statistics).frameBytes := by
  obtain ⟨before, last, rfl⟩ := (List.eq_nil_or_concat chunks).resolve_left hne
  obtain ⟨-, -, hstatistics⟩ := BlockBuffer.ofChunks_fields schema statistics before
  rw [List.concat_eq_append, BlockBuffer.ofChunks_append]
  show (blockSizeWithStatistics schema _ _
    (BlockBuffer.ofChunks schema statistics before).statistics).frameBytes = _
  rw [hstatistics]
  rfl

end Price

theorem hasWidth_of_validateColumns {seen columns : List Column}
    (h : validateColumns seen columns = .ok ()) :
    ∀ column ∈ columns, column.logicalType.HasWidth := by
  induction columns generalizing seen with
  | nil => exact fun _ hcolumn ↦ (List.not_mem_nil hcolumn).elim
  | cons column columns ih =>
    obtain ⟨_, hcolumn, hrest⟩ := bind_eq_ok.mp h
    refine List.forall_mem_cons.mpr ⟨fun htype ↦ ?_, ih hrest⟩
    obtain ⟨_, -, hcolumn⟩ := bind_eq_ok.mp hcolumn
    obtain ⟨_, -, hcolumn⟩ := bind_eq_ok.mp hcolumn
    obtain ⟨_, -, hcolumn⟩ := bind_eq_ok.mp hcolumn
    obtain ⟨_, hparameters, -⟩ := bind_eq_ok.mp hcolumn
    rw [htype] at hparameters
    cases hparameters

section Sizing

variable {zstd : Zstd} {schema : Schema} {options : WriterOptions} {chunks : List RecordBatch}
  {baseRowId sequence : ℕ} {image : Bytes}

/-- **The price of a block is the size of its frame** under the raw encoding without a codec.  Where
statistics may be written, the price exceeds the size by no more than what it reserves for columns
that are given none, and a column that is given a pair is one the price reserved for. -/
theorem frameBytes_eq_length (hschema : validateSchema schema = .ok ()) (hne : chunks ≠ [])
    (hchunks : ∀ chunk ∈ chunks, chunk.Checked schema) (hencoding : options.encoding = .raw)
    (hcodec : options.codec = .none)
    (hbuild : buildDataFrameWithStatistics zstd schema
      (BlockBuffer.ofChunks schema options.statistics chunks).blockRows options baseRowId sequence =
        .ok image) :
    let buffer := BlockBuffer.ofChunks schema options.statistics chunks
    (options.statistics = .none → buffer.frameBytes = image.length) ∧
      image.length ≤ buffer.frameBytes ∧
        buffer.frameBytes ≤ image.length + areaSize
          (schema.columns.zipIdx.map (unusedReserve schema buffer.blockRows options)).sum ∧
          ∀ index column footprint pair, schema.columns[index]? = some column →
            buffer.footprints[index]? = some footprint →
              generateStatistics column buffer.blockRows index
                  (validityBits buffer.blockRows index) options.statistics
                  (schema.primaryColumnId = some column.id) = .ok (some pair) →
                shouldReserveStatistics schema column footprint options.statistics = true ∧
                  pair.length = 2 * statisticsWidth column.logicalType := by
  intro buffer
  have hdeclares : ∀ chunk ∈ chunks, chunk.Declares schema :=
    fun chunk hchunk ↦ (hchunks chunk hchunk).declares
  have hof : buffer.blockRows.Of schema := by
    intro chunk hchunk
    have hsame : buffer.chunks = chunks := (BlockBuffer.ofChunks_fields _ _ chunks).1
    exact hdeclares chunk (hsame ▸ hchunk)
  have hraw : EncodesRaw schema buffer.blockRows options :=
    ⟨hof, hasWidth_of_validateColumns (validateSchema_eq_ok.mp hschema).columns, hencoding, hcodec⟩
  obtain ⟨assembly, primary, hbuilt⟩ := buildDataFrame_eq_ok hbuild
  obtain ⟨hstreams, hpayload, hlength⟩ := hbuilt.length_image_eq hraw
  have hheaderLe := hbuilt.header_le
  have hpayloadLe := hbuilt.payload_le
  rw [statisticsStart, hstreams] at hheaderLe
  rw [hpayload] at hpayloadLe
  have hprice := @blockSizeWithStatistics_eq schema buffer.blockRows options buffer.footprints
    (zip_footprints hdeclares) hpayloadLe
    (((Nat.le_add_right _ _).trans hheaderLe).trans (by decide))
  rw [← frameBytes_ofChunks hne] at hprice
  change buffer.frameBytes = _ at hprice
  have hreserved : (schema.columns.zipIdx.map (reserveOf schema buffer.blockRows options)).sum =
      (schema.columns.zipIdx.map (pairBytes schema buffer.blockRows options)).sum +
        (schema.columns.zipIdx.map (unusedReserve schema buffer.blockRows options)).sum := by
    rw [← List.sum_map_add]
    refine congrArg List.sum (List.map_congr_left fun entry hentry ↦ ?_)
    exact reserveOf_eq_add hraw (List.mem_zipIdx_iff_getElem?.mp hentry)
  have harea := areaSize_add_le
    (schema.columns.zipIdx.map (pairBytes schema buffer.blockRows options)).sum
    (schema.columns.zipIdx.map (unusedReserve schema buffer.blockRows options)).sum
  rw [hreserved] at hprice
  rw [hstreams, hpayload] at hlength
  refine ⟨fun hnone ↦ ?_, by omega, by omega,
    fun index column footprint pair hcolumn hfootprint hpair ↦ ?_⟩
  · have hzero : (schema.columns.zipIdx.map (reserveOf schema buffer.blockRows options)).sum =
      0 := by
      refine List.sum_eq_zero fun reserve hreserve ↦ ?_
      obtain ⟨entry, -, rfl⟩ := List.mem_map.mp hreserve
      rw [reserveOf_eq, if_neg]
      rw [shouldReserveStatistics_iff, hnone]
      rintro ⟨-, -, h | ⟨h, -⟩⟩
      · cases h
      · cases h
    have hpairs : (schema.columns.zipIdx.map (pairBytes schema buffer.blockRows options)).sum =
      0 := by
      omega
    have hunused : (schema.columns.zipIdx.map
        (unusedReserve schema buffer.blockRows options)).sum = 0 := by omega
    rw [hpairs, hunused, Nat.add_zero] at hprice
    rw [hpairs] at hlength
    omega
  · rw [BlockBuffer.footprints_ofChunks options.statistics hdeclares hcolumn] at hfootprint
    cases hfootprint
    exact reserved_of_generateStatistics (hof.types hcolumn) hpair

/-- A block of one number is as long as it is priced. -/
theorem frameBytes_eq_length_oneNumber :
    ∃ image, buildDataFrameWithStatistics storingZstd numberSchema
        (BlockBuffer.ofChunks numberSchema .none [oneNumber]).blockRows {} 0 1 = .ok image ∧
      (BlockBuffer.ofChunks numberSchema .none [oneNumber]).frameBytes = image.length := by
  obtain ⟨image, himage⟩ : ∃ image, buildDataFrameWithStatistics storingZstd numberSchema
      (BlockBuffer.ofChunks numberSchema .none [oneNumber]).blockRows {} 0 1 = .ok image :=
    exists_eq_ok (by decide +kernel)
  have hchecked : oneNumber.Checked numberSchema :=
    @Writer.checked_of_checkBatch (.fromAppendSession { stored := [], replies := fun _ ↦ .done }
      numberSchema {} (.new 0) (by decide)) _ rfl
  have hschema : validateSchema numberSchema = .ok () := by decide
  have hsizes := @frameBytes_eq_length storingZstd numberSchema {} [oneNumber] 0 1 image hschema
    (List.cons_ne_nil _ _) (List.forall_mem_singleton.mpr hchecked) rfl rfl himage
  exact ⟨image, himage, hsizes.1 rfl⟩

end Sizing

end Write

end Acta
