import Acta.RoundTrip.Inventory
import Mathlib.Algebra.BigOperators.Ring.List

/-!
# What a stored block can cost

Decoding multiplies what a block declares: every row of a dictionary, a run or a constant may become
a copy of the longest value.  Yet the byte strings that a block stores have room in one payload, so
no block that a writer stores costs more to decode than a 64-bit allowance grants
(`Built.selectionCost_le`).
-/

namespace Acta

open Machine Wire Candidates Write

/-- More than unpacking one stream of a stored block asks for. -/
def streamShare : ℕ := 2 ^ 35

/-- More than decoding one column of a stored block asks for, apart from copying its longest
value. -/
def columnShare : ℕ := 2 ^ 38

/-! ### Streams -/

section Unpacking

variable {logicalType : LogicalType}

/-- What a stream asks for beyond its own kind is what unpacking its elements as values asks for. -/
theorem kindCost_le (logicalType : LogicalType) (kind transform count length : ℕ) :
    logicalType.kindCost kind transform count length ≤
      count * 16 + logicalType.unpackCost transform count length := by
  rw [LogicalType.kindCost]
  split
  · omega
  split
  · omega
  split
  · omega
  split
  · omega
  · exact Nat.le_add_left _ _

theorem splitCost_le (transform size : ℕ) : splitCost transform size ≤ size := by
  rw [splitCost]
  split
  · exact Nat.zero_le _
  · exact le_rfl

/-- **Unpacking values** asks for a few times their bytes, and a little for each of them. -/
theorem unpackCost_le {values : List logicalType.storedType.Value}
    (hfit : BlockDecoder.FitBlock logicalType values) (transform length : ℕ) :
    logicalType.unpackCost transform values.length length ≤
      2 * keyBytes logicalType values + length + values.length * 32 := by
  cases logicalType with
  | bool | date32 | decimal _ _ | timestamp _ _ | utf8 | categorical _ | binary =>
    simp only [LogicalType.unpackCost]
    omega
  | integer type =>
    have hwidth : values.length * type.width ≤ values.length * 8 :=
      Nat.mul_le_mul_left _ type.width_le_eight
    simp only [LogicalType.unpackCost]
    omega
  | float32 =>
    have hsplit := splitCost_le transform (values.length * 4)
    simp only [LogicalType.unpackCost]
    omega
  | float64 =>
    have hsplit := splitCost_le transform (values.length * 8)
    simp only [LogicalType.unpackCost]
    omega
  | fixedBinary byteWidth =>
    have hsplit := splitCost_le transform (values.length * byteWidth.toNat)
    have hkeys : keyBytes (.fixedBinary byteWidth) values = values.length * byteWidth.toNat :=
      length_flatMap_of_forall fun value hvalue ↦ hfit.keys value hvalue
    simp only [LogicalType.unpackCost, hkeys, Nat.mul_add]
    omega

end Unpacking

/-- A stream that does not ask for more than its share to be unpacked. -/
def Affordable (logicalType : LogicalType) (candidate : CandidateStream) : Prop :=
  logicalType.kindCost candidate.kind candidate.transform candidate.elementCount
    candidate.bytes.length ≤ streamShare

section Affordable

variable {logicalType : LogicalType} {values : List logicalType.storedType.Value}
  {candidates : List CandidateStream} {candidate : CandidateStream}

/-- Streams that hold values are affordable. -/
theorem Held.affordable {valuesKind lengthsKind : ℕ}
    (h : Held logicalType valuesKind lengthsKind values candidates candidate)
    (hfit : BlockDecoder.FitBlock logicalType values)
    (hkeys : keyBytes logicalType values ≤ defaultMaxFramePayloadLength) :
    ∀ stream ∈ candidates, Affordable logicalType stream := by
  obtain ⟨-, hlength⟩ := h.represents.describes hfit.rows hkeys
  have hrows := hfit.rows
  rw [h.streams, lengthsBeside]
  refine List.forall_mem_cons.mpr ⟨?_, ?_⟩
  · have hunpack := unpackCost_le hfit candidate.transform candidate.bytes.length
    have hkind := kindCost_le logicalType candidate.kind candidate.transform values.length
      candidate.bytes.length
    rw [Affordable, h.elementCount]
    simp only [streamShare, defaultMaxFramePayloadLength, defaultMaxRowsPerBlock] at *
    omega
  split
  case isTrue hvariable =>
    refine List.forall_mem_singleton.mpr ?_
    have hbytes : (lengthBytes ((keysOf logicalType values).map List.length)).length =
        values.length * 4 := by
      rw [length_lengthBytes, List.length_map, length_keysOf]
    have hunpack := unpackCost_le hfit transformRaw (values.length * 4)
    have hkind := kindCost_le logicalType lengthsKind transformRaw values.length (values.length * 4)
    rw [Affordable]
    simp only [hbytes]
    simp only [streamShare, defaultMaxFramePayloadLength, defaultMaxRowsPerBlock] at *
    omega
  case isFalse hfixed => simp

/-- Packed numbers are affordable. -/
theorem affordable_packed {kind width : ℕ} {numbers : List ℕ}
    (hkind : kind = streamKindIndices ∨ kind = streamKindRunLengths)
    (hcount : numbers.length ≤ defaultMaxRowsPerBlock) :
    Affordable logicalType (packedBeside kind width numbers) := by
  have hcost : logicalType.kindCost kind transformBitPacked numbers.length
      (packedBeside kind width numbers).bytes.length ≤ numbers.length * 16 := by
    rcases hkind with rfl | rfl
    · exact Nat.mul_le_mul_left _ (by decide)
    · exact le_rfl
  refine hcost.trans ?_
  simp only [streamShare, defaultMaxRowsPerBlock] at hcount ⊢
  omega

/-- **The streams of a layout are affordable.** -/
theorem Stands.affordable {layout : ℕ} (h : Stands logicalType values layout candidates)
    (hne : values ≠ []) (hfit : BlockDecoder.FitBlock logicalType values)
    (hkeys : keyBytes logicalType values ≤ defaultMaxFramePayloadLength) :
    ∀ stream ∈ candidates, Affordable logicalType stream := by
  have hchosen {chosen : List logicalType.storedType.Value}
      (hused : ∀ value ∈ chosen, value ∈ values)
      (hcount : chosen.length ≤ defaultMaxRowsPerBlock) :
      BlockDecoder.FitBlock logicalType chosen :=
    ⟨hfit.hasWidth, hcount, fun value hvalue ↦ hfit.keys value (hused value hvalue)⟩
  cases h with
  | plain held => exact held.affordable hfit hkeys
  | @constant _ _ value same held =>
    have hmem : value ∈ values := by
      rw [same]
      exact List.mem_replicate.mpr ⟨fun hzero ↦ hne (List.length_eq_zero_iff.mp hzero), rfl⟩
    have hone : [value].Sublist values := List.singleton_sublist.mpr hmem
    exact held.affordable (hchosen (fun _ ↦ (hone.subset ·)) (hone.length_le.trans hfit.rows))
      ((keyBytes_le_of_sublist hone).trans hkeys)
  | @dictionary _ _ chosen indices width lookups used length_le bytes_le packs held =>
    have hindices : indices.length = values.length := by
      simpa using congrArg List.length lookups
    refine List.forall_mem_append.mpr ⟨held.affordable
      (hchosen used (length_le.trans (by decide))) (bytes_le.trans (by decide)),
      List.forall_mem_singleton.mpr ?_⟩
    exact affordable_packed (.inl rfl) (hindices.trans_le hfit.rows)
  | @runLength _ _ chosen lengths width expands positive length_eq packs held =>
    have hsublist := sublist_expand_zip length_eq positive
    rw [expands] at hsublist
    have hruns : lengths.length ≤ values.length := length_eq ▸ hsublist.length_le
    refine List.forall_mem_append.mpr ⟨held.affordable
      (hchosen (fun _ ↦ (hsublist.subset ·)) (hsublist.length_le.trans hfit.rows))
      ((keyBytes_le_of_sublist hsublist).trans hkeys), List.forall_mem_singleton.mpr ?_⟩
    exact affordable_packed (.inr rfl) (hruns.trans hfit.rows)

end Affordable

/-! ### Columns -/

/-- Copying a value asks for no more than the bytes of all the byte strings, and a handle. -/
theorem copyCost_le_strings {logicalType : LogicalType}
    (values : List logicalType.storedType.Value) :
    logicalType.copyCost values ≤ Read.valueHandleBytes +
      if logicalType.storedType = .bytes then keyBytes logicalType values else 0 := by
  have hlongest (strings : List Bytes) :
      saturatingAdd ((strings.map List.length).foldl max 0) Read.valueHandleBytes ≤
        Read.valueHandleBytes + (strings.flatMap fun string ↦ string).length := by
    have hmax : (strings.map List.length).foldl max 0 ≤
        (strings.flatMap fun string ↦ string).length := by
      rw [List.length_flatMap]
      exact Runs.foldl_max_le (Nat.zero_le _) fun length hlength ↦ List.le_sum_of_mem hlength
    rw [saturatingAdd]
    omega
  cases logicalType with
  | utf8 | categorical _ | binary | fixedBinary _ => exact hlongest values
  | _ => exact (slotBytes_le ⟨_, values⟩).trans (Nat.le_add_right _ _)

namespace Write

variable {zstd : Zstd} {schema : Schema} {rows : BlockRows} {options : WriterOptions}
  {baseRowId sequence : ℕ} {assembly : BlockAssembly} {primary : ℤ × ℤ × Bool} {image : Bytes}

section Held

variable {entry : Column × ℕ} {selected : SelectedColumn} {typed : entry.1.logicalType.Rows}
  {validity candidates : List CandidateStream}
  (hheld : ColumnHeld zstd options rows entry selected typed validity candidates)
include hheld

/-- A column has no more streams than its layout has kinds. -/
theorem ColumnHeld.length_streams_le : (validity ++ candidates).length ≤ 4 := by
  obtain ⟨hdistinct, hkinds⟩ := hheld.kinds
  have hnodup : ((validity ++ candidates).map (·.kind)).Nodup := by
    rw [List.map_append]
    exact (hheld.selects.holdsValidity.kinds.append_right _).nodup hdistinct
  have hfour : (Read.allowedKinds selected.layout).length ≤ 4 := by
    unfold Read.allowedKinds
    split
    · decide
    split
    · decide
    split <;> decide
  rw [← List.length_map (f := fun candidate : CandidateStream ↦ candidate.kind)]
  exact (hnodup.subperm hkinds).length_le.trans hfour

/-- **Every stream of a column is affordable.** -/
theorem ColumnHeld.affordable
    (hkeys : keyBytes entry.1.logicalType typed.dense ≤ defaultMaxFramePayloadLength) :
    ∀ stream ∈ validity ++ candidates, Affordable entry.1.logicalType stream := by
  have hrows := hheld.rows_le
  refine List.forall_mem_append.mpr ⟨fun stream hstream ↦ ?_, ?_⟩
  · have hcount := (hheld.describable stream (List.mem_append_left _ hstream)).elementCount
    have hkind : stream.kind = streamKindValidity := List.mem_singleton.mp
      (hheld.selects.holdsValidity.kinds.subset (List.mem_map_of_mem hstream))
    rw [Affordable, hkind, LogicalType.kindCost, if_pos rfl]
    simp only [streamShare, defaultMaxRowsPerBlock] at hcount ⊢
    omega
  · rcases eq_or_ne typed.dense [] with hnil | hne
    · rw [(hheld.selects.absent hnil).1]
      exact fun _ hmem ↦ absurd hmem List.not_mem_nil
    · exact (hheld.selects.stands hne).affordable hne hheld.selects.fits hkeys

end Held

/-- **What the streams of a column ask for.** -/
theorem EncodedAs.sum_decodeCost_le {entry : Column × ℕ} {column : EncodedColumn}
    {selected : SelectedColumn}
    (h : EncodedAs zstd schema rows options assembly.payload entry column selected)
    (hpayload : assembly.payload.length ≤ defaultMaxFramePayloadLength)
    {typed : entry.1.logicalType.Rows} {validity candidates : List CandidateStream}
    (hheld : ColumnHeld zstd options rows entry selected typed validity candidates)
    (hkeys : keyBytes entry.1.logicalType typed.dense ≤ defaultMaxFramePayloadLength) :
    ((column.streams.map (encodedDescriptor options.codec)).map
      (·.decodeCost entry.1.logicalType)).sum ≤
        4 * (2 * defaultMaxFramePayloadLength + streamShare) := by
  have hentries := h.streamEntries hheld
  have hlength : column.streams.length ≤ 4 := hentries.length_eq ▸ hheld.length_streams_le
  rw [List.map_map]
  refine (List.sum_le_card_nsmul _ (2 * defaultMaxFramePayloadLength + streamShare)
    fun cost hcost ↦ ?_).trans ?_
  · obtain ⟨stream, hstream, rfl⟩ := List.mem_map.mp hcost
    obtain ⟨candidate, hcandidate, stored, hentry⟩ := Related.exists_left hentries hstream
    have hshare := hheld.affordable hkeys candidate hcandidate
    have hdescribed := hentry.describable.length
    obtain ⟨hkind, htransform, hcount, htransformed, -⟩ := storeStream_eq_ok hentry.stores
    have hlaid := hentry.laidOut
    have hstored := hlaid.held.fits
    have hread : (encodedDescriptor options.codec stream).readCost ≤
        stream.storedLength + stream.transformedLength := by
      rw [StreamDescriptor.readCost]
      split
      · exact Nat.le_add_right _ _
      · exact le_rfl
    have hunpack : entry.1.logicalType.kindCost stream.kind stream.transform stream.elementCount
        stream.transformedLength ≤ streamShare := by
      rw [hlaid.kind, hlaid.transform, hlaid.elementCount, hlaid.transformedLength, hkind,
        htransform, hcount, htransformed]
      exact hshare
    show (encodedDescriptor options.codec stream).readCost + entry.1.logicalType.kindCost
      stream.kind stream.transform stream.elementCount stream.transformedLength ≤ _
    rw [hlaid.storedLength, hlaid.transformedLength, htransformed] at hread
    omega
  · rw [List.length_map, smul_eq_mul]
    exact Nat.mul_le_mul_right _ hlength

/-- A block is decoded column by column, in schema order. -/
theorem Selection.positions_all (schema : Schema) :
    (Selection.all schema (List.range schema.columns.length)).positions =
      schema.columns.zipIdx.map Prod.snd := by
  have hnone : ((primaryIndex schema).filter fun index ↦
      index ∉ List.range schema.columns.length) = none := by
    refine Option.filter_eq_none_iff.mpr fun index hindex ↦ ?_
    obtain ⟨_, _, -, hcolumn, -⟩ := getElem?_primaryIndex hindex
    simpa using (List.getElem?_eq_some_iff.mp hcolumn).1
  show List.range schema.columns.length ++ ((primaryIndex schema).filter fun index ↦
    index ∉ List.range schema.columns.length).toList = _
  rw [hnone, List.zipIdx_map_snd, ← List.range_eq_range', Option.toList_none, List.append_nil]

section Built

variable (h : Built zstd schema rows options baseRowId sequence assembly primary image)
  (hencodes : Encodes schema rows options)
include h hencodes

/-- **What a column of a stored block asks for**: its share, and a copy of its byte strings for each
of the rows. -/
theorem Built.columnCost_le {entry : Column × ℕ} (hentry : entry ∈ schema.columns.zipIdx) :
    (builtLayout schema rows options baseRowId assembly primary).costAt schema rows entry.2 ≤
      columnShare + defaultMaxRowsPerBlock * stringBytes rows entry := by
  obtain ⟨column, index⟩ := entry
  have hcolumn : schema.columns[index]? = some column := List.mem_zipIdx_iff_getElem?.mp hentry
  obtain ⟨record, hrecord, hfind⟩ := h.exists_record hencodes.valid hcolumn
  obtain ⟨selected, typed, validity, candidates, hencoded, hheld⟩ :=
    hrecord.exists_held hencodes hcolumn
  have htyped : rowsAt column.logicalType (rows.logical index) = typed := by
    rw [← hheld.scalars]
    exact rowsAt_scalars typed
  have hkeys := columnBytes_eq hheld.scalars
  have hbytes := hencodes.bytes_le index (List.getElem?_eq_some_iff.mp hcolumn).1
  have hstreams := hencoded.sum_decodeCost_le h.payload_le hheld (hkeys ▸ hbytes)
  have hrows := hheld.rows_le
  have hdense : typed.dense.length ≤ defaultMaxRowsPerBlock := hheld.selects.fits.rows
  have hplacement :
      placementCost column typed ≤ defaultMaxRowsPerBlock * Read.valueHandleBytes := by
    rw [placementCost]
    split
    · exact Nat.zero_le _
    · exact Nat.mul_le_mul hrows (slotBytes_le _)
  have hexpansion : expansionCost column.logicalType (entryDescriptor record).layout typed.dense ≤
      defaultMaxRowsPerBlock * (Read.valueHandleBytes + stringBytes rows (column, index)) := by
    rw [expansionCost]
    split
    · exact Nat.zero_le _
    · refine Nat.mul_le_mul hdense ((copyCost_le_strings _).trans_eq ?_)
      rw [stringBytes, hkeys]
  have hnone : (if typed.bits.count true = 0 then typed.length else 0) ≤
      defaultMaxRowsPerBlock := by
    split
    · exact hrows
    · exact Nat.zero_le _
  rw [BlockLayout.costAt, hcolumn, Option.map_some, Option.getD_some, BlockLayout.columnCost, hfind]
  show Acta.columnCost column (rows.logical index) (entryDescriptor record).layout
    (slice _ record.1.firstStream record.1.streams.length) ≤ _
  rw [hrecord.slice_streams, Acta.columnCost, htyped]
  simp only [columnShare, streamShare, defaultMaxFramePayloadLength, defaultMaxRowsPerBlock,
    Read.valueHandleBytes, Nat.mul_add] at *
  omega

/-- **No stored block costs more to decode than a 64-bit allowance grants.** -/
theorem Built.selectionCost_le :
    (builtLayout schema rows options baseRowId assembly primary).selectionCost schema rows
      (Selection.all schema (List.range schema.columns.length)) ≤ u64Max := by
  have hcolumns : (schema.columns.zipIdx.map fun entry ↦
      (builtLayout schema rows options baseRowId assembly primary).costAt schema rows entry.2).sum ≤
        (schema.columns.zipIdx.map fun entry ↦
          columnShare + defaultMaxRowsPerBlock * stringBytes rows entry).sum :=
    List.sum_le_sum fun entry hentry ↦ h.columnCost_le hencodes hentry
  have hcount := hencodes.valid.columns_le
  have hstrings := hencodes.strings_le
  have hrows := hencodes.rows_le
  rw [List.sum_map_add, List.map_const', List.sum_replicate, List.length_zipIdx, smul_eq_mul,
    List.sum_map_mul_left] at hcolumns
  have hprimary : (if (Selection.all schema (List.range schema.columns.length)).primary.isSome then
      rows.rowCount * 8 else 0) ≤ rows.rowCount * 8 := by
    split
    · exact le_rfl
    · exact Nat.zero_le _
  rw [BlockLayout.selectionCost, Selection.cost, Selection.positions_all, List.map_map]
  refine (Nat.add_le_add hcolumns hprimary).trans ?_
  have hlimit : Limits.default.maxSchemaColumns = defaultMaxSchemaColumns := rfl
  simp only [columnShare, defaultMaxFramePayloadLength, defaultMaxRowsPerBlock,
    defaultMaxSchemaColumns, u64Max] at *
  omega

end Built

end Write

end Acta
