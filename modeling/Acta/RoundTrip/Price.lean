import Acta.RoundTrip.Expense

/-!
# What reading a block back asks for

A writer bounds a block by the bytes of its raw encoding, a reader by the bytes it decodes.  What a
block asks of a reader is told from its rows and from the streams selected for its columns, before
the block is written (`BlockRows.decodePrice`): it is what decoding the stored block costs
(`Built.selectionCost_eq`).
-/

namespace Acta

open Machine Wire Candidates Write

/-! ### The price of a block -/

/-- The decoded bytes that a stored stream asks for: its bytes, those they decompress to, and the
elements they are unpacked into. -/
def StoredStream.decodePrice (stream : StoredStream) (codec : WriterCodec)
    (logicalType : LogicalType) : ℕ :=
  (if codec = .none then stream.stored.length
    else stream.stored.length + stream.transformedLength) +
    logicalType.kindCost stream.kind stream.transform stream.elementCount stream.transformedLength

/-- The decoded bytes that the streams selected for a column ask for: what each stream asks for, the
validity of a column without values, a copy of the longest value for every value that a constant, a
dictionary or runs stand for, and a place in its row for every value. -/
def SelectedColumn.decodePrice (selected : SelectedColumn) (codec : WriterCodec) (column : Column)
    (values : List (Option ScalarValue)) : ℕ :=
  let rows := rowsAt column.logicalType values
  (selected.streams.map (·.decodePrice codec column.logicalType)).sum +
    (if rows.bits.count true = 0 then rows.length else 0) +
      expansionCost column.logicalType selected.layout rows.dense + placementCost column rows

/-- The decoded bytes that the rows of a block ask for under the streams that the options select. -/
def BlockRows.decodePrice (zstd : Zstd) (schema : Schema) (options : WriterOptions)
    (rows : BlockRows) : ℕ :=
  (schema.columns.zipIdx.map fun (column, index) ↦
      match selectColumn zstd column rows index (validityBits rows index) options with
      | .ok selected => selected.decodePrice options.codec column (rows.logical index)
      | .error _ => 0).sum +
    if (primaryIndex schema).isSome then rows.rowCount * 8 else 0

namespace Write

variable {zstd : Zstd} {schema : Schema} {rows : BlockRows} {options : WriterOptions}
  {baseRowId sequence : ℕ} {assembly : BlockAssembly} {primary : ℤ × ℤ × Bool} {image : Bytes}

/-- A stream that is laid out costs what it is priced at. -/
theorem LaidOut.decodeCost_eq {payload : Bytes} {pending : StoredStream} {stream : EncodedStream}
    (h : LaidOut payload pending stream) (codec : WriterCodec) (logicalType : LogicalType) :
    (encodedDescriptor codec stream).decodeCost logicalType =
      pending.decodePrice codec logicalType := by
  have hcodec : codecId codec = codecNone ↔ codec = .none := by cases codec <;> decide
  show (if codecId codec = codecNone then stream.storedLength
      else stream.storedLength + stream.transformedLength) +
    logicalType.kindCost stream.kind stream.transform stream.elementCount
      stream.transformedLength = _
  rw [StoredStream.decodePrice, h.kind, h.transform, h.elementCount, h.storedLength,
    h.transformedLength]
  simp only [hcodec]

section Built

variable (h : Built zstd schema rows options baseRowId sequence assembly primary image)
  (hvalid : SchemaValid schema)
include h hvalid

/-- **A column of a stored block costs what it is priced at.** -/
theorem Built.costAt_eq {column : Column} {index : ℕ}
    (hcolumn : schema.columns[index]? = some column) :
    ∃ selected, selectColumn zstd column rows index (validityBits rows index) options =
        .ok selected ∧
      (builtLayout schema rows options baseRowId assembly primary).costAt schema rows index =
        selected.decodePrice options.codec column (rows.logical index) := by
  obtain ⟨record, hrecord, hfind⟩ := h.exists_record hvalid hcolumn
  obtain ⟨selected, hencoded⟩ := hrecord.encoded
  refine ⟨selected, hencoded.selects, ?_⟩
  have hstreams : record.1.streams.map
      (fun stream ↦ (encodedDescriptor options.codec stream).decodeCost column.logicalType) =
        selected.streams.map (·.decodePrice options.codec column.logicalType) := by
    have hlaid := hencoded.streams.imp fun _ _ hlaid ↦
      (hlaid.decodeCost_eq options.codec column.logicalType).symm
    rw [← List.forall₂_eq_eq_eq, List.forall₂_map_left_iff, List.forall₂_map_right_iff]
    exact (hlaid.flip).imp fun _ _ heq ↦ heq.symm
  rw [BlockLayout.costAt, hcolumn, Option.map_some, Option.getD_some, BlockLayout.columnCost, hfind]
  show columnCost column (rows.logical index) (entryDescriptor record).layout
    (slice _ record.1.firstStream record.1.streams.length) = _
  rw [hrecord.slice_streams, columnCost, List.map_map]
  show (record.1.streams.map fun stream ↦
    (encodedDescriptor options.codec stream).decodeCost column.logicalType).sum + _ + _ + _ = _
  rw [hstreams, show (entryDescriptor record).layout = selected.layout from hencoded.layout]
  rfl

/-- **A stored block costs what it is priced at.** -/
theorem Built.selectionCost_eq :
    (builtLayout schema rows options baseRowId assembly primary).selectionCost schema rows
      (Selection.all schema (List.range schema.columns.length)) =
        rows.decodePrice zstd schema options := by
  rw [BlockLayout.selectionCost, Selection.cost, Selection.positions_all, List.map_map,
    BlockRows.decodePrice]
  refine congrArg (· + _) (congrArg List.sum (List.map_congr_left fun entry hentry ↦ ?_))
  obtain ⟨selected, hselected, hcost⟩ := h.costAt_eq hvalid (List.mem_zipIdx_iff_getElem?.mp hentry)
  dsimp only
  rw [Function.comp_apply, hcost, hselected]

end Built

end Write

end Acta
