import Acta.Read.Filter
import Acta.Read.Selection
import Acta.Read.Snapshot

/-!
# A scan agrees with a plain read

A scan reads some columns of a block and keeps some of its rows, along paths that a plain read does
not take: it skips blocks by their stored bounds, it defers the checks of columns it does not read,
it decodes less, and it filters by binary search where the block claims to be sorted.

`ScanPlan.rowsOf` says which rows a plan asks for, and `ScanPlan.Answers` what a block that holds
those rows contributes.  The turn of a scan gives what its block contributes, unless the accounting
of the scan refuses it (`ScanProgress.takeBlock_cases`), and wherever the plain read of the block
succeeds this answers the plan (`Reader.Reads.contribution`).
-/

namespace Acta

open Machine Wire

/-! ### What a plan asks for -/

/-- The primary value of a row. -/
def Schema.primaryOf (schema : Schema) (row : List (Option ScalarValue)) : Option ℤ :=
  (primaryIndex schema).bind fun index ↦
    (row[index]?).bind fun value ↦ (BlockDecoder.primaryValue value).toOption

namespace ScanPlan

/-- Whether a plan asks for a row. -/
def keeps (plan : ScanPlan) (schema : Schema) (row : List (Option ScalarValue)) : Bool :=
  plan.range.all fun range ↦ (schema.primaryOf row).any range.covers

/-- What a plan asks for of a row. -/
def cells (plan : ScanPlan) (row : List (Option ScalarValue)) : List (Option ScalarValue) :=
  plan.projection.filterMap (row[·]?)

/-- What a plan asks for of rows, in their order. -/
def rowsOf (plan : ScanPlan) (schema : Schema) (rows : List (List (Option ScalarValue))) :
    List (List (Option ScalarValue)) :=
  (rows.filter (plan.keeps schema)).map plan.cells

theorem rowsOf_append {plan : ScanPlan} {schema : Schema}
    (first rest : List (List (Option ScalarValue))) :
    plan.rowsOf schema (first ++ rest) = plan.rowsOf schema first ++ plan.rowsOf schema rest := by
  rw [rowsOf, List.filter_append, List.map_append, rowsOf, rowsOf]

/-- **What a block contributes**: the rows that the plan asks for, under its schema, and no batch
where there are none. -/
structure Answers (plan : ScanPlan) (schema : Schema) (rows : List (List (Option ScalarValue)))
    (answer : Option RecordBatch) : Prop where
  schema_eq : ∀ batch ∈ answer, batch.schema = plan.outputSchema
  rows_eq : ∀ batch ∈ answer, batch.rows = plan.rowsOf schema rows
  isSome_iff : answer.isSome = true ↔ plan.rowsOf schema rows ≠ []

/-- A plan that a scan or a tail can be given. -/
inductive Configured (schema : Schema) : ScanPlan → Prop
  | new : Configured schema (ScanPlan.new schema)
  | project {plan next : ScanPlan} {columns : List String} (h : Configured schema plan)
      (hnext : plan.project schema columns = .ok next) : Configured schema next
  | primaryRange {plan next : ScanPlan} {range : PrimaryRange} (h : Configured schema plan)
      (hnext : plan.primaryRange schema range = .ok next) : Configured schema next

/-- The invariant of a configured plan. -/
structure Of (schema : Schema) (plan : ScanPlan) : Prop where
  nodup : plan.projection.Nodup
  inside : ∀ index ∈ plan.projection, index < schema.columns.length
  output : plan.outputSchema = projectedSchema schema plan.projection
  range_le : ∀ range ∈ plan.range, range.bounds.1 ≤ range.bounds.2
  primary : plan.range.isSome = true → ∃ index, primaryIndex schema = some index

/-- The positions of named columns are positions of the schema, each chosen once. -/
theorem positions_eq_ok {schema : Schema} {names : List String} {chosen projection : List ℕ}
    (h : positions schema chosen names = .ok projection) (hnodup : chosen.Nodup)
    (hinside : ∀ index ∈ chosen, index < schema.columns.length) :
    projection.Nodup ∧ ∀ index ∈ projection, index < schema.columns.length := by
  induction names generalizing chosen with
  | nil =>
    cases h
    exact ⟨hnodup, hinside⟩
  | cons name names ih =>
    obtain ⟨index, hfind, h⟩ := bind_eq_ok.mp h
    obtain ⟨_, hfresh, h⟩ := bind_eq_ok.mp h
    obtain ⟨hindex, -⟩ := List.findIdx?_eq_some_iff_getElem.mp (okOr_eq_ok.mp hfind)
    refine ih h (List.nodup_append.mpr ⟨hnodup, List.nodup_singleton _, ?_⟩) fun other hother ↦ ?_
    · intro a ha b hb hsame
      obtain rfl := List.mem_singleton.mp hb
      exact failIf_eq_ok.mp hfresh (hsame ▸ ha)
    · rcases List.mem_append.mp hother with hother | hother
      · exact hinside other hother
      · exact List.mem_singleton.mp hother ▸ hindex

/-- A primary column stands somewhere among the columns. -/
theorem exists_primaryIndex {schema : Schema} {column : Column}
    (h : schema.primaryColumn = some column) : ∃ index, primaryIndex schema = some index := by
  rw [Schema.primaryColumn, Option.bind_eq_some_iff] at h
  obtain ⟨id, hid, hfind⟩ := h
  rw [Schema.columnById] at hfind
  rw [primaryIndex, hid, Option.bind_some, ← Option.isSome_iff_exists, List.findIdx?_isSome]
  have hsame := List.find?_some hfind
  exact List.any_eq_true.mpr ⟨column, List.mem_of_find?_eq_some hfind, hsame⟩

/-- **Every plan that is configured reads columns of the schema, each once**, over a range that does
not end before it starts. -/
theorem Configured.of {schema : Schema} {plan : ScanPlan} (h : Configured schema plan) :
    plan.Of schema := by
  induction h with
  | new =>
    exact ⟨List.nodup_range, fun _ hindex ↦ List.mem_range.mp hindex, rfl,
      fun _ hrange ↦ (nomatch hrange), fun hrange ↦ (nomatch hrange)⟩
  | project h hnext ih =>
    obtain ⟨projection, hpositions, hdone⟩ := bind_eq_ok.mp hnext
    cases hdone
    obtain ⟨hnodup, hinside⟩ := positions_eq_ok hpositions List.nodup_nil
      fun _ hindex ↦ absurd hindex List.not_mem_nil
    exact ⟨hnodup, hinside, rfl, ih.range_le, ih.primary⟩
  | primaryRange h hnext ih =>
    obtain ⟨_, hle, hnext⟩ := bind_eq_ok.mp hnext
    obtain ⟨column, hcolumn, hnext⟩ := bind_eq_ok.mp hnext
    obtain ⟨_, -, hdone⟩ := bind_eq_ok.mp hnext
    cases hdone
    refine ⟨ih.nodup, ih.inside, ih.output, fun range hrange ↦ ?_,
      fun _ ↦ exists_primaryIndex (okOr_eq_ok.mp hcolumn)⟩
    cases hrange
    exact Int.not_lt.mp (failIf_eq_ok.mp hle)

/-- What a configured plan decodes is a selection of the schema. -/
theorem Of.selection {schema : Schema} {plan : ScanPlan} (h : plan.Of schema) :
    (plan.selection schema).Of schema where
  source := rfl
  nodup := h.nodup
  inside := h.inside
  primary _ hindex := (Option.filter_eq_some_iff.mp hindex).1
  output := by
    show plan.outputSchema.columns = _
    rw [h.output]
    rfl

end ScanPlan

/-! ### One block, decoded twice -/

/-- Decoding a selection asks for no more than decoding every column. -/
theorem Selection.Of.cost_le {schema : Schema} {selection : Selection} (h : selection.Of schema)
    (costAt : ℕ → ℕ) (rowCount : ℕ) :
    selection.cost costAt rowCount ≤
      (Selection.all schema (List.range schema.columns.length)).cost costAt rowCount := by
  have hnodup : selection.positions.Nodup := by
    refine List.nodup_append.mpr ⟨h.nodup, ?_, fun index hindex other hother hsame ↦ ?_⟩
    · cases selection.primary.filter fun index ↦ index ∉ selection.selected with
      | none => exact List.nodup_nil
      | some index => exact List.nodup_singleton _
    · have hinternal := (Option.mem_filter_iff.mp (Option.mem_toList.mp hother)).2
      exact of_decide_eq_true hinternal (hsame ▸ hindex)
  have hinside : selection.positions ⊆ List.range schema.columns.length := by
    intro index hindex
    refine List.mem_range.mpr ?_
    rcases List.mem_append.mp hindex with hmem | hmem
    · exact h.inside index hmem
    · obtain ⟨hprimary, -⟩ := Option.mem_filter_iff.mp (Option.mem_toList.mp hmem)
      obtain ⟨_, _, -, hcolumn, -⟩ := getElem?_primaryIndex (h.primary index hprimary)
      exact (List.getElem?_eq_some_iff.mp hcolumn).1
  have hcolumns : (selection.positions.map costAt).sum ≤
      ((List.range schema.columns.length).map costAt).sum := by
    obtain ⟨chosen, hperm, hsub⟩ := hnodup.subperm hinside
    rw [← (hperm.map costAt).sum_eq]
    exact (hsub.map costAt).sum_le_sum fun _ _ ↦ Nat.zero_le _
  have hprimary : (if selection.primary.isSome then rowCount * 8 else 0) ≤
      if (primaryIndex schema).isSome then rowCount * 8 else 0 := by
    cases hcase : selection.primary with
    | none => exact Nat.zero_le _
    | some index => rw [h.primary index hcase]
  have hall : ((List.range schema.columns.length).map costAt).sum ≤
      ((Selection.all schema (List.range schema.columns.length)).positions.map costAt).sum := by
    rw [Selection.positions, List.map_append, List.sum_append]
    exact Nat.le_add_right _ _
  exact Nat.add_le_add (hcolumns.trans hall) hprimary

/-- **A header that a full read accepts is the header that any projection reads.** -/
theorem DataFrame.readBlockLayout_some {file : Bytes} {frame : FrameMetadata} {schema : Schema}
    {featureFlags : ℕ} {expected : Option ℕ} {limits : Limits} {layout : BlockLayout}
    (h : readBlockLayout file frame schema featureFlags expected limits none = .ok layout)
    (selected : List UInt32) :
    readBlockLayout file frame schema featureFlags expected limits (some selected) =
      .ok layout := by
  obtain ⟨header, hheader, hlayout⟩ := bind_eq_ok.mp h
  refine bind_eq_ok.mpr ⟨header, hheader, ?_⟩
  have hdeferred := parseLayout_deferred hlayout
  have hall := (parseLayout_of_deferred hdeferred).1.mp hlayout
  exact (parseLayout_of_deferred hdeferred).1.mpr fun index stream hstream _ ↦
    hall index stream hstream rfl

namespace Reader

variable {reader : Reader} {file : Bytes} {index : ℕ} {zstd : Zstd}

/-- The columns that a selection reads have IDs. -/
theorem exists_selectedColumnIds {selection : Selection} (h : selection.Of reader.schema) :
    ∃ ids, reader.selectedColumnIds selection = .ok ids := by
  cases hcase : reader.selectedColumnIds selection with
  | ok ids => exact ⟨ids, rfl⟩
  | error e =>
    rcases bind_eq_error.mp hcase with hcolumns | ⟨_, -, hdone⟩
    · obtain ⟨position, hposition, hmissing⟩ := exists_of_mapM_eq_error hcolumns
      have hinside : position < reader.schema.columns.length := by
        rcases List.mem_append.mp hposition with hmem | hmem
        · exact h.inside position hmem
        · obtain ⟨_, _, -, hcolumn, -⟩ :=
            getElem?_primaryIndex (h.primary position (Option.mem_toList.mp hmem))
          exact (List.getElem?_eq_some_iff.mp hcolumn).1
      rw [List.getElem?_eq_getElem hinside] at hmissing
      cases hmissing
    · cases hdone

/-- What a selection reads of the block at `index`, with no scan to account to. -/
def selectedBlock (reader : Reader) (zstd : Zstd) (file : Bytes) (index : ℕ)
    (selection : Selection) : Result DecodedBlock := do
  let frame ← reader.frameAt file index
  let layout ← reader.selectedLayout file index selection frame
  (Read.decodeSelectedBlock zstd file reader.fileMetadata.fileSize frame layout selection none
    reader.limits).1

/-- **The accounting of a scan refuses a read, or leaves it as it is.** -/
theorem decodeSelectedBlockAt_cases (reader : Reader) (zstd : Zstd) (file : Bytes) (index : ℕ)
    (selection : Selection) (scan : ScanBudget) :
    (∃ e, (reader.decodeSelectedBlockAt zstd file index selection scan).1 = .error e ∧
      Budget.IsRefusal e) ∨
      (reader.decodeSelectedBlockAt zstd file index selection scan).1 =
        reader.selectedBlock zstd file index selection := by
  rw [decodeSelectedBlockAt, selectedBlock]
  rcases reader.frameAt file index with e | frame
  · exact .inr rfl
  dsimp only
  rw [ok_bind]
  rcases haccount : (ScanBudget.recordBytesRead frame.totalLength).andThen
      (ScanBudget.recordBytesRead frame.headerLength) scan with ⟨e | u, charged⟩
  · refine .inl ⟨e, rfl, ?_⟩
    exact (ScanBudget.refuses_recordBytesRead _).andThen (ScanBudget.refuses_recordBytesRead _)
      scan e (by rw [haccount])
  rcases reader.selectedLayout file index selection frame with e | layout
  · exact .inr rfl
  dsimp only
  rw [ok_bind]
  rcases Budget.run_new_some (BlockDecoder.block ⟨zstd, file, reader.fileMetadata.fileSize, frame,
      layout, reader.limits⟩ selection) reader.limits.maxDecodedBlockBytes charged with
    ⟨e, he, hrefusal⟩ | hsame
  · refine .inl ⟨e.withContext (.frame frame.sequence), ?_, hrefusal.inFrame _⟩
    show (Budget.run _ _).1.withContext _ = _
    rw [he]
    rfl
  · exact .inr (congrArg (·.withContext (.frame frame.sequence)) hsame)

/-- What there is to read in a block: an array for each column, at a cost.  A plain read decodes all
of them and any selection those that it selects, each where the allowance of a block covers it. -/
structure Reads (reader : Reader) (zstd : Zstd) (file : Bytes) (index : ℕ) (batch : RecordBatch)
    (block : BlockMetadata) (metadata : DataFrameMetadata) (arrayAt : ℕ → Option LogicalArray)
    (costAt : ℕ → ℕ) : Prop where
  bounds : block.primaryBounds = metadata.primaryBounds
  rowCount_ne : metadata.rowCount ≠ 0
  array : ∀ position < reader.schema.columns.length, (arrayAt position).isSome = true
  full : ∃ decoded, decoded.batch = batch ∧
    DecodedAs arrayAt metadata
      (Selection.all reader.schema (List.range reader.schema.columns.length)) decoded
  plain : reader.decodeBlockAt zstd file index =
    if (Selection.all reader.schema (List.range reader.schema.columns.length)).cost costAt
        metadata.rowCount ≤ reader.limits.maxDecodedBlockBytes then .ok batch
    else .error (Budget.exceeded.withContext (.frame block.sequence))
  selected : ∀ selection : Selection, selection.Of reader.schema →
    ∃ decoded, DecodedAs arrayAt metadata selection decoded ∧
      reader.selectedBlock zstd file index selection =
        if selection.cost costAt metadata.rowCount ≤ reader.limits.maxDecodedBlockBytes
          then .ok decoded else .error (Budget.exceeded.withContext (.frame block.sequence))

/-- **A block whose columns are decoded is read**, plainly and by any selection. -/
theorem exists_reads_of_yields {block : BlockMetadata} {frame : FrameMetadata}
    {layout : BlockLayout} {arrayAt : ℕ → Option LogicalArray} {costAt : ℕ → ℕ}
    (hrecorded : reader.Recorded file index block frame layout.metadata)
    (hlayout : DataFrame.readLayout file frame reader.schema reader.fileMetadata.featureFlags
      (reader.expectedBaseRowId index) reader.limits = .ok layout)
    (hyields : BlockDecoder.Yields ⟨zstd, file, reader.fileMetadata.fileSize, frame, layout,
      reader.limits⟩ reader.schema arrayAt costAt) :
    ∃ batch, reader.Reads zstd file index batch block layout.metadata arrayAt costAt := by
  let decoder : BlockDecoder :=
    ⟨zstd, file, reader.fileMetadata.fileSize, frame, layout, reader.limits⟩
  let all := Selection.all reader.schema (List.range reader.schema.columns.length)
  have hsequence : block.sequence = frame.sequence := by
    rw [hrecorded.isBlock]
    rfl
  obtain ⟨full, hdecodes, hfull⟩ := hyields.block_decodes Selection.of_all
  refine ⟨full.batch, ?_, hrecorded.rowCount_ne, fun position hposition ↦ ?_, ⟨full, rfl, hfull⟩,
    ?_, fun selection hselection ↦ ?_⟩
  · rw [hrecorded.isBlock]
    rfl
  · obtain ⟨array, harray, -⟩ := hyields.column (List.getElem?_eq_getElem hposition)
    rw [harray]
    rfl
  · rw [decodeBlockAt, hrecorded.frameAt, ok_bind, hlayout, ok_bind]
    show ((Budget.run (decoder.block all)
      (Budget.new reader.limits.maxDecodedBlockBytes none)).1.withContext
        (.frame frame.sequence)).map (·.batch) = _
    rw [hdecodes.run_eq, hsequence]
    split <;> rfl
  · obtain ⟨decoded, hselected, hdecoded⟩ := hyields.block_decodes hselection
    refine ⟨decoded, hdecoded, ?_⟩
    obtain ⟨ids, hids⟩ := exists_selectedColumnIds hselection
    have hsame : reader.selectedLayout file index selection frame = .ok layout :=
      bind_eq_ok.mpr ⟨ids, hids, DataFrame.readBlockLayout_some hlayout ids⟩
    rw [selectedBlock, hrecorded.frameAt, ok_bind, hsame, ok_bind]
    show (Budget.run (decoder.block selection)
      (Budget.new reader.limits.maxDecodedBlockBytes none)).1.withContext
        (.frame frame.sequence) = _
    rw [hselected.run_eq, hsequence]
    split <;> rfl

/-- **A block that is read plainly is read by any selection.** -/
theorem exists_reads {path : String} {limits : Limits} {system : FileSystem} {batch : RecordBatch}
    {block : BlockMetadata} (h : Attached path limits system reader)
    (hblock : reader.blocks[index]? = some block)
    (hread : reader.decodeBlockAt zstd (system.contents reader.identity) index = .ok batch) :
    ∃ metadata arrayAt costAt, reader.Reads zstd (system.contents reader.identity) index batch block
      metadata arrayAt costAt := by
  obtain ⟨frame, metadata, hrecorded⟩ := h.recorded hblock
  have hdecode := hread
  obtain ⟨frame', hframe, hread⟩ := bind_eq_ok.mp hread
  rw [hrecorded.frameAt] at hframe
  cases hframe
  obtain ⟨layout, hlayout, hread⟩ := bind_eq_ok.mp hread
  obtain rfl := hrecorded.layout hlayout
  let decoder : BlockDecoder := ⟨zstd, system.contents reader.identity,
    reader.fileMetadata.fileSize, frame, layout, reader.limits⟩
  let all := Selection.all reader.schema (List.range reader.schema.columns.length)
  have hrun : ((Budget.run (decoder.block all)
      (Budget.new reader.limits.maxDecodedBlockBytes none)).1.withContext
        (.frame frame.sequence)).map (·.batch) = .ok batch := hread
  rcases hfull : (Budget.run (decoder.block all)
      (Budget.new reader.limits.maxDecodedBlockBytes none)).1.withContext
        (.frame frame.sequence) with e | full
  · rw [hfull] at hrun
    cases hrun
  rw [withContext_eq_ok, Budget.run_new_none] at hfull
  split at hfull
  case isFalse => cases hfull
  obtain ⟨arrayAt, costAt, hyields⟩ := BlockDecoder.exists_yields hfull
  obtain ⟨batch', hreads⟩ := exists_reads_of_yields hrecorded hlayout hyields
  obtain rfl : batch' = batch := by
    have hplain := hreads.plain
    rw [hdecode] at hplain
    split at hplain
    · exact (Except.ok.inj hplain).symm
    · cases hplain
  exact ⟨layout.metadata, arrayAt, costAt, hreads⟩

end Reader

/-! ### The rows of a selection -/

/-- Positions that all hold something are read off in their order. -/
theorem getElem?_filterMap_range {α : Type} {f : ℕ → Option α} {n : ℕ}
    (h : ∀ i < n, (f i).isSome = true) {i : ℕ} (hi : i < n) :
    ((List.range n).filterMap f)[i]? = f i := by
  have hlength (n : ℕ) (h : ∀ i < n, (f i).isSome = true) :
      ((List.range n).filterMap f).length = n := by
    rw [List.length_filterMap_eq_countP, List.countP_eq_length.mpr fun i hi ↦
      h i (List.mem_range.mp hi), List.length_range]
  induction n with
  | zero => cases hi
  | succ n ih =>
    have hbefore : ∀ i < n, (f i).isSome = true := fun i hi ↦ h i (Nat.lt_succ_of_lt hi)
    rw [List.range_succ, List.filterMap_append]
    rcases Nat.lt_succ_iff_lt_or_eq.mp hi with hlt | rfl
    · rw [List.getElem?_append_left (by rw [hlength n hbefore]; exact hlt), ih hbefore hlt]
    · obtain ⟨a, ha⟩ := Option.isSome_iff_exists.mp (h i hi)
      rw [List.getElem?_append_right (hlength i hbefore).le, hlength i hbefore, Nat.sub_self, ha,
        List.filterMap_cons_some ha]
      rfl

namespace Reader.Reads

variable {reader : Reader} {zstd : Zstd} {file : Bytes} {index : ℕ} {batch : RecordBatch}
  {block : BlockMetadata} {metadata : DataFrameMetadata} {arrayAt : ℕ → Option LogicalArray}
  {costAt : ℕ → ℕ} {plan : ScanPlan} {decoded : DecodedBlock}
  (h : reader.Reads zstd file index batch block metadata arrayAt costAt)
include h

theorem rowCount_eq : batch.rowCount = metadata.rowCount := by
  obtain ⟨full, rfl, hfull⟩ := h.full
  exact hfull.rowCount

/-- A cell of a block is the value of its column. -/
theorem getElem?_rowAt {position : ℕ} (hposition : position < reader.schema.columns.length)
    (row : ℕ) : (batch.rowAt row)[position]? = (arrayAt position).map (·.valueAt row) := by
  obtain ⟨full, rfl, hfull⟩ := h.full
  rw [RecordBatch.rowAt, List.getElem?_map, hfull.columns]
  exact congrArg _ (getElem?_filterMap_range h.array hposition)

/-- **A selection decodes the cells that it selects.** -/
theorem rowAt_selected (hplan : plan.Of reader.schema)
    (hdecoded : DecodedAs arrayAt metadata (plan.selection reader.schema) decoded) (row : ℕ) :
    decoded.batch.rowAt row = plan.cells (batch.rowAt row) := by
  have hcolumns : decoded.batch.columns = plan.projection.filterMap arrayAt := hdecoded.columns
  rw [RecordBatch.rowAt, hcolumns, List.map_filterMap, ScanPlan.cells]
  exact List.filterMap_congr fun position hposition ↦
    (h.getElem?_rowAt (hplan.inside position hposition) row).symm

/-- The primary values of a block are those of its rows. -/
theorem primaryOf_rowAt {position : ℕ} {array : LogicalArray} {values : List ℤ}
    (hprimary : primaryIndex reader.schema = some position)
    (harray : arrayAt position = some array)
    (hread : array.rows.mapM BlockDecoder.primaryValue = .ok values) :
    values.length = batch.rowCount ∧
      ∀ row < batch.rowCount, reader.schema.primaryOf (batch.rowAt row) = values[row]? := by
  obtain ⟨full, hbatch, hfull⟩ := h.full
  obtain ⟨_, _, -, hcolumn, -⟩ := getElem?_primaryIndex hprimary
  have hposition := (List.getElem?_eq_some_iff.mp hcolumn).1
  have hmem : array ∈ batch.columns := by
    rw [← hbatch, hfull.columns]
    exact List.mem_filterMap.mpr ⟨position, List.mem_range.mpr hposition, harray⟩
  have hlen : array.len = batch.rowCount := (RecordBatch.fits_of_mem hmem).1
  have hlength : values.length = batch.rowCount := by
    rw [length_of_mapM_eq_ok hread, LogicalArray.length_rows, hlen]
  refine ⟨hlength, fun row hrow ↦ ?_⟩
  have hvalue : BlockDecoder.primaryValue (array.valueAt row) =
      .ok (values.get ⟨row, hlength ▸ hrow⟩) := by
    have hget := (mapM_eq_ok.mp hread).get (by rw [LogicalArray.length_rows, hlen]; exact hrow)
      (hlength ▸ hrow)
    simpa only [LogicalArray.rows, List.get_eq_getElem, List.getElem_map, List.getElem_range]
      using hget
  rw [Schema.primaryOf, hprimary, Option.bind_some, h.getElem?_rowAt hposition, harray,
    Option.map_some, Option.bind_some, hvalue, List.getElem?_eq_getElem (hlength ▸ hrow)]
  rfl

/-- **The rows that a plan asks for** stand at the positions that its range keeps. -/
theorem rowsOf_eq {range : PrimaryRange} {values : List ℤ} (hplan : plan.Of reader.schema)
    (hrange : plan.range = some range) (hlength : values.length = batch.rowCount)
    (hvalues : ∀ row < batch.rowCount,
      reader.schema.primaryOf (batch.rowAt row) = values[row]?)
    (hdecoded : DecodedAs arrayAt metadata (plan.selection reader.schema) decoded) :
    plan.rowsOf reader.schema batch.rows = (range.keptAt values).map decoded.batch.rowAt := by
  have hkept : (List.range batch.rowCount).filter (plan.keeps reader.schema ∘ batch.rowAt) =
      range.keptAt values := by
    rw [PrimaryRange.keptAt, hlength]
    refine List.filter_congr fun row hrow ↦ ?_
    rw [Function.comp_apply, ScanPlan.keeps, hrange, Option.all_some,
      hvalues row (List.mem_range.mp hrow)]
  rw [ScanPlan.rowsOf, RecordBatch.rows, List.filter_map, hkept, List.map_map]
  exact List.map_congr_left fun row _ ↦ (h.rowAt_selected hplan hdecoded row).symm

/-- Without a range, a plan asks for every row. -/
theorem rowsOf_eq_of_none (hplan : plan.Of reader.schema) (hrange : plan.range = none)
    (hdecoded : DecodedAs arrayAt metadata (plan.selection reader.schema) decoded) :
    plan.rowsOf reader.schema batch.rows = decoded.batch.rows := by
  have hall : batch.rows.filter (plan.keeps reader.schema) = batch.rows :=
    List.filter_eq_self.mpr fun row _ ↦ by rw [ScanPlan.keeps, hrange]; rfl
  rw [ScanPlan.rowsOf, hall, RecordBatch.rows, List.map_map, RecordBatch.rows, hdecoded.rowCount,
    h.rowCount_eq]
  exact List.map_congr_left fun row _ ↦ (h.rowAt_selected hplan hdecoded row).symm

end Reader.Reads

/-! ### What a block contributes -/

/-- What a decoded block contributes to a plan. -/
def ScanPlan.contribution (plan : ScanPlan) (decoded : DecodedBlock) : Option RecordBatch :=
  match plan.range with
  | none => some decoded.batch
  | some range => decoded.primaryValues.bind fun values ↦
      filterBatch decoded.primarySorted decoded.batch values range

/-- What the block at `index` contributes to a plan, with no scan to account to. -/
def Reader.contribution (reader : Reader) (zstd : Zstd) (file : Bytes) (plan : ScanPlan)
    (index : ℕ) : Result (Option RecordBatch) :=
  match reader.blocks[index]? with
  | none => .ok none
  | some block =>
    if plan.shouldPrune block then .ok none
    else (reader.selectedBlock zstd file index (plan.selection reader.schema)).map plan.contribution

/-- A selection that reads the primary column gives its values. -/
theorem BlockDecoder.isSome_primaryValues {decoder : BlockDecoder} {selection : Selection}
    {decoded : DecodedBlock} (h : (decoder.block selection).outcome = .ok decoded)
    (hprimary : selection.primary.isSome = true) : decoded.primaryValues.isSome = true := by
  obtain ⟨rowCount, -, h⟩ := Metered.outcome_bind_eq_ok.mp h
  obtain ⟨_, -, h⟩ := Metered.outcome_bind_eq_ok.mp h
  obtain ⟨arrays, -, h⟩ := Metered.outcome_bind_eq_ok.mp h
  obtain ⟨arrays', -, h⟩ := Metered.outcome_bind_eq_ok.mp h
  obtain ⟨values, hvalues, h⟩ := Metered.outcome_bind_eq_ok.mp h
  obtain ⟨_, -, h⟩ := Metered.outcome_bind_eq_ok.mp h
  obtain ⟨_, -, h⟩ := Metered.outcome_bind_eq_ok.mp h
  cases h
  obtain ⟨index, hindex⟩ := Option.isSome_iff_exists.mp hprimary
  rw [BlockDecoder.primaryValues, hindex] at hvalues
  obtain ⟨_, -, hvalues⟩ := Metered.outcome_bind_eq_ok.mp hvalues
  obtain ⟨_, -, hvalues⟩ := Metered.outcome_bind_eq_ok.mp hvalues
  obtain ⟨_, -, hvalues⟩ := Metered.outcome_bind_eq_ok.mp hvalues
  cases hvalues
  rfl

/-- A plan with a range has the primary values of every block that is decoded for it. -/
theorem ScanPlan.Of.isSome_primaryValues {reader : Reader} {zstd : Zstd} {file : Bytes} {index : ℕ}
    {plan : ScanPlan} {decoded : DecodedBlock} (h : plan.Of reader.schema)
    (hrange : plan.range.isSome = true)
    (hdecoded : reader.selectedBlock zstd file index (plan.selection reader.schema) =
      .ok decoded) : decoded.primaryValues.isSome = true := by
  obtain ⟨frame, -, hdecoded⟩ := bind_eq_ok.mp hdecoded
  obtain ⟨layout, -, hdecoded⟩ := bind_eq_ok.mp hdecoded
  have hrun : (Budget.run (BlockDecoder.block ⟨zstd, file, reader.fileMetadata.fileSize, frame,
      layout, reader.limits⟩ (plan.selection reader.schema))
      (Budget.new reader.limits.maxDecodedBlockBytes none)).1 = .ok decoded :=
    withContext_eq_ok.mp hdecoded
  rw [Budget.run_new_none] at hrun
  split at hrun
  · refine BlockDecoder.isSome_primaryValues hrun ?_
    obtain ⟨position, hprimary⟩ := h.primary hrange
    show (plan.internalPrimary reader.schema).isSome = true
    rw [internalPrimary, hprimary, hrange]
    rfl
  · cases hrun

section Reads

variable {reader : Reader} {zstd : Zstd} {file : Bytes} {index : ℕ} {batch : RecordBatch}
  {block : BlockMetadata} {metadata : DataFrameMetadata} {arrayAt : ℕ → Option LogicalArray}
  {costAt : ℕ → ℕ} {plan : ScanPlan}
  (h : reader.Reads zstd file index batch block metadata arrayAt costAt)
  (hplan : plan.Of reader.schema)
include h hplan

/-- **What a decoded block contributes** answers the plan. -/
theorem Reader.Reads.answers {decoded : DecodedBlock}
    (hdecoded : DecodedAs arrayAt metadata (plan.selection reader.schema) decoded) :
    plan.Answers reader.schema batch.rows (plan.contribution decoded) := by
  cases hrange : plan.range with
  | none =>
    have hrows := h.rowsOf_eq_of_none hplan hrange hdecoded
    rw [ScanPlan.contribution, hrange]
    refine ⟨?_, ?_, ?_⟩
    · rintro _ ⟨⟩
      exact hdecoded.outputSchema
    · rintro _ ⟨⟩
      exact hrows.symm
    · refine iff_of_true rfl ?_
      rw [hrows, ← List.length_pos_iff, RecordBatch.length_rows, hdecoded.rowCount]
      exact Nat.pos_of_ne_zero h.rowCount_ne
  | some range =>
    obtain ⟨position, hprimary⟩ := hplan.primary (by rw [hrange]; rfl)
    have hinternal : (plan.selection reader.schema).primary = some position := by
      show plan.internalPrimary reader.schema = _
      rw [ScanPlan.internalPrimary, hprimary, hrange]
      rfl
    obtain ⟨array, values, harray, hvalues, hread, hconfirmed⟩ :=
      hdecoded.primaryValues position hinternal
    obtain ⟨hlength, hof⟩ := h.primaryOf_rowAt hprimary harray hread
    have hrows := h.rowsOf_eq hplan hrange hlength hof hdecoded
    rw [h.rowCount_eq, ← hdecoded.rowCount] at hlength
    have hsorted (hclaim : decoded.primarySorted = true) : values.Pairwise (· ≤ ·) := by
      rw [hdecoded.primarySorted, Bool.and_eq_true] at hclaim
      exact List.isChain_iff_pairwise.mp (hconfirmed.sorted hclaim.2)
    obtain ⟨kept, hschema, hkept, hfilter⟩ :=
      ScanPlan.filterBatch_eq hlength hsorted (hplan.range_le range hrange)
    rw [ScanPlan.contribution, hrange, hvalues]
    dsimp only
    rw [Option.bind_some, hfilter]
    by_cases hnil : range.keptAt values = []
    · rw [if_pos hnil]
      rw [hnil, List.map_nil] at hrows
      exact ⟨fun _ hnone ↦ (nomatch hnone), fun _ hnone ↦ (nomatch hnone),
        iff_of_false Bool.false_ne_true (not_not.mpr hrows)⟩
    · rw [if_neg hnil]
      refine ⟨?_, ?_, ?_⟩
      · rintro _ ⟨⟩
        exact hschema.trans hdecoded.outputSchema
      · rintro _ ⟨⟩
        exact hkept.trans hrows.symm
      · refine iff_of_true rfl fun hempty ↦ hnil ?_
        rw [hrows] at hempty
        exact List.map_eq_nil_iff.mp hempty

/-- **A block that is pruned has no row that the plan asks for.** -/
theorem Reader.Reads.rowsOf_of_shouldPrune (hprune : plan.shouldPrune block = true) :
    plan.rowsOf reader.schema batch.rows = [] := by
  cases hrange : plan.range with
  | none =>
    rw [ScanPlan.shouldPrune, hrange] at hprune
    cases hprune
  | some range =>
    obtain ⟨position, hprimary⟩ := hplan.primary (by rw [hrange]; rfl)
    obtain ⟨full, -, hfull⟩ := h.full
    obtain ⟨array, values, harray, -, hread, hconfirmed⟩ := hfull.primaryValues position hprimary
    obtain ⟨hlength, hof⟩ := h.primaryOf_rowAt hprimary harray hread
    obtain ⟨decoded, hdecoded, -⟩ := h.selected _ hplan.selection
    have hkept := ScanPlan.keptAt_of_shouldPrune hrange (fun minimum maximum hbounds ↦ by
      rw [h.bounds] at hbounds
      have hminimum := hconfirmed.minimum
      have hmaximum := hconfirmed.maximum
      rw [hbounds] at hminimum hmaximum
      exact ⟨hminimum, hmaximum⟩) hprune
    rw [h.rowsOf_eq hplan hrange hlength hof hdecoded, hkept, List.map_nil]

/-- **What a block contributes answers the plan**, unless the block costs more than a block may. -/
theorem Reader.Reads.contribution (hblock : reader.blocks[index]? = some block) :
    (∃ answer, reader.contribution zstd file plan index = .ok answer ∧
      plan.Answers reader.schema batch.rows answer) ∨
    reader.limits.maxDecodedBlockBytes <
        (plan.selection reader.schema).cost costAt metadata.rowCount ∧
      reader.contribution zstd file plan index =
        .error (Budget.exceeded.withContext (.frame block.sequence)) := by
  rw [Reader.contribution, hblock]
  dsimp only
  split
  · rename_i hprune
    exact .inl ⟨none, rfl, fun _ hnone ↦ (nomatch hnone),
      fun _ hnone ↦ (nomatch hnone),
      iff_of_false Bool.false_ne_true (not_not.mpr (h.rowsOf_of_shouldPrune hplan hprune))⟩
  obtain ⟨decoded, hdecoded, hselected⟩ := h.selected _ hplan.selection
  rw [hselected]
  split
  · exact .inl ⟨_, rfl, h.answers hplan hdecoded⟩
  · rename_i hcost
    exact .inr ⟨Nat.not_le.mp hcost, rfl⟩

end Reads

/-! ### A turn -/

namespace ScanProgress

/-- A batch is handed out as it is, unless it cannot be counted. -/
theorem handOut_eq (batch : RecordBatch) (progress : ScanProgress) :
    (∃ e, (handOut batch progress).1 = .error e ∧ Budget.IsRefusal e) ∨
      (handOut batch progress).1 = .ok (some batch) := by
  rw [handOut]
  rcases hcount : progress.account (ScanBudget.recordRows batch.rowCount) with ⟨e | u, counted⟩
  · refine .inl ⟨e, rfl, ScanBudget.refuses_recordRows batch.rowCount progress.budget e ?_⟩
    exact congrArg Prod.fst hcount
  · exact .inr rfl

/-- A block that was decoded with its primary column gives what it contributes, unless that cannot
be counted. -/
theorem deliver_cases {plan : ScanPlan} {decoded : DecodedBlock}
    (hprimary : plan.range.isSome = true → decoded.primaryValues.isSome = true)
    (missingPrimary : String) (progress : ScanProgress) :
    (∃ e, (deliver plan missingPrimary decoded progress).1 = .error e ∧ Budget.IsRefusal e) ∨
      (deliver plan missingPrimary decoded progress).1 = .ok (plan.contribution decoded) := by
  rw [deliver, ScanPlan.contribution]
  cases hrange : plan.range with
  | none => exact handOut_eq decoded.batch progress
  | some range =>
    obtain ⟨values, hvalues⟩ := Option.isSome_iff_exists.mp (hprimary (by rw [hrange]; rfl))
    rw [hvalues]
    dsimp only
    rw [Option.bind_some]
    cases ScanPlan.filterBatch decoded.primarySorted decoded.batch values range with
    | none => exact .inr rfl
    | some batch => exact handOut_eq batch progress

variable {reader : Reader} {zstd : Zstd} {system : FileSystem} {plan : ScanPlan}
  {block : BlockMetadata} {progress : ScanProgress}

/-- **The accounting of a scan refuses a turn, or leaves it as it is**: the turn gives what its
block contributes. -/
theorem takeBlock_cases (zstd : Zstd) (hplan : plan.Of reader.schema)
    (hnamed : system.identityOf reader.path = .ok reader.identity)
    (hholds : progress.Holds reader.identity)
    (hblock : reader.blocks[progress.nextBlock]? = some block) (missingPrimary : String) :
    (∃ e, (takeBlock zstd system reader plan missingPrimary block progress).1 = .error e ∧
      Budget.IsRefusal e) ∨
      (takeBlock zstd system reader plan missingPrimary block progress).1 =
        reader.contribution zstd (system.contents reader.identity) plan progress.nextBlock := by
  rw [takeBlock, Reader.contribution, hblock]
  have hconsumed : ({ progress with nextBlock := progress.nextBlock + 1 } : ScanProgress).Holds
      reader.identity := hholds
  have hrecorded := hconsumed.account (ScanBudget.recordBlock (plan.shouldPrune block))
  rcases hrecord : ScanProgress.account (ScanBudget.recordBlock (plan.shouldPrune block))
      { progress with nextBlock := progress.nextBlock + 1 } with ⟨e | u, recorded⟩
  · exact .inl ⟨e, rfl,
      ScanBudget.refuses_recordBlock _ progress.budget e (congrArg Prod.fst hrecord)⟩
  rw [hrecord] at hrecorded
  dsimp only at hrecorded ⊢
  split
  · exact .inr rfl
  have hgrows : Reader.Grows reader.path system system :=
    ⟨reader.identity, [], hnamed, hnamed, (List.append_nil _).symm⟩
  rw [decodeBlock, (openHandle_of_grown hnamed hgrows hrecorded).1]
  dsimp only
  rcases hrows : ScanProgress.account (ScanBudget.chargeRows block.rowCount)
      { recorded with file := some reader.identity } with ⟨e | u, charged⟩
  · exact .inl ⟨e, rfl,
      ScanBudget.refuses_chargeRows _ recorded.budget e (congrArg Prod.fst hrows)⟩
  dsimp only
  rcases reader.decodeSelectedBlockAt_cases zstd (system.contents reader.identity)
    progress.nextBlock (plan.selection reader.schema) charged.budget with ⟨e, he, hrefusal⟩ | hsame
  · rcases hcase : reader.decodeSelectedBlockAt zstd (system.contents reader.identity)
        progress.nextBlock (plan.selection reader.schema) charged.budget with ⟨e' | found, budget⟩
    · rw [hcase] at he
      cases he
      exact .inl ⟨e, rfl, hrefusal⟩
    · rw [hcase] at he
      cases he
  · rcases hcase : reader.decodeSelectedBlockAt zstd (system.contents reader.identity)
        progress.nextBlock (plan.selection reader.schema) charged.budget with ⟨e' | found, budget⟩
    · rw [hcase] at hsame
      rw [← hsame]
      exact .inr rfl
    · rw [hcase] at hsame
      rw [← hsame]
      exact deliver_cases (fun hrange ↦ hplan.isSome_primaryValues hrange hsame.symm)
        missingPrimary { charged with budget }

/-- What a turn at a block comes to: the answer of its plan, unless the accounting of the scan
refuses it, or the block costs more to decode than the reader allows a block. -/
inductive Settles (reader : Reader) (plan : ScanPlan) (rows : List (List (Option ScalarValue)))
    (block : BlockMetadata) (cost : ℕ) : Result (Option RecordBatch) → Prop
  | answered {answer : Option RecordBatch} (h : plan.Answers reader.schema rows answer) :
      Settles reader plan rows block cost (.ok answer)
  | refused {e : Error} (h : Budget.IsRefusal e) : Settles reader plan rows block cost (.error e)
  | exceeded (h : reader.limits.maxDecodedBlockBytes < cost) :
      Settles reader plan rows block cost
        (.error (Budget.exceeded.withContext (.frame block.sequence)))

/-- **A turn answers its plan**, unless an allowance is spent. -/
theorem takeBlock_settles {batch : RecordBatch} {metadata : DataFrameMetadata}
    {arrayAt : ℕ → Option LogicalArray} {costAt : ℕ → ℕ}
    (h : reader.Reads zstd (system.contents reader.identity) progress.nextBlock batch block metadata
      arrayAt costAt) (hplan : plan.Of reader.schema)
    (hnamed : system.identityOf reader.path = .ok reader.identity)
    (hholds : progress.Holds reader.identity)
    (hblock : reader.blocks[progress.nextBlock]? = some block) (missingPrimary : String) :
    Settles reader plan batch.rows block
      ((plan.selection reader.schema).cost costAt metadata.rowCount)
      (takeBlock zstd system reader plan missingPrimary block progress).1 := by
  rcases takeBlock_cases zstd hplan hnamed hholds hblock missingPrimary with
    ⟨e, he, hrefusal⟩ | hsame
  · rw [he]
    exact .refused hrefusal
  rcases h.contribution hplan hblock with ⟨answer, hanswer, hanswers⟩ | ⟨hcost, hexceeded⟩
  · rw [hsame, hanswer]
    exact .answered hanswers
  · rw [hsame, hexceeded]
    exact .exceeded hcost

end ScanProgress

end Acta
