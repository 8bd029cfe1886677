import Acta.Lib.Cutting
import Acta.Reopening
import Acta.Write.History
import Acta.Write.Sizing

/-!
# How rows are split across appends

An append publishes a block before a row that does not fit it, wherever the row comes from.  It also
publishes a block that has reached a target, but only after the last row of a batch or of a part of
one that fits.  So an assembly follows `assemblyRules`: a full block that could still take the next
row is cut off where a batch ends, and goes on where the batch does.

The blocks of a session are the blocks these rules cut (`cut_of_appends`), and the file of a session
says what its blocks are.  Two sessions that append the same rows therefore finish the same file
exactly where their batches agree at every such row (`finished_eq_iff`).
-/

namespace Acta

open Machine Wire

/-! ### The rules of an assembly -/

/-- The price of rows in one block. -/
def priceOfRows (schema : Schema) (statistics : WriterStatistics) (rows : List Row) : BlockSize :=
  Write.blockSizeWithStatistics schema
    ((List.range schema.columns.length).map fun index ↦
      .ofValues (rows.map fun row ↦ row[index]?.join))
    rows.length statistics

/-- When the block being assembled takes one more row, and when it has reached a target. -/
def assemblyRules (schema : Schema) (options : WriterOptions) : Cutting.Rules Row where
  takes block row :=
    let size := priceOfRows schema options.statistics (block ++ [row])
    block.length < options.rowBlockTarget ∧ size.withinFormatLimits (block.length + 1) ∧
      size.frameBytes ≤ options.byteBlockTarget
  full block :=
    options.rowBlockTarget ≤ block.length ∨
      options.byteBlockTarget ≤ (priceOfRows schema options.statistics block).frameBytes

namespace Writer

section Price

variable {writer : Writer}

/-- **The price of a buffer is the price of its rows.** -/
theorem Assembled.size_eq (h : Assembled writer) (hfull : writer.buffer.isEmpty = false) :
    writer.buffer.size =
      priceOfRows writer.schema writer.options.statistics writer.buffer.blockRows.rows := by
  have hrows := h.length_rows
  have hdeclares : ∀ chunk ∈ writer.buffer.chunks, chunk.Declares writer.schema :=
    fun chunk hchunk ↦ (h.checked chunk hchunk).declares
  have hlogical (index : ℕ) (hindex : index < writer.schema.columns.length) :
      writer.buffer.blockRows.logical index =
        writer.buffer.blockRows.rows.map fun row ↦ row[index]?.join :=
    BlockRows.Of.logical_eq (show writer.buffer.blockRows.Of writer.schema from hdeclares) hindex
  have hfootprints : writer.buffer.footprints =
      (List.range writer.schema.columns.length).map fun index ↦
        .ofValues (writer.buffer.blockRows.rows.map fun row ↦ row[index]?.join) := by
    refine List.ext_getElem? fun index ↦ ?_
    rcases Nat.lt_or_ge index writer.schema.columns.length with hindex | hindex
    · have hfootprint := BlockBuffer.footprints_ofChunks writer.options.statistics hdeclares
        (List.getElem?_eq_getElem hindex)
      rw [← h.buffer] at hfootprint
      rw [hfootprint, hlogical index hindex, List.getElem?_map, List.getElem?_range hindex]
      rfl
    · have hlength := BlockBuffer.length_footprints writer.schema writer.options.statistics
        fun chunk hchunk ↦ (hdeclares chunk hchunk).schema_eq
      rw [← h.buffer] at hlength
      rw [List.getElem?_eq_none (by rw [hlength]; exact hindex),
        List.getElem?_eq_none (by rw [List.length_map, List.length_range]; exact hindex)]
  rcases List.eq_nil_or_concat writer.buffer.chunks with hnone | ⟨chunks, chunk, hchunks⟩
  · have hzero := h.rows_eq
    rw [hnone] at hzero
    exact absurd (decide_eq_true hzero) (Bool.eq_false_iff.mp hfull)
  · have hsize : writer.buffer.size = Write.blockSizeWithStatistics writer.schema
        writer.buffer.footprints writer.buffer.rows writer.options.statistics := by
      have hbuffer := h.buffer
      rw [hchunks, List.concat_eq_append, BlockBuffer.ofChunks_append] at hbuffer
      rw [hbuffer]
      show Write.blockSizeWithStatistics writer.schema _ _ (BlockBuffer.statistics _) = _
      rw [(BlockBuffer.ofChunks_fields _ _ _).2.2]
      rfl
    rw [hsize, hfootprints, priceOfRows, hrows]

/-- A buffer has reached a target where its rows are a full block. -/
theorem Assembled.isComplete_iff (h : Assembled writer) (hfull : writer.buffer.isEmpty = false) :
    writer.IsComplete ↔
      (assemblyRules writer.schema writer.options).full writer.buffer.blockRows.rows = true := by
  rw [IsComplete, BlockBuffer.frameBytes, h.size_eq hfull, ← h.length_rows, assemblyRules,
    decide_eq_true_eq]

/-- A block may be written with one more row where the rows before it take the row. -/
theorem Assembled.bounded_iff (h : Assembled writer)
    {block : List Row} {row : Row} (hrows : writer.buffer.blockRows.rows = block ++ [row])
    (hne : block ≠ []) :
    Bounded writer ↔
      (assemblyRules writer.schema writer.options).takes block row = true := by
  have hcount : writer.buffer.rows = block.length + 1 := by
    rw [← h.length_rows, hrows, List.length_append, List.length_singleton]
  have hfull : writer.buffer.isEmpty = false := decide_eq_false (by omega)
  have hlength := List.length_pos_of_ne_nil hne
  have hsize := h.size_eq hfull
  rw [hrows] at hsize
  rw [assemblyRules, decide_eq_true_eq, ← hsize]
  constructor
  · rintro ⟨htarget, hwithin, hbytes⟩
    rw [hcount] at htarget hwithin hbytes
    exact ⟨htarget, hwithin, hbytes.resolve_right (by omega)⟩
  · rintro ⟨htarget, hwithin, hbytes⟩
    exact ⟨by omega, by rwa [hcount], .inl hbytes⟩

end Price

/-! ### What an append takes -/

section Takes

variable {writer : Writer} {batch : RecordBatch} {start count : ℕ}

/-- **Rows are taken together** where the rules let the block take the last of them. -/
theorem Assembled.takes_iff (h : Assembled writer) (hbatch : batch.Checked writer.schema)
    {row : Row} (hrow : batch.rows[start + count]? = some row)
    (hne : writer.buffer.blockRows.rows ++ slice batch.rows start count ≠ []) :
    writer.Takes batch start (count + 1) ↔
      (assemblyRules writer.schema writer.options).takes
        (writer.buffer.blockRows.rows ++ slice batch.rows start count) row = true := by
  obtain ⟨hindex, rfl⟩ := List.getElem?_eq_some_iff.mp hrow
  rw [RecordBatch.length_rows] at hindex
  have hpart := hbatch.slice (show start < start + (count + 1) by omega) (by omega)
  have hrows : (writer.push (batch.slice start (start + (count + 1)))).buffer.blockRows.rows =
      (writer.buffer.blockRows.rows ++ slice batch.rows start count) ++
        [batch.rows[start + count]] := by
    have hlast : slice batch.rows (start + count) 1 = [batch.rows[start + count]] := by
      rw [slice, List.drop_eq_getElem_cons (by rwa [RecordBatch.length_rows])]
      rfl
    rw [rows_push_slice (by omega), List.append_assoc, slice_add, hlast]
  rw [Takes, and_iff_right (by omega), forall_prop_of_true (Nat.succ_pos count)]
  exact (h.push hpart).bounded_iff hrows hne

/-- Fewer rows are taken where more are. -/
theorem Takes.of_le (hstatistics : writer.buffer.statistics = writer.options.statistics)
    (h : writer.Takes batch start count) {fewer : ℕ} (hle : fewer ≤ count) :
    writer.Takes batch start fewer := by
  rcases count with - | count
  · rwa [Nat.le_zero.mp hle]
  rcases fewer with - | fewer
  · exact ⟨by have := h.1; omega, fun hpos ↦ absurd hpos (Nat.lt_irrefl 0)⟩
  obtain ⟨hrange, htarget, haccepts⟩ := (takes_succ_iff hstatistics).mp h
  exact (takes_succ_iff hstatistics).mpr ⟨by omega, by omega, haccepts.of_le (by omega)⟩

/-- **The rows of a part that fits are taken one after another.** -/
theorem Assembled.takesAll (h : Assembled writer) (hbatch : batch.Checked writer.schema)
    (htakes : writer.Takes batch start count) :
    (assemblyRules writer.schema writer.options).TakesAll writer.buffer.blockRows.rows
      (slice batch.rows start count) := by
  have hrange : start + count ≤ batch.rows.length := by
    rw [RecordBatch.length_rows]
    exact htakes.1
  refine Cutting.takesAll_iff.mpr fun index hindex ↦ or_iff_not_imp_left.mpr fun hne ↦ ?_
  rw [length_slice_of_le hrange] at hindex
  have hrow : batch.rows[start + index]? = some (slice batch.rows start count)[index] := by
    rw [← getElem?_slice batch.rows hindex]
    exact List.getElem?_eq_getElem _
  rw [take_slice batch.rows hindex.le] at hne ⊢
  exact (h.takes_iff hbatch hrow hne).mp (htakes.of_le h.statistics_eq hindex)

/-- **After the longest part that fits** the next row is not taken. -/
theorem Assembled.not_continues (h : Assembled writer) (hbatch : batch.Checked writer.schema)
    (hgreatest : IsGreatest {count | writer.Takes batch start count} count)
    (hne : writer.buffer.blockRows.rows ++ slice batch.rows start count ≠ [])
    (hmore : start + count < batch.rowCount) (later : List (Row × Bool)) :
    ¬(assemblyRules writer.schema writer.options).Continues
      (writer.buffer.blockRows.rows ++ slice batch.rows start count)
      (Cutting.marks (batch.rows.drop (start + count)) ++ later) := by
  have hindex : start + count < batch.rows.length := by rwa [RecordBatch.length_rows]
  rw [List.drop_eq_getElem_cons hindex]
  intro htakes
  have hlonger := (h.takes_iff hbatch (List.getElem?_eq_getElem hindex) hne).mpr htakes
  exact absurd (hgreatest.2 hlonger) (by omega)

end Takes

/-! ### The blocks of an append -/

section Appends

variable {zstd : Zstd} {before writer next : Writer} {batch : RecordBatch} {stage : AppendStage}
  {consumed : ℕ} {blocks : List PublishedBlock}

theorem Assembled.rows_eq_nil_iff (h : Assembled writer) :
    writer.buffer.blockRows.rows = [] ↔ writer.buffer.isEmpty = true := by
  rw [← List.length_eq_zero_iff, h.length_rows, BlockBuffer.isEmpty, decide_eq_true_eq]

/-- **A publication cuts off the block**, where the block does not go on. -/
theorem Assembled.cut_of_publishBuffer (h : Assembled writer)
    (hpublish : publishBuffer zstd writer = (.ok (), next))
    {rules : Cutting.Rules Row} {items : List (Row × Bool)}
    (hends : writer.buffer.isEmpty = false → ¬rules.Continues writer.buffer.blockRows.rows items) :
    rules.cut writer.buffer.blockRows.rows items =
      (writer.published zstd).map (·.rows.rows) ++ rules.cut next.buffer.blockRows.rows items := by
  rcases publishBuffer_eq_ok zstd hpublish with ⟨-, rfl, hpublished⟩ | ⟨_, _, hwrote, hpublished⟩
  · rw [hpublished]
    rfl
  · have hne : writer.buffer.blockRows.rows ≠ [] := by
      rw [Ne, h.rows_eq_nil_iff, hwrote.nonempty]
      exact Bool.false_ne_true
    rw [Cutting.cut_of_not_continues hne (hends hwrote.nonempty), hpublished, hwrote.next_eq]
    rfl

/-- What is left to cut from where an append stands, with the rows left of its batch.  Where they
are none and the rows just taken in are a full block, the block is cut off. -/
def toCome (rules : Cutting.Rules Row) (stage : AppendStage) (block left : List Row)
    (later : List (Row × Bool)) : List (List Row) :=
  match stage with
  | .filling => rules.cut block (Cutting.marks left ++ later)
  | .pushed =>
    if left = [] ∧ rules.full block then block :: rules.cut [] later
    else rules.cut block (Cutting.marks left ++ later)

/-- Rows were just taken in, and as many as fit. -/
theorem Assembled.pushed_of_appends (hassembled : Assembled before)
    (hbatch : batch.Checked before.schema)
    (h : Appends zstd batch before .pushed consumed blocks writer)
    (later : List (Row × Bool)) :
    writer.buffer.isEmpty = false ∧ (consumed < batch.rowCount →
      ¬(assemblyRules before.schema before.options).Continues writer.buffer.blockRows.rows
        (Cutting.marks (batch.rows.drop consumed) ++ later)) := by
  cases h with
  | take hbefore hmore hfits =>
    rename_i consumed count writer
    obtain ⟨hschema, hoptions⟩ := kept_of_appends zstd hbefore
    have hreached := hassembled.of_appends zstd hbatch hbefore
    have hdeclares := hbatch.declares
    rw [← hschema] at hbatch hdeclares
    have hgreatest := hreached.isGreatest_of_fittingPrefix hdeclares hmore.le hfits
    have htaken := hgreatest.1.1
    refine ⟨decide_eq_false ?_, fun hleft ↦ ?_⟩
    · show writer.buffer.rows + (batch.slice consumed (consumed + (count + 1))).rowCount ≠ 0
      rw [RecordBatch.rowCount_slice htaken]
      omega
    · have hne : writer.buffer.blockRows.rows ++ slice batch.rows consumed (count + 1) ≠ [] := by
        refine List.append_ne_nil_of_right_ne_nil _ (List.ne_nil_of_length_pos ?_)
        rw [length_slice_of_le (by rwa [RecordBatch.length_rows])]
        exact Nat.succ_pos count
      rw [rows_push_slice htaken, ← hschema, ← hoptions]
      exact hreached.not_continues hbatch hgreatest hne hleft later

/-- **An append cuts its rows by the rules.** -/
theorem Assembled.cut_of_appends (hassembled : Assembled before)
    (hbatch : batch.Checked before.schema)
    (h : Appends zstd batch before stage consumed blocks writer)
    (later : List (Row × Bool)) :
    (assemblyRules before.schema before.options).cut before.buffer.blockRows.rows
        (Cutting.marks batch.rows ++ later) =
      blocks.map (·.rows.rows) ++
        toCome (assemblyRules before.schema before.options) stage writer.buffer.blockRows.rows
          (batch.rows.drop consumed) later := by
  induction h with
  | start => rfl
  | full hbefore hmore hfull hpublish ih =>
    rename_i consumed blocks writer next
    obtain ⟨hschema, hoptions⟩ := kept_of_appends zstd hbefore
    have hreached := hassembled.of_appends zstd hbatch hbefore
    have hdeclares := hbatch.declares
    rw [← hschema] at hbatch hdeclares
    rw [ih, List.map_append, List.append_assoc]
    refine congrArg (_ ++ ·) (hreached.cut_of_publishBuffer hpublish fun hrows ↦ ?_)
    -- No row fits, so the block does not take the next one.
    have hgreatest := hreached.isGreatest_of_fittingPrefix hdeclares hmore.le hfull
    have hne : writer.buffer.blockRows.rows ++ slice batch.rows consumed 0 ≠ [] := by
      rw [slice_length_zero, List.append_nil, Ne, hreached.rows_eq_nil_iff, hrows]
      exact Bool.false_ne_true
    have hstops := hreached.not_continues hbatch hgreatest hne hmore later
    rwa [slice_length_zero, List.append_nil, hschema, hoptions] at hstops
  | take hbefore hmore hfits ih =>
    rename_i consumed count blocks writer
    obtain ⟨hschema, hoptions⟩ := kept_of_appends zstd hbefore
    have hreached := hassembled.of_appends zstd hbatch hbefore
    have hdeclares := hbatch.declares
    rw [← hschema] at hbatch hdeclares
    have hgreatest := hreached.isGreatest_of_fittingPrefix hdeclares hmore.le hfits
    have htaken := hgreatest.1.1
    have hlength : consumed + (count + 1) ≤ batch.rows.length := by rwa [RecordBatch.length_rows]
    have hall := hreached.takesAll hbatch hgreatest.1
    rw [hschema, hoptions] at hall
    have hsplit : batch.rows.drop consumed =
        slice batch.rows consumed (count + 1) ++ batch.rows.drop (consumed + (count + 1)) := by
      rw [slice, ← List.drop_drop, List.take_append_drop]
    have hsome : slice batch.rows consumed (count + 1) ≠ [] := by
      refine List.ne_nil_of_length_pos ?_
      rw [length_slice_of_le hlength]
      exact Nat.succ_pos count
    rw [ih, rows_push_slice htaken]
    refine congrArg (_ ++ ·) ?_
    show Cutting.Rules.cut _ _ (Cutting.marks (batch.rows.drop consumed) ++ later) = _
    rw [hsplit, Cutting.cut_of_takesAll hall hsome]
    rfl
  | complete hbefore hpublish ih =>
    rename_i consumed blocks writer next
    obtain ⟨hschema, hoptions⟩ := kept_of_appends zstd hbefore
    have hreached := hassembled.of_appends zstd hbatch hbefore
    obtain ⟨hrows, hstops⟩ := hassembled.pushed_of_appends hbatch hbefore later
    have hfull := hreached.isComplete_iff hrows
    rw [hschema, hoptions] at hfull
    rw [ih, List.map_append, List.append_assoc]
    refine congrArg (_ ++ ·) ?_
    rw [publishIfComplete_eq] at hpublish
    rw [publishedIfComplete, toCome, toCome]
    by_cases hleft : batch.rows.drop consumed = []
    case neg =>
      have hmore : consumed < batch.rowCount := by
        rw [List.drop_eq_nil_iff, RecordBatch.length_rows] at hleft
        omega
      rw [if_neg fun h ↦ hleft h.1]
      split at hpublish
      case isTrue hcomplete =>
        rw [if_pos hcomplete]
        exact hreached.cut_of_publishBuffer hpublish fun _ ↦ hstops hmore
      case isFalse hopen =>
        cases hpublish
        rw [if_neg hopen]
        rfl
    case pos =>
      rw [hleft]
      split at hpublish
      case isTrue hcomplete =>
        rw [if_pos hcomplete, if_pos ⟨rfl, hfull.mp hcomplete⟩]
        obtain ⟨hempty, -, -⟩ | ⟨_, _, hwrote, hpublished⟩ := publishBuffer_eq_ok zstd hpublish
        · rw [hrows] at hempty
          cases hempty
        · rw [hpublished, hwrote.next_eq]
          rfl
      case isFalse hopen =>
        cases hpublish
        rw [if_neg hopen, if_neg fun h ↦ hopen (hfull.mpr h.2)]
        rfl

/-- **A sequence of appends cuts its rows by the rules**, and adds the blocks to the record. -/
theorem Recorded.of_succeeds {start last : Writer} {batches : List RecordBatch}
    (h : Recorded zstd start blocks writer)
    (hcalls : Succeeds zstd (batches.map .append) writer last) :
    ∃ more, Recorded zstd start (blocks ++ more) last ∧
      (assemblyRules start.schema start.options).cut writer.buffer.blockRows.rows
          (Cutting.marked (batches.map RecordBatch.rows)) =
        more.map (·.rows.rows) ++
          (assemblyRules start.schema start.options).cut last.buffer.blockRows.rows [] := by
  induction batches generalizing blocks writer with
  | nil =>
    obtain rfl := (succeeds_nil zstd).mp hcalls
    exact ⟨[], by rwa [List.append_nil], rfl⟩
  | cons batch batches ih =>
    obtain ⟨next, hcall, hrest⟩ := (succeeds_cons zstd).mp hcalls
    obtain ⟨-, hcheck, more, happends⟩ := append_eq_ok zstd hcall
    have hbatch := checked_of_checkBatch hcheck
    obtain ⟨later, hlast, hcut⟩ := ih (h.of_appends hbatch happends) hrest
    have hfirst := h.assembled.cut_of_appends hbatch happends
      (Cutting.marked (batches.map RecordBatch.rows))
    rw [h.schema_eq, h.options_eq, toCome, List.drop_eq_nil_of_le (by simp)] at hfirst
    refine ⟨more ++ later, by rwa [← List.append_assoc], ?_⟩
    rw [List.map_append, List.append_assoc, ← hcut]
    exact hfirst

end Appends

/-! ### The file of a session -/

section Sessions

variable (zstd : Zstd)

/-- A session that appends batches, one after another, and ends leaves this file. -/
def Finishes (schema : Schema) (options : WriterOptions) (batches : List RecordBatch)
    (file : Bytes) : Prop :=
  ∃ disk contents start last,
    create zstd disk schema options = (.ok start, contents) ∧
      Succeeds zstd (batches.map .append ++ [.finish]) start last ∧ last.sink.stored = file

variable {zstd} {schema : Schema} {options : WriterOptions} {batches batches' : List RecordBatch}
  {file file' : Bytes}

/-- **What a session writes**: the blocks that the rules cut. -/
theorem Finishes.recorded (h : Finishes zstd schema options batches file) :
    ∃ disk schemaFrame sink start blocks last,
      Created zstd disk schema options schemaFrame sink start ∧
        Recorded zstd start blocks last ∧ last.sink.stored = file ∧
          blocks.map (·.rows.rows) = (assemblyRules schema options).cut []
            (Cutting.marked (batches.map RecordBatch.rows)) := by
  obtain ⟨disk, contents, start, closed, hcreate, hcalls, hfile⟩ := h
  obtain ⟨schemaFrame, sink, hcreated, -⟩ := create_eq_ok zstd hcreate
  obtain ⟨hpos, hstart⟩ := startSession_eq_ok hcreated.starts
  obtain ⟨last, hcalls, hfinish⟩ := (succeeds_append zstd).mp hcalls
  obtain ⟨-, ended, hpublish, hstored⟩ := finish_eq_ok zstd ((succeeds_singleton zstd).mp hfinish)
  have hassembled : Assembled start := assembled_of_new (by rw [hstart]; rfl)
  have hnothing : Recorded zstd start [] start := recorded_start hassembled
  obtain ⟨blocks, hrecorded, hcut⟩ := hnothing.of_succeeds hcalls
  have hended := hrecorded.publishBuffer hpublish
  have hnone : ended.buffer.blockRows.rows = [] := by
    rw [hrecorded.assembled.buffer_of_publishBuffer zstd hpublish]
    rfl
  have hlast : (assemblyRules start.schema start.options).cut last.buffer.blockRows.rows [] = _ :=
    hrecorded.assembled.cut_of_publishBuffer hpublish fun _ ↦ not_false
  have hempty : start.buffer.blockRows.rows = [] := by
    rw [hstart]
    rfl
  have hschema : start.schema = schema := by rw [hstart]; rfl
  have hoptions : start.options = options := by rw [hstart]; rfl
  have hend : (assemblyRules start.schema start.options).cut [] [] = [] := if_pos rfl
  rw [hnone, hend, List.append_nil] at hlast
  rw [hempty, hlast, hschema, hoptions, ← List.map_append] at hcut
  exact ⟨disk, schemaFrame, sink, start, _, ended, hcreated, hended, hstored.symm.trans hfile,
    hcut.symm⟩

/-- **The file says what its blocks are**: two sessions that start with the same bytes and write the
same rows leave the same file exactly where they cut the rows into the same blocks. -/
theorem Recorded.stored_eq_iff {start start' last last' : Writer}
    {blocks blocks' : List PublishedBlock} (h : Recorded zstd start blocks last)
    (h' : Recorded zstd start' blocks' last') (hschema : start'.schema = start.schema)
    (hoptions : start'.options = start.options)
    (hstored : start'.sink.stored = start.sink.stored) (hstate : start'.state = start.state)
    {scan : FileScan} {state : WalkState (List DataFrameMetadata)}
    (hmirrors : Mirrors start scan state)
    (hrows : (blocks.map (·.rows.rows)).flatten = (blocks'.map (·.rows.rows)).flatten) :
    last.sink.stored = last'.sink.stored ↔
      blocks.map (·.rows.rows) = blocks'.map (·.rows.rows) := by
  have hchained := h.chained
  have hchained' := h'.chained
  have hposition : start'.position = start.position := by rw [position, position, hstate]
  rw [hschema, hoptions, hposition] at hchained'
  constructor
  · intro hfile
    obtain ⟨scan', state', hwalked, hcounts⟩ := h.mirrors hmirrors
    obtain ⟨scan'', state'', hwalked', hcounts'⟩ :=
      h'.mirrors (hmirrors.of_same hstored hschema hoptions hstate)
    have hcomplete := hwalked.complete
    have hcomplete' := hwalked'.complete
    rw [← hfile] at hcomplete'
    obtain rfl : scan' = scan'' := Except.ok.inj (hcomplete.opens.symm.trans hcomplete'.opens)
    have hvisited : state'.visited = state''.visited :=
      (Prod.ext_iff.mp (Except.ok.inj (hcomplete.walk.symm.trans hcomplete'.walk))).2
    rw [hvisited, hcounts', List.append_cancel_left_eq] at hcounts
    -- The walk meets the row counts of the blocks, and with the rows they say where to cut.
    refine List.eq_iff_flatten_eq.mpr ⟨hrows, ?_⟩
    rw [List.map_map, List.map_map]
    refine (map_length_rows hchained).trans ?_
    rw [← hcounts]
    exact (map_length_rows hchained').symm
  · intro hblocks
    rw [h.stored, h'.stored, hstored, frames_eq_of_chained hchained hchained' hblocks]

/-- **How rows are split across appends shows in the file** exactly where the splits disagree: at a
row after which the block being assembled has reached a target and would take the next row, and
where one split ends a batch and the other does not. -/
theorem finished_eq_iff (h : Finishes zstd schema options batches file)
    (h' : Finishes zstd schema options batches' file')
    (hrows : batches.flatMap RecordBatch.rows = batches'.flatMap RecordBatch.rows) :
    file = file' ↔
      (assemblyRules schema options).Agree []
        (Cutting.together (Cutting.marked (batches.map RecordBatch.rows))
          (Cutting.marked (batches'.map RecordBatch.rows))) := by
  obtain ⟨_, _, sink, start, blocks, last, hcreated, hrecorded, rfl, hcut⟩ := h.recorded
  obtain ⟨_, _, sink', start', blocks', last', hcreated', hrecorded', rfl, hcut'⟩ := h'.recorded
  obtain ⟨scan, state, hmirrors⟩ := mirrors_of_created zstd hcreated
  obtain ⟨_, hstart⟩ := startSession_eq_ok hcreated.starts
  obtain ⟨_, hstart'⟩ := startSession_eq_ok hcreated'.starts
  have hsame := hcreated.stored_eq zstd hcreated'
  have hflatten : (batches.map RecordBatch.rows).flatten =
      (batches'.map RecordBatch.rows).flatten := hrows
  have hstored : start'.sink.stored = start.sink.stored := by
    rw [hstart, hstart']
    exact hsame
  have hstate : start'.state = start.state := by
    rw [hstart, hstart', hsame]
    rfl
  rw [hrecorded.stored_eq_iff hrecorded' (by rw [hstart, hstart']; rfl)
    (by rw [hstart, hstart']; rfl) hstored hstate hmirrors
    (by rw [hcut, hcut', Cutting.flatten_cut, Cutting.flatten_cut, Cutting.marked_fst,
      Cutting.marked_fst, hflatten]), hcut, hcut']
  exact Cutting.cut_marked_eq_iff hflatten

end Sessions

/-- A schema of one boolean column. -/
def flagSchema : Schema where
  schemaId := 1
  columns := [{ id := 1, name := "f", logicalType := .bool, nullable := false }]
  primaryColumnId := none

/-- A batch of flags. -/
def flags (values : List Bool) : RecordBatch where
  schema := flagSchema
  columns := [{ type := .bool, values, validity := none }]
  rowCount := values.length
  fits := .cons ⟨rfl, rfl, by simp⟩ .nil

/-- Blocks that reach their target with one flag, and take seven more in the padding. -/
def paddedOptions : WriterOptions where
  byteBlockTarget := 232

/-- Where no flag completes a block, the splits do not show. -/
theorem finished_eq_twoFlags :
    ∃ file file', Finishes storingZstd flagSchema {} [flags [true, false]] file ∧
      Finishes storingZstd flagSchema {} [flags [true], flags [false]] file' ∧ file = file' := by
  obtain ⟨start, hcreate, hcalls, hcalls'⟩ : ∃ start,
      (create storingZstd { contents := none } flagSchema {}).1 = .ok start ∧
        (runCalls storingZstd [.append (flags [true, false]), .finish] start).1 =
            [.ok (), .ok ()] ∧
          (runCalls storingZstd [.append (flags [true]), .append (flags [false]), .finish]
            start).1 = [.ok (), .ok (), .ok ()] :=
    exists_ok_and (by decide +kernel) (by decide +kernel)
  have hone : Finishes storingZstd flagSchema {} [flags [true, false]] _ :=
    ⟨{ contents := none }, _, start, _, Prod.ext hcreate rfl, Prod.ext hcalls rfl, rfl⟩
  have htwo : Finishes storingZstd flagSchema {} [flags [true], flags [false]] _ :=
    ⟨{ contents := none }, _, start, _, Prod.ext hcreate rfl, Prod.ext hcalls' rfl, rfl⟩
  exact ⟨_, _, hone, htwo, (finished_eq_iff hone htwo rfl).mpr (by decide)⟩

/-- **One split shows in the file**: a flag completes a block that would take another, and the batch
goes on in one session and ends in the other. -/
theorem finished_ne_twoFlags :
    ∃ file file', Finishes storingZstd flagSchema paddedOptions [flags [true, false]] file ∧
      Finishes storingZstd flagSchema paddedOptions [flags [true], flags [false]] file' ∧
        [flags [true, false]].flatMap RecordBatch.rows =
            [flags [true], flags [false]].flatMap RecordBatch.rows ∧
          file ≠ file' := by
  obtain ⟨start, hcreate, hcalls, hcalls', hlength⟩ : ∃ start,
      (create storingZstd { contents := none } flagSchema paddedOptions).1 = .ok start ∧
        (runCalls storingZstd [.append (flags [true, false]), .finish] start).1 =
            [.ok (), .ok ()] ∧
          (runCalls storingZstd [.append (flags [true]), .append (flags [false]), .finish]
            start).1 = [.ok (), .ok (), .ok ()] ∧
            (runCalls storingZstd [.append (flags [true, false]), .finish]
              start).2.sink.stored.length <
              (runCalls storingZstd [.append (flags [true]), .append (flags [false]), .finish]
                start).2.sink.stored.length :=
    exists_ok_and (by decide +kernel) (by decide +kernel)
  refine ⟨_, _, ⟨{ contents := none }, _, start, _, Prod.ext hcreate rfl, Prod.ext hcalls rfl, rfl⟩,
    ⟨{ contents := none }, _, start, _, Prod.ext hcreate rfl, Prod.ext hcalls' rfl, rfl⟩, rfl,
    fun hfile ↦ ?_⟩
  exact hlength.ne (congrArg List.length hfile)

end Writer

end Acta
