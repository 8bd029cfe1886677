import Acta.Representation
import Acta.Write.Session

/-!
# The buffer of a writer

The buffer of every writer a session reaches is the one its chunks build up, pushed one after
another onto an empty buffer (`Assembled`): its row count, its footprints and its price say nothing
that the chunks do not say.  In particular a buffer that was just published is the buffer a new
writer starts with (`clear_ofChunks`).  The chunks are batches that passed the checks of an append,
or parts of them (`RecordBatch.Checked`).
-/

namespace Acta

open Machine Wire

/-! ### Checked chunks -/

/-- The rows of a part of an array are the rows of the array there. -/
theorem LogicalArray.valueAt_slice (array : LogicalArray) {start stop row : ℕ}
    (h : row < stop - start) :
    (array.slice start stop).valueAt row = array.valueAt (start + row) := by
  have hnull : (array.slice start stop).isNull row = array.isNull (start + row) := by
    show isNullAt (array.validity.map (Wire.slice · start (stop - start))) row = _
    rw [isNull]
    cases array.validity with
    | none => rfl
    | some bits => simp only [isNullAt, Option.map_some, Option.any_some, getElem?_slice bits h]
  have hvalue : (array.slice start stop).values[row]? = array.values[start + row]? :=
    getElem?_slice array.values h
  rw [valueAt, valueAt, hnull, hvalue]
  rfl

theorem LogicalArray.lt_len_of_valueAt {array : LogicalArray} {row : ℕ} {value : ScalarValue}
    (h : array.valueAt row = some value) : row < array.len := by
  rw [valueAt] at h
  split at h
  · cases h
  · obtain ⟨_, hvalue, -⟩ := Option.map_eq_some_iff.mp h
    exact (List.getElem?_eq_some_iff.mp hvalue).1

/-- No row of a part of an array lies past its end. -/
theorem LogicalArray.valueAt_slice_of_le (array : LogicalArray) {start stop row : ℕ}
    (h : stop - start ≤ row) : (array.slice start stop).valueAt row = none := by
  have hvalue : (array.slice start stop).values[row]? = none := by
    refine List.getElem?_eq_none ?_
    show (Wire.slice array.values start (stop - start)).length ≤ row
    rw [length_slice]
    omega
  rw [valueAt, hvalue]
  split <;> rfl

namespace RecordBatch

/-- Rows that passed the checks of an append. -/
structure Checked (schema : Schema) (batch : RecordBatch) : Prop where
  declares : batch.Declares schema
  rows_pos : 0 < batch.rowCount
  values : ∀ {index : ℕ} {column : Column} {array : LogicalArray},
    schema.columns[index]? = some column → batch.column index = some array →
      ∀ row value, array.valueAt row = some value → Write.validateScalar column value = .ok ()

/-- A part of checked rows is checked. -/
theorem Checked.slice {schema : Schema} {batch : RecordBatch} (h : batch.Checked schema)
    {start stop : ℕ} (hrange : start < stop) (hstop : stop ≤ batch.rowCount) :
    (batch.slice start stop).Checked schema := by
  refine ⟨h.declares.slice start stop, ?_, ?_⟩
  · rw [rowCount_slice hstop]
    omega
  · intro index column array hcolumn harray row value hvalue
    have hmapped : (batch.columns.map (·.slice start stop))[index]? = some array := harray
    rw [List.getElem?_map, Option.map_eq_some_iff] at hmapped
    obtain ⟨whole, hwhole, rfl⟩ := hmapped
    rcases Nat.lt_or_ge row (stop - start) with hrow | hrow
    · rw [LogicalArray.valueAt_slice whole hrow] at hvalue
      exact h.values hcolumn hwhole _ value hvalue
    · rw [LogicalArray.valueAt_slice_of_le whole hrow] at hvalue
      cases hvalue

end RecordBatch

/-- An array that passed the checks of its column has the representation the column declares. -/
theorem Write.type_of_validateArray {column : Column} {array : LogicalArray} {rowCount : ℕ}
    (h : validateArray column array rowCount = .ok ()) :
    array.type = column.logicalType.arrayType := by
  obtain ⟨validity, hdeclared, -⟩ := bind_eq_ok.mp h
  obtain ⟨_, htype, -⟩ := bind_eq_ok.mp hdeclared
  rw [failIf_eq_ok] at htype
  exact not_not.mp htype

/-- **The checks of an append** establish what a block needs of its rows. -/
theorem Writer.checked_of_checkBatch {writer : Writer} {batch : RecordBatch}
    (h : writer.checkBatch batch = .ok ()) : batch.Checked writer.schema := by
  have hpos := rowCount_pos_of_checkBatch h
  obtain ⟨_, hschema, h⟩ := bind_eq_ok.mp h
  obtain ⟨_, -, hinput⟩ := bind_eq_ok.mp h
  rw [failIf_eq_ok, not_not] at hschema
  have hcolumns : ∀ index column, writer.schema.columns[index]? = some column →
      ∃ array, batch.column index = some array ∧
        Write.validateArray column array batch.rowCount = .ok () ∧
          Write.validateValues column array batch.rowCount = .ok () := by
    intro index column hcolumn
    have hentry : (column, index) ∈ writer.schema.columns.zipIdx :=
      List.mem_zipIdx_iff_getElem?.mpr hcolumn
    have hchecked := forM_eq_ok.mp hinput _ hentry
    obtain ⟨array, harray, hchecked⟩ := bind_eq_ok.mp hchecked
    obtain ⟨_, hshape, hvalues⟩ := bind_eq_ok.mp hchecked
    exact ⟨array, okOr_eq_ok.mp harray, hshape, hvalues⟩
  have hlength : writer.schema.columns.length = batch.columns.length := by
    rw [← hschema]
    exact batch.fits.length_eq
  have hdeclares : batch.Declares writer.schema := by
    refine ⟨hschema, List.forall₂_iff_get.mpr ⟨hlength, fun index hindex hindex' ↦ ?_⟩⟩
    obtain ⟨array, harray, hshape, -⟩ := hcolumns index _ (List.getElem?_eq_getElem hindex)
    have hsame : batch.columns[index] = array :=
      Option.some.inj ((List.getElem?_eq_getElem hindex').symm.trans harray)
    show batch.columns[index].type = _
    rw [hsame]
    exact Write.type_of_validateArray hshape
  refine ⟨hdeclares, hpos, fun {index column array} hcolumn harray row value hvalue ↦ ?_⟩
  obtain ⟨checked, hchecked, -, hvalues⟩ := hcolumns index column hcolumn
  obtain ⟨fitting, hfitting, -, hfits⟩ := hdeclares.column_eq_some hcolumn
  obtain rfl : checked = array := Option.some.inj (hchecked.symm.trans harray)
  obtain rfl : fitting = checked := Option.some.inj (hfitting.symm.trans harray)
  have hrow : row < batch.rowCount := by
    rw [← hfits.len]
    exact LogicalArray.lt_len_of_valueAt hvalue
  have hscalar := forM_eq_ok.mp hvalues row (List.mem_range.mpr hrow)
  rwa [hvalue] at hscalar

/-! ### The buffer and its chunks -/

namespace BlockBuffer

/-- The buffer that chunks build up. -/
def ofChunks (schema : Schema) (statistics : WriterStatistics) (chunks : List RecordBatch) :
    BlockBuffer :=
  chunks.foldl (·.push schema ·) (newWithStatistics schema.columns.length statistics)

variable (schema : Schema) (statistics : WriterStatistics)

theorem ofChunks_append (chunks : List RecordBatch) (chunk : RecordBatch) :
    ofChunks schema statistics (chunks ++ [chunk]) =
      (ofChunks schema statistics chunks).push schema chunk := by
  rw [ofChunks, List.foldl_append]
  rfl

/-- What chunks build up, read back field by field. -/
theorem ofChunks_fields (chunks : List RecordBatch) :
    (ofChunks schema statistics chunks).chunks = chunks ∧
      (ofChunks schema statistics chunks).rows = (chunks.map RecordBatch.rowCount).sum ∧
        (ofChunks schema statistics chunks).statistics = statistics := by
  induction chunks using List.reverseRecOn with
  | nil => exact ⟨rfl, rfl, rfl⟩
  | append_singleton chunks chunk ih =>
    obtain ⟨hchunks, hrows, hstatistics⟩ := ih
    rw [ofChunks_append]
    refine ⟨?_, ?_, hstatistics⟩
    · show (ofChunks schema statistics chunks).chunks ++ [chunk] = _
      rw [hchunks]
    · show (ofChunks schema statistics chunks).rows + chunk.rowCount = _
      rw [hrows, List.map_append, List.sum_append]
      rfl

/-- There is a footprint for every column. -/
theorem length_footprints {chunks : List RecordBatch}
    (h : ∀ chunk ∈ chunks, chunk.schema = schema) :
    (ofChunks schema statistics chunks).footprints.length = schema.columns.length := by
  induction chunks using List.reverseRecOn with
  | nil => exact List.length_replicate
  | append_singleton chunks chunk ih =>
    rw [ofChunks_append]
    have hbefore := ih fun other hother ↦ h other (List.mem_append_left _ hother)
    have hcolumns : schema.columns.length = chunk.columns.length := by
      rw [← h chunk (List.mem_append_right _ (List.mem_singleton_self _))]
      exact chunk.fits.length_eq
    show (List.zipWith _ (ofChunks schema statistics chunks).footprints chunk.columns).length = _
    rw [List.length_zipWith, hbefore, ← hcolumns, Nat.min_self]

/-- **A published buffer is the buffer a new writer starts with.** -/
theorem clear_ofChunks {chunks : List RecordBatch} (h : ∀ chunk ∈ chunks, chunk.schema = schema) :
    (ofChunks schema statistics chunks).clear = ofChunks schema statistics [] := by
  obtain ⟨-, -, hstatistics⟩ := ofChunks_fields schema statistics chunks
  have hfootprints := length_footprints schema statistics h
  have hcleared : (ofChunks schema statistics chunks).footprints.map
      (fun _ ↦ ({} : ColumnFootprint)) = List.replicate schema.columns.length {} := by
    rw [List.map_const', hfootprints]
  show BlockBuffer.mk [] 0 _ {} _ = newWithStatistics schema.columns.length statistics
  rw [hcleared, hstatistics]
  rfl

end BlockBuffer

namespace Writer

variable (zstd : Zstd)

/-- A writer whose buffer is the one its checked chunks build up. -/
structure Assembled (writer : Writer) : Prop where
  buffer : writer.buffer =
    .ofChunks writer.schema writer.options.statistics writer.buffer.chunks
  checked : ∀ chunk ∈ writer.buffer.chunks, chunk.Checked writer.schema

variable {writer : Writer}

theorem Assembled.rows_eq (h : Assembled writer) :
    writer.buffer.rows = (writer.buffer.chunks.map RecordBatch.rowCount).sum := by
  have hrows := (BlockBuffer.ofChunks_fields writer.schema writer.options.statistics
    writer.buffer.chunks).2.1
  rwa [← h.buffer] at hrows

/-- A buffer without rows is the buffer a new writer starts with. -/
theorem Assembled.buffer_of_isEmpty (h : Assembled writer) (hempty : writer.buffer.isEmpty = true) :
    writer.buffer = .ofChunks writer.schema writer.options.statistics [] := by
  have hchunks : writer.buffer.chunks = [] := by
    rcases hcase : writer.buffer.chunks with - | ⟨chunk, chunks⟩
    · rfl
    · have hpos := (h.checked chunk (by rw [hcase]; exact List.mem_cons_self)).rows_pos
      have hrows := h.rows_eq
      have hzero : writer.buffer.rows = 0 := of_decide_eq_true hempty
      rw [hcase, List.map_cons, List.sum_cons] at hrows
      omega
  rw [h.buffer, hchunks]

theorem Assembled.push (h : Assembled writer) {chunk : RecordBatch}
    (hchunk : chunk.Checked writer.schema) : Assembled (writer.push chunk) := by
  have hchunks : (writer.buffer.push writer.schema chunk).chunks =
      writer.buffer.chunks ++ [chunk] := rfl
  constructor
  · show writer.buffer.push writer.schema chunk =
      .ofChunks writer.schema writer.options.statistics
        (writer.buffer.push writer.schema chunk).chunks
    rw [hchunks, BlockBuffer.ofChunks_append, ← h.buffer]
  · intro other hother
    rcases List.mem_append.mp hother with hmem | hmem
    · exact h.checked other hmem
    · obtain rfl := List.mem_singleton.mp hmem
      exact hchunk

/-- A writer with nothing in its buffer. -/
theorem assembled_of_new (h : writer.buffer =
    .ofChunks writer.schema writer.options.statistics []) : Assembled writer := by
  have hchunks : writer.buffer.chunks = [] := by rw [h]; rfl
  refine ⟨by rw [hchunks]; exact h, fun chunk hchunk ↦ ?_⟩
  rw [hchunks] at hchunk
  cases hchunk

/-- The buffer after a publication that succeeds. -/
theorem Assembled.buffer_of_publishBuffer {next : Writer} (h : Assembled writer)
    (hpublish : publishBuffer zstd writer = (.ok (), next)) :
    next.buffer = .ofChunks next.schema next.options.statistics [] := by
  obtain ⟨hempty, rfl, -⟩ | ⟨frame, counters, hwrote, -⟩ := publishBuffer_eq_ok zstd hpublish
  · exact h.buffer_of_isEmpty hempty
  · rw [hwrote.next_eq]
    show writer.buffer.clear = _
    have hclear := BlockBuffer.clear_ofChunks writer.schema writer.options.statistics
      fun chunk hchunk ↦ (h.checked chunk hchunk).declares.schema_eq
    rwa [← h.buffer] at hclear

theorem Assembled.of_publishBuffer {next : Writer} (h : Assembled writer)
    (hpublish : publishBuffer zstd writer = (.ok (), next)) : Assembled next :=
  assembled_of_new (h.buffer_of_publishBuffer zstd hpublish)

theorem Assembled.of_publishIfComplete {next : Writer} (h : Assembled writer)
    (hpublish : publishIfComplete zstd writer = (.ok (), next)) : Assembled next := by
  rcases publishIfComplete_eq_ok zstd hpublish with rfl | hpublish
  · exact h
  · exact h.of_publishBuffer zstd hpublish

/-- **The buffers an append passes through** are the ones their chunks build up. -/
theorem Assembled.of_appends {batch : RecordBatch} {start : Writer} {stage : AppendStage}
    {consumed : ℕ} {blocks : List PublishedBlock} (h : Assembled start)
    (hbatch : batch.Checked start.schema)
    (happends : Appends zstd batch start stage consumed blocks writer) : Assembled writer := by
  induction happends with
  | start => exact h
  | full before hmore hfull hpublish ih => exact ih.of_publishBuffer zstd hpublish
  | take before hmore hfits ih =>
    rename_i consumed count blocks writer
    have hle := add_le_of_fittingPrefix (Nat.le_of_lt hmore) hfits
    refine ih.push ?_
    rw [(kept_of_appends zstd before).1]
    exact hbatch.slice (by omega) hle
  | complete before hpublish ih => exact ih.of_publishIfComplete zstd hpublish

/-! ### What every session keeps -/

/-- What every step of a session keeps, as long as nothing poisons the writer. -/
structure Stable (P : Writer → Prop) : Prop where
  publish : ∀ {writer next : Writer}, P writer → publishBuffer zstd writer = (.ok (), next) → P next
  push : ∀ {writer : Writer} {chunk : RecordBatch}, P writer → chunk.Checked writer.schema →
    P (writer.push chunk)
  asked : ∀ {writer : Writer}, P writer →
    P { writer with sink := { writer.sink with calls := writer.sink.calls + 1 } }
  durable : ∀ {writer : Writer}, P writer →
    P { writer with durableRows := writer.publishedRows, durableBytes := writer.publishedBytes }

/-- How a step can end: a stable property holds still, or the writer is poisoned, with the file as
it was or with what the sink took of one more frame. -/
inductive Ends (P : Writer → Prop) (publishes : Writer → Prop) (next : Writer) : Prop
  | holds (h : P next)
  /-- The sink refused a request. -/
  | refused {reached : Writer} (h : P reached) (hpoisoned : next.poisoned = true)
      (hstored : next.sink.stored = reached.sink.stored)
  /-- A frame was not written, or not accounted for. -/
  | torn {reached : Writer} {frame : Bytes} (h : P reached) (hpoisoned : next.poisoned = true)
      (hpublishes : publishes reached) (hfull : reached.buffer.isEmpty = false)
      (hframe : reached.bufferedFrame zstd = .ok frame)
      (hstored : next.sink.stored = reached.sink.stored ++ reached.sink.taken frame)

/-- What a step leaves: the property where it succeeds, and one of the ends in any case. -/
structure Leaves (P : Writer → Prop) (publishes : Writer → Prop) (step : WriterStep)
    (writer : Writer) : Prop where
  ok : ∀ {next : Writer}, step writer = (.ok (), next) → P next
  ends : Ends zstd P publishes (step writer).2

variable {zstd} {P publishes : Writer → Prop}

/-- Two steps, one after the other. -/
theorem Leaves.andThen {first second : WriterStep} (hfirst : Leaves zstd P publishes first writer)
    (hsecond : ∀ next, P next → Leaves zstd P publishes second next) :
    Leaves zstd P publishes (first.andThen second) writer := by
  rcases hstep : first writer with ⟨e | u, next⟩
  · have hsame : first.andThen second writer = (.error e, next) := andThen_eq_error hstep
    have hends := hfirst.ends
    constructor
    · intro last hlast
      rw [hsame] at hlast
      cases hlast
    · rw [hstep] at hends
      rw [hsame]
      exact hends
  · have hsame : first.andThen second writer = second next := andThen_eq_of_ok hstep
    have hnext := hsecond next (hfirst.ok hstep)
    constructor
    · intro last hlast
      rw [hsame] at hlast
      exact hnext.ok hlast
    · rw [hsame]
      exact hnext.ends

/-- A step that is refused where the writer is poisoned. -/
theorem Leaves.ifHealthy {step : WriterStep} (hwriter : P writer)
    (h : Leaves zstd P publishes step writer) :
    Leaves zstd P publishes (ensureHealthy.andThen step) writer := by
  rcases hhealthy : writer.poisoned with - | -
  · have hsame : ensureHealthy.andThen step writer = step writer :=
      andThen_eq_of_ok (by rw [ensureHealthy, hhealthy]; rfl)
    constructor
    · intro next hnext
      rw [hsame] at hnext
      exact h.ok hnext
    · rw [hsame]
      exact h.ends
  · have hsame := ensureHealthy_andThen hhealthy step
    constructor
    · intro next hnext
      rw [hsame] at hnext
      cases hnext
    · rw [hsame]
      exact .holds hwriter

namespace Stable

variable (h : Stable zstd P)

include h

theorem leaves_publishBuffer (hwriter : P writer) (hpublishes : publishes writer) :
    Leaves zstd P publishes (publishBuffer zstd) writer := by
  refine ⟨fun hstep ↦ h.publish hwriter hstep, ?_⟩
  rcases hpublish : publishBuffer zstd writer with ⟨e | u, next⟩
  · rcases stored_of_publishBuffer_error zstd hpublish with
      rfl | ⟨hfull, frame, hframe, hpoisoned, hstored⟩
    · exact .holds hwriter
    · exact .torn hwriter hpoisoned hpublishes hfull hframe hstored
  · exact .holds (h.publish hwriter hpublish)

theorem leaves_requestSink (hwriter : P writer) : Leaves zstd P publishes requestSink writer := by
  rcases requestSink_eq writer with ⟨e, heq⟩ | heq
  · constructor
    · intro next hstep
      rw [heq] at hstep
      cases hstep
    · rw [heq]
      exact .refused hwriter rfl rfl
  · constructor
    · intro next hstep
      rw [heq] at hstep
      cases hstep
      exact h.asked hwriter
    · rw [heq]
      exact .holds (h.asked hwriter)

theorem leaves_markDurable (hwriter : P writer) : Leaves zstd P publishes markDurable writer := by
  refine ⟨fun hstep ↦ ?_, .holds (h.durable hwriter)⟩
  cases hstep
  exact h.durable hwriter

/-- The release of the lock poisons nothing. -/
theorem leaves_releaseLock (hwriter : P writer) : Leaves zstd P publishes releaseLock writer := by
  have hreleased : P (releaseLock writer).2 := by
    rw [releaseLock, Sink.request]
    cases writer.sink.replies writer.sink.calls with
    | done => exact h.asked hwriter
    | refused stored message => exact h.asked hwriter
  refine ⟨fun hstep ↦ ?_, .holds hreleased⟩
  rwa [hstep] at hreleased

/-- **The writers an append passes through keep it.** -/
theorem of_appends {batch : RecordBatch} {start : Writer} {stage : AppendStage} {consumed : ℕ}
    {blocks : List PublishedBlock} (hstart : P start) (hbatch : batch.Checked start.schema)
    (happends : Appends zstd batch start stage consumed blocks writer) : P writer := by
  induction happends with
  | start => exact hstart
  | full before hmore hfull hpublish ih => exact h.publish ih hpublish
  | take before hmore hfits ih =>
    have hle := add_le_of_fittingPrefix (Nat.le_of_lt hmore) hfits
    refine h.push ih ?_
    rw [(kept_of_appends zstd before).1]
    exact hbatch.slice (by omega) hle
  | complete before hpublish ih =>
    rcases publishIfComplete_eq_ok zstd hpublish with rfl | hpublish
    · exact ih
    · exact h.publish ih hpublish

theorem leaves_append (hwriter : P writer) (batch : RecordBatch) :
    Leaves zstd P (Publishes zstd writer (.append batch)) (append zstd batch) writer := by
  have hok {next : Writer} (happend : append zstd batch writer = (.ok (), next)) : P next := by
    obtain ⟨-, hcheck, blocks, happends⟩ := append_eq_ok zstd happend
    exact h.of_appends hwriter (checked_of_checkBatch hcheck) happends
  refine ⟨hok, ?_⟩
  rcases happend : append zstd batch writer with ⟨e | u, next⟩
  · rcases append_eq_error zstd happend with ⟨-, -, rfl⟩ | ⟨-, rfl⟩ | ⟨hcheck, reached, hfails⟩
    · exact .holds hwriter
    · exact .holds hwriter
    have hbatch := checked_of_checkBatch hcheck
    have hpublish {reached left : Writer} {e : Error} (hreached : P reached)
        (hpublishes : Publishes zstd writer (.append batch) reached)
        (hpublish : publishBuffer zstd reached = (.error e, left)) :
        Ends zstd P (Publishes zstd writer (.append batch)) left := by
      have hends := (h.leaves_publishBuffer hreached hpublishes).ends
      rwa [hpublish] at hends
    cases hfails with
    | unwritable before hmore hfit => exact .holds (h.of_appends hwriter hbatch before)
    | full before hmore hfull hpublish' =>
      exact hpublish (h.of_appends hwriter hbatch before) (.full before hmore hfull) hpublish'
    | complete before hcomplete hpublish' =>
      exact hpublish (h.of_appends hwriter hbatch before) (.complete before hcomplete) hpublish'
  · exact .holds (hok happend)

theorem leaves_flush (hwriter : P writer) (hpublishes : publishes writer) :
    Leaves zstd P publishes (flush zstd) writer :=
  .ifHealthy hwriter
    ((h.leaves_publishBuffer hwriter hpublishes).andThen fun _ ↦ h.leaves_requestSink)

theorem leaves_sync (hwriter : P writer) (hpublishes : publishes writer) :
    Leaves zstd P publishes (sync zstd) writer :=
  (h.leaves_flush hwriter hpublishes).andThen fun _ hflushed ↦
    (h.leaves_requestSink hflushed).andThen fun _ ↦ h.leaves_markDurable

/-- **A call leaves a stable property as it was**, or a poisoned writer. -/
theorem leaves_call (hwriter : P writer) (c : Call) :
    Leaves zstd P (Publishes zstd writer c) (call zstd c) writer := by
  cases c with
  | append batch => exact h.leaves_append hwriter batch
  | flush => exact h.leaves_flush hwriter .flush
  | sync => exact h.leaves_sync hwriter .sync
  | finish =>
    have hfinish : Leaves zstd P (Publishes zstd writer .finish) ((sync zstd).andThen releaseLock)
        writer :=
      (h.leaves_sync hwriter .finish).andThen fun _ ↦ h.leaves_releaseLock
    have hsame : (call zstd .finish writer).2 = ((sync zstd).andThen releaseLock writer).2 :=
      finish_snd zstd writer
    refine ⟨fun hstep ↦ hfinish.ok ((call_finish_eq_ok zstd).mp hstep), ?_⟩
    rw [hsame]
    exact hfinish.ends

/-- **A session keeps a stable property** until it is poisoned. -/
theorem of_runs {start : Writer} (hstart : P start) {allowed : Writer → Call → Prop}
    {calls : List (Call × Result Unit)} (hruns : Runs zstd allowed start calls writer) :
    P writer ∨ writer.poisoned = true := by
  induction hruns with
  | start => exact .inl hstart
  | call before hallowed hcall ih =>
    rename_i c result
    rcases ih with hkept | hpoisoned
    · have hends := (h.leaves_call hkept c).ends
      rw [hcall] at hends
      cases hends with
      | holds hnext => exact .inl hnext
      | refused _ hpoisoned _ => exact .inr hpoisoned
      | torn _ hpoisoned _ _ _ _ => exact .inr hpoisoned
    · rw [call_of_poisoned zstd hpoisoned] at hcall
      cases hcall
      exact .inr hpoisoned

end Stable

/-- The buffers of a session are the ones their chunks build up. -/
theorem assembled_stable : Stable zstd Assembled where
  publish := Assembled.of_publishBuffer zstd
  push h := h.push
  asked h := ⟨h.buffer, h.checked⟩
  durable h := ⟨h.buffer, h.checked⟩

end Writer

end Acta
