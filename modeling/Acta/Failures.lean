import Acta.Write.Progress

/-!
# What a failed call leaves behind

A sink that fails poisons the writer: every later call is refused and no further byte is written.  A
block whose frame cannot be built does not (`refusesAll_iff_builds`), although the documentation
of the writer says that a failed publication poisons it.
-/

namespace Acta

open Machine Wire

/-! ### A transform that cannot describe one value

A column of integers under the fixed delta-of-delta transform, which needs two values. -/

def deltaOptions (rowBlockTarget : ℕ) : WriterOptions where
  rowBlockTarget := rowBlockTarget
  encoding := .fixed .deltaOfDelta

/-- The writer of a new file. -/
def deltaWriter (rowBlockTarget : ℕ) : Result Writer :=
  (Writer.create storingZstd { contents := none } numberSchema (deltaOptions rowBlockTarget)).1

namespace Writer

variable (zstd : Zstd)

/-! ### A poisoned writer -/

/-- Every later call of the writer is refused as poisoned, and none writes a byte. -/
def RefusesAll (writer : Writer) : Prop :=
  ∀ later : List Call,
    (∀ result ∈ (runCalls zstd later writer).1, FailsWith .poisoned result) ∧
      (runCalls zstd later writer).2.sink.stored = writer.sink.stored

theorem runCalls_of_poisoned {writer : Writer} (h : writer.poisoned = true) (later : List Call) :
    runCalls zstd later writer = (later.map fun _ ↦ .error poisonedError, writer) := by
  induction later with
  | nil => rfl
  | cons c later ih => simp only [runCalls, call_of_poisoned zstd h, ih, List.map_cons]

/-- **A writer refuses every later call exactly when it is poisoned.**  A healthy one answers an
empty batch with an invalid argument. -/
theorem refusesAll_iff (writer : Writer) : RefusesAll zstd writer ↔ writer.poisoned = true := by
  constructor
  · intro hrefuses
    by_contra hpoisoned
    have hhealthy : writer.poisoned = false := by simpa using hpoisoned
    let empty : RecordBatch :=
      { schema := { schemaId := 0, columns := [], primaryColumnId := none }
        columns := [], rowCount := 0, fits := .nil }
    have hcheck : FailsWith .invalidArgument (writer.checkBatch empty) := by
      rw [checkBatch]
      by_cases hschema : empty.schema ≠ writer.schema
      · exact failsWith_failIf_bind hschema _
      · rw [failIf_neg hschema, ok_bind]
        exact failsWith_failIf_bind (show empty.rowCount = 0 from rfl) _
    obtain ⟨e, he, hkind⟩ := hcheck
    have happend : call zstd (.append empty) writer = (.error e, writer) := by
      show append zstd empty writer = _
      rw [append_of_healthy zstd hhealthy, he]
    have hresults : (runCalls zstd [.append empty] writer).1 = [.error e] := by
      simp only [runCalls, happend]
    have hfails := (hrefuses [.append empty]).1 (.error e)
      (by rw [hresults]; exact List.mem_singleton_self _)
    obtain ⟨e', he', hkind'⟩ := hfails
    cases he'
    rw [hkind] at hkind'
    cases hkind'
  · intro hpoisoned later
    rw [runCalls_of_poisoned zstd hpoisoned]
    refine ⟨?_, rfl⟩
    intro result hresult
    obtain ⟨-, -, rfl⟩ := List.mem_map.mp hresult
    exact ⟨poisonedError, rfl, rfl⟩

/-! ### A failed publication -/

/-- The frame of the buffered rows can be built. -/
def Builds (writer : Writer) : Prop :=
  ∃ frame, writer.bufferedFrame zstd = .ok frame

/-- A call fails while it publishes the nonempty buffer of `reached`, the writer it started from or
one it came to: the frame is not built, not written or not accounted for, or the sink is not flushed
or synchronized. -/
inductive FailsPublishing : Call → Writer → Writer → Prop
  | append {batch : RecordBatch} {writer reached left : Writer} {e : Error}
      (hhealthy : writer.poisoned = false) (hcheck : writer.checkBatch batch = .ok ())
      (hfails : AppendFails zstd batch writer reached e left)
      (hpublish : publishBuffer zstd reached = (.error e, left)) :
      FailsPublishing (.append batch) writer reached
  | flush {writer left : Writer} {e : Error} (hhealthy : writer.poisoned = false)
      (hfull : writer.buffer.isEmpty = false) (hfails : flush zstd writer = (.error e, left)) :
      FailsPublishing .flush writer writer
  | sync {writer left : Writer} {e : Error} (hhealthy : writer.poisoned = false)
      (hfull : writer.buffer.isEmpty = false) (hfails : sync zstd writer = (.error e, left)) :
      FailsPublishing .sync writer writer
  | finish {writer left : Writer} {e : Error} (hhealthy : writer.poisoned = false)
      (hfull : writer.buffer.isEmpty = false) (hfails : sync zstd writer = (.error e, left)) :
      FailsPublishing .finish writer writer

/-- A publication that fails poisons the writer exactly when the frame was built. -/
theorem poisoned_iff_of_publishBuffer {writer left : Writer} {e : Error}
    (hhealthy : writer.poisoned = false) (h : publishBuffer zstd writer = (.error e, left)) :
    left.poisoned = true ↔ writer.Builds zstd := by
  obtain ⟨-, ⟨hrefused, rfl⟩ | ⟨hbuilds, hpoisoned, -⟩⟩ := publishBuffer_eq_error zstd h
  · simp [Builds, hrefused, hhealthy]
  · exact iff_of_true hpoisoned hbuilds

theorem poisoned_of_requestSink {writer left : Writer} {e : Error}
    (h : requestSink writer = (.error e, left)) : left.poisoned = true := by
  unfold requestSink at h
  split at h
  · cases h
  · cases h
    rfl

/-- Where a nonempty buffer is published, its frame was built. -/
theorem builds_of_publishBuffer {writer next : Writer} (hfull : writer.buffer.isEmpty = false)
    (h : publishBuffer zstd writer = (.ok (), next)) : writer.Builds zstd := by
  obtain ⟨hempty, -, -⟩ | ⟨frame, counters, hwrote, -⟩ := publishBuffer_eq_ok zstd h
  · rw [hfull] at hempty
    cases hempty
  · exact ⟨frame, hwrote.builds⟩

theorem flush_of_healthy {writer : Writer} (hhealthy : writer.poisoned = false) :
    flush zstd writer = (publishBuffer zstd).andThen requestSink writer :=
  andThen_eq_of_ok (by simp [ensureHealthy, hhealthy])

/-- A flush that fails poisons the writer exactly when the frame was built. -/
theorem poisoned_iff_of_flush {writer left : Writer} {e : Error}
    (hhealthy : writer.poisoned = false) (hfull : writer.buffer.isEmpty = false)
    (h : flush zstd writer = (.error e, left)) : left.poisoned = true ↔ writer.Builds zstd := by
  rw [flush_of_healthy zstd hhealthy] at h
  cases hpublish : publishBuffer zstd writer with
  | mk result next =>
    cases result with
    | error e' =>
      rw [andThen_eq_error hpublish] at h
      cases h
      exact poisoned_iff_of_publishBuffer zstd hhealthy hpublish
    | ok u =>
      rw [andThen_eq_of_ok hpublish] at h
      exact iff_of_true (poisoned_of_requestSink h) (builds_of_publishBuffer zstd hfull hpublish)

theorem builds_of_flush {writer next : Writer} (hhealthy : writer.poisoned = false)
    (hfull : writer.buffer.isEmpty = false) (h : flush zstd writer = (.ok (), next)) :
    writer.Builds zstd := by
  rw [flush_of_healthy zstd hhealthy] at h
  cases hpublish : publishBuffer zstd writer with
  | mk result next =>
    cases result with
    | error e =>
      rw [andThen_eq_error hpublish] at h
      cases h
    | ok u => exact builds_of_publishBuffer zstd hfull hpublish

/-- A synchronization that fails poisons the writer exactly when the frame was built. -/
theorem poisoned_iff_of_sync {writer left : Writer} {e : Error}
    (hhealthy : writer.poisoned = false) (hfull : writer.buffer.isEmpty = false)
    (h : sync zstd writer = (.error e, left)) : left.poisoned = true ↔ writer.Builds zstd := by
  rw [sync] at h
  cases hflush : flush zstd writer with
  | mk result next =>
    cases result with
    | error e' =>
      rw [andThen_eq_error hflush] at h
      cases h
      exact poisoned_iff_of_flush zstd hhealthy hfull hflush
    | ok u =>
      rw [andThen_eq_of_ok hflush] at h
      cases hrequest : requestSink next with
      | mk result synced =>
        cases result with
        | error e' =>
          rw [andThen_eq_error hrequest] at h
          cases h
          exact iff_of_true (poisoned_of_requestSink hrequest)
            (builds_of_flush zstd hhealthy hfull hflush)
        | ok u =>
          rw [andThen_eq_of_ok hrequest] at h
          cases h

/-- **Which failed publications poison the writer.**  After a call that failed while publishing a
nonempty buffer, every later call is refused as poisoned and no further byte is written exactly when
the frame of that buffer could be built. -/
theorem refusesAll_iff_builds {c : Call} {writer reached : Writer}
    (h : FailsPublishing zstd c writer reached) :
    RefusesAll zstd (call zstd c writer).2 ↔ reached.Builds zstd := by
  rw [refusesAll_iff]
  cases h with
  | append hhealthy hcheck hfails hpublish =>
    have happend : call zstd (.append _) writer = (.error _, _) :=
      (append_eq zstd hhealthy hcheck).trans (appendFrom_of_appendFails zstd hfails)
    have hreached : reached.poisoned = false := by
      cases hfails with
      | unwritable before | full before | complete before =>
        rw [poisoned_of_appends zstd before, hhealthy]
    rw [happend]
    exact poisoned_iff_of_publishBuffer zstd hreached hpublish
  | flush hhealthy hfull hfails =>
    have hcall : call zstd .flush writer = _ := hfails
    rw [hcall]
    exact poisoned_iff_of_flush zstd hhealthy hfull hfails
  | sync hhealthy hfull hfails =>
    have hcall : call zstd .sync writer = _ := hfails
    rw [hcall]
    exact poisoned_iff_of_sync zstd hhealthy hfull hfails
  | finish hhealthy hfull hfails =>
    have hleft : (call zstd .finish writer).2 = _ :=
      show (finish zstd writer).2 = _ by rw [finish, andThen_eq_error hfails]
    rw [hleft]
    exact poisoned_iff_of_sync zstd hhealthy hfull hfails

/-- A block of one value is refused, and the writer still takes batches. -/
theorem refused_block_does_not_poison :
    ∃ opened, deltaWriter 65536 = .ok opened ∧
      (call storingZstd (.append oneNumber) opened).1 = .ok () ∧
        FailsPublishing storingZstd .flush (call storingZstd (.append oneNumber) opened).2
            (call storingZstd (.append oneNumber) opened).2 ∧
          ¬RefusesAll storingZstd
            (call storingZstd .flush (call storingZstd (.append oneNumber) opened).2).2 := by
  have hfacts : ∃ opened, deltaWriter 65536 = .ok opened ∧
      (append storingZstd oneNumber opened).1 = .ok () ∧
        (append storingZstd oneNumber opened).2.poisoned = false ∧
          (append storingZstd oneNumber opened).2.buffer.isEmpty = false ∧
            FailsWith .invalidArgument
                (flush storingZstd (append storingZstd oneNumber opened).2).1 ∧
              (flush storingZstd (append storingZstd oneNumber opened).2).2.poisoned = false :=
    exists_ok_and (by decide +kernel) (by decide +kernel)
  obtain ⟨opened, hopened, happend, hhealthy, hfull, ⟨e, hrefused, -⟩, hleft⟩ := hfacts
  refine ⟨opened, hopened, happend, .flush hhealthy hfull (Prod.ext hrefused rfl), ?_⟩
  rw [refusesAll_iff]
  exact fun hpoisoned ↦ by cases hleft.symm.trans hpoisoned

/-- A disk that takes a new file and has no room for a block. -/
def fullDisk : Disk where
  contents := none
  replies request := if request < 2 then .done else .refused 3 "No space left on device"

/-- The criterion at a block that is built and not written: every later call is refused. -/
theorem refusesAll_iff_builds_fullDisk :
    ∃ opened, (create storingZstd fullDisk numberSchema {}).1 = .ok opened ∧
      let reached := (call storingZstd (.append oneNumber) opened).2
      Builds storingZstd reached ∧ RefusesAll storingZstd (call storingZstd .flush reached).2 := by
  have hfacts : ∃ opened, (create storingZstd fullDisk numberSchema {}).1 = .ok opened ∧
      (append storingZstd oneNumber opened).2.poisoned = false ∧
        (append storingZstd oneNumber opened).2.buffer.isEmpty = false ∧
          ((append storingZstd oneNumber opened).2.bufferedFrame storingZstd).isOk = true ∧
            FailsWith .io (flush storingZstd (append storingZstd oneNumber opened).2).1 :=
    exists_ok_and (by decide +kernel) (by decide +kernel)
  obtain ⟨opened, hopened, hhealthy, hfull, hframe, e, hrefused, -⟩ := hfacts
  have hbuilds : Builds storingZstd (append storingZstd oneNumber opened).2 := exists_eq_ok hframe
  exact ⟨opened, hopened, hbuilds, (refusesAll_iff_builds storingZstd
    (.flush hhealthy hfull (Prod.ext hrefused rfl))).mpr hbuilds⟩

end Writer

end Acta
