import Acta.Write.History
import Mathlib.Algebra.BigOperators.Group.List.Basic
import Mathlib.Algebra.Order.Ring.Int

/-!
# The walk tiles the file

The frames a walk visits lie end to end from the offset it resumes at, and its counters are the
numbers of these frames: how many there are, how many bytes they take and how many rows they hold.
`Placed` says where one visited frame lies among the others, and `Walked` ties the counters of the
loop to the frames visited so far.

A frame takes eighty bytes at least, so the walk ends within as many turns as eighty bytes fit the
rest of the file, whatever lengths the frames declare (`walkTurns`).
-/

namespace Acta

open Machine

namespace FileScan

variable {σ : Type}

/-- A data frame that was visited, with its block. -/
abbrev Visited := FrameMetadata × DataFrameMetadata

/-- How many bytes the visited frames take. -/
def bytesOf (visits : List Visited) : ℕ := (visits.map fun visited ↦ visited.1.totalLength).sum

/-- How many rows the visited frames hold. -/
def rowsOf (visits : List Visited) : ℕ := (visits.map fun visited ↦ visited.2.rowCount).sum

theorem bytesOf_concat (visits : List Visited) (visited : Visited) :
    bytesOf (visits ++ [visited]) = bytesOf visits + visited.1.totalLength := by
  rw [bytesOf, List.map_append, List.sum_append, List.map_singleton, List.sum_singleton]
  rfl

theorem rowsOf_concat (visits : List Visited) (visited : Visited) :
    rowsOf (visits ++ [visited]) = rowsOf visits + visited.2.rowCount := by
  rw [rowsOf, List.map_append, List.sum_append, List.map_singleton, List.sum_singleton]
  rfl

/-- The row ID of the next block, after some visits.  A chain of row IDs begins at the first
block. -/
def rowIdAfter (scan : FileScan) (resume : ResumePoint) (visits : List Visited) : Option ℕ :=
  if scan.rowIdsEnabled = true ∧ visits ≠ [] then
    some (resume.expectedBaseRowId.getD firstBaseRowId + rowsOf visits)
  else
    resume.expectedBaseRowId

/-- Where a visited frame lies, after the frames that were visited before it. -/
structure Placed (scan : FileScan) (resume : ResumePoint) (before : List Visited)
    (visited : Visited) : Prop where
  frameOffset : visited.1.frameOffset = resume.offset + bytesOf before
  sequence : visited.1.sequence = resume.sequence + before.length
  baseRowId : visited.2.baseRowId =
    if scan.rowIdsEnabled then
      some (resume.expectedBaseRowId.getD firstBaseRowId + rowsOf before)
    else
      none
  length_le : prefixSize + trailerSize ≤ visited.1.totalLength
  inside : visited.1.frameOffset + visited.1.totalLength ≤ scan.fileSize

/-- The state of a walk after some visits. -/
structure Walked (scan : FileScan) (resume : ResumePoint) (visits : List Visited)
    (state : WalkState σ) : Prop where
  offset : state.offset = resume.offset + bytesOf visits
  offset_le : state.offset ≤ scan.fileSize
  sequence : state.sequence = resume.sequence + visits.length
  frameCount : state.frameCount = resume.frameCount + visits.length
  rowId : state.expectedBaseRowId = rowIdAfter scan resume visits
  scanned : state.frameBytesScanned = bytesOf visits
  placed : ∀ before visited after, visits = before ++ visited :: after →
    Placed scan resume before visited

theorem walked_startAt {scan : FileScan} {resume : ResumePoint}
    (h : resume.offset ≤ scan.fileSize) (visited : σ) :
    Walked scan resume [] (startAt resume visited) where
  offset := rfl
  offset_le := h
  sequence := rfl
  frameCount := rfl
  rowId := (if_neg fun hnil ↦ hnil.2 rfl).symm
  scanned := rfl
  placed before visited after hsplit := absurd hsplit.symm (by simp)

/-- The row ID that the next block must carry goes on from the blocks before. -/
theorem getD_rowIdAfter {scan : FileScan} (henabled : scan.rowIdsEnabled = true)
    (resume : ResumePoint) (visits : List Visited) :
    (rowIdAfter scan resume visits).getD firstBaseRowId =
      resume.expectedBaseRowId.getD firstBaseRowId + rowsOf visits := by
  rw [rowIdAfter]
  by_cases hnil : visits = []
  · rw [if_neg fun h ↦ h.2 hnil, hnil]
    rfl
  · rw [if_pos ⟨henabled, hnil⟩, Option.getD_some]

/-- The row IDs of the block that a turn visits, and of the block after it. -/
theorem StepsTo.rowIds {scan : FileScan} {visit : Visit σ} {state next : WalkState σ}
    {frame : FrameMetadata} {block : DataFrameMetadata}
    (h : StepsTo scan visit state next frame block) :
    if scan.rowIdsEnabled then
      block.baseRowId = some (state.expectedBaseRowId.getD firstBaseRowId) ∧
        next.expectedBaseRowId =
          some (state.expectedBaseRowId.getD firstBaseRowId + block.rowCount)
    else
      block.baseRowId = none ∧ next.expectedBaseRowId = state.expectedBaseRowId := by
  have hparsed := baseRowId_of_parse h.parse
  have hnext := h.baseRowId
  rw [nextBaseRowId] at hnext
  by_cases henabled : scan.rowIdsEnabled = true
  · rw [if_pos henabled]
    rw [if_pos (of_decide_eq_true henabled)] at hparsed
    rw [hparsed] at hnext
    obtain ⟨rowId, hadd, hnext⟩ := bind_eq_ok.mp hnext
    obtain ⟨-, rfl⟩ := checkedAdd_eq_some.mp (okOr_eq_ok.mp hadd)
    exact ⟨hparsed, (Except.ok.inj hnext).symm⟩
  · rw [if_neg henabled]
    rw [if_neg fun hflag ↦ henabled (decide_eq_true hflag)] at hparsed
    rw [hparsed] at hnext
    exact ⟨hparsed, (Except.ok.inj hnext).symm⟩

/-- **A turn of the walk visits the frame that lies next.** -/
theorem Walked.step {scan : FileScan} {resume : ResumePoint} {visits : List Visited}
    {visit : Visit σ} {state next : WalkState σ} {frame : FrameMetadata} {block : DataFrameMetadata}
    (h : Walked scan resume visits state) (hsteps : StepsTo scan visit state next frame block) :
    Walked scan resume (visits ++ [(frame, block)]) next := by
  obtain ⟨hoffset, hsequence, hlength, hinside⟩ := Frame.totalLength_of_complete hsteps.read
  have hrowIds := hsteps.rowIds
  have hbase : block.baseRowId = if scan.rowIdsEnabled then
      some (resume.expectedBaseRowId.getD firstBaseRowId + rowsOf visits) else none := by
    by_cases henabled : scan.rowIdsEnabled = true
    · rw [if_pos henabled, h.rowId, getD_rowIdAfter henabled] at hrowIds
      rw [if_pos henabled, hrowIds.1]
    · rw [if_neg henabled] at hrowIds ⊢
      exact hrowIds.1
  have hrowId : next.expectedBaseRowId = rowIdAfter scan resume (visits ++ [(frame, block)]) := by
    by_cases henabled : scan.rowIdsEnabled = true
    · have hne : visits ++ [(frame, block)] ≠ [] := List.append_ne_nil_of_right_ne_nil _ (by simp)
      rw [if_pos henabled, h.rowId, getD_rowIdAfter henabled] at hrowIds
      rw [rowIdAfter, if_pos ⟨henabled, hne⟩, hrowIds.2, rowsOf_concat, Nat.add_assoc]
    · rw [if_neg henabled, h.rowId, rowIdAfter, if_neg fun hboth ↦ henabled hboth.1] at hrowIds
      rw [rowIdAfter, if_neg fun hboth ↦ henabled hboth.1, hrowIds.2]
  refine ⟨?_, ?_, ?_, ?_, hrowId, ?_, ?_⟩
  · rw [hsteps.offset, h.offset, bytesOf_concat, Nat.add_assoc]
  · rw [hsteps.offset]
    exact hinside
  · rw [hsteps.sequence, h.sequence, List.length_append]
    rfl
  · rw [hsteps.frameCount, h.frameCount, List.length_append]
    rfl
  · rw [hsteps.scanned, h.scanned, bytesOf_concat]
  · intro before visited after hsplit
    rcases List.eq_nil_or_concat after with rfl | ⟨between, last, rfl⟩
    · -- The last of the visits is the new one.
      obtain ⟨rfl, hlast⟩ := List.append_inj' hsplit rfl
      cases hlast
      exact ⟨hoffset.trans h.offset, hsequence.trans h.sequence, hbase, hlength,
        by rw [hoffset]; exact hinside⟩
    · rw [List.concat_eq_append, ← List.cons_append, ← List.append_assoc] at hsplit
      exact h.placed before visited between (List.append_inj' hsplit rfl).1

/-- Hand the visited frames to a caller, one after another. -/
def visitAll (visit : Visit σ) (visits : List Visited) (visited : σ) : Result σ :=
  visits.foldlM (fun seen entry ↦ visit seen entry.1 entry.2) visited

/-- **Every state of a walk is tied to the frames visited so far**, which are those the caller was
handed. -/
theorem exists_walked {scan : FileScan} {resume : ResumePoint}
    (hinside : resume.offset ≤ scan.fileSize) {visit : Visit σ} {visited : σ} {state : WalkState σ}
    (h : (scan.frames visit).Reaches scan.fileSize (startAt resume visited) state) :
    ∃ visits, visitAll visit visits visited = .ok state.visited ∧
      Walked scan resume visits state := by
  refine h.invariant (P := fun state ↦ ∃ visits, visitAll visit visits visited = .ok state.visited ∧
    Walked scan resume visits state) ?_ ⟨[], rfl, walked_startAt hinside visited⟩
  rintro state next ⟨-, hstep⟩ ⟨visits, hvisits, hwalked⟩
  obtain ⟨frame, block, hsteps⟩ := stepFrame_eq_some.mp hstep
  refine ⟨visits ++ [(frame, block)], ?_, hwalked.step hsteps⟩
  rw [visitAll] at hvisits
  rw [visitAll, List.foldlM_append, hvisits, ok_bind, List.foldlM_cons, hsteps.visit, ok_bind]
  rfl

/-- The walk as a loop of a bounded number of turns.  There is no result where the turns run out. -/
def walkTurns (scan : FileScan) (resume : ResumePoint) (visit : Visit σ) (visited : σ)
    (turns : ℕ) : Option (Result (Walk × σ)) := do
  let outcome ← (scan.frames visit).loop scan.fileSize turns (startAt resume visited)
  return do
    let (state, incompleteTail) ← outcome
    return (walkOf state incompleteTail, state.visited)

/-- **The walk ends**: a turn that goes on takes a whole frame, so there are no more turns than
least frames fit the rest of the file. -/
theorem walkTurns_eq {scan : FileScan} {resume : ResumePoint} {turns : ℕ}
    (h : scan.fileSize ≤ resume.offset + (prefixSize + trailerSize) * turns) (visit : Visit σ)
    (visited : σ) : scan.walkTurns resume visit visited turns =
      some (scan.walkDataFramesFrom resume visit visited) := by
  have hstride : ∀ state next, (scan.frames visit).step state = .ok (some next) →
      state.offset + (prefixSize + trailerSize) ≤ next.offset := by
    intro state next hstep
    obtain ⟨frame, block, hsteps⟩ := stepFrame_eq_some.mp hstep
    obtain ⟨-, -, hlength, -⟩ := Frame.totalLength_of_complete hsteps.read
    rw [hsteps.offset]
    omega
  have hloop : (scan.frames visit).loop scan.fileSize turns (startAt resume visited) = _ :=
    LogScan.loop_eq_run hstride h
  rw [walkTurns, hloop]
  rfl

/-- **The walk tiles the file.**  From a resume point inside the file it ends, and the frames it has
visited lie end to end from there: their sequences and their row IDs go on from those of the resume
point, and the counters it returns go on from the frames.  The tail is complete exactly where the
frames reach the end of the file. -/
theorem walk_tiles (scan : FileScan) {resume : ResumePoint}
    (hinside : resume.offset ≤ scan.fileSize) (visit : Visit σ) (visited : σ) :
    (∀ turns, scan.fileSize ≤ resume.offset + (prefixSize + trailerSize) * turns →
        scan.walkTurns resume visit visited turns =
          some (scan.walkDataFramesFrom resume visit visited)) ∧
      ∀ walk visited', scan.walkDataFramesFrom resume visit visited = .ok (walk, visited') →
        ∃ visits, visitAll visit visits visited = .ok visited' ∧
          (∀ before entry after, visits = before ++ entry :: after →
            Placed scan resume before entry) ∧
          walk.lastGoodOffset = resume.offset + bytesOf visits ∧
          walk.lastGoodOffset ≤ scan.fileSize ∧
          walk.nextSequence = resume.sequence + visits.length ∧
          walk.frameCount = resume.frameCount + visits.length ∧
          walk.nextRowId = rowIdAfter scan resume visits ∧
          walk.frameBytesScanned = bytesOf visits ∧
          (walk.incompleteTail = false ↔ walk.lastGoodOffset = scan.fileSize) := by
  refine ⟨fun turns hturns ↦ walkTurns_eq hturns visit visited, fun walk visited' hwalk ↦ ?_⟩
  obtain ⟨state, hreach, hend, hstate, rfl⟩ := walkDataFramesFrom_eq_ok.mp hwalk
  obtain ⟨visits, hvisits, hwalked⟩ := exists_walked hinside hreach
  rw [← hstate]
  refine ⟨visits, hvisits, hwalked.placed, hwalked.offset, hwalked.offset_le, hwalked.sequence,
    hwalked.frameCount, hwalked.rowId, hwalked.scanned, ?_⟩
  show walk.incompleteTail = false ↔ state.offset = scan.fileSize
  rcases hstopped : walk.incompleteTail with - | -
  · rw [hstopped, if_neg Bool.false_ne_true] at hend
    exact iff_of_true rfl (Nat.le_antisymm hwalked.offset_le hend)
  · rw [hstopped, if_pos rfl] at hend
    exact iff_of_false Bool.noConfusion (Nat.ne_of_lt hend.1)

theorem visitAll_collect (visits : List Visited) (blocks : List DataFrameMetadata) :
    visitAll collect visits blocks = .ok (blocks ++ visits.map (·.2)) := by
  induction visits generalizing blocks with
  | nil => rw [List.map_nil, List.append_nil]; rfl
  | cons first visits ih =>
    have hfirst : visitAll collect (first :: visits) blocks =
        visitAll collect visits (blocks ++ [first.2]) := rfl
    rw [hfirst, ih, List.append_assoc, List.singleton_append, List.map_cons]

/-- The walk of a file of one block. -/
theorem walk_tiles_oneBlock :
    ∃ file scan walk entry, fromFile file Limits.default = .ok scan ∧
      scan.walkTurns scan.initialResumePoint collect [] 6 = some (.ok (walk, [entry.2])) ∧
        Placed scan scan.initialResumePoint [] entry ∧
          walk.lastGoodOffset = scan.firstDataFrameOffset + entry.1.totalLength ∧
            walk.frameBytesScanned = entry.1.totalLength ∧ walk.incompleteTail = false := by
  obtain ⟨file, frame, h⟩ := exists_twoBlocks
  obtain ⟨scan, state, hone, hcount⟩ := h.one
  obtain ⟨first, hopens⟩ := fromFile_eq_ok.mp hone.opens
  have hinside : scan.initialResumePoint.offset ≤ scan.fileSize := by
    rw [hopens.isSize]
    exact hopens.firstDataFrameOffset_le
  obtain ⟨hturns, htiles⟩ := walk_tiles scan hinside collect []
  obtain ⟨visits, hvisits, hplaced, hoffset, -, -, -, -, hscanned, -⟩ := htiles _ _ hone.walk
  rw [visitAll_collect, List.nil_append] at hvisits
  have hvisited : visits.map (·.2) = state.visited := Except.ok.inj hvisits
  obtain ⟨entry, rfl⟩ : ∃ entry, visits = [entry] := by
    have hlength := congrArg List.length hcount
    rw [← hvisited, List.length_map, List.length_map] at hlength
    exact List.length_eq_one_iff.mp hlength
  have hsix : scan.fileSize ≤ scan.initialResumePoint.offset + (prefixSize + trailerSize) * 6 := by
    have hsize := h.length_eq
    rw [hopens.isSize, hsize]
    show 432 ≤ scan.firstDataFrameOffset + (prefixSize + trailerSize) * 6
    rw [hopens.offset]
    simp only [schemaFrameOffset, prefixSize, trailerSize]
    omega
  refine ⟨file, scan, _, entry, hone.opens, ?_, hplaced [] entry [] rfl, hoffset, hscanned, rfl⟩
  rw [hturns 6 hsix, List.map_singleton.symm.trans hvisited]
  exact congrArg some hone.walk

end FileScan

end Acta
