import Acta.CrashSafety
import Acta.Format.Messages

/-!
# What a repair says about the file

A repair changes the file in one step, so a failure has to say on which side of that step it is.
The failures of the truncation itself and of everything after it do: the bytes of the file match the
marker the message begins with, and no message begins with both.  The failures of the walk, of the
length check and of the check that there is anything to repair also leave the file alone, but none
of them says so: their messages are unmarked.  Only the length of the file is read by a step that
can fail with any message at all.
-/

namespace Acta

open Machine Wire

/-- How the steps of one repair turn out.  A truncation that succeeds sets the length of the file
and one that fails has no effect. -/
structure RepairOutcomes where
  physicalLength : Except String ℕ
  setLen : Except String Unit
  sync : Except String Unit
  rescan : Result RecoveryPlan

namespace RepairOutcomes

/-- The file operations with these outcomes. -/
def operations (outcomes : RepairOutcomes) : RepairOperations where
  physicalLength _ := outcomes.physicalLength
  setLen file length := outcomes.setLen.map fun _ ↦ setLength file length
  sync _ := outcomes.sync

end RepairOutcomes

namespace Recovery

/-- Everything after the one mutation, with the outcome of the rescan. -/
def finishRepairWith (rescan : Result RecoveryPlan) (file : Bytes) (plan : RecoveryPlan)
    (operations : RepairOperations) : Result RecoverySummary := do
  (operations.sync file).mapError fun message ↦
    ((Error.io message (some plan.lastGoodOffset)).withMessagePrefix
      "the repaired file could not be synchronized").withContext .file
  let postPlan ← rescan
  failIf (postPlan.action ≠ .none ∨ postPlan.fileSize ≠ plan.lastGoodOffset ∨
      postPlan.lastGoodOffset ≠ plan.lastGoodOffset)
    ((Error.corruption "post-repair validation did not produce the expected complete file"
      (some plan.lastGoodOffset)).withContext .file)
  let bytesRemoved ← okOr (checkedSub plan.fileSize postPlan.fileSize)
    ((Error.corruption "repaired file grew beyond its original size"
      (some postPlan.fileSize)).withContext .file)
  return { originalFileSize := plan.fileSize, repairedFileSize := postPlan.fileSize, bytesRemoved }

/-- One run of `repairLockedFile`, with the bytes the file is left with. -/
def repairRun (file : Bytes) (limits : Limits) (outcomes : RepairOutcomes) :
    Result RecoverySummary × Bytes :=
  match planRepair file limits outcomes.operations with
  | .error e => (.error e, file)
  | .ok plan =>
    match outcomes.operations.setLen file plan.lastGoodOffset with
    | .error message =>
      (.error (((Error.io message (some plan.lastGoodOffset)).withMessagePrefix
        beforeTruncation).withContext .file), file)
    | .ok repaired =>
      ((finishRepairWith outcomes.rescan repaired plan outcomes.operations).withMessagePrefix
        afterTruncation, repaired)

/-- The rescan of a repair inspects the file it is left with. -/
theorem finishRepair_eq (file : Bytes) (limits : Limits) (plan : RecoveryPlan)
    (operations : RepairOperations) :
    finishRepair file limits plan operations =
      finishRepairWith (inspectRecoveryWithLimits file limits) file plan operations := by
  rw [finishRepair, finishRepairWith, inspectRecoveryWithLimits]
  simp only [bind_assoc]

/-- The run of `repairLockedFile` is the one whose rescan inspects the truncated file. -/
theorem repairLockedFile_eq (file : Bytes) (limits : Limits) (outcomes : RepairOutcomes)
    (h : ∀ plan, planRepair file limits outcomes.operations = .ok plan →
      outcomes.rescan = inspectRecoveryWithLimits (setLength file plan.lastGoodOffset) limits) :
    repairLockedFile file limits outcomes.operations = repairRun file limits outcomes := by
  rw [repairLockedFile, repairRun]
  cases hplan : planRepair file limits outcomes.operations with
  | error e => rfl
  | ok plan =>
    cases hset : outcomes.setLen with
    | error message => simp only [RepairOutcomes.operations, hset, Except.map]
    | ok u =>
      simp only [RepairOutcomes.operations, hset, Except.map, finishRepair_eq, h plan hplan]

/-! ### Markers -/

/-- The message of an error begins with a marker. -/
def Carries (marker : String) (e : Error) : Prop := marker.toList <+: e.message.toList

instance (marker : String) (e : Error) : Decidable (Carries marker e) :=
  inferInstanceAs (Decidable (_ <+: _))

theorem carries_withMessagePrefix (marker : String) (e : Error) :
    Carries marker (e.withMessagePrefix marker) := by
  refine ⟨": ".toList ++ e.message.toList, ?_⟩
  simp [Error.withMessagePrefix, toString]

/-- Both markers begin with the same words, and neither begins the other. -/
theorem letters_of_markers :
    "the incomplete tail was".toList <+: beforeTruncation.toList ∧
      "the incomplete tail was".toList <+: afterTruncation.toList ∧
        beforeTruncation.toList.length ≤ afterTruncation.toList.length ∧
          ¬beforeTruncation.toList <+: afterTruncation.toList := by
  rw [show "the incomplete tail was".toList = _ from String.toList_ofList,
    show beforeTruncation.toList = _ from String.toList_ofList,
    show afterTruncation.toList = _ from String.toList_ofList]
  decide

/-- **The two sets of messages never overlap.** -/
theorem not_carries_both {e : Error} (hbefore : Carries beforeTruncation e) :
    ¬Carries afterTruncation e := by
  intro hafter
  obtain ⟨-, -, hlength, hpart⟩ := letters_of_markers
  exact hpart (List.prefix_of_prefix_length_le hbefore hafter hlength)

/-! ### What a run promises -/

/-- The file is the one that was walked, cut at the last good offset of that walk. -/
def CutAtGoodOffset (file : Bytes) (limits : Limits) (after : Bytes) : Prop :=
  ∃ plan, inspectRecoveryWithLimits file limits = .ok plan ∧ after = file.take plan.lastGoodOffset

/-- **The promise of a repair**, of one run: a success and a failure that says the tail was removed
leave the file cut at the last good offset, every other failure says that it left the file unchanged
and did, and every failure says one of the two and not both. -/
structure Truthful (file : Bytes) (limits : Limits) (outcomes : RepairOutcomes) : Prop where
  repaired : ∀ summary, (repairRun file limits outcomes).1 = .ok summary →
    CutAtGoodOffset file limits (repairRun file limits outcomes).2
  removed : ∀ e, (repairRun file limits outcomes).1 = .error e → Carries afterTruncation e →
    CutAtGoodOffset file limits (repairRun file limits outcomes).2
  unchanged : ∀ e, (repairRun file limits outcomes).1 = .error e → ¬Carries afterTruncation e →
    (repairRun file limits outcomes).2 = file ∧ Carries beforeTruncation e
  marked : ∀ e, (repairRun file limits outcomes).1 = .error e →
    Xor (Carries beforeTruncation e) (Carries afterTruncation e)

/-- A walk under the limits finds an incomplete tail, and the length of the file is still the one it
walked. -/
def FindsTail (file : Bytes) (limits : Limits) (outcomes : RepairOutcomes) : Prop :=
  ∃ plan, inspectRecoveryWithLimits file limits = .ok plan ∧
    plan.action = .truncateIncompleteTail ∧ outcomes.physicalLength = .ok plan.fileSize

/-- A walk under the limits goes through, and the length of the file cannot be read, with a message
that of itself begins with a marker true of the file: that it is unchanged, or, where there is no
tail, that the tail was removed. -/
def LengthMarked (file : Bytes) (limits : Limits) (outcomes : RepairOutcomes) : Prop :=
  ∃ plan message, inspectRecoveryWithLimits file limits = .ok plan ∧
    outcomes.physicalLength = .error message ∧
    (beforeTruncation.toList <+: message.toList ∨
      afterTruncation.toList <+: message.toList ∧ plan.action = .none)

variable {file : Bytes} {limits : Limits} {outcomes : RepairOutcomes} {plan : RecoveryPlan}

/-- The checks before the truncation inspect the file and then check its length and the plan. -/
theorem planRepair_eq (file : Bytes) (limits : Limits) (outcomes : RepairOutcomes) :
    planRepair file limits outcomes.operations = (do
      let plan ← inspectRecoveryWithLimits file limits
      let currentSize ← outcomes.physicalLength.mapError (fileIo · none)
      failIf (currentSize ≠ plan.fileSize)
        (fileIo "the file changed while recovery was being inspected" (some currentSize))
      failIf (plan.action ≠ .truncateIncompleteTail)
        ((Error.invalidArgument
          "the file is complete; there is no incomplete tail to repair").withContext .file)
      return plan) := by
  rw [planRepair, inspectRecoveryWithLimits]
  simp only [bind_assoc, RepairOutcomes.operations]

/-- They pass exactly when the walk finds a tail that is still there. -/
theorem planRepair_eq_ok :
    planRepair file limits outcomes.operations = .ok plan ↔
      inspectRecoveryWithLimits file limits = .ok plan ∧
        plan.action = .truncateIncompleteTail ∧ outcomes.physicalLength = .ok plan.fileSize := by
  rw [planRepair_eq, bind_eq_ok]
  constructor
  · rintro ⟨plan', hinspect, h⟩
    obtain ⟨size, hsize, h⟩ := bind_eq_ok.mp h
    obtain ⟨_, hsame, h⟩ := bind_eq_ok.mp h
    obtain ⟨_, haction, h⟩ := bind_eq_ok.mp h
    obtain rfl : plan' = plan := Except.ok.inj h
    rw [failIf_eq_ok, not_not] at hsame haction
    rw [mapError_eq_ok, hsame] at hsize
    exact ⟨hinspect, haction, hsize⟩
  · rintro ⟨hinspect, haction, hsize⟩
    refine ⟨plan, hinspect, ?_⟩
    rw [hsize]
    simp [Except.mapError, failIf, haction]

/-- A plan keeps the whole file it was made for, or cuts a tail off it. -/
theorem plan_cases (h : inspectRecoveryWithLimits file limits = .ok plan) :
    plan.action = .none ∧ plan.lastGoodOffset = file.length ∨
      plan.action = .truncateIncompleteTail ∧ plan.lastGoodOffset < file.length := by
  obtain ⟨scan, hopen, h⟩ := bind_eq_ok.mp h
  obtain ⟨frame, hopens⟩ := FileScan.fromFile_eq_ok.mp hopen
  obtain ⟨⟨walk, _⟩, -, h⟩ := bind_eq_ok.mp h
  rw [← hopens.isSize]
  rcases ite_eq_iff.mp h with ⟨-, h⟩ | ⟨-, h⟩
  · obtain ⟨length, htail, h⟩ := bind_eq_ok.mp h
    obtain ⟨_, hbeyond, -⟩ := bind_eq_ok.mp htail
    cases h
    exact .inr ⟨rfl, Nat.lt_of_not_le (failIf_eq_ok.mp hbeyond)⟩
  · obtain ⟨_, hreached, h⟩ := bind_eq_ok.mp h
    cases h
    exact .inl ⟨rfl, not_not.mp (failIf_eq_ok.mp hreached)⟩

theorem lastGoodOffset_le (h : inspectRecoveryWithLimits file limits = .ok plan) :
    plan.lastGoodOffset ≤ file.length := by
  rcases plan_cases h with ⟨-, hend⟩ | ⟨-, hcut⟩
  · exact hend.le
  · exact hcut.le

/-- A file is cut at the last good offset as it stands exactly when its plan asks for nothing. -/
theorem cutAtGoodOffset_self (h : inspectRecoveryWithLimits file limits = .ok plan) :
    CutAtGoodOffset file limits file ↔ plan.action = .none := by
  constructor
  · rintro ⟨plan', hplan', hfile⟩
    obtain rfl : plan = plan' := Except.ok.inj (h.symm.trans hplan')
    rcases plan_cases h with ⟨hnone, -⟩ | ⟨-, hcut⟩
    · exact hnone
    · have hlength : file.length = min plan.lastGoodOffset file.length :=
        (congrArg List.length hfile).trans (List.length_take ..)
      omega
  · intro hnone
    rcases plan_cases h with ⟨-, hend⟩ | ⟨htruncate, -⟩
    · exact ⟨plan, h, by rw [hend, List.take_length]⟩
    · cases hnone.symm.trans htruncate

theorem setLength_of_le {length : ℕ} (h : length ≤ file.length) :
    setLength file length = file.take length := by
  rw [setLength, Nat.sub_eq_zero_of_le h]
  exact List.append_nil _

/-- What every outcome of a run that reaches the truncation looks like. -/
theorem repairRun_of_findsTail (h : FindsTail file limits outcomes) :
    (repairRun file limits outcomes).2 = file ∧
        (∃ e, (repairRun file limits outcomes).1 = .error e ∧ Carries beforeTruncation e) ∨
      CutAtGoodOffset file limits (repairRun file limits outcomes).2 ∧
        ∀ e, (repairRun file limits outcomes).1 = .error e → Carries afterTruncation e := by
  obtain ⟨plan, hfinds⟩ := h
  rw [repairRun, planRepair_eq_ok.mpr hfinds]
  simp only [RepairOutcomes.operations]
  cases outcomes.setLen with
  | error message => exact .inl ⟨rfl, _, rfl, carries_withMessagePrefix _ _⟩
  | ok u =>
    refine .inr ⟨⟨plan, hfinds.1, setLength_of_le (lastGoodOffset_le hfinds.1)⟩, fun e h ↦ ?_⟩
    obtain ⟨e', -, rfl⟩ := mapError_eq_error.mp h
    exact carries_withMessagePrefix _ _

/-- **A run that reaches the truncation keeps the promise**, however its steps turn out. -/
theorem truthful_of_findsTail (h : FindsTail file limits outcomes) :
    Truthful file limits outcomes := by
  rcases repairRun_of_findsTail h with ⟨hsame, e, herror, hbefore⟩ | ⟨hcut, hafter⟩
  · have hnot := not_carries_both hbefore
    refine ⟨fun summary h ↦ ?_, fun e' h hcarries ↦ ?_, fun e' h _ ↦ ?_, fun e' h ↦ ?_⟩ <;>
      obtain h := herror.symm.trans h <;> cases h
    · exact absurd hcarries hnot
    · exact ⟨hsame, hbefore⟩
    · exact .inl ⟨hbefore, hnot⟩
  · refine ⟨fun _ _ ↦ hcut, fun _ _ _ ↦ hcut, fun e h hnot ↦ absurd (hafter e h) hnot,
      fun e h ↦ .inr ⟨hafter e h, fun hbefore ↦ not_carries_both hbefore (hafter e h)⟩⟩

/-! ### What the steps before the truncation say -/

theorem Carries.marked {e : Error}
    (h : Carries beforeTruncation e ∨ Carries afterTruncation e) : Marked e.message := by
  obtain ⟨hbefore, hafter, -⟩ := letters_of_markers
  rcases h with h | h
  · exact hbefore.trans h
  · exact hafter.trans h

theorem unmarked_planFromWalk (fileSize lastGoodOffset : ℕ) (incompleteTail : Bool) :
    Unmarked (planFromWalk fileSize lastGoodOffset incompleteTail) := by
  simp (disch := refine Differs.ofLetters rfl ?_; decide) [planFromWalk, tailLength]

/-- No failure of the walk is marked. -/
theorem unmarked_inspect (file : Bytes) (limits : Limits) :
    Unmarked (inspectRecoveryWithLimits file limits) := by
  refine unmarked_bind.mpr ⟨FileScan.unmarked_fromFile file limits, fun scan _ ↦ ?_⟩
  refine unmarked_bind.mpr ⟨?_, fun walked _ ↦ unmarked_planFromWalk _ _ _⟩
  exact FileScan.unmarked_walkDataFrames (fun _ _ _ ↦ unmarked_ok ()) ()

/-- Nor is one of the two checks after it: only the message of a length that cannot be read is. -/
theorem length_of_marked {e : Error} (hplan : planRepair file limits outcomes.operations = .error e)
    (hmarked : Marked e.message) :
    ∃ plan message, inspectRecoveryWithLimits file limits = .ok plan ∧
      outcomes.physicalLength = .error message ∧ e.message = message := by
  rw [planRepair_eq] at hplan
  rcases bind_eq_error.mp hplan with hwalk | ⟨plan, hwalk, hplan⟩
  · exact absurd hmarked (unmarked_inspect file limits e hwalk)
  rcases bind_eq_error.mp hplan with hread | ⟨size, -, hplan⟩
  · obtain ⟨message, hlength, rfl⟩ := mapError_eq_error.mp hread
    exact ⟨plan, message, hwalk, hlength, rfl⟩
  · -- The two messages that are left are fixed.
    have hchecks : Unmarked (do
        failIf (size ≠ plan.fileSize)
          (fileIo "the file changed while recovery was being inspected" (some size))
        failIf (plan.action ≠ .truncateIncompleteTail)
          ((Error.invalidArgument
            "the file is complete; there is no incomplete tail to repair").withContext .file)
        return plan : Result RecoveryPlan) := by
      simp (disch := refine Differs.ofLetters rfl ?_; decide) [fileIo]
    exact absurd hmarked (hchecks e hplan)

/-- A repair that stops before the truncation is truthful exactly when its error happens to carry
the right marker. -/
theorem truthful_iff_carries {e : Error}
    (hplan : planRepair file limits outcomes.operations = .error e) :
    Truthful file limits outcomes ↔
      Carries beforeTruncation e ∨
        Carries afterTruncation e ∧ CutAtGoodOffset file limits file := by
  have hrun : repairRun file limits outcomes = (.error e, file) := by
    rw [repairRun, hplan]
  constructor
  · intro h
    by_cases hafter : Carries afterTruncation e
    · have hcut := h.removed e (by rw [hrun]) hafter
      rw [hrun] at hcut
      exact .inr ⟨hafter, hcut⟩
    · exact .inl (h.unchanged e (by rw [hrun]) hafter).2
  · intro hmarked
    refine ⟨fun summary h ↦ ?_, fun e' h hafter ↦ ?_, fun e' h hnot ↦ ?_, fun e' h ↦ ?_⟩ <;>
      rw [hrun] at h <;> cases h
    · rcases hmarked with hbefore | ⟨-, hcut⟩
      · exact absurd hafter (not_carries_both hbefore)
      · rw [hrun]
        exact hcut
    · rcases hmarked with hbefore | ⟨hafter, -⟩
      · rw [hrun]
        exact ⟨rfl, hbefore⟩
      · exact absurd hafter hnot
    · rcases hmarked with hbefore | ⟨hafter, -⟩
      · exact .inl ⟨hbefore, not_carries_both hbefore⟩
      · exact .inr ⟨hafter, fun hbefore ↦ not_carries_both hbefore hafter⟩

/-- It does so only where the length of the file cannot be read. -/
theorem carries_iff_lengthMarked {e : Error}
    (hplan : planRepair file limits outcomes.operations = .error e) :
    (Carries beforeTruncation e ∨
        Carries afterTruncation e ∧ CutAtGoodOffset file limits file) ↔
      LengthMarked file limits outcomes := by
  constructor
  · intro hcarries
    obtain ⟨plan, message, hwalk, hlength, hmessage⟩ :=
      length_of_marked hplan (Carries.marked (hcarries.imp_right And.left))
    rw [Carries, Carries, hmessage, cutAtGoodOffset_self hwalk] at hcarries
    exact ⟨plan, message, hwalk, hlength, hcarries⟩
  · rintro ⟨plan, message, hwalk, hlength, hmarked⟩
    have hfails : planRepair file limits outcomes.operations = .error (fileIo message none) := by
      rw [planRepair_eq, hwalk, ok_bind, hlength]
      rfl
    obtain rfl : e = fileIo message none := Except.error.inj (hplan.symm.trans hfails)
    rw [cutAtGoodOffset_self hwalk]
    exact hmarked

/-- **A repair keeps its promise exactly when it finds a tail to remove**, or when the length of the
file cannot be read and the message of the file system itself begins with the right marker. -/
theorem truthful_iff (file : Bytes) (limits : Limits) (outcomes : RepairOutcomes) :
    Truthful file limits outcomes ↔
      FindsTail file limits outcomes ∨ LengthMarked file limits outcomes := by
  cases hplan : planRepair file limits outcomes.operations with
  | ok plan =>
    have hfinds : FindsTail file limits outcomes := ⟨plan, planRepair_eq_ok.mp hplan⟩
    exact iff_of_true (truthful_of_findsTail hfinds) (.inl hfinds)
  | error e =>
    have hnone : ¬FindsTail file limits outcomes := by
      rintro ⟨plan, hfinds⟩
      cases hplan.symm.trans (planRepair_eq_ok.mpr hfinds)
    rw [truthful_iff_carries hplan, carries_iff_lengthMarked hplan, or_iff_right hnone]

/-- The steps of a repair on a file system that does not fail. -/
def plainOutcomes (file : Bytes) (limits : Limits) : RepairOutcomes where
  physicalLength := .ok file.length
  setLen := .ok ()
  sync := .ok ()
  rescan := inspectRecoveryWithLimits file limits

/-- A file that is read to its end needs no repair. -/
theorem inspect_of_complete {scan : FileScan} {state : WalkState Unit}
    (h : FileScan.Complete (fun _ _ _ ↦ .ok ()) () file limits scan state) :
    inspectRecoveryWithLimits file limits =
      .ok { action := .none, fileSize := file.length, lastGoodOffset := file.length,
            bytesToRemove := 0 } := by
  obtain ⟨frame, hopens⟩ := FileScan.fromFile_eq_ok.mp h.opens
  have hdiscover : discover scan = planFromWalk scan.fileSize state.offset false :=
    discover_eq h.walk
  rw [inspectRecoveryWithLimits, h.opens, ok_bind, hdiscover, hopens.isSize, h.isEnd,
    planFromWalk_complete]

/-- The repair of a complete file leaves it alone and does not say so. -/
theorem not_truthful_complete :
    ∃ file, (∃ plan, inspectRecoveryWithLimits file Limits.default = .ok plan ∧
        plan.action = .none) ∧
      ¬Truthful file Limits.default (plainOutcomes file Limits.default) ∧
        ∃ e, repairRun file Limits.default (plainOutcomes file Limits.default) = (.error e, file) ∧
          ¬Carries beforeTruncation e ∧ ¬Carries afterTruncation e := by
  obtain ⟨schemaFrame, hbuild⟩ : ∃ schemaFrame,
      Write.buildSchemaFrame numberSchema = .ok schemaFrame :=
    exists_eq_ok (by decide +kernel)
  let options : WriterOptions := {}
  let file := Write.buildPrologue options.featureFlags ++ schemaFrame
  let scan := Write.initialScan numberSchema options Limits.default schemaFrame file
  have hcomplete : FileScan.Complete (fun _ _ _ ↦ .ok ()) () file Limits.default scan
      (FileScan.startAt scan.initialResumePoint ()) :=
    Write.complete_initial (by decide) hbuild ()
  have hinspect := inspect_of_complete hcomplete
  let e := (Error.invalidArgument
    "the file is complete; there is no incomplete tail to repair").withContext .file
  have hrun : repairRun file Limits.default (plainOutcomes file Limits.default) =
      (.error e, file) := by
    have hplan : planRepair file Limits.default
        (plainOutcomes file Limits.default).operations = .error e := by
      have hlength : (plainOutcomes file Limits.default).physicalLength.mapError (fileIo · none) =
          .ok file.length := rfl
      rw [planRepair_eq, hinspect, ok_bind, hlength, ok_bind, failIf_neg (not_not_intro rfl),
        ok_bind,
        failIf_pos (show RecoveryAction.none ≠ .truncateIncompleteTail by decide), error_bind]
    rw [repairRun, hplan]
  have hunmarked : ¬Marked e.message := (Differs.ofLetters rfl (by decide)).not_marked
  have hbefore : ¬Carries beforeTruncation e := fun h ↦ hunmarked (Carries.marked (.inl h))
  have hafter : ¬Carries afterTruncation e := fun h ↦ hunmarked (Carries.marked (.inr h))
  refine ⟨file, ⟨_, hinspect, rfl⟩, fun htruthful ↦ ?_, e, hrun, hbefore, hafter⟩
  exact hbefore (htruthful.unchanged e (by rw [hrun]) hafter).2

end Recovery

end Acta
