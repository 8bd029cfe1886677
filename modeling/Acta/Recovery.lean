import Acta.Format.Scan
import Acta.Write.Writer

/-!
# Recovery

Point-in-time recovery inspection, and the explicit repair of an incomplete tail.  A repair answers
with its result and with the bytes the file is left with.
-/

namespace Acta

open Machine Wire

/-- The action a recovery inspection recommends. -/
inductive RecoveryAction
  | none
  | truncateIncompleteTail
  deriving DecidableEq, Repr

/-- A read-only recovery decision for one snapshot of a file. -/
structure RecoveryPlan where
  action : RecoveryAction
  fileSize : ℕ
  lastGoodOffset : ℕ
  bytesToRemove : ℕ
  deriving DecidableEq, Repr

/-- The result of repairing one incomplete final data frame. -/
structure RecoverySummary where
  originalFileSize : ℕ
  repairedFileSize : ℕ
  bytesRemoved : ℕ
  deriving DecidableEq, Repr

/-- The file operations a repair performs around its one mutation. -/
structure RepairOperations where
  physicalLength : Bytes → Except String ℕ
  /-- The bytes the file has once its length is set. -/
  setLen : Bytes → ℕ → Except String Bytes
  sync : Bytes → Except String Unit

/-- A file set to a length: cut, or filled up with zeros. -/
def setLength (file : Bytes) (length : ℕ) : Bytes :=
  file.take length ++ Write.zeros (length - file.length)

/-- The operations of a file that does not fail. -/
def fileRepairOperations : RepairOperations where
  physicalLength file := .ok file.length
  setLen file length := .ok (setLength file length)
  sync _ := .ok ()

namespace Recovery

/-- The marker every failure that leaves the file untouched carries. -/
def beforeTruncation : String :=
  "the incomplete tail was not removed and the file is unchanged"

/-- The marker every failure after the truncation carries. -/
def afterTruncation : String :=
  "the incomplete tail was already removed, so the file may already be shorter than it was"

/-- The bytes past the last complete frame. -/
def tailLength (fileSize lastGoodOffset : ℕ) : Result ℕ := do
  failIf (fileSize ≤ lastGoodOffset)
    ((Error.corruption "an incomplete tail does not extend beyond the last complete frame"
      (some lastGoodOffset)).withContext .file)
  okOr (checkedSub fileSize lastGoodOffset)
    ((Error.corruption "the last complete frame is beyond the captured file extent"
      (some lastGoodOffset)).withContext .file)

def planFromWalk (fileSize lastGoodOffset : ℕ) (incompleteTail : Bool) : Result RecoveryPlan := do
  if incompleteTail then
    let bytesToRemove ← tailLength fileSize lastGoodOffset
    return { action := .truncateIncompleteTail, fileSize, lastGoodOffset, bytesToRemove }
  else
    failIf (lastGoodOffset ≠ fileSize)
      ((Error.corruption "a complete recovery walk did not reach the file extent"
        (some lastGoodOffset)).withContext .file)
    return { action := .none, fileSize, lastGoodOffset, bytesToRemove := 0 }

/-- Walk a scanned file and decide what recovery it needs. -/
def discover (scan : FileScan) : Result RecoveryPlan := do
  let (walk, ()) ← scan.walkDataFrames (fun _ _ _ ↦ .ok ()) ()
  planFromWalk scan.fileSize walk.lastGoodOffset walk.incompleteTail

/-- Inspect recovery state without changing the file. -/
def inspectRecoveryWithLimits (file : Bytes) (limits : Limits) : Result RecoveryPlan := do
  let scan ← FileScan.fromFile file limits
  discover scan

/-- Everything before the one mutation: scan, and refuse a file that is not to be repaired. -/
def planRepair (file : Bytes) (limits : Limits) (operations : RepairOperations) :
    Result RecoveryPlan := do
  let scan ← FileScan.fromFile file limits
  let plan ← discover scan
  let currentSize ← (operations.physicalLength file).mapError (fileIo · none)
  failIf (currentSize ≠ plan.fileSize)
    (fileIo "the file changed while recovery was being inspected" (some currentSize))
  failIf (plan.action ≠ .truncateIncompleteTail)
    ((Error.invalidArgument
    "the file is complete; there is no incomplete tail to repair").withContext
      .file)
  return plan

/-- Everything after the one mutation: synchronize, rescan, and validate. -/
def finishRepair (file : Bytes) (limits : Limits) (plan : RecoveryPlan)
    (operations : RepairOperations) : Result RecoverySummary := do
  (operations.sync file).mapError fun message ↦
    ((Error.io message (some plan.lastGoodOffset)).withMessagePrefix
      "the repaired file could not be synchronized").withContext .file
  let scan ← FileScan.fromFile file limits
  let postPlan ← discover scan
  failIf (postPlan.action ≠ .none ∨ postPlan.fileSize ≠ plan.lastGoodOffset ∨
      postPlan.lastGoodOffset ≠ plan.lastGoodOffset)
    ((Error.corruption "post-repair validation did not produce the expected complete file"
      (some plan.lastGoodOffset)).withContext .file)
  let bytesRemoved ← okOr (checkedSub plan.fileSize postPlan.fileSize)
    ((Error.corruption "repaired file grew beyond its original size"
      (some postPlan.fileSize)).withContext .file)
  return { originalFileSize := plan.fileSize, repairedFileSize := postPlan.fileSize, bytesRemoved }

/-- Repair a locked file, with the bytes it is left with. -/
def repairLockedFile (file : Bytes) (limits : Limits) (operations : RepairOperations) :
    Result RecoverySummary × Bytes :=
  match planRepair file limits operations with
  | .error e => (.error e, file)
  | .ok plan =>
    match operations.setLen file plan.lastGoodOffset with
    | .error message =>
      (.error (((Error.io message (some plan.lastGoodOffset)).withMessagePrefix
        beforeTruncation).withContext .file), file)
    | .ok repaired =>
      ((finishRepair repaired limits plan operations).withMessagePrefix afterTruncation, repaired)

/-- Repair a verified incomplete final data frame under structural limits. -/
def repairIncompleteTailWithLimits (disk : Disk) (limits : Limits)
    (operations : RepairOperations) : Result RecoverySummary × Option Bytes :=
  match disk.contents with
  | none => (.error (fileIo "No such file or directory (os error 2)" none), none)
  | some file =>
    match acquireWriterLock disk with
    | .error e => (.error e, some file)
    | .ok () =>
      let (result, repaired) := repairLockedFile file limits operations
      (result, some repaired)

end Recovery

end Acta
