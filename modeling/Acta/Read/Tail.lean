import Acta.Format.Crash
import Acta.Read.Scan

/-!
# Tails

A live tail begins after the blocks its reader already holds.  A poll drains the blocks that yield
nothing, refreshes the reader when it has dealt with all of them, and returns at the first batch,
the first failure, or once a refresh adds nothing.
-/

namespace Acta

open Machine Wire

namespace Reader

/-- The extent a refresh would observe. -/
def observedLength (reader : Reader) (system : FileSystem) : ℕ :=
  match system.openFile reader.path with
  | .error _ => 0
  | .ok opened => (system.contents opened).length

/-- What a successful refresh did. -/
inductive RefreshesTo (reader : Reader) (file : Bytes) (report : RefreshReport) (next : Reader) :
    Prop
  /-- The file ends at the committed boundary. -/
  | unchanged (h : file.length = reader.fileMetadata.lastGoodOffset)
      (heq : (report, next) = reader.withoutGrowth file.length)
  /-- The walk went on past the committed boundary. -/
  | extended (h : reader.fileMetadata.lastGoodOffset < file.length)
      (heq : reader.extend file = .ok (report, next))

theorem refreshed_eq_ok {reader next : Reader} {system : FileSystem} {report : RefreshReport} :
    reader.refreshed system = .ok (report, next) ↔ ∃ opened,
      reader.identity.expectUnchanged system reader.path = .ok () ∧
        system.openFile reader.path = .ok opened ∧
          reader.expectOwnCommittedBytes (system.contents opened)
            (system.contents opened).length = .ok () ∧
            reader.RefreshesTo (system.contents opened) report next := by
  simp only [refreshed, bind_eq_ok, failIf_eq_ok, not_lt]
  constructor
  · rintro ⟨_, hidentity, opened, hopened, _, hle, _, hcommitted, h⟩
    refine ⟨opened, hidentity, hopened, hcommitted, ?_⟩
    split at h
    · rename_i heq
      exact .unchanged heq (Except.ok.inj h).symm
    · rename_i hne
      exact .extended (by omega) h
  · rintro ⟨opened, hidentity, hopened, hcommitted, h⟩
    refine ⟨(), hidentity, opened, hopened, (), ?_, (), hcommitted, ?_⟩
    · cases h with
      | unchanged h heq => exact h.ge
      | extended h heq => exact h.le
    · cases h with
      | unchanged h heq =>
        rw [if_pos h, heq]
        rfl
      | extended h heq =>
        rw [if_neg (by omega)]
        exact heq

/-- A walk that has recorded a block has moved on. -/
theorem lastGoodOffset_lt_of_extend {reader next : Reader} {file : Bytes} {report : RefreshReport}
    (hboundary : reader.fileMetadata.lastGoodOffset ≤ file.length)
    (h : reader.extend file = .ok (report, next)) (hadded : report.blocksAdded ≠ 0) :
    reader.fileMetadata.lastGoodOffset < next.fileMetadata.lastGoodOffset ∧
      next.fileMetadata.lastGoodOffset ≤ file.length := by
  simp only [extend, bind_eq_ok] at h
  obtain ⟨scan, hscan, -, -, ⟨walk, staged⟩, hwalk, _, hcount, _, -, hdone⟩ := h
  cases hdone
  obtain ⟨frame, hopens⟩ := FileScan.fromFile_eq_ok.mp hscan
  have hsize : scan.fileSize = scan.file.length := by rw [hopens.isFile, hopens.isSize]
  obtain ⟨state, hreach, -, hstate, hvisited⟩ := FileScan.walkDataFramesFrom_eq_ok.mp hwalk
  have hoffset : walk.lastGoodOffset = state.offset := by rw [← hstate]; rfl
  dsimp only [metadataAfter]
  rw [hoffset]
  have hstart : (FileScan.startAt reader.resumePoint
      ({ totalRows := reader.fileMetadata.totalRows } : Discovered)).offset ≤ scan.fileSize := by
    rw [hopens.isSize]
    exact hboundary
  have hle := FileScan.offset_le_of_reaches hsize hstart hreach
  rw [hopens.isSize] at hle
  refine ⟨?_, hle⟩
  rcases Relation.ReflTransGen.cases_tail hreach with heq | ⟨before, hbefore, hadv⟩
  · exfalso
    apply hadded
    rw [← hvisited, heq]
    rfl
  · exact Nat.lt_of_le_of_lt (LogScan.Reaches.pos_le hbefore) hadv.pos_lt

/-- **A refresh that adds blocks moves the committed boundary**, inside the file. -/
theorem lastGoodOffset_lt_of_refresh {reader next : Reader} {system : FileSystem}
    {report : RefreshReport} (h : reader.refresh system = (.ok report, next))
    (hadded : report.blocksAdded ≠ 0) :
    next.path = reader.path ∧
      reader.fileMetadata.lastGoodOffset < next.fileMetadata.lastGoodOffset ∧
        next.fileMetadata.lastGoodOffset ≤ reader.observedLength system := by
  unfold refresh at h
  split at h
  · cases h
  · rename_i hrefreshed
    cases h
    obtain ⟨opened, -, hopened, -, hto⟩ := refreshed_eq_ok.mp hrefreshed
    have hlength : reader.observedLength system = (system.contents opened).length := by
      rw [observedLength, hopened]
    rw [hlength]
    cases hto with
    | unchanged hboundary heq =>
      cases heq
      exact absurd rfl hadded
    | extended hboundary heq =>
      obtain ⟨hlt, hle⟩ := lastGoodOffset_lt_of_extend hboundary.le heq hadded
      refine ⟨?_, hlt, hle⟩
      simp only [extend, bind_eq_ok] at heq
      obtain ⟨_, _, _, _, _, _, _, _, _, _, hdone⟩ := heq
      cases hdone
      rfl

end Reader

/-- A live tail over the frames appended after a snapshot. -/
structure Tail where
  reader : Reader
  plan : ScanPlan
  progress : ScanProgress

/-- What a poll returns: one newly committed matching block, nothing for now, or a failure. -/
abbrev PollResult := Result (Option RecordBatch)

namespace Tail

variable (zstd : Zstd)

/-- Begin tailing after the reader's current committed blocks. -/
def new (reader : Reader) : Tail where
  reader := reader
  plan := ScanPlan.new reader.schema
  progress :=
    { nextBlock := reader.blocks.length
      budget := ScanBudget.new reader.limits.maxRowsPerScan reader.limits.maxDecodedScanBytes }

def project (tail : Tail) (columns : List String) : Result Tail := do
  let plan ← tail.plan.project tail.reader.schema columns
  return { tail with plan }

def primaryRange (tail : Tail) (range : PrimaryRange) : Result Tail := do
  let plan ← tail.plan.primaryRange tail.reader.schema range
  return { tail with plan }

/-- Decode the next undispatched block, or report that it yielded nothing. -/
def decodeNext (system : FileSystem) (block : BlockMetadata) (tail : Tail) : PollResult × Tail :=
  match tail.progress.takeBlock zstd system tail.reader tail.plan
      "range tail did not decode its primary column" block with
  | (result, progress) => (result, { tail with progress })

/-- Refresh the reader once its blocks are dealt with.  Nothing is returned when there is more to
deal with. -/
def refreshNext (system : FileSystem) (tail : Tail) : Option PollResult × Tail :=
  match tail.reader.refresh system with
  | (.error e, reader) => (some (.error e), { tail with reader })
  | (.ok report, reader) =>
    match tail.progress.account (ScanBudget.recordBytesRead report.frameBytesScanned) with
    | (.error e, progress) => (some (.error e), { tail with reader, progress })
    | (.ok (), progress) =>
      (if report.blocksAdded = 0 then some (.ok none) else none, { tail with reader, progress })

/-- One turn of a poll: it returns, or goes on. -/
def turn (system : FileSystem) (tail : Tail) : Option PollResult × Tail :=
  match tail.reader.blocks[tail.progress.nextBlock]? with
  | none => tail.refreshNext system
  | some block =>
    match tail.decodeNext zstd system block with
    | (.ok none, tail) => (none, tail)
    | (result, tail) => (some result, tail)

/-- How far a poll can still go: over what the file holds past the committed boundary, and over the
blocks not yet dealt with. -/
def remaining (system : FileSystem) (tail : Tail) : ℕ × ℕ :=
  (tail.reader.observedLength system - tail.reader.fileMetadata.lastGoodOffset,
    tail.reader.blocks.length - tail.progress.nextBlock)

theorem reader_decodeNext (system : FileSystem) (block : BlockMetadata) (tail : Tail) :
    (tail.decodeNext zstd system block).2.reader = tail.reader := rfl

theorem nextBlock_decodeNext (system : FileSystem) (block : BlockMetadata) (tail : Tail) :
    (tail.decodeNext zstd system block).2.progress.nextBlock = tail.progress.nextBlock + 1 :=
  ScanProgress.nextBlock_takeBlock zstd system _ _ _ _ _

/-- A turn that goes on leaves less to do. -/
theorem remaining_turn {system : FileSystem} {tail next : Tail}
    (h : tail.turn zstd system = (none, next)) :
    Prod.Lex (· < ·) (· < ·) (next.remaining system) (tail.remaining system) := by
  unfold turn at h
  split at h
  · -- A refresh that added blocks.
    unfold refreshNext at h
    split at h
    · cases h
    · rename_i report reader hrefresh
      split at h
      · cases h
      · rw [Prod.mk.injEq] at h
        obtain ⟨hmore, rfl⟩ := h
        have hadded : report.blocksAdded ≠ 0 := by
          intro hzero
          rw [if_pos hzero] at hmore
          cases hmore
        obtain ⟨hpath, hlt, hle⟩ := Reader.lastGoodOffset_lt_of_refresh hrefresh hadded
        have hlength : reader.observedLength system = tail.reader.observedLength system := by
          rw [Reader.observedLength, hpath, Reader.observedLength]
        apply Prod.Lex.left
        dsimp only
        omega
  · -- A block that yielded nothing.
    rename_i block hblock
    have hindex := (List.getElem?_eq_some_iff.mp hblock).1
    have hnext := nextBlock_decodeNext zstd system block tail
    split at h
    · rename_i later hdecode
      cases h
      rw [hdecode] at hnext
      have hreader : next.reader = tail.reader := by
        rw [← reader_decodeNext zstd system block tail, hdecode]
      unfold remaining
      rw [hreader]
      apply Prod.Lex.right
      dsimp only at hnext
      omega
    · cases h

/-- Discover and decode the next newly committed matching block, without blocking. -/
def pollNext (system : FileSystem) (tail : Tail) : PollResult × Tail :=
  match _hturn : tail.turn zstd system with
  | (some result, next) => (result, next)
  | (none, next) => pollNext system next
termination_by tail.remaining system
decreasing_by exact remaining_turn zstd _hturn

end Tail

end Acta
