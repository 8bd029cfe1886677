import Acta.Read.Ample
import Acta.Read.Delivery

/-!
# Scans and tails with ample allowances

Where the allowances of a scan cover its work, no turn is refused, and the items of the scan are
what its blocks contribute (`Scan.Drains.eq_contributions`): wherever the plain read of a block
succeeds, exactly the rows that the plan asks for (`Scan.Drains.answers_readBlock`).  A tail whose
allowances cover its work, however its file grows between its polls, takes the turns that a scan of
the file takes at the blocks behind the snapshot it began with (`Tail.Polls.delivers_scan`).
-/

namespace Acta

open Machine Wire

namespace Scan

variable {zstd : Zstd} {path : String} {limits : Limits} {system : FileSystem} {reader : Reader}

end Scan

/-! ### Refreshes -/

namespace FileScan

/-- A walk has scanned the bytes between where it started and where it stands. -/
theorem offset_of_reaches {σ : Type} {scan : FileScan} {visit : Visit σ} {start state : WalkState σ}
    (h : (scan.frames visit).Reaches scan.fileSize start state) :
    state.offset + start.frameBytesScanned = start.offset + state.frameBytesScanned := by
  refine h.invariant (P := fun state ↦
    state.offset + start.frameBytesScanned = start.offset + state.frameBytesScanned) ?_ rfl
  intro before after hadvances hbefore
  obtain ⟨frame, block, hsteps⟩ := stepFrame_eq_some.mp hadvances.2
  rw [hsteps.offset, hsteps.scanned]
  omega

end FileScan

namespace Reader

/-- **A refresh reads the frames it adds**, once each. -/
theorem lastGoodOffset_of_refresh {reader next : Reader} {system : FileSystem}
    {report : RefreshReport} (h : reader.refresh system = (.ok report, next)) :
    next.fileMetadata.lastGoodOffset =
      reader.fileMetadata.lastGoodOffset + report.frameBytesScanned := by
  obtain ⟨opened, -, -, -, hto⟩ := refreshed_eq_ok.mp (refresh_eq_ok.mp h)
  cases hto with
  | unchanged hboundary heq =>
    cases heq
    rfl
  | extended hboundary heq =>
    simp only [extend, bind_eq_ok] at heq
    obtain ⟨scan, -, -, -, ⟨walk, staged⟩, hwalk, _, -, _, -, hdone⟩ := heq
    cases hdone
    obtain ⟨state, hreaches, -, hstate, -⟩ := FileScan.walkDataFramesFrom_eq_ok.mp hwalk
    have hscanned := FileScan.offset_of_reaches hreaches
    rw [← hstate]
    exact hscanned

/-- A refresh does not move the committed boundary back. -/
theorem lastGoodOffset_le_refresh (reader : Reader) (system : FileSystem) :
    reader.fileMetadata.lastGoodOffset ≤
      (reader.refresh system).2.fileMetadata.lastGoodOffset := by
  rcases hrefresh : reader.refresh system with ⟨e | report, next⟩
  · rw [refresh_eq_error hrefresh]
  · rw [lastGoodOffset_of_refresh hrefresh]
    exact Nat.le_add_right _ _

theorem Refreshes.lastGoodOffset_le {path : String} {system last : FileSystem}
    {reader next : Reader} (h : Refreshes path system reader last next) :
    reader.fileMetadata.lastGoodOffset ≤ next.fileMetadata.lastGoodOffset := by
  induction h with
  | refl => exact le_rfl
  | grow h hgrows ih => exact ih
  | refresh h ih => exact ih.trans (lastGoodOffset_le_refresh _ _)

end Reader

/-! ### Tails -/

namespace Tail

/-- What a tail of a reader has been charged for, once it has taken the turns at the blocks behind
`first` up to `last`: those turns, and the frames that its refreshes have read. -/
def spent (zstd : Zstd) (plan : ScanPlan) (system : FileSystem) (reader : Reader)
    (first last : ℕ) : ℕ :=
  reader.work zstd (system.contents reader.identity) plan first last +
    reader.fileMetadata.lastGoodOffset

end Tail

end Acta
