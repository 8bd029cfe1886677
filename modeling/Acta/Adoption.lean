import Acta.Read.Tail
import Acta.Refresh

/-!
# What a refresh adopts

A refresh recognises the bytes that its snapshot committed by the last of them, the commit trailer
of the last frame.  It reads no byte before that trailer again, unless the file has grown, and then
no more than the prologue and the schema.  So a file that was written over in place is adopted
wherever it has the trailer at the boundary and reads on from there, whatever the bytes before it
have become (`refresh_keeps_iff`).
-/

namespace Acta

open Machine Wire

namespace Reader

/-! ### Snapshots -/

/-- What a snapshot committed of a file. -/
def committedOf (reader : Reader) (file : Bytes) : Bytes :=
  file.take reader.fileMetadata.lastGoodOffset

/-- The readers that a path is opened with and that are refreshed any number of times, whatever the
path names and whatever the file holds each time, with the bytes they committed. -/
inductive Snapshots (path : String) (limits : Limits) : Reader → Bytes → Prop
  | opened {system : FileSystem} {reader : Reader}
      (h : openWithLimits system path limits = .ok reader) :
      Snapshots path limits reader (reader.committedOf (system.contents reader.identity))
  | refreshed {system : FileSystem} {reader next : Reader} {report : RefreshReport}
      {committed : Bytes} (before : Snapshots path limits reader committed)
      (h : reader.refresh system = (.ok report, next)) :
      Snapshots path limits next (next.committedOf (system.contents next.identity))

/-- What a snapshot knows of the bytes it committed. -/
structure Commits (reader : Reader) (committed : Bytes) : Prop where
  length : committed.length = reader.fileMetadata.lastGoodOffset
  trailer_le : trailerSize ≤ committed.length
  anchor : slice committed (committed.length - trailerSize) trailerSize =
    reader.fileMetadata.commitAnchor
  frameCount : reader.fileMetadata.frameCount = reader.fileMetadata.blockCount + 1
  frameCount_le : reader.fileMetadata.frameCount ≤ u64Max

/-- A snapshot commits the bytes of a file up to its boundary, if it has the trailer there. -/
theorem commits_committedOf {reader : Reader} {file : Bytes}
    (hanchor : Frame.readCommitTrailer file file.length reader.fileMetadata.lastGoodOffset =
      .ok reader.fileMetadata.commitAnchor)
    (hcount : reader.fileMetadata.frameCount = reader.fileMetadata.blockCount + 1)
    (hcount_le : reader.fileMetadata.frameCount ≤ u64Max) :
    reader.Commits (reader.committedOf file) := by
  obtain ⟨hroom, hle, htrailer⟩ := Frame.readCommitTrailer_eq_ok.mp hanchor
  have hlength : (reader.committedOf file).length = reader.fileMetadata.lastGoodOffset := by
    rw [committedOf, List.length_take, Nat.min_eq_left hle]
  refine ⟨hlength, by rwa [hlength], ?_, hcount, hcount_le⟩
  rw [hlength, ← htrailer]
  exact (slice_eq_of_isPrefix (List.take_prefix _ _) (by rw [← committedOf]; omega)).symm

theorem commits_of_discover {reader : Reader} {file : Bytes}
    (h : discover file reader.limits =
      .ok (reader.schema, reader.fileMetadata, reader.blocks)) :
    reader.Commits (reader.committedOf file) := by
  obtain ⟨scan, state, incompleteTail, hdiscovery⟩ := discover_eq_ok.mp h
  have hcounted := hdiscovery.counted
  have hmetadata := hdiscovery.isMetadata
  refine commits_committedOf ?_ ?_ ?_
  · have hoffset : reader.fileMetadata.lastGoodOffset = state.offset := by rw [hmetadata]; rfl
    rw [hoffset]
    exact hdiscovery.anchor
  · rw [hmetadata]
    exact hcounted.frameCount
  · rw [hmetadata]
    exact hcounted.frameCount_le

/-! ### What a refresh looks at -/

/-- A file reads on from the boundary of a snapshot: it presents the prologue and the schema of the
snapshot, and the walk takes what follows the boundary. -/
def Resumes (reader : Reader) (file : Bytes) : Prop :=
  ∃ scan walk staged, FileScan.fromFile file reader.limits = .ok scan ∧
    reader.expectOwnFileHeader scan = .ok () ∧
      scan.walkDataFramesFrom reader.resumePoint
        (stageBlock reader.limits reader.fileMetadata.blockCount)
        { totalRows := reader.fileMetadata.totalRows } = .ok (walk, staged)

section Walks

variable {reader : Reader} {committed file : Bytes} {scan : FileScan} {walk : Walk}
  {staged : Discovered}

/-- **The walk of a refresh** stops inside the file, and has counted what it staged. -/
theorem Commits.of_walk (h : reader.Commits committed) (hle : committed.length ≤ file.length)
    (hopen : FileScan.fromFile file reader.limits = .ok scan)
    (hwalk : scan.walkDataFramesFrom reader.resumePoint
      (stageBlock reader.limits reader.fileMetadata.blockCount)
      { totalRows := reader.fileMetadata.totalRows } = .ok (walk, staged)) :
    committed.length ≤ walk.lastGoodOffset ∧ walk.lastGoodOffset ≤ file.length ∧
      walk.frameCount = reader.fileMetadata.blockCount + staged.blocks.length + 1 ∧
        walk.frameCount ≤ u64Max := by
  obtain ⟨frame, hopens⟩ := FileScan.fromFile_eq_ok.mp hopen
  obtain ⟨state, hreach, -, hstate, rfl⟩ := FileScan.walkDataFramesFrom_eq_ok.mp hwalk
  have hsize : scan.fileSize = scan.file.length := by rw [hopens.isFile, hopens.isSize]
  have hstart : reader.fileMetadata.lastGoodOffset ≤ scan.fileSize := by
    rw [hopens.isSize, ← h.length]
    exact hle
  have hlower : reader.fileMetadata.lastGoodOffset ≤ state.offset := hreach.pos_le
  have hupper := FileScan.offset_le_of_reaches hsize hstart hreach
  have hcounted : state.frameCount =
      reader.fileMetadata.blockCount + state.visited.blocks.length + 1 ∧
        state.frameCount ≤ u64Max := by
    refine hreach.invariant (P := fun state ↦ state.frameCount =
      reader.fileMetadata.blockCount + state.visited.blocks.length + 1 ∧
        state.frameCount ≤ u64Max) (fun a b hadvance hcount ↦ ?_) ⟨h.frameCount, h.frameCount_le⟩
    obtain ⟨frame, block, hsteps⟩ := FileScan.stepFrame_eq_some.mp hadvance.2
    obtain ⟨_, -, hvisit⟩ := bind_eq_ok.mp hsteps.visit
    obtain ⟨_, -, hrecord⟩ := bind_eq_ok.mp hvisit
    obtain ⟨-, hnext⟩ := recordBlock_eq_ok.mp hrecord
    rw [hsteps.frameCount, hnext, hcount.1, List.length_append]
    refine ⟨rfl, ?_⟩
    rw [← hcount.1]
    exact hsteps.frameCount_le
  rw [← hstate]
  refine ⟨?_, ?_, hcounted⟩
  · rw [h.length]
    exact hlower
  · rw [← hopens.isSize]
    exact hupper

/-- **A snapshot is extended** by a file that reads on from its boundary, and by no other. -/
theorem Commits.extend_eq_ok (h : reader.Commits committed) (hle : committed.length ≤ file.length) :
    (∃ report next, reader.extend file = .ok (report, next)) ↔ reader.Resumes file := by
  constructor
  · rintro ⟨report, next, hextend⟩
    obtain ⟨scan, hopen, hextend⟩ := bind_eq_ok.mp hextend
    obtain ⟨_, hheader, hextend⟩ := bind_eq_ok.mp hextend
    obtain ⟨⟨walk, staged⟩, hwalk, -⟩ := bind_eq_ok.mp hextend
    exact ⟨scan, walk, staged, hopen, hheader, hwalk⟩
  · rintro ⟨scan, walk, staged, hopen, hheader, hwalk⟩
    obtain ⟨frame, hopens⟩ := FileScan.fromFile_eq_ok.mp hopen
    obtain ⟨hlower, hupper, hcount, hcount_le⟩ := h.of_walk hle hopen hwalk
    have hanchor := Frame.readCommitTrailer_of_le (h.trailer_le.trans hlower) hupper
    rw [extend, hopen, ok_bind, hheader, ok_bind, hwalk, ok_bind]
    simp only [checkedAdd_of_le (show reader.fileMetadata.blockCount + staged.blocks.length ≤ u64Max
      by omega), okOr, ok_bind, hopens.isFile, hopens.isSize, hanchor]
    exact ⟨_, _, rfl⟩

end Walks

section Outcomes

variable {reader next : Reader} {report : RefreshReport} {system : FileSystem} {committed : Bytes}
  {path : String} {limits : Limits}

/-- **What a refresh establishes**: the path names the same file, which has the trailer of the
snapshot at its boundary. -/
theorem refreshed_iff :
    reader.refreshed system = .ok (report, next) ↔
      system.identityOf reader.path = .ok reader.identity ∧
        Frame.readCommitTrailer (system.contents reader.identity)
            (system.contents reader.identity).length reader.fileMetadata.lastGoodOffset =
          .ok reader.fileMetadata.commitAnchor ∧
            reader.RefreshesTo (system.contents reader.identity) report next := by
  have hsame : (reader.identity.expectUnchanged system reader.path = .ok () ↔
      system.identityOf reader.path = .ok reader.identity) ∧
        ∀ opened, system.openFile reader.path = .ok opened ↔
          system.identityOf reader.path = .ok opened := by
    rw [FileIdentity.expectUnchanged, FileIdentity.capture, FileSystem.openFile]
    cases system.identityOf reader.path with
    | error e => simp [Except.mapError]
    | ok identity => simp [Except.mapError, failIf_eq_ok]
  have hkept (file : Bytes) : reader.expectOwnCommittedBytes file file.length = .ok () ↔
      Frame.readCommitTrailer file file.length reader.fileMetadata.lastGoodOffset =
        .ok reader.fileMetadata.commitAnchor := by
    rw [expectOwnCommittedBytes, bind_eq_ok]
    simp only [failIf_eq_ok, not_not, exists_eq_right]
  rw [refreshed_eq_ok]
  constructor
  · rintro ⟨opened, hidentity, hopened, hcommitted, houtcome⟩
    have hnamed := hsame.1.mp hidentity
    obtain rfl : reader.identity = opened :=
      Except.ok.inj (hnamed.symm.trans ((hsame.2 opened).mp hopened))
    exact ⟨hnamed, (hkept _).mp hcommitted, houtcome⟩
  · rintro ⟨hnamed, hanchor, houtcome⟩
    exact ⟨reader.identity, hsame.1.mpr hnamed, (hsame.2 _).mpr hnamed, (hkept _).mpr hanchor,
      houtcome⟩

theorem refresh_eq_ok :
    reader.refresh system = (.ok report, next) ↔ reader.refreshed system = .ok (report, next) := by
  rw [refresh]
  cases reader.refreshed system with
  | error e => simp
  | ok result =>
    obtain ⟨report', next'⟩ := result
    simp

/-- A refresh that fails leaves the snapshot as it was. -/
theorem refresh_eq_error {e : Error} (h : reader.refresh system = (.error e, next)) :
    next = reader := by
  rw [refresh] at h
  cases hrefreshed : reader.refreshed system with
  | error e' =>
    rw [hrefreshed] at h
    exact (Prod.ext_iff.mp h).2.symm
  | ok result =>
    rw [hrefreshed] at h
    cases h

/-- **What a snapshot knows of its bytes**, however it came about. -/
theorem Snapshots.commits (h : Snapshots path limits reader committed) :
    reader.Commits committed := by
  induction h with
  | opened h =>
    obtain ⟨-, -, rfl, hdiscover⟩ := openWithLimits_eq_ok.mp h
    exact commits_of_discover hdiscover
  | refreshed before h ih =>
    rename_i system reader next report committed
    obtain ⟨-, hanchor, houtcome⟩ := refreshed_iff.mp (refresh_eq_ok.mp h)
    have hle := (Frame.readCommitTrailer_eq_ok.mp hanchor).2.1
    cases houtcome with
    | unchanged hlength h =>
      obtain rfl := (Prod.ext_iff.mp h).2
      exact commits_committedOf hanchor ih.frameCount ih.frameCount_le
    | extended hlength h =>
      obtain ⟨scan, hopen, h⟩ := bind_eq_ok.mp h
      obtain ⟨_, -, h⟩ := bind_eq_ok.mp h
      obtain ⟨⟨walk, staged⟩, hwalk, h⟩ := bind_eq_ok.mp h
      obtain ⟨blockCount, hcount, h⟩ := bind_eq_ok.mp h
      obtain ⟨anchor, hnext, h⟩ := bind_eq_ok.mp h
      cases h
      obtain ⟨frame, hopens⟩ := FileScan.fromFile_eq_ok.mp hopen
      obtain ⟨-, -, hframes, hframes_le⟩ := ih.of_walk (by rw [ih.length]; exact hle) hopen hwalk
      obtain ⟨-, rfl⟩ := checkedAdd_eq_some.mp (okOr_eq_ok.mp hcount)
      rw [hopens.isFile, hopens.isSize] at hnext
      exact commits_committedOf hnext hframes hframes_le

/-- **When a refresh keeps to the committed bytes**: where they are still there, or where it notices
that they are not.  It notices that the file has become too short, that another trailer is at the
boundary, and that a longer file does not read on from there.  It adopts every other file. -/
theorem refresh_keeps_iff (h : Snapshots path limits reader committed)
    (hidentity : system.identityOf reader.path = .ok reader.identity) :
    ((∀ report next, reader.refresh system = (.ok report, next) →
          committed <+: system.contents reader.identity) ∧
        ∀ e next, reader.refresh system = (.error e, next) → next = reader) ↔
      committed <+: system.contents reader.identity ∨
        (system.contents reader.identity).length < committed.length ∨
          slice (system.contents reader.identity) (committed.length - trailerSize) trailerSize ≠
              slice committed (committed.length - trailerSize) trailerSize ∨
            committed.length < (system.contents reader.identity).length ∧
              ¬reader.Resumes (system.contents reader.identity) := by
  have hcommits := h.commits
  have hlength := hcommits.length
  generalize hfile : system.contents reader.identity = file
  rw [and_iff_left fun e next ↦ refresh_eq_error]
  constructor
  · intro hkeeps
    by_contra hadopts
    simp only [not_or, not_lt, not_not, not_and] at hadopts
    obtain ⟨hlost, hle, htrailer, hresumes⟩ := hadopts
    have hanchor : Frame.readCommitTrailer file file.length reader.fileMetadata.lastGoodOffset =
        .ok reader.fileMetadata.commitAnchor := by
      rw [← hlength]
      exact Frame.readCommitTrailer_eq_ok.mpr
        ⟨hcommits.trailer_le, hle, htrailer.trans hcommits.anchor⟩
    have houtcome : ∃ report next, reader.RefreshesTo file report next := by
      rcases hle.lt_or_eq with hgrown | hend
      · obtain ⟨report, next, hextend⟩ := (hcommits.extend_eq_ok hle).mpr (hresumes hgrown)
        exact ⟨report, next, .extended (hlength ▸ hgrown) hextend⟩
      · exact ⟨_, _, .unchanged (hend.symm.trans hlength) rfl⟩
    obtain ⟨report, next, houtcome⟩ := houtcome
    subst hfile
    exact hlost (hkeeps report next
      (refresh_eq_ok.mpr (refreshed_iff.mpr ⟨hidentity, hanchor, houtcome⟩)))
  · intro hnotices report next hrefresh
    obtain ⟨-, hanchor, houtcome⟩ := refreshed_iff.mp (refresh_eq_ok.mp hrefresh)
    rw [hfile, ← hlength] at hanchor
    obtain ⟨-, hle, htrailer⟩ := Frame.readCommitTrailer_eq_ok.mp hanchor
    rcases hnotices with hkept | hshorter | hdiffers | ⟨hgrown, hstops⟩
    · exact hkept
    · exact absurd hle (Nat.not_le.mpr hshorter)
    · exact absurd (htrailer.trans hcommits.anchor.symm) hdiffers
    · subst hfile
      cases houtcome with
      | unchanged hend => exact absurd (hend.trans hlength.symm) hgrown.ne'
      | extended _ hextend => exact absurd ((hcommits.extend_eq_ok hle).mp ⟨_, _, hextend⟩) hstops

end Outcomes

/-! ### A file that was written over -/

theorem OneBlock.snapshots {file : Bytes} {reader : Reader} (h : OneBlock file reader) :
    Snapshots "n.acta" Limits.default reader file := by
  have hsnapshot := Snapshots.opened h.opens
  have hwhole : reader.committedOf file = file := by
    rw [committedOf, h.lastGoodOffset, List.take_length]
  exact hwhole ▸ hsnapshot

/-- A file whose last byte was written over is refused: another trailer is at the boundary. -/
theorem refresh_keeps_rewritten :
    ∃ file reader, OneBlock file reader ∧ ¬file <+: file.set 431 0 ∧
      ∃ e, reader.refresh (oneFile (file.set 431 0)) = (.error e, reader) := by
  obtain ⟨file, frame, reader, fresh, h, hsecond⟩ := exists_secondBlock
  have hlength := hsecond.bytes.length_eq
  have htrailer : trailerSize = 32 := rfl
  have hidentity : (oneFile (file.set 431 0)).identityOf reader.path = .ok reader.identity := by
    rw [h.identity]
    rfl
  have hne : file[431]? ≠ some 0 := by
    rw [hsecond.bytes.last]
    decide
  have hlost : ¬file <+: file.set 431 0 := fun hkept ↦
    set_ne_self (by omega) hne (hkept.eq_of_length List.length_set.symm).symm
  obtain ⟨hkeeps, hfails⟩ := (refresh_keeps_iff h.snapshots hidentity).mpr (.inr (.inr (.inl
    (slice_set_ne (by omega) (by omega) (by omega) hne))))
  refine ⟨file, reader, h, hlost, ?_⟩
  rcases hrefresh : reader.refresh (oneFile (file.set 431 0)) with ⟨e | report, next⟩
  · exact ⟨e, by rw [hfails e next hrefresh]⟩
  · exact absurd (hkeeps report next hrefresh) hlost

/-- **A file that was written over is adopted**: its first byte is another, and the refresh reports
that nothing happened. -/
theorem refresh_adopts_oneBlock :
    ∃ file reader report next, OneBlock file reader ∧ 0 < reader.blocks.length ∧
      Snapshots "n.acta" Limits.default reader file ∧
        reader.refresh (oneFile (file.set 0 0)) = (.ok report, next) ∧ ¬file <+: file.set 0 0 := by
  obtain ⟨file, reader, h⟩ := exists_oneBlock
  have hcommits := h.snapshots.commits
  have hlength : (file.set 0 0).length = file.length := List.length_set
  have hanchor : Frame.readCommitTrailer (file.set 0 0) (file.set 0 0).length
      reader.fileMetadata.lastGoodOffset = .ok reader.fileMetadata.commitAnchor := by
    have hgt := h.length_gt
    rw [h.lastGoodOffset]
    refine Frame.readCommitTrailer_eq_ok.mpr ⟨hgt.le, hlength.ge, ?_⟩
    rw [slice_set_of_lt 0 (by omega)]
    exact hcommits.anchor
  have hrefreshed : reader.refreshed (oneFile (file.set 0 0)) = .ok _ :=
    refreshed_iff.mpr ⟨by rw [h.identity]; rfl, hanchor,
      .unchanged (hlength.trans h.lastGoodOffset.symm) rfl⟩
  refine ⟨file, reader, _, _, h, by rw [h.blocks]; exact Nat.one_pos, h.snapshots,
    refresh_eq_ok.mpr hrefreshed, fun hkept ↦ ?_⟩
  have hne : file[0]? ≠ some 0 := by
    rw [h.head]
    decide
  exact set_ne_self (Nat.lt_of_le_of_lt (Nat.zero_le _) h.length_gt) hne
    (hkept.eq_of_length hlength.symm).symm

end Reader

end Acta
