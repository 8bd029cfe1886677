import Acta.Format.Replay

/-!
# Interrupted appends

An append that is cut off anywhere inside the frame it was writing leaves a file whose walk is the
walk of the file before it, stopped by an incomplete tail (`walkDataFrames_cut`).  The decision
rests on the 48 bytes of the prefix: when they are all there they still declare the length of the
whole frame, and the file is too short for it.
-/

namespace Acta

open Machine Wire

/-- A complete data frame, as a byte string. -/
def IsDataFrame (image : Bytes) (limits : Limits) : Prop :=
  ∃ sequence, sequence ≠ schemaFrameSequence ∧ Frame.IsFrame image sequence limits

variable {σ : Type}

/-- A state without what the caller has recorded. -/
def WalkState.forget (state : WalkState σ) : WalkState Unit :=
  { state with visited := () }

namespace FileScan

/-- **What a successful walk says**: the state it reached, and why it stopped there. -/
theorem walkDataFramesFrom_eq_ok {scan : FileScan} {resume : ResumePoint} {visit : Visit σ}
    {visited visited' : σ} {walk : Walk} :
    scan.walkDataFramesFrom resume visit visited = .ok (walk, visited') ↔
      ∃ state, (scan.frames visit).Reaches scan.fileSize (startAt resume visited) state ∧
        (if walk.incompleteTail then
          state.offset < scan.fileSize ∧ scan.stepFrame visit state = .ok none
        else scan.fileSize ≤ state.offset) ∧
        walkOf state walk.incompleteTail = walk ∧ state.visited = visited' := by
  rw [walkDataFramesFrom, bind_eq_ok]
  constructor
  · rintro ⟨⟨state, stopped⟩, hrun, hdone⟩
    cases hdone
    obtain ⟨hreach, hend⟩ := LogScan.run_eq_ok.mp hrun
    exact ⟨state, hreach, hend, rfl, rfl⟩
  · rintro ⟨state, hreach, hend, hwalk, rfl⟩
    refine ⟨(state, walk.incompleteTail), LogScan.run_eq_ok.mpr ⟨hreach, hend⟩, ?_⟩
    show Except.ok (walkOf state walk.incompleteTail, state.visited) = .ok (walk, state.visited)
    rw [hwalk]

/-- The walk never leaves the file. -/
theorem offset_le_of_reaches {scan : FileScan} {visit : Visit σ} {start state : WalkState σ}
    (hsize : scan.fileSize = scan.file.length) (hstart : start.offset ≤ scan.fileSize)
    (h : (scan.frames visit).Reaches scan.fileSize start state) : state.offset ≤ scan.fileSize := by
  refine h.invariant (P := fun s ↦ s.offset ≤ scan.fileSize) ?_ hstart
  intro a b hadv _
  obtain ⟨frame, block, hsteps⟩ := stepFrame_eq_some.mp hadv.2
  rw [hsize]
  exact (hsteps.offset_le_length hsize).2

/-- The walk of an opened file starts inside it. -/
theorem Opens.firstDataFrameOffset_le {file : Bytes} {limits : Limits} {scan : FileScan}
    {frame : FrameMetadata} (h : Opens file limits scan frame) :
    scan.firstDataFrameOffset ≤ file.length := by
  rw [h.offset]
  exact (Frame.totalLength_of_complete h.read).2.2.2

/-! ### Walks that record nothing -/

/-- The states a walk reaches, with any visitor, are reached by a walk that records nothing. -/
theorem reaches_forget {scan : FileScan} {visit : Visit σ} {start state : WalkState σ}
    (h : (scan.frames visit).Reaches scan.fileSize start state) :
    (scan.frames fun _ _ _ ↦ .ok ()).Reaches scan.fileSize start.forget state.forget := by
  have hstep : ∀ a b a', (scan.frames visit).Advances scan.fileSize a b →
      b.offset ≤ state.offset → a.forget = a' →
        ∃ b', (scan.frames fun _ _ _ ↦ .ok ()).Advances scan.fileSize a' b' ∧
          b.forget = b' := by
    rintro a b _ ⟨hinside, hadv⟩ - rfl
    obtain ⟨frame, block, hsteps⟩ := stepFrame_eq_some.mp hadv
    have hsteps' : StepsTo scan (fun _ _ _ ↦ .ok ()) a.forget b.forget frame block :=
      { hsteps with visit := rfl }
    exact ⟨b.forget, ⟨hinside, stepFrame_eq_some.mpr ⟨frame, block, hsteps'⟩⟩, rfl⟩
  obtain ⟨state', hreach, rfl⟩ := h.simulate hstep le_rfl rfl
  exact hreach

/-- **Only the caller's own refusals depend on what it records**: a walk that succeeds with any
visitor succeeds, with the same outcome, with one that records nothing. -/
theorem walkDataFramesFrom_forget {scan : FileScan} {resume : ResumePoint} {visit : Visit σ}
    {visited visited' : σ} {walk : Walk}
    (h : scan.walkDataFramesFrom resume visit visited = .ok (walk, visited')) :
    scan.walkDataFramesFrom resume (fun _ _ _ ↦ .ok ()) () = .ok (walk, ()) := by
  obtain ⟨state, hreach, hend, hwalk, -⟩ := walkDataFramesFrom_eq_ok.mp h
  refine walkDataFramesFrom_eq_ok.mpr ⟨_, reaches_forget hreach, ?_, hwalk, rfl⟩
  cases htail : walk.incompleteTail with
  | false =>
    rw [htail, if_neg (by simp)] at hend
    rw [if_neg (by simp)]
    exact hend
  | true =>
    rw [htail, if_pos rfl] at hend
    rw [if_pos rfl]
    have hread := stepFrame_eq_none.mp hend.2
    exact ⟨hend.1, stepFrame_eq_none.mpr hread⟩

/-! ### The cut -/

variable {file kept lost : Bytes} {limits : Limits} {scan grown : FileScan}

/-- A file that opens still opens when bytes follow it. -/
theorem fromFile_append (hopen : fromFile file limits = .ok scan) (more : Bytes) :
    fromFile (file ++ more) limits = .ok (scan.withFile (file ++ more)) := by
  obtain ⟨frame, h⟩ := fromFile_eq_ok.mp hopen
  have hfirst := h.firstDataFrameOffset_le
  refine fromFile_of_agreeOn hopen (agreeOn_append more hfirst) ?_
  rw [List.length_append]
  omega

/-- The walk of a complete file reaches its end. -/
theorem exists_reaches_length {visit : Visit σ} {visited visited' : σ} {walk : Walk}
    (hopen : fromFile file limits = .ok scan)
    (hwalk : scan.walkDataFrames visit visited = .ok (walk, visited'))
    (hcomplete : walk.incompleteTail = false) :
    ∃ state, (scan.frames visit).Reaches scan.fileSize
        (startAt scan.initialResumePoint visited) state ∧
      state.offset = file.length ∧ walkOf state false = walk ∧ state.visited = visited' := by
  obtain ⟨frame, h⟩ := fromFile_eq_ok.mp hopen
  have hfirst := h.firstDataFrameOffset_le
  have hsize : scan.fileSize = scan.file.length := by rw [h.isFile, h.isSize]
  obtain ⟨state, hreach, hend, hstate, hvisited⟩ := walkDataFramesFrom_eq_ok.mp hwalk
  rw [hcomplete] at hstate hend
  rw [if_neg (by simp), h.isSize] at hend
  have hstart : (startAt scan.initialResumePoint visited).offset ≤ scan.fileSize := by
    rw [h.isSize]
    exact hfirst
  have hle := offset_le_of_reaches hsize hstart hreach
  rw [h.isSize] at hle
  exact ⟨state, hreach, le_antisymm hle hend, hstate, hvisited⟩

/-- The walk of a complete file goes on over whatever follows it, from where the file ended. -/
theorem reaches_append {visit : Visit σ} {start state : WalkState σ}
    (hopen : fromFile file limits = .ok scan)
    (hreach : (scan.frames visit).Reaches scan.fileSize start state)
    (hend : state.offset = file.length) (more : Bytes) :
    ((scan.withFile (file ++ more)).frames visit).Reaches (file ++ more).length start state := by
  obtain ⟨frame, h⟩ := fromFile_eq_ok.mp hopen
  have hsize : scan.fileSize = scan.file.length := by rw [h.isFile, h.isSize]
  refine reaches_of_agreeOn hsize hreach ?_ ?_
  · rw [h.isFile]
    exact agreeOn_append more hend.le
  · rw [hend, List.length_append]
    omega

/-- The frame that a longer complete file holds after a shorter one. -/
theorem exists_frame_after {grownWalk : Walk} {state : WalkState Unit}
    {more : Bytes} (hopen : fromFile file limits = .ok scan)
    (hreach : (scan.frames fun _ _ _ ↦ .ok ()).Reaches scan.fileSize
      (startAt scan.initialResumePoint ()) state)
    (hend : state.offset = file.length) (hmore : more ≠ [])
    (hwalk : (scan.withFile (file ++ more)).walkDataFrames (fun _ _ _ ↦ .ok ()) () =
      .ok (grownWalk, ()))
    (hcomplete : grownWalk.incompleteTail = false) :
    ∃ frame, Frame.readFrame (file ++ more) (file ++ more).length file.length state.sequence
      limits = .ok (.complete frame) := by
  obtain ⟨schemaFrame, h⟩ := fromFile_eq_ok.mp hopen
  have hpos : 0 < more.length := List.length_pos_iff.mpr hmore
  obtain ⟨final, hfinal, hfinalEnd, -⟩ := walkDataFramesFrom_eq_ok.mp hwalk
  rw [hcomplete, if_neg (by simp)] at hfinalEnd
  -- The walk of the longer file passes through the end of the shorter one and does not stop there.
  have hthrough := reaches_append hopen hreach hend more
  have hrun : ((scan.withFile (file ++ more)).frames fun _ _ _ ↦ .ok ()).run
      (file ++ more).length state = .ok (final, false) := by
    rw [← LogScan.run_eq_of_reaches hthrough]
    exact LogScan.run_eq_ok.mpr ⟨hfinal, hfinalEnd⟩
  obtain ⟨hrest, -⟩ := LogScan.run_eq_ok.mp hrun
  rcases Relation.ReflTransGen.cases_head hrest with heq | ⟨next, ⟨-, hadv⟩, -⟩
  · have hlast : (file ++ more).length ≤ final.offset := hfinalEnd
    rw [← heq, hend, List.length_append] at hlast
    omega
  · have hstep : (scan.withFile (file ++ more)).stepFrame (fun _ _ _ ↦ .ok ()) state =
        .ok (some next) := hadv
    obtain ⟨frame, block, hsteps⟩ := stepFrame_eq_some.mp hstep
    have hread := hsteps.read
    rw [hend] at hread
    refine ⟨frame, ?_⟩
    rw [← h.isLimits]
    exact hread

/-- A complete data frame declares its own length wherever it is read. -/
theorem totalLength_of_isDataFrame {image : Bytes} {sequence : ℕ} {frame : FrameMetadata}
    (himage : IsDataFrame image limits)
    (h : Frame.readFrame (file ++ image) (file ++ image).length file.length sequence limits =
      .ok (.complete frame)) :
    frame.totalLength = image.length := by
  obtain ⟨_, -, hframe⟩ := himage
  have hlength := hframe.length
  have hroom : prefixSize ≤ image.length := by
    rw [hlength]
    exact Frame.prefixSize_le_totalLength _
  obtain ⟨total, hfits, -, hread, rfl⟩ := (Frame.readFrame_eq_complete le_rfl).mp h
  have htotal := hread.length
  rw [length_slice_of_le hfits] at htotal
  have hminimum : prefixSize ≤ total := by
    rw [htotal]
    exact Frame.prefixSize_le_totalLength _
  have hsame : Frame.imagePrefix (slice (file ++ image) file.length total) =
      Frame.imagePrefix image := by
    rw [Frame.imagePrefix_slice _ _ hminimum, slice_append_right' image _ le_rfl, Nat.sub_self,
      slice_zero]
    rfl
  rw [hlength, ← hsame]
  rfl

/-- **An append cut off anywhere inside its frame** leaves the walk of the file before it, stopped
by an incomplete tail. -/
theorem walkDataFrames_cut {visit : Visit σ} {visited visited' : σ} {walk grownWalk : Walk}
    (hopen : fromFile file limits = .ok scan)
    (hwalk : scan.walkDataFrames visit visited = .ok (walk, visited'))
    (hcomplete : walk.incompleteTail = false)
    (hframe : IsDataFrame (kept ++ lost) limits)
    (hgrown : (scan.withFile (file ++ (kept ++ lost))).walkDataFrames (fun _ _ _ ↦ .ok ()) () =
      .ok (grownWalk, ()))
    (hgrownComplete : grownWalk.incompleteTail = false) (hkept : kept ≠ []) (hlost : lost ≠ []) :
    (scan.withFile (file ++ kept)).walkDataFrames visit visited =
      .ok ({ walk with incompleteTail := true }, visited') := by
  obtain ⟨schemaFrame, hopens⟩ := fromFile_eq_ok.mp hopen
  have hpos : 0 < kept.length := List.length_pos_iff.mpr hkept
  obtain ⟨plain, hplain, hplainEnd, hplainWalk, -⟩ :=
    exists_reaches_length hopen (walkDataFramesFrom_forget hwalk) hcomplete
  obtain ⟨state, hreach, hend, hstate, hvisited⟩ := exists_reaches_length hopen hwalk hcomplete
  obtain ⟨frame, hread⟩ := exists_frame_after hopen hplain hplainEnd (by simp [hkept]) hgrown
    hgrownComplete
  have hsequence : plain.sequence = state.sequence := by
    rw [← hstate] at hplainWalk
    exact congrArg Walk.nextSequence hplainWalk
  rw [hsequence] at hread
  have hcut := Frame.readFrame_cut hlost hread (totalLength_of_isDataFrame hframe hread)
  have hstop : (scan.withFile (file ++ kept)).stepFrame visit state = .ok none := by
    refine stepFrame_eq_none.mpr ?_
    rw [hend]
    show Frame.readFrame (file ++ kept) (file ++ kept).length file.length state.sequence
      scan.limits = .ok .incompleteTail
    rw [hopens.isLimits]
    exact hcut
  refine walkDataFramesFrom_eq_ok.mpr ⟨state, reaches_append hopen hreach hend kept, ?_, ?_,
    hvisited⟩
  · rw [if_pos rfl]
    refine ⟨?_, hstop⟩
    show state.offset < (file ++ kept).length
    rw [hend, List.length_append]
    omega
  · rw [← hstate]
    rfl

end FileScan

end Acta
