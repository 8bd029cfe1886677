import Acta.Write.History

/-!
# Damage to committed bytes

A byte below the last good offset of a walk lies in the prologue, in the schema frame or in one of
the data frames, and replacing it is corruption: the walk over the damaged file is the old one up to
the structure that holds the byte, and that structure is refused.
-/

namespace Acta

open Machine Wire

namespace FileScan

variable {σ : Type} {file : Bytes} {limits : Limits} {scan : FileScan} {i : ℕ} {byte : UInt8}

/-- A damaged prologue is corruption. -/
theorem failsWith_readFromFile_set {prologue : Prologue}
    (h : Prologue.parse (slice file 0 prologueSize) = .ok prologue)
    (hsize : prologueSize ≤ file.length) (hi : i < prologueSize) (hne : file[i]? ≠ some byte) :
    FailsWith .corruption
      (Prologue.readFromFile (file.set i byte) (file.set i byte).length) := by
  have hlength : (slice file 0 prologueSize).length = prologueSize :=
    length_slice_of_le (by omega)
  have hseal := ((Prologue.parse_eq_ok hlength).mp h).1.isSealed
  have hat : (slice file 0 prologueSize)[i]? ≠ some byte := by
    rwa [getElem?_slice _ hi, Nat.zero_add]
  have hset : slice (file.set i byte) 0 prologueSize = (slice file 0 prologueSize).set i byte :=
    slice_set byte (Nat.zero_le i)
  have hnot := not_sealed_set hseal hlength (by omega) hat
  rw [Prologue.readFromFile_eq (by rwa [List.length_set]) (by rwa [List.length_set]), hset]
  exact Prologue.failsWith_parse_of_not_sealed (by rw [List.length_set, hlength]) hnot

/-- Damage before the first data frame is noticed when the file is opened. -/
theorem failsWith_fromFile_set (hopen : fromFile file limits = .ok scan)
    (hi : i < scan.firstDataFrameOffset) (hne : file[i]? ≠ some byte) :
    FailsWith .corruption (fromFile (file.set i byte) limits) := by
  obtain ⟨frame, h⟩ := fromFile_eq_ok.mp hopen
  have hsize := h.prologueSize_le
  have hprologueSize : prologueSize = schemaFrameOffset := rfl
  rw [h.offset] at hi
  by_cases hprologue : i < prologueSize
  · exact (failsWith_readFromFile_set h.prologue hsize hprologue hne).bind _
  · have hsame : slice (file.set i byte) 0 prologueSize = slice file 0 prologueSize :=
      slice_set_of_le _ (by omega)
    have hread : Prologue.readFromFile (file.set i byte) (file.set i byte).length =
        .ok scan.prologue := by
      refine readFromFile_eq_ok.mpr ⟨by rwa [List.length_set], ?_⟩
      rw [hsame]
      exact h.prologue
    have hframe := Frame.failsWith_readFrame_set h.read (by omega) hi hne
    simp only [fromFile, hread, ok_bind]
    exact hframe.bind _

/-- **Replacing any committed byte is corruption.**  The damaged file is not accepted, its damage is
not taken for an interrupted append, and it is not reported as a limit or a version. -/
theorem failsWith_walkDataFrames_set {visit : Visit σ} {visited visited' : σ} {walk : Walk}
    (hopen : fromFile file limits = .ok scan)
    (hwalk : scan.walkDataFrames visit visited = .ok (walk, visited'))
    (hi : i < walk.lastGoodOffset) (hne : file[i]? ≠ some byte) :
    FailsWith .corruption (do
      let damaged ← fromFile (file.set i byte) limits
      damaged.walkDataFrames visit visited) := by
  by_cases hearly : i < scan.firstDataFrameOffset
  · exact (failsWith_fromFile_set hopen hearly hne).bind _
  rw [Nat.not_lt] at hearly
  obtain ⟨frame, h⟩ := fromFile_eq_ok.mp hopen
  have hsize : scan.fileSize = scan.file.length := by rw [h.isFile, h.isSize]
  have hfile := h.isFile
  have hfirst : scan.firstDataFrameOffset ≤ file.length := by
    have hle := (Frame.totalLength_of_complete h.read).2.2.2
    have hoffset := h.offset
    omega
  have hopen' : fromFile (file.set i byte) limits = .ok (scan.withFile (file.set i byte)) :=
    fromFile_of_agreeOn hopen (agreeOn_set byte (.inr hearly)) (by rwa [List.length_set])
  rw [hopen', ok_bind]
  -- The walk over the undamaged file reaches a state whose next frame holds the byte.
  obtain ⟨⟨state, stopped⟩, hrun, hdone⟩ := bind_eq_ok.mp hwalk
  cases hdone
  obtain ⟨a, b, hreach, ⟨hinside, hstep⟩, -, hlo, hhi⟩ :=
    (LogScan.run_eq_ok.mp hrun).1.exists_covering hearly hi
  obtain ⟨frame, block, hsteps⟩ := stepFrame_eq_some.mp hstep
  have hread := hsteps.read
  have hend := (hsteps.offset_le_length hsize).2
  have hinside' : a.offset < file.length := by
    rw [hsize, hfile] at hinside
    exact hinside
  have hagree : AgreeOn scan.file (file.set i byte)
      (startAt scan.initialResumePoint visited).offset a.offset := by
    rw [hfile]
    exact agreeOn_set byte (.inr hlo)
  have hreach' := reaches_of_agreeOn hsize hreach hagree
    (by rw [List.length_set]; exact hinside'.le)
  rw [hsize, hfile] at hread
  have hbad := Frame.failsWith_readFrame_set hread hlo (by rw [← hsteps.offset]; exact hhi) hne
  obtain ⟨e, hfail, hkind⟩ : FailsWith .corruption
      (stepFrame (scan.withFile (file.set i byte)) visit a) := hbad.bind _
  have hpos : a.offset < (file.set i byte).length := by rwa [List.length_set]
  have hrun' : ((scan.withFile (file.set i byte)).frames visit).run
      (scan.withFile (file.set i byte)).fileSize (startAt scan.initialResumePoint visited) =
      .error e :=
    LogScan.run_eq_error.mpr ⟨a, hreach', hpos, hfail⟩
  refine FailsWith.bind ?_ _
  exact ⟨e, hrun', hkind⟩

/-- The row of a block is replaced by another. -/
theorem failsWith_walkDataFrames_set_row :
    ∃ file scan walk block, fromFile file Limits.default = .ok scan ∧
      scan.walkDataFrames collect [] = .ok (walk, [block]) ∧ scan.firstDataFrameOffset ≤ 392 ∧
        392 < walk.lastGoodOffset ∧ file[392]? = some 5 ∧
          FailsWith .corruption (do
            let damaged ← fromFile (file.set 392 6) Limits.default
            damaged.walkDataFrames collect []) := by
  obtain ⟨file, frame, h⟩ := exists_twoBlocks
  obtain ⟨scan, state, hone, hcount⟩ := h.one
  obtain ⟨block, hblock⟩ : ∃ block, state.visited = [block] := by
    have hlength := congrArg List.length hcount
    rw [List.length_map] at hlength
    exact List.length_eq_one_iff.mp hlength
  have hend : state.offset = 432 := hone.isEnd.trans h.length_eq
  -- The block takes eighty bytes at least, so it begins before its row.
  have hfirst : scan.firstDataFrameOffset ≤ 392 := by
    rcases Relation.ReflTransGen.cases_tail hone.reaches with hsame | ⟨before, hbefore, -, hstep⟩
    · rw [hsame] at hblock
      cases hblock
    · obtain ⟨frame, block, hsteps⟩ := stepFrame_eq_some.mp hstep
      obtain ⟨-, -, hlength, -⟩ := Frame.totalLength_of_complete hsteps.read
      have hlower : scan.firstDataFrameOffset ≤ before.offset :=
        LogScan.Reaches.pos_le hbefore
      have hoffset := hsteps.offset
      simp only [prefixSize, trailerSize] at hlength
      omega
  have hwalk := hone.walk
  rw [hblock] at hwalk
  have hgood : 392 < (walkOf state false).lastGoodOffset := by
    show 392 < state.offset
    omega
  have hne : file[392]? ≠ some 6 := by
    rw [h.row]
    decide
  exact ⟨file, scan, _, block, hone.opens, hwalk, hfirst, hgood, h.row,
    failsWith_walkDataFrames_set hone.opens hwalk hgood hne⟩

end FileScan

end Acta
