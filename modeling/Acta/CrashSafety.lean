import Acta.Recovery
import Acta.Write.Mirror

/-!
# Crash safety

What becomes of a file whose last append was interrupted: it is walked as the file before the
append, it is not opened for appending, and its repair restores the file before the append.
-/

namespace Acta

open Machine Wire

namespace Writer

variable (zstd : Zstd) {disk : Disk} {file more : Bytes} {limits : Limits} {scan : FileScan}

/-- Discovery of a file that ends inside a frame, under options that suit the file before it. -/
theorem failsWith_discover {expectedSchema : Option Schema} {options : WriterOptions} {walk : Walk}
    (hopen : FileScan.fromFile (file ++ more) limits = .ok (scan.withFile (file ++ more)))
    (hcheck : checkReopen scan expectedSchema options = .ok ())
    (hwalk : (scan.withFile (file ++ more)).walkDataFrames (fun _ _ _ ↦ .ok ()) () =
      .ok (walk, ())) (htail : walk.incompleteTail = true) :
    FailsWith .incompleteTail (discover disk (file ++ more) expectedSchema limits options) := by
  have hcheck' : checkReopen (scan.withFile (file ++ more)) expectedSchema options = .ok () :=
    hcheck
  rw [discover, hopen, ok_bind, hcheck', ok_bind, hwalk, ok_bind]
  exact failsWith_failIf_bind htail _

/-- **A writer does not open a file that ends inside a frame**, and it leaves the file alone. -/
theorem openInternal_incompleteTail {expectedSchema : Option Schema} {options : WriterOptions}
    {writer : Writer} {walk : Walk} {left : Option Bytes}
    (hopens : openInternal zstd { disk with contents := some file } expectedSchema limits options =
      (.ok writer, left))
    (hscan : FileScan.fromFile file limits = .ok scan)
    (hopen : FileScan.fromFile (file ++ more) limits = .ok (scan.withFile (file ++ more)))
    (hwalk : (scan.withFile (file ++ more)).walkDataFrames (fun _ _ _ ↦ .ok ()) () =
      .ok (walk, ())) (htail : walk.incompleteTail = true) :
    FailsWith .incompleteTail
        (openInternal zstd { disk with contents := some (file ++ more) } expectedSchema limits
          options).1 ∧
      (openInternal zstd { disk with contents := some (file ++ more) } expectedSchema limits
        options).2 = some (file ++ more) := by
  refine ⟨?_, rfl⟩
  have hok := congrArg Prod.fst hopens
  simp only [openInternal, bind_eq_ok, okOr_eq_ok, Option.some.injEq] at hok
  obtain ⟨⟨⟩, hoptions, _, rfl, ⟨⟩, hlock, ⟨schema, state⟩, hdiscover, -⟩ := hok
  rw [discover, hscan, ok_bind] at hdiscover
  obtain ⟨⟨⟩, hcheck, -⟩ := bind_eq_ok.mp hdiscover
  have hlock' : acquireWriterLock { disk with contents := some (file ++ more) } = .ok () := hlock
  have hfails : FailsWith .incompleteTail
      (discover { disk with contents := some (file ++ more) } (file ++ more) expectedSchema limits
        options) := failsWith_discover hopen hcheck hwalk htail
  simp only [openInternal, hoptions, ok_bind, okOr, hlock']
  exact hfails.bind _

end Writer

namespace Recovery

variable {file more : Bytes} {limits : Limits} {scan : FileScan}

theorem discover_eq {walk : Walk}
    (hwalk : scan.walkDataFrames (fun _ _ _ ↦ .ok ()) () = .ok (walk, ())) :
    discover scan = planFromWalk scan.fileSize walk.lastGoodOffset walk.incompleteTail := by
  rw [discover, hwalk]
  rfl

/-- What a walk that stops inside a frame is planned to need. -/
theorem planFromWalk_incomplete {fileSize lastGoodOffset : ℕ} (h : lastGoodOffset < fileSize) :
    planFromWalk fileSize lastGoodOffset true = .ok
      { action := .truncateIncompleteTail, fileSize, lastGoodOffset,
        bytesToRemove := fileSize - lastGoodOffset } := by
  have hlength : tailLength fileSize lastGoodOffset = .ok (fileSize - lastGoodOffset) := by
    rw [tailLength, failIf_neg (by omega), ok_bind, checkedSub_of_le h.le]
    rfl
  rw [planFromWalk, if_pos rfl, hlength]
  rfl

/-- What a walk that reads the whole file is planned to need. -/
theorem planFromWalk_complete (fileSize : ℕ) :
    planFromWalk fileSize fileSize false = .ok
      { action := .none, fileSize, lastGoodOffset := fileSize, bytesToRemove := 0 } := by
  rw [planFromWalk, if_neg (by simp), failIf_neg (by simp)]
  rfl

theorem setLength_append (file more : Bytes) : setLength (file ++ more) file.length = file := by
  rw [setLength, List.take_left, List.length_append, Nat.sub_eq_zero_of_le (by omega)]
  simp [Write.zeros]

/-- **Repair restores the file before an interrupted append.** -/
theorem repairLockedFile_incompleteTail {walk tailWalk : Walk} (hmore : more ≠ [])
    (hscan : FileScan.fromFile file limits = .ok scan) (hsize : scan.fileSize = file.length)
    (hwalk : scan.walkDataFrames (fun _ _ _ ↦ .ok ()) () = .ok (walk, ()))
    (hcomplete : walk.incompleteTail = false) (hend : walk.lastGoodOffset = file.length)
    (hopen : FileScan.fromFile (file ++ more) limits = .ok (scan.withFile (file ++ more)))
    (htailWalk : (scan.withFile (file ++ more)).walkDataFrames (fun _ _ _ ↦ .ok ()) () =
      .ok (tailWalk, ())) (htail : tailWalk.incompleteTail = true)
    (htailEnd : tailWalk.lastGoodOffset = file.length) :
    repairLockedFile (file ++ more) limits fileRepairOperations =
      (.ok { originalFileSize := (file ++ more).length, repairedFileSize := file.length,
             bytesRemoved := more.length }, file) := by
  have hpos : 0 < more.length := List.length_pos_iff.mpr hmore
  have hlonger : file.length < (file ++ more).length := by
    rw [List.length_append]
    omega
  have hplan : planRepair (file ++ more) limits fileRepairOperations = .ok
      { action := .truncateIncompleteTail, fileSize := (file ++ more).length,
        lastGoodOffset := file.length,
        bytesToRemove := (file ++ more).length - file.length } := by
    have hdiscover := discover_eq htailWalk
    rw [htail, htailEnd, show (scan.withFile (file ++ more)).fileSize =
      (file ++ more).length from rfl,
      planFromWalk_incomplete hlonger] at hdiscover
    rw [planRepair, hopen, ok_bind, hdiscover, ok_bind]
    simp [fileRepairOperations, Except.mapError, failIf]
  have hfinish : finishRepair file limits
      { action := .truncateIncompleteTail, fileSize := (file ++ more).length,
        lastGoodOffset := file.length, bytesToRemove := (file ++ more).length - file.length }
      fileRepairOperations = .ok
        { originalFileSize := (file ++ more).length, repairedFileSize := file.length,
          bytesRemoved := more.length } := by
    have hdiscover := discover_eq hwalk
    rw [hcomplete, hend, hsize, planFromWalk_complete] at hdiscover
    have hremoved : checkedSub (file ++ more).length file.length = some more.length := by
      rw [checkedSub_of_le hlonger.le, List.length_append, Nat.add_sub_cancel_left]
    simp only [finishRepair, fileRepairOperations, Except.mapError, ok_bind, hscan, hdiscover]
    rw [failIf_neg (by simp), ok_bind, hremoved]
    rfl
  rw [repairLockedFile, hplan]
  show ((finishRepair (setLength (file ++ more) file.length) limits _
    fileRepairOperations).withMessagePrefix afterTruncation, setLength (file ++ more) file.length) =
      (_, file)
  rw [setLength_append, hfinish]
  rfl

end Recovery

/-- **Crash safety of append.**  Let a complete file be extended by a data frame to another complete
file, and let the append of that frame be cut off anywhere inside it.  Then the walk of what is left
is the walk of the file before the append, for any caller, except that it reports the incomplete
tail; a writer whose options would open the file before the append refuses what is left, and changes
nothing; and the repair restores the file before the append. -/
theorem interrupted_append {σ : Type} (zstd : Zstd) {file kept lost : Bytes} {limits : Limits}
    {scan grown : FileScan} {visit : Visit σ} {visited visited' : σ} {walk grownWalk : Walk}
    (hopen : FileScan.fromFile file limits = .ok scan)
    (hwalk : scan.walkDataFrames visit visited = .ok (walk, visited'))
    (hcomplete : walk.incompleteTail = false)
    (hframe : IsDataFrame (kept ++ lost) limits)
    (hgrown : FileScan.fromFile (file ++ (kept ++ lost)) limits = .ok grown)
    (hgrownWalk : grown.walkDataFrames (fun _ _ _ ↦ .ok ()) () = .ok (grownWalk, ()))
    (hgrownComplete : grownWalk.incompleteTail = false) (hkept : kept ≠ []) (hlost : lost ≠ []) :
    (∃ cut, FileScan.fromFile (file ++ kept) limits = .ok cut ∧ cut.schema = scan.schema ∧
      cut.walkDataFrames visit visited = .ok ({ walk with incompleteTail := true }, visited') ∧
      walk.lastGoodOffset = file.length) ∧
    (∀ (disk : Disk) (expectedSchema : Option Schema) (options : WriterOptions) (writer : Writer)
      (left : Option Bytes),
      Writer.openInternal zstd { disk with contents := some file } expectedSchema limits options =
        (.ok writer, left) →
      FailsWith .incompleteTail (Writer.openInternal zstd
        { disk with contents := some (file ++ kept) } expectedSchema limits options).1 ∧
      (Writer.openInternal zstd { disk with contents := some (file ++ kept) } expectedSchema limits
        options).2 = some (file ++ kept)) ∧
    (∀ disk : Disk, disk.locked = false → disk.contents = some (file ++ kept) →
      Recovery.repairIncompleteTailWithLimits disk limits fileRepairOperations =
        (.ok { originalFileSize := (file ++ kept).length, repairedFileSize := file.length,
               bytesRemoved := kept.length }, some file)) := by
  obtain ⟨schemaFrame, hopens⟩ := FileScan.fromFile_eq_ok.mp hopen
  have hcut := FileScan.fromFile_append hopen kept
  have hgrownOpen := FileScan.fromFile_append hopen (kept ++ lost)
  obtain rfl : grown = scan.withFile (file ++ (kept ++ lost)) := by
    rw [hgrown] at hgrownOpen
    exact Except.ok.inj hgrownOpen
  have hplain : scan.walkDataFrames (fun _ _ _ ↦ .ok ()) () = .ok (walk, ()) :=
    FileScan.walkDataFramesFrom_forget hwalk
  have hend : walk.lastGoodOffset = file.length := by
    obtain ⟨state, -, hoffset, rfl, -⟩ := FileScan.exists_reaches_length hopen hwalk hcomplete
    exact hoffset
  have hcutWalk := FileScan.walkDataFrames_cut hopen hwalk hcomplete hframe hgrownWalk
    hgrownComplete hkept hlost
  have hcutPlain := FileScan.walkDataFrames_cut hopen hplain hcomplete hframe hgrownWalk
    hgrownComplete hkept hlost
  refine ⟨⟨_, hcut, rfl, hcutWalk, hend⟩, ?_, ?_⟩
  · intro disk expectedSchema options writer left hwriter
    exact Writer.openInternal_incompleteTail zstd hwriter hopen hcut hcutPlain rfl
  · intro disk hunlocked hcontents
    have hrepair := Recovery.repairLockedFile_incompleteTail hkept hopen hopens.isSize hplain
      hcomplete hend hcut hcutPlain rfl hend
    have hlock : acquireWriterLock disk = .ok () := failIf_neg (by simp [hunlocked])
    rw [Recovery.repairIncompleteTailWithLimits, hcontents]
    simp only [hlock, hrepair]

/-- A file of one row whose append is cut off after its first byte. -/
theorem interrupted_append_oneNumber :
    ∃ file image scan walk, FileScan.fromFile file Limits.default = .ok scan ∧
      scan.walkDataFrames (fun _ _ _ ↦ .ok ()) () = .ok (walk, ()) ∧
        IsDataFrame image Limits.default ∧
          ∃ cut, FileScan.fromFile (file ++ image.take 1) Limits.default = .ok cut ∧
            cut.schema = scan.schema ∧ cut.walkDataFrames (fun _ _ _ ↦ .ok ()) () =
              .ok ({ walk with incompleteTail := true }, ()) ∧
            walk.lastGoodOffset = file.length := by
  have hfacts : ∃ start,
      (Writer.create storingZstd { contents := none } numberSchema {}).1 = .ok start ∧
        (start.push oneNumber).buffer.isEmpty = false ∧ start.options.rowIds = false ∧
          ((start.push oneNumber).bufferedFrame storingZstd).isOk = true ∧
            start.sink.stored.length ≤ 1000 :=
    exists_ok_and (by decide +kernel) (by decide +kernel)
  obtain ⟨start, hcreate, hfull, hrowIds, hbuilds, hstored⟩ := hfacts
  obtain ⟨image, hframe⟩ := exists_eq_ok hbuilds
  obtain ⟨schemaFrame, sink, hcreated, -⟩ := Writer.create_eq_ok storingZstd (Prod.ext hcreate rfl)
  obtain ⟨scan, state, hmirrors⟩ := Writer.mirrors_of_created storingZstd hcreated
  have hpushed : Writer.Mirrors (start.push oneNumber) scan state :=
    hmirrors.of_same rfl rfl rfl rfl
  obtain ⟨hisFrame, -⟩ := hpushed.parse_bufferedFrame storingZstd hfull hframe
  have hfit : (start.push oneNumber).RowIdsFit := fun henabled ↦ by
    have hdisabled : (start.push oneNumber).options.rowIds = false := hrowIds
    rw [hdisabled] at henabled
    cases henabled
  obtain ⟨assembly, primary, hbuilt⟩ := Write.buildDataFrame_eq_ok hframe
  have hlength : (start.sink.stored ++ image).length ≤ u64Max := by
    have hheader := hbuilt.header_le
    have hpayload := hbuilt.payload_le
    have himage := hbuilt.length_image
    rw [hbuilt.length_frameHeader] at himage
    rw [List.length_append]
    simp only [defaultMaxFramePayloadLength, defaultMaxFrameHeaderLength] at hheader hpayload
    simp only [prefixSize, trailerSize] at himage
    simp only [u64Max]
    omega
  obtain ⟨block, -, hgrown⟩ := hpushed.complete_append storingZstd hfull hframe hfit hlength
  have hpositive := (hpushed.numbered hfull).sequence_pos
  have hlast : image.drop 1 ≠ [] := by
    have himage := hbuilt.length_image
    simp only [prefixSize, trailerSize] at himage
    rw [Ne, List.drop_eq_nil_iff]
    omega
  have hfirst : image.take 1 ≠ [] := by
    have himage := hbuilt.length_image
    simp only [prefixSize, trailerSize] at himage
    rw [← List.length_pos_iff, List.length_take]
    omega
  have hwhole : image.take 1 ++ image.drop 1 = image := List.take_append_drop 1 image
  have hisData : IsDataFrame image Limits.default := ⟨state.sequence, hpositive, hisFrame⟩
  have hplain := FileScan.walkDataFramesFrom_forget hmirrors.complete.walk
  refine ⟨start.sink.stored, image, scan, _, hmirrors.complete.opens, hplain, hisData, ?_⟩
  exact (interrupted_append storingZstd hmirrors.complete.opens hplain rfl (by rwa [hwhole])
    (by rw [hwhole]; exact hgrown.opens)
    (FileScan.walkDataFramesFrom_forget hgrown.walk) rfl hfirst hlast).1

end Acta
