import Acta.Refresh

/-!
# Snapshot isolation

A reader looks its path up and reads the live file again for each block, but every offset it reads
is bounded by the extent it captured.  So a file that only grew since, by whatever bytes, gives the
results the captured file gives: for the frame of a block (`Frame.readFrame_of_isPrefix`), for its
layout, for its streams (`BlockDecoder.block_of_isPrefix`), and for every call a reader and its
scans answer (`Reader.session_of_grown`).
-/

namespace Acta

open Machine Wire

/-! ### Frames -/

section Frames

variable {file file' : Bytes} {fileSize : ℕ}

theorem readExactAt_of_isPrefix (h : file <+: file') {offset length : ℕ}
    (hread : offset + length ≤ file.length) :
    readExactAt file' offset length = readExactAt file offset length := by
  have hle := h.length_le
  rw [readExactAt_of_le hread, readExactAt_of_le (by omega), slice_eq_of_isPrefix h hread]

theorem agreeOn_of_isPrefix (h : file <+: file') {start stop : ℕ} (hstop : stop ≤ file.length) :
    AgreeOn file' file start stop :=
  fun _ _ _ hread ↦ readExactAt_of_isPrefix h (by omega)

theorem Frame.verifyBody_of_isPrefix (h : file <+: file') {offset : ℕ}
    (hfits : offset + (prefixOf (slice file offset prefixSize)).totalLength ≤ file.length) :
    verifyBody file' (slice file offset prefixSize) (prefixOf (slice file offset prefixSize))
        (regionsAt (prefixOf (slice file offset prefixSize)) offset) =
      verifyBody file (slice file offset prefixSize) (prefixOf (slice file offset prefixSize))
        (regionsAt (prefixOf (slice file offset prefixSize)) offset) := by
  have hle := h.length_le
  have hroom := prefixSize_le_totalLength (slice file offset prefixSize)
  have himage := imagePrefix_slice file offset hroom
  have hhead : slice file' offset prefixSize = slice file offset prefixSize :=
    slice_eq_of_isPrefix h (by omega)
  have hsame : slice file' offset (prefixOf (slice file offset prefixSize)).totalLength =
      slice file offset (prefixOf (slice file offset prefixSize)).totalLength :=
    slice_eq_of_isPrefix h hfits
  have hgrown := verifyBody_eq himage hsame (by omega)
  rw [hhead] at hgrown
  rw [hgrown, verifyBody_eq himage rfl hfits]

/-- **The frame of a block is read inside the captured extent.** -/
theorem Frame.readFrame_of_isPrefix (h : file <+: file') (hsize : fileSize ≤ file.length)
    (offset sequence : ℕ) (limits : Limits) :
    readFrame file' fileSize offset sequence limits =
      readFrame file fileSize offset sequence limits := by
  have hle := h.length_le
  by_cases hoffset : offset ≤ fileSize
  · rw [readFrame_eq hsize _ _ hoffset, readFrame_eq (by omega) _ _ hoffset]
    split
    · rfl
    rename_i hroom
    rw [slice_eq_of_isPrefix h (by omega)]
    refine bind_congr_ok rfl fun framePrefix hparse ↦ ?_
    have hlength : (slice file offset prefixSize).length = prefixSize :=
      length_slice_of_le (by omega)
    obtain ⟨-, rfl⟩ := (parsePrefix_eq_ok hlength).mp hparse
    split
    · rfl
    rename_i hfits
    refine bind_congr_ok rfl fun regions hlocate ↦ bind_congr_ok ?_ fun _ _ ↦ rfl
    rw [(locate_eq_ok.mp hlocate).2]
    exact verifyBody_of_isPrefix h (by omega)
  · have hpast : remainingBytes fileSize offset = .error
        ((Error.corruption "frame offset is beyond the file extent" (some offset)).withContext
          .file) := by
      simp [remainingBytes, checkedSub, hoffset, okOr]
    rw [readFrame, readFrame, hpast, error_bind, error_bind]

end Frames

/-! ### Streams -/

namespace BlockDecoder

variable {decoder : BlockDecoder} {file' : Bytes}

/-- The same decode in another state of the file. -/
def withFile (decoder : BlockDecoder) (file' : Bytes) : BlockDecoder :=
  { decoder with file := file' }

theorem streamExtent_eq_ok {stream : StreamDescriptor} {column : Column} {offset : ℕ}
    (h : decoder.streamExtent stream column = .ok offset) :
    offset + stream.storedLength ≤ decoder.fileSize := by
  obtain ⟨_, -, h⟩ := bind_eq_ok.mp h
  obtain ⟨start, -, h⟩ := bind_eq_ok.mp h
  obtain ⟨stop, hstop, h⟩ := bind_eq_ok.mp h
  obtain ⟨_, hfits, h⟩ := bind_eq_ok.mp h
  cases h
  rw [okOr_eq_ok, checkedAdd_eq_some] at hstop
  rw [failIf_eq_ok, not_lt] at hfits
  omega

variable (h : decoder.file <+: file') (hsize : decoder.fileSize ≤ decoder.file.length)

include h hsize

/-- A stream is read inside the captured extent. -/
theorem streamBytes_withFile :
    (decoder.withFile file').streamBytes = decoder.streamBytes := by
  funext stream column
  refine Metered.lift_bind_congr fun offset hoffset ↦ ?_
  have hfits := streamExtent_eq_ok hoffset
  have hstored : (decoder.withFile file').storedBytes stream column offset =
      decoder.storedBytes stream column offset := by
    have hread := readExactAt_of_isPrefix h (Nat.le_trans hfits hsize)
    unfold storedBytes
    rw [← hread]
    rfl
  rw [hstored]
  rfl

theorem unpack_withFile : (decoder.withFile file').unpack = decoder.unpack := by
  funext stream column count what
  unfold unpack
  rw [streamBytes_withFile h hsize]

theorem storedValues_withFile :
    (decoder.withFile file').storedValues = decoder.storedValues := by
  funext stream column
  unfold storedValues booleans integers floats fixedBinary
  rw [streamBytes_withFile h hsize]

theorem lengths_withFile : (decoder.withFile file').lengths = decoder.lengths := by
  funext streams column kind count
  unfold lengths
  rw [streamBytes_withFile h hsize]

theorem byteValues_withFile : (decoder.withFile file').byteValues = decoder.byteValues := by
  funext streams column valuesKind lengthsKind count
  unfold byteValues fixedBinary
  rw [streamBytes_withFile h hsize, lengths_withFile h hsize]

theorem plain_withFile : (decoder.withFile file').plain = decoder.plain := by
  funext streams column count
  unfold plain
  rw [byteValues_withFile h hsize, storedValues_withFile h hsize]

theorem layoutValues_withFile :
    (decoder.withFile file').layoutValues = decoder.layoutValues := by
  funext streams stream column valuesKind lengthsKind count
  unfold layoutValues
  rw [byteValues_withFile h hsize, storedValues_withFile h hsize]

theorem denseValues_withFile : (decoder.withFile file').denseValues = decoder.denseValues := by
  funext streams column descriptor count
  unfold denseValues constant dictionary indices runLength runLengths
  rw [plain_withFile h hsize, layoutValues_withFile h hsize, unpack_withFile h hsize]

theorem validity_withFile : (decoder.withFile file').validity = decoder.validity := by
  funext streams column descriptor rowCount
  unfold validity storedValidity
  rw [streamBytes_withFile h hsize]

/-- Statistics are read inside the captured extent. -/
theorem verifyColumnStatistics_of_isPrefix {descriptor : ColumnBlockDescriptor} {column : Column}
    {array : LogicalArray} :
    Validate.verifyColumnStatistics file' decoder.fileSize decoder.frame descriptor column array
        decoder.limits =
      Validate.verifyColumnStatistics decoder.file decoder.fileSize decoder.frame descriptor column
        array decoder.limits := by
  have hread : Validate.readStatistics file' decoder.fileSize decoder.frame descriptor column
      decoder.limits = Validate.readStatistics decoder.file decoder.fileSize decoder.frame
        descriptor column decoder.limits := by
    refine bind_congr_ok rfl fun range hrange ↦ ?_
    obtain ⟨offset, length⟩ := range
    have hfits : offset + length ≤ decoder.fileSize := by
      obtain ⟨_, -, hrange⟩ := bind_eq_ok.mp hrange
      obtain ⟨start, -, hrange⟩ := bind_eq_ok.mp hrange
      obtain ⟨stop, hstop, hrange⟩ := bind_eq_ok.mp hrange
      obtain ⟨_, -, hrange⟩ := bind_eq_ok.mp hrange
      obtain ⟨_, hfits, hrange⟩ := bind_eq_ok.mp hrange
      obtain ⟨_, -, hrange⟩ := bind_eq_ok.mp hrange
      cases hrange
      rw [okOr_eq_ok, checkedAdd_eq_some] at hstop
      rw [failIf_eq_ok, not_lt] at hfits
      omega
    dsimp only
    rw [readExactAt_of_isPrefix h (Nat.le_trans hfits hsize)]
  unfold Validate.verifyColumnStatistics
  rw [hread]

theorem column_withFile : (decoder.withFile file').column = decoder.column := by
  funext column descriptor rowCount
  have hverify (array : LogicalArray) :
      Validate.verifyColumnStatistics (decoder.withFile file').file decoder.fileSize decoder.frame
          descriptor column array decoder.limits =
        Validate.verifyColumnStatistics decoder.file decoder.fileSize decoder.frame descriptor
          column array decoder.limits :=
    verifyColumnStatistics_of_isPrefix h hsize
  have hfixed : (decoder.withFile file').fileSize = decoder.fileSize ∧
      (decoder.withFile file').frame = decoder.frame ∧
        (decoder.withFile file').limits = decoder.limits := ⟨rfl, rfl, rfl⟩
  unfold BlockDecoder.column
  rw [validity_withFile h hsize, denseValues_withFile h hsize]
  simp only [hfixed, hverify]
  rfl

theorem decodeInto_withFile : (decoder.withFile file').decodeInto = decoder.decodeInto := by
  funext schema rowCount arrays index
  unfold decodeInto decodedColumn
  rw [column_withFile h hsize]
  rfl

/-- **A block is decoded inside the captured extent.** -/
theorem block_withFile : (decoder.withFile file').block = decoder.block := by
  funext selection
  unfold block
  rw [decodeInto_withFile h hsize]
  rfl

end BlockDecoder

/-! ### Blocks -/

namespace Reader

variable {reader : Reader} {file file' : Bytes} (zstd : Zstd)

/-- The frame of a block lies inside the captured extent. -/
theorem tiled_of_frameAt (hsize : reader.fileMetadata.fileSize ≤ file.length) {index : ℕ}
    {frame : FrameMetadata}
    (hframe : reader.frameAt file index = .ok frame) :
    frame.Tiled ∧ frame.frameOffset + frame.totalLength ≤ reader.fileMetadata.fileSize := by
  obtain ⟨block, -, hframe⟩ := bind_eq_ok.mp hframe
  obtain ⟨read, hread, hframe⟩ := bind_eq_ok.mp hframe
  cases read with
  | incompleteTail => cases hframe
  | complete found =>
    cases hframe
    obtain ⟨hoffset, -, -, hfits⟩ := Frame.totalLength_of_complete hread
    exact ⟨Frame.tiled_of_complete hsize hread, by rw [hoffset]; exact hfits⟩

section Blocks

variable (h : file <+: file') (hsize : reader.fileMetadata.fileSize ≤ file.length)

include h hsize

theorem frameAt_of_isPrefix (index : ℕ) :
    reader.frameAt file' index = reader.frameAt file index := by
  unfold frameAt
  refine bind_congr_ok rfl fun block _ ↦ ?_
  rw [Frame.readFrame_of_isPrefix h hsize]

theorem readBlockLayout_of_isPrefix {index : ℕ} {frame : FrameMetadata}
    (hframe : reader.frameAt file index = .ok frame) (selected : Option (List UInt32)) :
    DataFrame.readBlockLayout file' frame reader.schema reader.fileMetadata.featureFlags
        (reader.expectedBaseRowId index) reader.limits selected =
      DataFrame.readBlockLayout file frame reader.schema reader.fileMetadata.featureFlags
        (reader.expectedBaseRowId index) reader.limits selected := by
  obtain ⟨htiled, hfits⟩ := tiled_of_frameAt hsize hframe
  have hagree : AgreeOnFrame file' file frame := agreeOn_of_isPrefix h (by omega)
  rw [DataFrame.readBlockLayout_congr htiled hagree]

theorem block_of_isPrefix (frame : FrameMetadata) (layout : BlockLayout) :
    BlockDecoder.block ⟨zstd, file', reader.fileMetadata.fileSize, frame, layout, reader.limits⟩ =
      BlockDecoder.block
        ⟨zstd, file, reader.fileMetadata.fileSize, frame, layout, reader.limits⟩ := by
  let decoder : BlockDecoder :=
    ⟨zstd, file, reader.fileMetadata.fileSize, frame, layout, reader.limits⟩
  have hblock : (decoder.withFile file').block = decoder.block :=
    BlockDecoder.block_withFile h hsize
  exact hblock

theorem decodeSelectedBlock_of_isPrefix (frame : FrameMetadata) (layout : BlockLayout)
    (selection : Selection) (scan : Option ScanBudget) :
    Read.decodeSelectedBlock zstd file' reader.fileMetadata.fileSize frame layout selection scan
        reader.limits =
      Read.decodeSelectedBlock zstd file reader.fileMetadata.fileSize frame layout selection scan
        reader.limits := by
  unfold Read.decodeSelectedBlock
  dsimp only
  rw [block_of_isPrefix zstd h hsize]

/-- **A block reads the same** from a file that only grew. -/
theorem decodeBlockAt_of_isPrefix (index : ℕ) :
    reader.decodeBlockAt zstd file' index = reader.decodeBlockAt zstd file index := by
  unfold decodeBlockAt DataFrame.readLayout Read.decodeBlock
  rw [frameAt_of_isPrefix h hsize]
  refine bind_congr_ok rfl fun frame hframe ↦ ?_
  rw [readBlockLayout_of_isPrefix h hsize hframe]
  refine bind_congr_ok rfl fun layout _ ↦ ?_
  dsimp only
  rw [decodeSelectedBlock_of_isPrefix zstd h hsize]

theorem decodeSelectedBlockAt_of_isPrefix (index : ℕ) (selection : Selection) (scan : ScanBudget) :
    reader.decodeSelectedBlockAt zstd file' index selection scan =
      reader.decodeSelectedBlockAt zstd file index selection scan := by
  unfold decodeSelectedBlockAt selectedLayout DataFrame.readSelectedLayout
  rw [frameAt_of_isPrefix h hsize]
  rcases hframe : reader.frameAt file index with e | frame
  · rfl
  · simp only [readBlockLayout_of_isPrefix h hsize hframe,
      decodeSelectedBlock_of_isPrefix zstd h hsize]

end Blocks

end Reader

/-! ### Scans -/

/-- A path that names a file goes on naming it while the file grows. -/
theorem Reader.Grows.of_identity {path : String} {identity : FileIdentity}
    {system system' : FileSystem} (h : Reader.Grows path system system')
    (hnamed : system.identityOf path = .ok identity) :
    system'.identityOf path = .ok identity ∧
      system.contents identity <+: system'.contents identity := by
  obtain ⟨named, more, hbefore, hafter, hcontents⟩ := h
  obtain rfl : named = identity := Except.ok.inj (hbefore.symm.trans hnamed)
  exact ⟨hafter, hcontents ▸ List.prefix_append _ _⟩

namespace ScanProgress

/-- A scan that has opened no file but the one its reader's path names. -/
def Holds (identity : FileIdentity) (progress : ScanProgress) : Prop :=
  ∀ file ∈ progress.file, file = identity

variable {identity : FileIdentity} {progress : ScanProgress}

theorem Holds.account (h : progress.Holds identity) (operation : ScanStep) :
    (progress.account operation).2.Holds identity := h

theorem Holds.handOut (h : progress.Holds identity) (batch : RecordBatch) :
    (progress.handOut batch).2.Holds identity := by
  have hsame := h.account (ScanBudget.recordRows batch.rowCount)
  unfold ScanProgress.handOut
  split <;> rename_i hcase <;> rwa [hcase] at hsame

theorem Holds.deliver (h : progress.Holds identity) (plan : ScanPlan) (missingPrimary : String)
    (decoded : DecodedBlock) : (deliver plan missingPrimary decoded progress).2.Holds identity := by
  unfold ScanProgress.deliver
  split
  · exact h.handOut _
  · exact h
  · split
    · exact h
    · exact h.handOut _

variable {path : String} {system system' : FileSystem}

/-- The handle of a scan is the file the path names. -/
theorem openHandle_of_grown (hnamed : system.identityOf path = .ok identity)
    (hgrows : Reader.Grows path system system')
    (h : progress.Holds identity) :
    progress.openHandle system path = (.ok identity, { progress with file := some identity }) ∧
      progress.openHandle system' path =
        (.ok identity, { progress with file := some identity }) := by
  obtain ⟨nextBlock, file, budget⟩ := progress
  cases file with
  | some file =>
    have hsame : file = identity := h file rfl
    subst hsame
    exact ⟨rfl, rfl⟩
  | none =>
    unfold openHandle FileSystem.openFile
    rw [hnamed, (hgrows.of_identity hnamed).1]
    exact ⟨rfl, rfl⟩

variable (zstd : Zstd) {reader : Reader}

/-- **A turn is the same** over a file that only grew. -/
theorem takeBlock_of_grown (hnamed : system.identityOf reader.path = .ok identity)
    (hgrows : Reader.Grows reader.path system system')
    (hsize : reader.fileMetadata.fileSize ≤ (system.contents identity).length)
    (h : progress.Holds identity) (plan : ScanPlan) (missingPrimary : String)
    (block : BlockMetadata) :
    takeBlock zstd system' reader plan missingPrimary block progress =
        takeBlock zstd system reader plan missingPrimary block progress ∧
      (takeBlock zstd system reader plan missingPrimary block progress).2.Holds identity := by
  have hconsumed : ({ progress with nextBlock := progress.nextBlock + 1 } : ScanProgress).Holds
      identity := h
  have hrecorded := hconsumed.account (ScanBudget.recordBlock (plan.shouldPrune block))
  unfold takeBlock
  dsimp only
  rcases hblock : ScanProgress.account (ScanBudget.recordBlock (plan.shouldPrune block))
    { progress with nextBlock := progress.nextBlock + 1 } with ⟨e | u, recorded⟩
  · rw [hblock] at hrecorded
    exact ⟨rfl, hrecorded⟩
  rw [hblock] at hrecorded
  dsimp only at hrecorded ⊢
  split
  · exact ⟨rfl, hrecorded⟩
  obtain ⟨hbefore, hafter⟩ := openHandle_of_grown hnamed hgrows hrecorded
  unfold decodeBlock
  rw [hbefore, hafter]
  dsimp only
  have hopened : ({ recorded with file := some identity } : ScanProgress).Holds identity := by
    rintro file ⟨⟩
    rfl
  have hcharged := hopened.account (ScanBudget.chargeRows block.rowCount)
  rcases hrows : ScanProgress.account (ScanBudget.chargeRows block.rowCount)
    { recorded with file := some identity } with ⟨e | u, charged⟩
  · rw [hrows] at hcharged
    exact ⟨rfl, hcharged⟩
  rw [hrows] at hcharged
  dsimp only at hcharged ⊢
  rw [Reader.decodeSelectedBlockAt_of_isPrefix zstd (hgrows.of_identity hnamed).2 hsize]
  refine ⟨rfl, ?_⟩
  split
  · exact hcharged
  · rename_i decoded budget _
    have hspent : ({ charged with budget } : ScanProgress).Holds identity := hcharged
    exact hspent.deliver _ _ _

end ScanProgress

namespace Scan

variable (zstd : Zstd) {reader : Reader} {identity : FileIdentity} {system system' : FileSystem}

/-- A scan of a reader that has opened no other file. -/
structure Of (reader : Reader) (identity : FileIdentity) (scan : Scan) : Prop where
  reader_eq : scan.reader = reader
  holds : scan.progress.Holds identity

theorem turn_of_grown (hnamed : system.identityOf reader.path = .ok identity)
    (hgrows : Reader.Grows reader.path system system')
    (hsize : reader.fileMetadata.fileSize ≤ (system.contents identity).length) {scan : Scan}
    (h : scan.Of reader identity) (block : BlockMetadata) :
    scan.turn zstd system' block = scan.turn zstd system block ∧
      (scan.turn zstd system block).2.Of reader identity := by
  obtain ⟨source, plan, progress⟩ := scan
  obtain ⟨hreader, hholds⟩ := h
  dsimp only at hreader hholds
  subst hreader
  obtain ⟨hsame, hnext⟩ := ScanProgress.takeBlock_of_grown zstd hnamed hgrows hsize hholds plan
    "range scan did not decode its primary column" block
  refine ⟨?_, rfl, hnext⟩
  unfold turn
  dsimp only
  rw [hsame]

/-- **A scan gives the same items** over a file that only grew. -/
theorem next_of_grown (hnamed : system.identityOf reader.path = .ok identity)
    (hgrows : Reader.Grows reader.path system system')
    (hsize : reader.fileMetadata.fileSize ≤ (system.contents identity).length) {scan : Scan}
    (h : scan.Of reader identity) :
    scan.next zstd system' = scan.next zstd system ∧
      (scan.next zstd system).2.Of reader identity := by
  induction scan using Scan.next.induct zstd system with
  | case1 scan hblock =>
    rw [next_of_none zstd hblock, next_of_none zstd hblock]
    exact ⟨rfl, h⟩
  | case2 scan block hblock e later hturn =>
    obtain ⟨hsame, hlater⟩ := turn_of_grown zstd hnamed hgrows hsize h block
    rw [next_of_some zstd hblock, next_of_some zstd hblock, hsame]
    rw [hturn] at hlater ⊢
    exact ⟨rfl, hlater⟩
  | case3 scan block hblock batch later hturn =>
    obtain ⟨hsame, hlater⟩ := turn_of_grown zstd hnamed hgrows hsize h block
    rw [next_of_some zstd hblock, next_of_some zstd hblock, hsame]
    rw [hturn] at hlater ⊢
    exact ⟨rfl, hlater⟩
  | case4 scan block hblock later hturn ih =>
    obtain ⟨hsame, hlater⟩ := turn_of_grown zstd hnamed hgrows hsize h block
    rw [next_of_some zstd hblock, next_of_some zstd hblock, hsame]
    rw [hturn] at hlater ⊢
    exact ih hlater

end Scan

/-! ### Sessions -/

/-- One call on a reader, or on a scan it started. -/
inductive ReadCall
  | readBlock (index : ℕ)
  /-- The read of selected columns of a block that a scan makes, with a budget of its own. -/
  | readColumns (index : ℕ) (selection : Selection) (budget : ScanBudget)
  | scan
  | project (scan : ℕ) (columns : List String)
  | primaryRange (scan : ℕ) (range : PrimaryRange)
  | next (scan : ℕ)

/-- What a call returns. -/
inductive ReadOutcome
  | block (result : Result RecordBatch)
  | columns (result : Result (Result DecodedBlock × ScanBudget))
  | configured (result : Result Unit)
  | item (item : Option (Result RecordBatch))
  /-- The scan was not started, or a refused configuration consumed it. -/
  | noScan

namespace Reader

variable (zstd : Zstd) (reader : Reader)

/-- Replace a scan by its configured self.  A refusal consumes it. -/
def configure (scans : List (Option Scan)) (position : ℕ) (configured : Scan → Result Scan) :
    ReadOutcome × List (Option Scan) :=
  match scans[position]?.join with
  | none => (.noScan, scans)
  | some scan =>
    match configured scan with
    | .error e => (.configured (.error e), scans.set position none)
    | .ok scan => (.configured (.ok ()), scans.set position (some scan))

/-- Answer one call, when the file system is as given. -/
def answer (system : FileSystem) (scans : List (Option Scan)) :
    ReadCall → ReadOutcome × List (Option Scan)
  | .readBlock index => (.block (reader.readBlock zstd system index), scans)
  | .readColumns index selection budget =>
    (.columns ((system.openFile reader.path).map fun opened ↦
      reader.decodeSelectedBlockAt zstd (system.contents opened) index selection budget), scans)
  | .scan => (.configured (.ok ()), scans ++ [some (Scan.new reader)])
  | .project position columns => configure scans position fun scan ↦ scan.project columns
  | .primaryRange position range => configure scans position fun scan ↦ scan.primaryRange range
  | .next position =>
    match scans[position]?.join with
    | none => (.noScan, scans)
    | some scan =>
      match scan.next zstd system with
      | (item, scan) => (.item item, scans.set position (some scan))

/-- Answer the calls of a session, each with the file system as it is at the call. -/
def session : List (FileSystem × ReadCall) → List (Option Scan) → List ReadOutcome
  | [], _ => []
  | (system, call) :: rest, scans =>
    match reader.answer zstd system scans call with
    | (outcome, scans) => outcome :: session rest scans

variable {reader} {identity : FileIdentity} {system system' : FileSystem}

/-- The scans of a session are scans of its reader. -/
def ScansOf (reader : Reader) (identity : FileIdentity) (scans : List (Option Scan)) : Prop :=
  ∀ scan, some scan ∈ scans → scan.Of reader identity

theorem ScansOf.set {scans : List (Option Scan)} (h : ScansOf reader identity scans)
    (position : ℕ) {scan : Option Scan} (hscan : ∀ scan' ∈ scan, scan'.Of reader identity) :
    ScansOf reader identity (scans.set position scan) := by
  intro other hother
  rcases List.mem_or_eq_of_mem_set hother with hmem | rfl
  · exact h other hmem
  · exact hscan other rfl

theorem ScansOf.configure {scans : List (Option Scan)} (h : ScansOf reader identity scans)
    (position : ℕ) {configured : Scan → Result Scan}
    (hconfigured : ∀ scan scan', configured scan = .ok scan' → scan.Of reader identity →
      scan'.Of reader identity) :
    ScansOf reader identity (configure scans position configured).2 := by
  unfold Reader.configure
  split
  · exact h
  · rename_i scan hscan
    have hof : scan.Of reader identity :=
      h scan (List.mem_of_getElem? (Option.join_eq_some_iff.mp hscan))
    split
    · exact h.set position fun _ hnone ↦ nomatch hnone
    · rename_i next hnext
      exact h.set position fun scan' hscan' ↦ by
        cases hscan'
        exact hconfigured scan next hnext hof

/-- **A call is answered the same** over a file that only grew. -/
theorem answer_of_grown (hnamed : system.identityOf reader.path = .ok identity)
    (hgrows : Reader.Grows reader.path system system')
    (hsize : reader.fileMetadata.fileSize ≤ (system.contents identity).length)
    {scans : List (Option Scan)} (h : ScansOf reader identity scans) (call : ReadCall) :
    reader.answer zstd system' scans call = reader.answer zstd system scans call ∧
      ScansOf reader identity (reader.answer zstd system scans call).2 := by
  have hbefore : system.openFile reader.path = .ok identity := by
    rw [FileSystem.openFile, hnamed]
    rfl
  have hafter : system'.openFile reader.path = .ok identity := by
    rw [FileSystem.openFile, (hgrows.of_identity hnamed).1]
    rfl
  cases call with
  | readBlock index =>
    refine ⟨?_, h⟩
    simp only [answer, readBlock, hbefore, hafter, ok_bind,
      decodeBlockAt_of_isPrefix zstd (hgrows.of_identity hnamed).2 hsize]
  | readColumns index selection budget =>
    refine ⟨?_, h⟩
    simp only [answer, hbefore, hafter, Except.map,
      decodeSelectedBlockAt_of_isPrefix zstd (hgrows.of_identity hnamed).2 hsize]
  | scan =>
    refine ⟨rfl, fun scan hscan ↦ ?_⟩
    rcases List.mem_append.mp hscan with hmem | hnew
    · exact h scan hmem
    · cases List.mem_singleton.mp hnew
      exact ⟨rfl, fun _ hfile ↦ absurd hfile (Option.some_ne_none _).symm⟩
  | project position columns =>
    refine ⟨rfl, h.configure position fun scan scan' hproject hof ↦ ?_⟩
    obtain ⟨plan, -, hscan⟩ := bind_eq_ok.mp hproject
    cases hscan
    exact ⟨hof.reader_eq, hof.holds⟩
  | primaryRange position range =>
    refine ⟨rfl, h.configure position fun scan scan' hrange hof ↦ ?_⟩
    obtain ⟨plan, -, hscan⟩ := bind_eq_ok.mp hrange
    cases hscan
    exact ⟨hof.reader_eq, hof.holds⟩
  | next position =>
    unfold answer
    dsimp only
    split
    · exact ⟨rfl, h⟩
    · rename_i scan hscan
      have hof : scan.Of reader identity :=
        h scan (List.mem_of_getElem? (Option.join_eq_some_iff.mp hscan))
      obtain ⟨hsame, hnext⟩ := Scan.next_of_grown zstd hnamed hgrows hsize hof
      refine ⟨by rw [hsame], h.set position fun scan' hscan' ↦ ?_⟩
      cases hscan'
      exact hnext

/-- A reader reads no further than the file was when it looked last. -/
theorem Attached.fileSize_le {path : String} {limits : Limits}
    (h : Attached path limits system reader) :
    reader.fileMetadata.fileSize ≤ (system.contents reader.identity).length := by
  obtain ⟨past, hpast, hdiscover⟩ := h.follows
  obtain ⟨scan, hscan, hdiscover⟩ := bind_eq_ok.mp hdiscover
  obtain ⟨⟨walk, discovered⟩, -, hdiscover⟩ := bind_eq_ok.mp hdiscover
  obtain ⟨anchor, -, hdiscover⟩ := bind_eq_ok.mp hdiscover
  obtain ⟨frame, hopens⟩ := FileScan.fromFile_eq_ok.mp hscan
  have hsize : reader.fileMetadata.fileSize = scan.fileSize := by
    have hmetadata := congrArg (fun found ↦ found.2.1.fileSize) (Except.ok.inj hdiscover)
    exact hmetadata.symm
  rw [hsize, hopens.isSize]
  exact hpast.length_le

/-- **A snapshot is isolated from later appends.**  Every call of a session on a reader, and on the
scans it starts, returns what it returns over the bytes the reader looked at last, when the file has
only been extended by the time of the call, by whatever bytes. -/
theorem session_of_grown {path : String} {limits : Limits} (h : Chain path limits system reader)
    {calls : List (FileSystem × ReadCall)} (hgrows : ∀ call ∈ calls, Grows path system call.1) :
    reader.session zstd calls [] =
      reader.session zstd (calls.map fun call ↦ (system, call.2)) [] := by
  have hattached := h.attached
  have hsize := hattached.fileSize_le
  have hnamed := hattached.identity
  rw [← hattached.isPath] at hgrows hnamed
  have hrun (calls : List (FileSystem × ReadCall))
      (hgrows : ∀ call ∈ calls, Grows reader.path system call.1)
      (scans : List (Option Scan)) (hscans : ScansOf reader reader.identity scans) :
      reader.session zstd calls scans =
        reader.session zstd (calls.map fun call ↦ (system, call.2)) scans := by
    induction calls generalizing scans with
    | nil => rfl
    | cons first calls ih =>
      obtain ⟨system', call⟩ := first
      obtain ⟨hsame, hnext⟩ := answer_of_grown zstd hnamed (hgrows _ List.mem_cons_self) hsize
        hscans call
      rw [List.map_cons, session, session, hsame]
      rcases hanswer : reader.answer zstd system scans call with ⟨outcome, later⟩
      rw [hanswer] at hnext
      dsimp only
      rw [ih (fun call hcall ↦ hgrows call (List.mem_cons_of_mem _ hcall)) later hnext]
  exact hrun calls hgrows [] fun _ hscan ↦ nomatch hscan

/-- A read and a scan of a file of one block, while the frame of a second one follows it. -/
theorem session_of_grown_secondBlock :
    ∃ file frame reader fresh, OneBlock file reader ∧ SecondBlock file frame fresh ∧
      reader.session storingZstd [(oneFile (file ++ frame), .readBlock 0),
          (oneFile file, .scan), (oneFile (file ++ frame), .next 0)] [] =
        reader.session storingZstd [(oneFile file, .readBlock 0), (oneFile file, .scan),
          (oneFile file, .next 0)] [] := by
  obtain ⟨file, frame, reader, fresh, hone, hsecond⟩ := exists_secondBlock
  have hgrows := grows_oneFile "n.acta" file frame
  have hsame := grows_refl_oneFile "n.acta" file
  refine ⟨file, frame, reader, fresh, hone, hsecond,
    session_of_grown storingZstd (.opened hone.opens) fun call hcall ↦ ?_⟩
  rcases List.mem_cons.mp hcall with rfl | hcall
  · exact hgrows
  rcases List.mem_cons.mp hcall with rfl | hcall
  · exact hsame
  · cases List.mem_singleton.mp hcall
    exact hgrows

end Reader

end Acta
