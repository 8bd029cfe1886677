import Acta.Format.Locality

/-!
# Replaying a walk on another file

What a walk has read of one file it reads again, state by state, of every file that holds the same
bytes up to where the walk stood.  This is how the development compares a file with the same file
cut, grown or damaged: the walk over the new file is the old one up to the first byte that differs,
and it goes on from there.
-/

namespace Acta

open Machine Wire

namespace FileScan

variable {σ : Type}

/-- The same scan over another file. -/
def withFile (scan : FileScan) (file : Bytes) : FileScan :=
  { scan with file, fileSize := file.length }

/-- What opening a file establishes. -/
structure Opens (file : Bytes) (limits : Limits) (scan : FileScan) (frame : FrameMetadata) :
    Prop where
  prologueSize_le : prologueSize ≤ file.length
  prologue : Prologue.parse (slice file 0 prologueSize) = .ok scan.prologue
  read : Frame.readFrame file file.length schemaFrameOffset schemaFrameSequence limits =
    .ok (.complete frame)
  schema : SchemaFrame.parse file frame limits = .ok scan.schema
  offset : scan.firstDataFrameOffset = schemaFrameOffset + frame.totalLength
  offset_le : schemaFrameOffset + frame.totalLength ≤ u64Max
  isFile : scan.file = file
  isSize : scan.fileSize = file.length
  isLimits : scan.limits = limits

theorem readFromFile_eq_ok {file : Bytes} {prologue : Prologue} :
    Prologue.readFromFile file file.length = .ok prologue ↔
      prologueSize ≤ file.length ∧ Prologue.parse (slice file 0 prologueSize) = .ok prologue := by
  by_cases h : prologueSize ≤ file.length
  · rw [Prologue.readFromFile_eq h h]
    simp [h]
  · simp only [h, false_and, iff_false]
    intro hok
    obtain ⟨_, hguard, -⟩ := bind_eq_ok.mp hok
    rw [withContext_eq_ok, failIf_eq_ok] at hguard
    omega

theorem fromFile_eq_ok {file : Bytes} {limits : Limits} {scan : FileScan} :
    fromFile file limits = .ok scan ↔ ∃ frame, Opens file limits scan frame := by
  constructor
  · intro h
    simp only [fromFile, bind_eq_ok] at h
    obtain ⟨prologue, hprologue, read, hread, frame, hframe, schema, hschema, first, hfirst, h⟩ := h
    obtain ⟨hsize, hparse⟩ := readFromFile_eq_ok.mp hprologue
    cases read with
    | incompleteTail => cases hframe
    | complete schemaFrame =>
      obtain rfl : schemaFrame = frame := Except.ok.inj hframe
      obtain ⟨hoffset, -⟩ := Frame.totalLength_of_complete hread
      simp only [nextOffset, okOr_eq_ok, checkedAdd_eq_some, hoffset] at hfirst
      cases h
      exact ⟨schemaFrame, hsize, hparse, hread, hschema, hfirst.2.symm, hfirst.1, rfl, rfl, rfl⟩
  · rintro ⟨frame, h⟩
    obtain ⟨hoffset, -⟩ := Frame.totalLength_of_complete h.read
    have hprologue := readFromFile_eq_ok.mpr ⟨h.prologueSize_le, h.prologue⟩
    have hfirst : nextOffset frame.frameOffset frame.totalLength =
        .ok (schemaFrameOffset + frame.totalLength) := by
      rw [nextOffset, okOr_eq_ok, checkedAdd_eq_some, hoffset]
      exact ⟨h.offset_le, rfl⟩
    simp only [fromFile, hprologue, h.read, ok_bind, completeSchemaFrame, h.schema, hfirst,
      pure_eq_ok]
    obtain ⟨-, -, -, -, hfield, -, hfile, hsize, hlimits⟩ := h
    rw [← hfield, ← hfile, ← hlimits, hfile, ← hsize, ← hfile]

/-- A step of the walk stays inside the file. -/
theorem StepsTo.offset_le_length {scan : FileScan} {visit : Visit σ} {state next : WalkState σ}
    {frame : FrameMetadata} {block : DataFrameMetadata}
    (h : StepsTo scan visit state next frame block) (hsize : scan.fileSize = scan.file.length) :
    frame.frameOffset = state.offset ∧ next.offset ≤ scan.file.length := by
  have hread := h.read
  rw [hsize] at hread
  obtain ⟨hoffset, -, -, hle⟩ := Frame.totalLength_of_complete hread
  rw [h.offset]
  exact ⟨hoffset, hle⟩

theorem slice_eq_of_agreeOn {file file' : Bytes} {start stop : ℕ}
    (h : AgreeOn file file' start stop) (hfile : stop ≤ file.length) (hfile' : stop ≤ file'.length)
    {offset length : ℕ} (hstart : start ≤ offset) (hstop : offset + length ≤ stop) :
    slice file' offset length = slice file offset length := by
  have hread := h offset length hstart hstop
  rw [readExactAt_of_le (by omega), readExactAt_of_le (by omega)] at hread
  exact (Except.ok.inj hread).symm

theorem readFrame_complete_of_agreeOn {file file' : Bytes} {offset sequence : ℕ} {limits : Limits}
    {frame : FrameMetadata}
    (h : Frame.readFrame file file.length offset sequence limits = .ok (.complete frame))
    (hagree : AgreeOn file file' offset (offset + frame.totalLength))
    (hfits : offset + frame.totalLength ≤ file'.length) :
    Frame.readFrame file' file'.length offset sequence limits = .ok (.complete frame) := by
  obtain ⟨-, -, -, hle⟩ := Frame.totalLength_of_complete h
  exact Frame.readFrame_complete_of_slice h hfits
    (slice_eq_of_agreeOn hagree hle hfits le_rfl le_rfl)

/-- **A file opens the same way** when it holds the same bytes up to its first data frame. -/
theorem fromFile_of_agreeOn {file file' : Bytes} {limits : Limits} {scan : FileScan}
    (h : fromFile file limits = .ok scan)
    (hagree : AgreeOn file file' 0 scan.firstDataFrameOffset)
    (hfits : scan.firstDataFrameOffset ≤ file'.length) :
    fromFile file' limits = .ok (scan.withFile file') := by
  obtain ⟨frame, h⟩ := fromFile_eq_ok.mp h
  have hoffset := h.offset
  have hprologue : prologueSize = schemaFrameOffset := rfl
  have hframeOffset : frame.frameOffset = schemaFrameOffset :=
    (Frame.totalLength_of_complete h.read).1
  have hend : scan.firstDataFrameOffset ≤ file.length := by
    obtain ⟨-, -, -, hle⟩ := Frame.totalLength_of_complete h.read
    omega
  refine fromFile_eq_ok.mpr ⟨frame, by omega, ?_, ?_, ?_, h.offset, h.offset_le, rfl, rfl,
    h.isLimits⟩
  · rw [slice_eq_of_agreeOn hagree hend hfits (by omega) (by omega)]
    exact h.prologue
  · exact readFrame_complete_of_agreeOn h.read (hagree.mono (by omega) (by omega)) (by omega)
  · rw [← SchemaFrame.parse_congr (Frame.tiled_of_complete le_rfl h.read)
      (hagree.mono (by omega) (by omega))]
    exact h.schema

/-- A step of the walk is repeated on a file that holds the same frame. -/
theorem StepsTo.of_agreeOn {scan : FileScan} {file' : Bytes} {visit : Visit σ}
    {state next : WalkState σ} {frame : FrameMetadata} {block : DataFrameMetadata}
    (h : StepsTo scan visit state next frame block) (hsize : scan.fileSize = scan.file.length)
    (hagree : AgreeOn scan.file file' state.offset next.offset)
    (hfits : next.offset ≤ file'.length) :
    StepsTo (scan.withFile file') visit state next frame block := by
  obtain ⟨hframe, -⟩ := h.offset_le_length hsize
  have hoffset := h.offset
  have hread := h.read
  rw [hsize] at hread
  have hparse := h.parse
  rw [DataFrame.parse_congr (Frame.tiled_of_complete le_rfl hread)
    (hagree.mono (by omega) (by omega))] at hparse
  have hread' := readFrame_complete_of_agreeOn hread (hagree.mono le_rfl (by omega)) (by omega)
  exact { h with read := hread', parse := hparse }

/-- **A walk is repeated** on a file that holds the same bytes up to where the walk stood. -/
theorem reaches_of_agreeOn {scan : FileScan} {file' : Bytes} {visit : Visit σ}
    {start state : WalkState σ} (hsize : scan.fileSize = scan.file.length)
    (h : (scan.frames visit).Reaches scan.fileSize start state)
    (hagree : AgreeOn scan.file file' start.offset state.offset)
    (hfits : state.offset ≤ file'.length) :
    ((scan.withFile file').frames visit).Reaches (scan.withFile file').fileSize start state := by
  induction h with
  | refl => exact .refl
  | @tail a b hreach hadv ih =>
    obtain ⟨hpos, hstep⟩ := hadv
    obtain ⟨frame, block, hsteps⟩ := stepFrame_eq_some.mp hstep
    have hstart : start.offset ≤ a.offset := LogScan.Reaches.pos_le hreach
    have hlt : a.offset < b.offset := (scan.frames visit).progress hstep
    have hsteps' := hsteps.of_agreeOn hsize (hagree.mono hstart le_rfl) hfits
    have hinside : a.offset < file'.length := by omega
    exact (ih (hagree.mono le_rfl hlt.le) (by omega)).tail
      ⟨hinside, stepFrame_eq_some.mpr ⟨frame, block, hsteps'⟩⟩

end FileScan

end Acta
