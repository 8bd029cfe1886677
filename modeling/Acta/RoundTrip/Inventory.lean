import Acta.RoundTrip.Frames
import Acta.RoundTrip.Opening
import Acta.Write.History

/-!
# The blocks of a file

`Stored` blocks were each built where the one ahead of it ended, each under options of its own.  A
walk of a file that holds them visits each of them, with the metadata it was built with
(`Stored.reaches`), and every block a walk visits is read back (`Stored.decodes`).
-/

namespace Acta

open Machine Wire Candidates Write

namespace PublishedBlock

/-- The bounds of the primary values of a block, and whether they are sorted. -/
def primary (schema : Schema) (block : PublishedBlock) : ℤ × ℤ × Bool :=
  match primaryMetadata schema block.rows with
  | .ok primary => primary
  | .error _ => (0, 0, false)

/-- What a walk finds of a block at a position. -/
def metadata (schema : Schema) (rowIds : Bool) (position : Position) (block : PublishedBlock) :
    DataFrameMetadata :=
  blockMetadata schema (position.baseRowId rowIds) block.rows.rowCount (block.primary schema) rowIds

/-- A block that was built at a position from rows that fit the schema, and no counter runs past its
range on the way to the next position. -/
structure StoredAt (zstd : Zstd) (schema : Schema) (rowIds : Bool) (position : Position)
    (block : PublishedBlock) : Prop where
  rowIds_eq : block.options.rowIds = rowIds
  encodes : Encodes schema block.rows block.options
  rows_pos : 0 < block.rows.rowCount
  length_rows : block.rows.rows.length = block.rows.rowCount
  frame : buildDataFrameWithStatistics zstd schema block.rows block.options
    (position.baseRowId rowIds) position.sequence = .ok block.frame
  sequence_pos : 0 < position.sequence
  sequence_le : position.sequence + 1 ≤ u64Max
  rowId_le : rowIds = true → position.rowId + block.rows.rowCount ≤ u64Max

variable {zstd : Zstd} {schema : Schema} {rowIds : Bool} {position : Position}
  {block : PublishedBlock}

theorem StoredAt.numbered (h : block.StoredAt zstd schema rowIds position) :
    Numbered block.rows (position.baseRowId rowIds) position.sequence := by
  have hsequence := h.sequence_le
  refine ⟨h.rows_pos.ne', ?_, h.sequence_pos.ne', by omega⟩
  rw [Position.baseRowId]
  split
  · have hrowId := h.rowId_le ‹_›
    omega
  · decide

/-- The block was built from what its metadata says. -/
theorem StoredAt.exists_built (h : block.StoredAt zstd schema rowIds position) :
    ∃ assembly, Built zstd schema block.rows block.options (position.baseRowId rowIds)
      position.sequence assembly (block.primary schema) block.frame := by
  obtain ⟨assembly, primary, hbuilt⟩ := buildDataFrame_eq_ok h.frame
  have hprimary : block.primary schema = primary := by
    rw [PublishedBlock.primary, hbuilt.bounds]
  rw [hprimary]
  exact ⟨assembly, hbuilt⟩

/-- The base row ID of a block is the one a walk expects there. -/
theorem StoredAt.carriesBase (h : block.StoredAt zstd schema rowIds position) :
    CarriesBase block.options.rowIds (if rowIds then some position.rowId else none)
      (position.baseRowId rowIds) := by
  rw [h.rowIds_eq]
  cases rowIds <;> rfl

end PublishedBlock

/-- Blocks stored one behind the other from a position on, each under options of its own. -/
def Stored (zstd : Zstd) (schema : Schema) (rowIds : Bool) :
    Position → List PublishedBlock → Prop
  | _, [] => True
  | position, block :: blocks =>
    block.StoredAt zstd schema rowIds position ∧
      Stored zstd schema rowIds (position.next rowIds block) blocks

/-- What a walk finds of blocks from an offset and a position on. -/
def inventory (schema : Schema) (rowIds : Bool) :
    ℕ → Position → List PublishedBlock → List (FrameMetadata × DataFrameMetadata)
  | _, _, [] => []
  | offset, position, block :: blocks =>
    (Frame.metadataAt block.frame offset, block.metadata schema rowIds position) ::
      inventory schema rowIds (offset + block.frame.length) (position.next rowIds block) blocks

/-- A scan of a file of the schema, under limits no tighter than the defaults. -/
structure FileScan.Of (schema : Schema) (rowIds : Bool) (scan : FileScan) : Prop where
  schema_eq : scan.schema = schema
  features : scan.prologue.featureFlags = featuresOf rowIds
  fileSize : scan.fileSize = scan.file.length
  fileSize_le : scan.file.length ≤ u64Max
  limits : scan.limits.CoversDefault

/-- A walk that stands at a position. -/
structure WalkState.At {σ : Type} (rowIds : Bool) (position : Position) (state : WalkState σ) :
    Prop where
  sequence : state.sequence = position.sequence
  expected : state.expectedBaseRowId = if rowIds then some position.rowId else none
  frameCount : state.frameCount = position.sequence
  scanned : state.frameBytesScanned ≤ state.offset

section Stored

variable {zstd : Zstd} {schema : Schema} {rowIds : Bool} {position : Position}
  {blocks : List PublishedBlock} {scan : FileScan} {σ : Type} {visit : Visit σ}

theorem stored_append {more : List PublishedBlock} :
    Stored zstd schema rowIds position (blocks ++ more) ↔
      Stored zstd schema rowIds position blocks ∧
        Stored zstd schema rowIds (blocks.foldl (Position.next rowIds) position) more := by
  induction blocks generalizing position with
  | nil => exact (and_iff_right trivial).symm
  | cons block blocks ih =>
    rw [List.cons_append, Stored, Stored, ih, List.foldl_cons, and_assoc]

/-- **One stored block is one turn of a walk.** -/
theorem PublishedBlock.StoredAt.stepsTo {block : PublishedBlock}
    (h : block.StoredAt zstd schema rowIds position) (hscan : scan.Of schema rowIds)
    {state : WalkState σ} (hstate : state.At rowIds position)
    (hholds : HoldsAt scan.file state.offset block.frame) {visited : σ}
    (hvisit : visit state.visited (Frame.metadataAt block.frame state.offset)
      (block.metadata schema rowIds position) = .ok visited) :
    ∃ next, (scan.frames visit).Advances scan.fileSize state next ∧ next.visited = visited ∧
      next.offset = state.offset + block.frame.length ∧
        next.At rowIds (position.next rowIds block) := by
  obtain ⟨assembly, hbuilt⟩ := h.exists_built
  have hnumbered := h.numbered
  have hfits := hholds.fits
  have hmax := hscan.fileSize_le
  have htotal : (Frame.metadataAt block.frame state.offset).totalLength = block.frame.length :=
    (hbuilt.isFrame hnumbered hscan.limits).length.symm
  have hread := hbuilt.readFrame_eq hnumbered hscan.limits ⟨hholds, hfits, le_rfl, hmax⟩
  have hparse := hbuilt.parse hnumbered hscan.limits h.carriesBase hholds
  rw [h.rowIds_eq] at hparse
  have hnext : FileScan.nextBaseRowId state.expectedBaseRowId
      (block.metadata schema rowIds position) (Frame.metadataAt block.frame state.offset) =
        .ok (if rowIds then some (position.next rowIds block).rowId else none) := by
    rw [hstate.expected]
    cases hrowIds : rowIds with
    | true =>
      have hadd := checkedAdd_of_le (h.rowId_le hrowIds)
      show (okOr (checkedAdd position.rowId block.rows.rowCount) _ >>= _) = _
      rw [hadd]
      rfl
    | false => rfl
  have hscanned := hstate.scanned
  have hsequence := h.sequence_le
  have hpos := Frame.totalLength_pos_of_complete hread
  rw [htotal] at hpos
  refine ⟨{ offset := state.offset + block.frame.length, sequence := state.sequence + 1,
            frameCount := state.frameCount + 1,
            expectedBaseRowId := if rowIds then some (position.next rowIds block).rowId else none,
            frameBytesScanned := state.frameBytesScanned + block.frame.length, visited },
    ⟨?_, FileScan.stepFrame_eq_some.mpr ⟨Frame.metadataAt block.frame state.offset,
      block.metadata schema rowIds position, ?_⟩⟩, rfl, rfl, ?_⟩
  · show state.offset < scan.fileSize
    rw [hscan.fileSize]
    omega
  · exact {
      read := by rw [hscan.fileSize, hstate.sequence, hread]
      parse := by rw [hscan.schema_eq, hscan.features, hstate.expected, hparse]; rfl
      baseRowId := hnext
      visit := hvisit
      offset := by rw [htotal]
      offset_le := by rw [htotal]; omega
      sequence := rfl
      sequence_le := by rw [hstate.sequence]; exact hsequence
      frameCount := rfl
      frameCount_le := by rw [hstate.frameCount]; exact hsequence
      scanned := by rw [htotal]
      scanned_le := by rw [htotal]; omega }
  · refine ⟨?_, rfl, ?_, ?_⟩
    · show state.sequence + 1 = position.sequence + 1
      rw [hstate.sequence]
    · show state.frameCount + 1 = position.sequence + 1
      rw [hstate.frameCount]
    · show state.frameBytesScanned + _ ≤ state.offset + _
      omega

/-- **A walk visits the stored blocks one after another.** -/
theorem Stored.reaches (h : Stored zstd schema rowIds position blocks)
    (hscan : scan.Of schema rowIds) {state : WalkState σ} (hstate : state.At rowIds position)
    (hholds : HoldsAt scan.file state.offset (blocks.flatMap (·.frame))) {visited : σ}
    (hvisits : (inventory schema rowIds state.offset position blocks).foldlM
      (fun visited entry ↦ visit visited entry.1 entry.2) state.visited = .ok visited) :
    ∃ last, (scan.frames visit).Reaches scan.fileSize state last ∧ last.visited = visited ∧
      last.offset = state.offset + (blocks.flatMap (·.frame)).length ∧
        last.At rowIds (blocks.foldl (Position.next rowIds) position) := by
  induction blocks generalizing position state with
  | nil => exact ⟨state, .refl, Except.ok.inj hvisits, rfl, hstate⟩
  | cons block blocks ih =>
    obtain ⟨hblock, hrest⟩ := h
    rw [List.flatMap_cons] at hholds
    rw [inventory, List.foldlM_cons] at hvisits
    obtain ⟨first, hvisit, hvisits⟩ := bind_eq_ok.mp hvisits
    obtain ⟨next, hadvances, hnext, hoffset, hat⟩ :=
      hblock.stepsTo hscan hstate hholds.left hvisit
    obtain ⟨last, hreaches, hlast, hend, hposition⟩ := ih hrest hat
      (by rw [hoffset]; exact hholds.right) (by rw [hoffset, hnext]; exact hvisits)
    refine ⟨last, .head hadvances hreaches, hlast, ?_, hposition⟩
    rw [hend, hoffset, List.flatMap_cons, List.length_append, Nat.add_assoc]

end Stored

end Acta
