import Acta.Format.Growth
import Acta.RoundTrip.SchemaFrame
import Acta.Write.Writer

/-!
# A new file opens

The bytes a writer starts a file with open as the schema it was given, whatever follows them
(`fromFile_initialBytes`), and the walk begins right after them.
-/

namespace Acta

open Machine Wire

/-- The feature bits a writer declares. -/
def WriterOptions.featureFlags (options : WriterOptions) : ℕ :=
  if options.rowIds then rowIdsFeature else 0

namespace Write

/-- What a file that starts with a schema opens as. -/
def initialScan (schema : Schema) (options : WriterOptions) (limits : Limits)
    (schemaFrame : Bytes) (file : Bytes) : FileScan where
  file := file
  fileSize := file.length
  limits := limits
  prologue := { formatVersion := (formatMajor, formatMinor), featureFlags := options.featureFlags,
                fileId := zeros fileIdSize }
  schema := schema
  firstDataFrameOffset := schemaFrameOffset + schemaFrame.length

theorem length_le_of_buildSchemaFrame {schema : Schema} {image : Bytes}
    (h : buildSchemaFrame schema = .ok image) :
    image.length ≤ defaultMaxFramePayloadLength + 104 := by
  obtain ⟨descriptors, -, -, hpayload, hframe⟩ := buildSchemaFrame_eq_ok h
  have htotal : image.length = prefixSize + (schemaHeader schema).length +
      descriptors.flatten.length + trailerSize := length_of_buildFrame hframe
  have hheader := length_schemaHeader schema
  simp only [prefixSize, trailerSize, schemaFrameHeaderSize] at htotal hheader
  omega

/-- **A new file opens** as the schema it was created with, whatever has been appended to it. -/
theorem fromFile_initial {schema : Schema} {options : WriterOptions} {limits : Limits}
    {schemaFrame : Bytes} (hvalid : SchemaValid schema)
    (hbuild : buildSchemaFrame schema = .ok schemaFrame) (hlimits : limits.CoversDefault)
    (more : Bytes) :
    FileScan.fromFile (buildPrologue options.featureFlags ++ schemaFrame ++ more) limits =
      .ok (initialScan schema options limits schemaFrame
        (buildPrologue options.featureFlags ++ schemaFrame ++ more)) := by
  generalize hfile : buildPrologue options.featureFlags ++ schemaFrame ++ more = file
  have hprologueLength : (buildPrologue options.featureFlags).length = schemaFrameOffset :=
    length_buildPrologue _
  have hlength : file.length = schemaFrameOffset + schemaFrame.length + more.length := by
    rw [← hfile, List.length_append, List.length_append, hprologueLength]
  have hsmall := length_le_of_buildSchemaFrame hbuild
  have hmax : schemaFrameOffset + schemaFrame.length ≤ u64Max := by
    simp only [defaultMaxFramePayloadLength] at hsmall
    simp only [schemaFrameOffset, prologueSize, u64Max]
    omega
  have hflags : options.featureFlags ≤ 1 := by
    rw [WriterOptions.featureFlags]
    split <;> decide
  have hholds : HoldsAt file schemaFrameOffset schemaFrame := by
    rw [← hfile, ← hprologueLength]
    exact holdsAt_append_middle _ _ _
  have hprologue : slice file 0 prologueSize = buildPrologue options.featureFlags := by
    rw [← hfile, List.append_assoc]
    exact slice_field _ (length_buildPrologue _)
  have hframe := isFrame_of_buildSchemaFrame hbuild hlimits
  have hread : Frame.readFrame file file.length schemaFrameOffset schemaFrameSequence limits =
      .ok (.complete (Frame.metadataAt schemaFrame schemaFrameOffset)) := by
    refine (Frame.readFrame_eq_complete le_rfl).mpr ⟨schemaFrame.length, ?_, by omega, ?_, ?_⟩
    · omega
    · rw [hholds.slice_eq]
      exact hframe
    · rw [hholds.slice_eq]
  have htotal : (Frame.metadataAt schemaFrame schemaFrameOffset).totalLength =
      schemaFrame.length := hframe.length.symm
  refine FileScan.fromFile_eq_ok.mpr ⟨_, ?_, ?_, hread,
    parse_buildSchemaFrame hvalid hbuild hlimits hholds hmax, ?_, ?_, rfl, rfl, rfl⟩
  · have hsizes : prologueSize = schemaFrameOffset := rfl
    omega
  · rw [hprologue]
    exact parse_buildPrologue _ hflags
  · rw [htotal]
    rfl
  · rw [htotal]
    exact hmax

theorem rowIdsEnabled_initialScan (schema : Schema) (options : WriterOptions) (limits : Limits)
    (schemaFrame file : Bytes) :
    (initialScan schema options limits schemaFrame file).rowIdsEnabled = options.rowIds := by
  cases hrowIds : options.rowIds <;>
    simp [initialScan, FileScan.rowIdsEnabled, WriterOptions.featureFlags, hrowIds, rowIdsFeature]

/-- **A new file is read to its end**, under limits no tighter than the defaults. -/
theorem complete_initial_of_covers {σ : Type} {schema : Schema} {options : WriterOptions}
    {limits : Limits} {schemaFrame : Bytes} (hvalid : validateSchema schema = .ok ())
    (hbuild : buildSchemaFrame schema = .ok schemaFrame) (hlimits : limits.CoversDefault)
    {visit : Visit σ} (visited : σ) :
    let file := buildPrologue options.featureFlags ++ schemaFrame
    let scan := initialScan schema options limits schemaFrame file
    FileScan.Complete visit visited file limits scan
      (FileScan.startAt scan.initialResumePoint visited) := by
  intro file scan
  have hopens : FileScan.fromFile (buildPrologue options.featureFlags ++ schemaFrame ++ [])
      limits = _ :=
    fromFile_initial (validateSchema_eq_ok.mp hvalid) hbuild hlimits []
  rw [List.append_nil] at hopens
  refine ⟨hopens, .refl, ?_⟩
  have hprologue : (buildPrologue options.featureFlags).length = schemaFrameOffset :=
    length_buildPrologue _
  show schemaFrameOffset + schemaFrame.length = file.length
  rw [List.length_append, hprologue]

/-- **A new file is read to its end.** -/
theorem complete_initial {σ : Type} {schema : Schema} {options : WriterOptions}
    {schemaFrame : Bytes}
    (hvalid : validateSchema schema = .ok ())
    (hbuild : buildSchemaFrame schema = .ok schemaFrame) {visit : Visit σ} (visited : σ) :
    let file := buildPrologue options.featureFlags ++ schemaFrame
    let scan := initialScan schema options Limits.default schemaFrame file
    FileScan.Complete visit visited file Limits.default scan
      (FileScan.startAt scan.initialResumePoint visited) :=
  complete_initial_of_covers hvalid hbuild Limits.coversDefault_default visited

end Write

end Acta
