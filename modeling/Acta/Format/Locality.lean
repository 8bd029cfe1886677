import Acta.Format.Scan

/-!
# What a parse reads

The parsers of a frame's contents read nothing outside the frame: on two files that agree over the
frame's bytes they return the same result (`SchemaFrame.parse_congr`, `DataFrame.parse_congr`,
`DataFrame.readBlockLayout_congr`).  A file that has grown, or that was damaged elsewhere, agrees
with the original over every frame it still holds.
-/

namespace Acta

open Machine Wire

/-- Two files give the same bytes wherever they are read between `start` and `stop`. -/
def AgreeOn (file file' : Bytes) (start stop : ℕ) : Prop :=
  ∀ offset length, start ≤ offset → offset + length ≤ stop →
    readExactAt file offset length = readExactAt file' offset length

theorem AgreeOn.mono {file file' : Bytes} {start stop start' stop' : ℕ}
    (h : AgreeOn file file' start stop) (hstart : start ≤ start') (hstop : stop' ≤ stop) :
    AgreeOn file file' start' stop' :=
  fun offset length hlo hhi ↦ h offset length (by omega) (by omega)

theorem agreeOn_append {file : Bytes} (more : Bytes) {start stop : ℕ} (h : stop ≤ file.length) :
    AgreeOn file (file ++ more) start stop := by
  intro offset length _ hstop
  rw [readExactAt_of_le (by omega), readExactAt_of_le (by simp; omega),
    slice_append_left _ (by omega)]

theorem agreeOn_set {file : Bytes} {start stop i : ℕ} (byte : UInt8)
    (h : i < start ∨ stop ≤ i) : AgreeOn file (file.set i byte) start stop := by
  intro offset length hstart hstop
  unfold readExactAt
  rw [List.length_set]
  rcases h with h | h
  · rw [slice_set_of_lt _ (by omega)]
  · rw [slice_set_of_le _ (by omega)]

/-- The coordinates of a frame tile it. -/
structure FrameMetadata.Tiled (frame : FrameMetadata) : Prop where
  header : frame.headerOffset = frame.frameOffset + prefixSize
  payload : frame.payloadOffset = frame.headerOffset + frame.headerLength
  total : frame.totalLength = prefixSize + frame.headerLength + frame.payloadLength + trailerSize
  schemaHeader : frame.frameType = schemaFrameType → frame.headerLength = schemaFrameHeaderSize
  dataHeader : frame.frameType = dataFrameType → dataBlockHeaderSize ≤ frame.headerLength

/-- The bytes of a frame. -/
def AgreeOnFrame (file file' : Bytes) (frame : FrameMetadata) : Prop :=
  AgreeOn file file' frame.frameOffset (frame.frameOffset + frame.totalLength)

theorem Frame.tiled_of_complete {file : Bytes} {fileSize offset sequence : ℕ} {limits : Limits}
    {frame : FrameMetadata} (hsize : fileSize ≤ file.length)
    (h : Frame.readFrame file fileSize offset sequence limits = .ok (.complete frame)) :
    frame.Tiled := by
  obtain ⟨total, -, -, hframe, rfl⟩ := (Frame.readFrame_eq_complete hsize).mp h
  exact ⟨rfl, rfl, rfl, hframe.accepted.fields.schemaHeader, hframe.accepted.fields.dataHeader⟩

namespace SchemaFrame

variable {file file' : Bytes} {frame : FrameMetadata}

theorem checkedOffset_eq_ok {base relative offset : ℕ} {message : String} :
    checkedOffset base relative message = .ok offset ↔
      base + relative ≤ u64Max ∧ base + relative = offset := by
  rw [checkedOffset, okOr_eq_ok, checkedAdd_eq_some]

theorem locateDescriptor_eq_ok {payloadPosition : ℕ} {place : DescriptorPlace}
    (h : locateDescriptor frame payloadPosition = .ok place) :
    place.offset = frame.payloadOffset + payloadPosition ∧
      place.offset + place.remaining = frame.payloadOffset + frame.payloadLength ∧
        schemaDescriptorSize ≤ place.remaining := by
  simp only [locateDescriptor, bind_eq_ok, checkedOffset_eq_ok, okOr_eq_ok, checkedSub_eq_some,
    failIf_eq_ok, not_lt, pure_eq_ok, Except.ok.injEq] at h
  obtain ⟨_, ⟨-, rfl⟩, _, ⟨hle, rfl⟩, -, hroom, rfl⟩ := h
  refine ⟨rfl, ?_, hroom⟩
  dsimp only
  omega

theorem contentLength_of_checkDescriptorFields {fields : DescriptorFields} {place : DescriptorPlace}
    {limits : Limits} {u : Unit} (h : checkDescriptorFields fields place limits = .ok u) :
    descriptorPrefixSize + fields.nameLength + fields.parametersLength ≤ fields.length ∧
      fields.length ≤ place.remaining := by
  simp only [checkDescriptorFields, bind_eq_ok, failIf_eq_ok, okOr_eq_ok, Option.bind_eq_bind,
    Option.bind_eq_some_iff, checkedAdd_eq_some, not_lt] at h
  obtain ⟨-, -, -, hremaining, -, -, _, ⟨_, ⟨-, rfl⟩, -, rfl⟩, -, hcontent, -⟩ := h
  exact ⟨hcontent, hremaining⟩

theorem readAllocated_congr {offset length maxLength : ℕ} {field : String}
    (h : AgreeOn file file' offset (offset + length)) :
    readAllocated file offset length field maxLength =
      readAllocated file' offset length field maxLength := by
  rw [readAllocated, readAllocated, h _ _ le_rfl le_rfl]

/-- A descriptor is read inside the payload. -/
theorem parseDescriptor_congr {payloadPosition : ℕ} {limits : Limits}
    (h : AgreeOn file file' frame.payloadOffset (frame.payloadOffset + frame.payloadLength)) :
    parseDescriptor file frame payloadPosition limits =
      parseDescriptor file' frame payloadPosition limits := by
  unfold parseDescriptor
  refine bind_congr_ok rfl fun place hplace ↦ ?_
  obtain ⟨hoffset, hend, hroom⟩ := locateDescriptor_eq_ok hplace
  have hprefix : descriptorPrefixSize = schemaDescriptorSize := rfl
  refine bind_congr_ok ?_ fun bytes _ ↦ bind_congr_ok rfl fun fields _ ↦
    bind_congr_ok rfl fun _ hcheck ↦ ?_
  · rw [h _ _ (by omega) (by omega)]
  obtain ⟨hcontent, hlength⟩ := contentLength_of_checkDescriptorFields hcheck
  refine bind_congr_ok rfl fun nameOffset hname ↦ ?_
  obtain ⟨-, rfl⟩ := checkedOffset_eq_ok.mp hname
  refine bind_congr_ok ?_ fun name _ ↦ bind_congr_ok rfl fun parametersOffset hparameters ↦ ?_
  · rw [readName, readName, readAllocated_congr (h.mono (by omega) (by omega))]
  obtain ⟨-, rfl⟩ := checkedOffset_eq_ok.mp hparameters
  exact bind_congr_ok (readAllocated_congr (h.mono (by omega) (by omega))) fun _ _ ↦ rfl

theorem readDescriptors_congr {limits : Limits}
    (h : AgreeOn file file' frame.payloadOffset (frame.payloadOffset + frame.payloadLength))
    (count payloadPosition : ℕ) (columns : List Column) :
    readDescriptors file frame limits count payloadPosition columns =
      readDescriptors file' frame limits count payloadPosition columns := by
  induction count generalizing payloadPosition columns with
  | zero => rfl
  | succ count ih =>
    rw [readDescriptors, readDescriptors]
    exact bind_congr_ok (parseDescriptor_congr h) fun _ _ ↦ bind_congr_ok rfl fun _ _ ↦ ih _ _

/-- **The schema is read from the schema frame alone.** -/
theorem parse_congr {limits : Limits} (htiled : frame.Tiled) (h : AgreeOnFrame file file' frame) :
    parse file frame limits = parse file' frame limits := by
  have htotal := htiled.total
  have hheader := htiled.header
  have hpayload := htiled.payload
  unfold parse
  refine bind_congr_ok rfl fun _ htype ↦ ?_
  have hlength := htiled.schemaHeader (not_not.mp (failIf_eq_ok.mp htype))
  refine bind_congr_ok ?_ fun fields _ ↦ bind_congr_ok rfl fun _ _ ↦ bind_congr_ok ?_
    fun _ _ ↦ rfl
  · rw [readHeader, readHeader, h _ _ (by omega) (by omega)]
  · rw [readColumns, readColumns, readDescriptors_congr (h.mono (by omega) (by omega))]

end SchemaFrame

namespace DataFrame

variable {file file' : Bytes} {frame : FrameMetadata}

/-- **Block metadata is read from the frame alone.** -/
theorem parse_congr {schema : Schema} {featureFlags : ℕ} {expectedBaseRowId : Option ℕ}
    (htiled : frame.Tiled) (h : AgreeOnFrame file file' frame) :
    parse file frame schema featureFlags expectedBaseRowId =
      parse file' frame schema featureFlags expectedBaseRowId := by
  have htotal := htiled.total
  have hheader := htiled.header
  unfold parse
  refine bind_congr_ok rfl fun _ htype ↦ bind_congr_ok ?_ fun _ _ ↦ rfl
  have hlength := htiled.dataHeader (not_not.mp (failIf_eq_ok.mp htype))
  rw [readHeader, readHeader, h _ _ (by omega) (by omega)]

/-- **A block layout is read from the frame alone.** -/
theorem readBlockLayout_congr {schema : Schema} {featureFlags : ℕ}
    {expectedBaseRowId : Option ℕ} {limits : Limits} {selected : Option (List UInt32)}
    (htiled : frame.Tiled) (h : AgreeOnFrame file file' frame) :
    readBlockLayout file frame schema featureFlags expectedBaseRowId limits selected =
      readBlockLayout file' frame schema featureFlags expectedBaseRowId limits selected := by
  have htotal := htiled.total
  have hheader := htiled.header
  unfold readBlockLayout
  rw [h _ _ (by omega) (by omega)]

end DataFrame

end Acta
