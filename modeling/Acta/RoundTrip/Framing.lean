import Acta.Format.FrameImage
import Acta.Format.Prologue
import Acta.Write.Framing

/-!
# What the writer frames, the reader accepts

A prologue and a frame the writer builds are read back: `parse_buildPrologue` and
`isFrame_of_buildFrame`.  The reader's view of a stored record is by position, so each field is
found where the writer put it by skipping the fields before it.
-/

namespace Acta

open Machine Wire

namespace Write

@[simp] theorem length_zeros (length : ℕ) : (zeros length).length = length := by
  simp [zeros]

@[simp] theorem length_fileMagic : fileMagic.length = 8 := by simp [fileMagic]

@[simp] theorem length_frameMagic : frameMagic.length = 8 := by simp [frameMagic]

@[simp] theorem length_commitMagic : commitMagic.length = 8 := by simp [commitMagic]

/-- A record that ends in the checksum of what precedes it is sealed. -/
theorem sealed_append_checksum {body : Bytes} {k : ℕ} (h : body.length = k) :
    Sealed (body ++ leBytes 4 (checksum body)) k := by
  subst h
  have hcrc : checksum body < 256 ^ 4 := checksum_lt body
  rw [Sealed, List.take_left, slice_append_right' _ _ le_rfl, Nat.sub_self,
    slice_whole (by simp), leNat_leBytes_of_lt hcrc]

/-! ### The prologue -/

section Prologue

variable (featureFlags : ℕ)

@[simp] theorem length_prologueBody : (prologueBody featureFlags).length = 60 := by
  simp [prologueBody, fileIdSize, prologueReservedSize]

@[simp] theorem length_buildPrologue : (buildPrologue featureFlags).length = 64 := by
  simp [buildPrologue]

theorem fieldsOf_buildPrologue (h : featureFlags < 2 ^ 64) :
    Prologue.fieldsOf (buildPrologue featureFlags) =
      { magic := fileMagic, formatMajor, formatMinor, prologueSize, featureFlags,
        fileId := zeros fileIdSize, schemaFrameOffset,
        storedCrc := checksum (prologueBody featureFlags) } := by
  have hcrc : checksum (prologueBody featureFlags) < 256 ^ 4 := checksum_lt _
  have hstored : slice (buildPrologue featureFlags) 60 4 =
      leBytes 4 (checksum (prologueBody featureFlags)) := by
    simp [buildPrologue, slice_append_right', slice_whole]
  have hflags : leNat (leBytes 8 featureFlags) = featureFlags := leNat_leBytes_of_lt h
  have hfixed : leNat (leBytes 2 formatMajor) = formatMajor ∧
      leNat (leBytes 2 formatMinor) = formatMinor ∧
      leNat (leBytes 4 prologueSize) = prologueSize ∧
      leNat (leBytes 8 schemaFrameOffset) = schemaFrameOffset := by decide
  rw [Prologue.fieldsOf, hstored, leNat_leBytes_of_lt hcrc]
  simp [buildPrologue, prologueBody, slice_append_right', slice_field, fileIdSize,
    prologueReservedSize, hflags, hfixed]

/-- **The prologue the writer builds is read back.** -/
theorem parse_buildPrologue (h : featureFlags ≤ 1) :
    Prologue.parse (buildPrologue featureFlags) =
      .ok { formatVersion := (formatMajor, formatMinor), featureFlags
            fileId := zeros fileIdSize } := by
  have hfields := fieldsOf_buildPrologue featureFlags (by omega)
  have hmagic : slice (buildPrologue featureFlags) 0 8 = fileMagic :=
    congrArg PrologueFields.magic hfields
  have hfeatures : Prologue.unknownFeatures featureFlags = 0 := by
    have hcases : featureFlags = 0 ∨ featureFlags = 1 := by omega
    rcases hcases with rfl | rfl <;> decide
  refine (Prologue.parse_eq_ok (length_buildPrologue featureFlags)).mpr
    ⟨⟨hmagic, sealed_append_checksum (length_prologueBody featureFlags), ?_, ?_, ?_, ?_⟩, ?_⟩
  · rw [hfields]
  · rw [hfields]
  · rw [hfields]
    exact hfeatures
  · rw [hfields]
  · rw [Prologue.ofBytes, hfields]

end Prologue

/-! ### Frames -/

section Frame

variable (frameType sequence : ℕ) (header payload : Bytes)

/-- The bytes of a frame up to its trailer. -/
def frameBody : Bytes :=
  buildPrefix frameType sequence header payload ++ header ++ payload

/-- The length of a frame. -/
def frameLength : ℕ :=
  prefixSize + header.length + payload.length + trailerSize

/-- The bytes of a frame. -/
def frameImage : Bytes :=
  frameBody frameType sequence header payload ++
    buildTrailer (frameLength header payload) sequence
      (checksum (frameBody frameType sequence header payload))

/-- **When the writer can build a frame**, and which. -/
theorem buildFrame_eq_ok {image : Bytes} :
    buildFrame frameType sequence header payload = .ok image ↔
    (header.length % frameAlignment = 0 ∧ payload.length % frameAlignment = 0) ∧
      header.length ≤ u32Max ∧ frameLength header payload ≤ u64Max ∧
        frameImage frameType sequence header payload = image := by
  simp only [buildFrame, bind_eq_ok, failIf_eq_ok, okOr_eq_ok, Option.bind_eq_bind,
    Option.bind_eq_some_iff, checkedAdd_eq_some, pure_eq_ok, Except.ok.injEq, not_or, not_not,
    not_lt, Crc32c.update_update, finish_update_new]
  constructor
  · rintro ⟨-, haligned, -, hheader, _, ⟨_, ⟨-, rfl⟩, _, ⟨-, rfl⟩, htotal, rfl⟩, himage⟩
    exact ⟨haligned, hheader, htotal, himage⟩
  · rintro ⟨haligned, hheader, htotal, himage⟩
    rw [frameLength] at htotal
    exact ⟨(), haligned, (), hheader, _, ⟨_, ⟨by omega, rfl⟩, _, ⟨by omega, rfl⟩, htotal, rfl⟩,
      himage⟩

@[simp] theorem length_prefixBody : (prefixBody frameType sequence header payload).length = 44 := by
  simp [prefixBody, prefixReservedSize]

@[simp] theorem length_buildPrefix :
    (buildPrefix frameType sequence header payload).length = 48 := by
  simp [buildPrefix]

@[simp] theorem length_buildTrailer (totalLength bodyCrc : ℕ) :
    (buildTrailer totalLength sequence bodyCrc).length = 32 := by
  simp [buildTrailer, trailerBody]

theorem length_frameBody : (frameBody frameType sequence header payload).length =
    prefixSize + header.length + payload.length := by
  simp [frameBody, prefixSize, Nat.add_assoc]

theorem length_frameImage : (frameImage frameType sequence header payload).length =
    frameLength header payload := by
  rw [frameImage, List.length_append, length_frameBody, length_buildTrailer]
  rfl

theorem take_frameImage : (frameImage frameType sequence header payload).take prefixSize =
    buildPrefix frameType sequence header payload := by
  have hlength : prefixSize = (buildPrefix frameType sequence header payload).length := by
    rw [length_buildPrefix]
    rfl
  rw [frameImage, frameBody, List.append_assoc, List.append_assoc, hlength, List.take_left]

theorem prefixFieldsOf_buildPrefix (htype : frameType < 2 ^ 16) (hseq : sequence < 2 ^ 64)
    (hheader : header.length ≤ u32Max) (hpayload : payload.length ≤ u64Max) :
    Frame.prefixFieldsOf (buildPrefix frameType sequence header payload) =
      { magic := frameMagic, frameType, frameVersion, frameFlags, headerLength := header.length,
        payloadLength := payload.length, sequence, headerCrc := checksum header,
        prefixCrc := checksum (prefixBody frameType sequence header payload) } := by
  have hstored : slice (buildPrefix frameType sequence header payload) 44 4 =
      leBytes 4 (checksum (prefixBody frameType sequence header payload)) := by
    simp [buildPrefix, slice_append_right', slice_whole]
  have hsealedCrc : checksum (prefixBody frameType sequence header payload) < 256 ^ 4 :=
    checksum_lt _
  have hheaderCrc : leNat (leBytes 4 (checksum header)) = checksum header :=
    leNat_leBytes_of_lt (checksum_lt header)
  have hfixed : leNat (leBytes 2 frameVersion) = frameVersion ∧
      leNat (leBytes 4 frameFlags) = frameFlags := by decide
  have htype' : leNat (leBytes 2 frameType) = frameType := leNat_leBytes_of_lt htype
  have hseq' : leNat (leBytes 8 sequence) = sequence := leNat_leBytes_of_lt hseq
  have hheader' : leNat (leBytes 4 header.length) = header.length := by
    apply leNat_leBytes_of_lt
    simp only [u32Max] at hheader
    omega
  have hpayload' : leNat (leBytes 8 payload.length) = payload.length := by
    apply leNat_leBytes_of_lt
    simp only [u64Max] at hpayload
    omega
  rw [Frame.prefixFieldsOf, hstored, leNat_leBytes_of_lt hsealedCrc]
  simp [buildPrefix, prefixBody, slice_append_right', slice_field, prefixReservedSize, hheaderCrc,
    hfixed, htype', hseq', hheader', hpayload']

theorem trailerFieldsOf_buildTrailer {totalLength bodyCrc : ℕ} (hseq : sequence < 2 ^ 64)
    (htotal : totalLength ≤ u64Max) (hcrc : bodyCrc < 2 ^ 32) :
    Frame.trailerFieldsOf (buildTrailer totalLength sequence bodyCrc) =
      { totalLength, sequence, bodyCrc,
        trailerCrc := checksum (trailerBody totalLength sequence bodyCrc ++ commitMagic),
        commitMagic } := by
  have htrailerCrc : leNat (leBytes 4
      (checksum (trailerBody totalLength sequence bodyCrc ++ commitMagic))) =
        checksum (trailerBody totalLength sequence bodyCrc ++ commitMagic) :=
    leNat_leBytes_of_lt (checksum_lt _)
  have hseq' : leNat (leBytes 8 sequence) = sequence := leNat_leBytes_of_lt hseq
  have hcrc' : leNat (leBytes 4 bodyCrc) = bodyCrc := leNat_leBytes_of_lt hcrc
  have htotal' : leNat (leBytes 8 totalLength) = totalLength := by
    apply leNat_leBytes_of_lt
    simp only [u64Max] at htotal
    omega
  simp only [trailerBody] at htrailerCrc ⊢
  simp [Frame.trailerFieldsOf, buildTrailer, trailerBody, Crc32c.update_update, slice_append_right',
    slice_field, slice_whole, hseq', hcrc', htotal']
  simpa using htrailerCrc

theorem trailerCovered_buildTrailer (totalLength bodyCrc : ℕ) :
    Frame.trailerCovered (buildTrailer totalLength sequence bodyCrc) =
      trailerBody totalLength sequence bodyCrc ++ commitMagic := by
  have hbody : (trailerBody totalLength sequence bodyCrc).length = trailerCrcField := by
    simp [trailerBody, trailerCrcField]
  have hstored (crc : ℕ) : (trailerBody totalLength sequence bodyCrc ++ leBytes 4 crc).length =
      trailerCommitMagicField := by
    simp [hbody, trailerCrcField, trailerCommitMagicField]
  rw [Frame.trailerCovered, buildTrailer, List.drop_left' (hstored _), List.append_assoc,
    List.take_left' hbody]

/-- What a frame the writer can build must satisfy for a reader to accept it. -/
structure Framable (limits : Limits) : Prop where
  expectedType : frameType = Frame.expectedFrameType sequence
  sequence_lt : sequence < 2 ^ 64
  schemaHeader : frameType = schemaFrameType → header.length = schemaFrameHeaderSize
  dataHeader : frameType = dataFrameType → dataBlockHeaderSize ≤ header.length
  headerLimit : header.length ≤ limits.maxFrameHeaderLength
  payloadLimit : payload.length ≤ limits.maxFramePayloadLength

variable {frameType sequence header payload} {limits : Limits} {image : Bytes}

/-- What the reader finds a built frame to declare. -/
theorem imagePrefix_of_buildFrame (h : buildFrame frameType sequence header payload = .ok image)
    (hframable : Framable frameType sequence header payload limits) :
    Frame.imagePrefix image =
      { frameType, headerLength := header.length, payloadLength := payload.length,
        headerCrc := checksum header, sequence, totalLength := frameLength header payload } := by
  obtain ⟨-, hheader, htotal, rfl⟩ := (buildFrame_eq_ok _ _ _ _).mp h
  have htype : frameType < 2 ^ 16 := by
    rw [hframable.expectedType, Frame.expectedFrameType]
    split <;> decide
  have hpayload : payload.length ≤ u64Max := by
    rw [frameLength] at htotal
    omega
  rw [Frame.imagePrefix, take_frameImage, Frame.prefixOf,
    prefixFieldsOf_buildPrefix _ _ _ _ htype hframable.sequence_lt hheader hpayload]
  rfl

/-- **A frame the writer builds is a complete frame.** -/
theorem isFrame_of_buildFrame (h : buildFrame frameType sequence header payload = .ok image)
    (hframable : Framable frameType sequence header payload limits) :
    Frame.IsFrame image sequence limits := by
  have hhead := imagePrefix_of_buildFrame h hframable
  obtain ⟨⟨haligned, haligned'⟩, hheader, htotal, rfl⟩ := (buildFrame_eq_ok _ _ _ _).mp h
  have htype : frameType < 2 ^ 16 := by
    rw [hframable.expectedType, Frame.expectedFrameType]
    split <;> decide
  have hpayload : payload.length ≤ u64Max := by
    rw [frameLength] at htotal
    omega
  have hfields := prefixFieldsOf_buildPrefix _ _ _ _ htype hframable.sequence_lt hheader hpayload
  have hbody : Frame.bodyLength (Frame.imagePrefix (frameImage frameType sequence header payload)) =
      (frameBody frameType sequence header payload).length := by
    rw [hhead, length_frameBody]
    rfl
  have htrailer : Frame.imageTrailer (frameImage frameType sequence header payload) =
      buildTrailer (frameLength header payload) sequence
        (checksum (frameBody frameType sequence header payload)) := by
    rw [Frame.imageTrailer, hbody, frameImage, List.drop_left]
  have htrailerFields := trailerFieldsOf_buildTrailer sequence hframable.sequence_lt htotal
    (checksum_lt (frameBody frameType sequence header payload))
  refine ⟨⟨?_, ?_, ?_⟩, ?_, ?_, ?_, ?_⟩
  · rw [take_frameImage]
    exact congrArg PrefixFields.magic hfields
  · rw [take_frameImage]
    exact sealed_append_checksum (length_prefixBody _ _ _ _)
  · rw [take_frameImage, hfields]
    exact ⟨rfl, rfl, hframable.expectedType, rfl, haligned, hframable.schemaHeader,
      hframable.dataHeader, haligned', hframable.headerLimit, hframable.payloadLimit, htotal⟩
  · rw [length_frameImage, hhead]
  · rw [htrailer, hhead]
    refine ⟨?_, ?_, ?_, ?_⟩
    · rw [htrailerFields]
    · rw [htrailerFields]
    · rw [htrailerFields]
    · rw [htrailerFields, trailerCovered_buildTrailer]
  · rw [hhead]
    have hslice : slice (frameImage frameType sequence header payload) prefixSize header.length =
        header := by
      simp [frameImage, frameBody, prefixSize, slice_append_right', slice_field]
    rw [hslice]
  · rw [hbody, htrailer, htrailerFields, frameImage, List.take_left]

/-- Where the parts of a built frame stand in a file that holds it. -/
theorem metadataAt_of_buildFrame (h : buildFrame frameType sequence header payload = .ok image)
    (hframable : Framable frameType sequence header payload limits) (offset : ℕ) :
    Frame.metadataAt image offset =
      { frameType, sequence, frameOffset := offset, headerOffset := offset + prefixSize,
        headerLength := header.length, payloadOffset := offset + prefixSize + header.length,
        payloadLength := payload.length, totalLength := frameLength header payload } := by
  rw [Frame.metadataAt, imagePrefix_of_buildFrame h hframable]
  rfl

/-- The header of a built frame, where the reader looks for it. -/
theorem slice_header_of_buildFrame (h : buildFrame frameType sequence header payload = .ok image) :
    slice image prefixSize header.length = header := by
  obtain ⟨-, -, -, rfl⟩ := (buildFrame_eq_ok _ _ _ _).mp h
  simp [frameImage, frameBody, prefixSize, slice_append_right', slice_field]

/-- The payload of a built frame, where the reader looks for it. -/
theorem slice_payload_of_buildFrame
    (h : buildFrame frameType sequence header payload = .ok image) :
    slice image (prefixSize + header.length) payload.length = payload := by
  obtain ⟨-, -, -, rfl⟩ := (buildFrame_eq_ok _ _ _ _).mp h
  simp [frameImage, frameBody, prefixSize, slice_append_right', slice_field]

theorem length_of_buildFrame (h : buildFrame frameType sequence header payload = .ok image) :
    image.length = frameLength header payload := by
  obtain ⟨-, -, -, rfl⟩ := (buildFrame_eq_ok _ _ _ _).mp h
  exact length_frameImage _ _ _ _

end Frame

end Write

end Acta
