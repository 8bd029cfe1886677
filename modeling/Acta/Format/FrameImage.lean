import Acta.Format.Frame

/-!
# What a frame is

`IsFrame image sequence limits` says, of a byte string alone, that it is a complete frame: its
prefix is sealed and acceptable, its length is the length the prefix declares, and the trailer and
both checksums agree with it.  `readFrame_eq_complete` connects this to the code: `readFrame`
accepts exactly the frames, and the coordinates it returns are those of the frame's own prefix.

The consequences are the ones an append-only log rests on.  A complete frame stays complete when
the file grows, a proper cut of a frame is an incomplete tail, and a frame with one replaced byte is
corruption.
-/

namespace Acta

open Machine Wire

namespace Frame

/-! ### The prefix -/

/-- The fields of a stored prefix, by position. -/
def prefixFieldsOf (bytes : Bytes) : PrefixFields where
  magic := slice bytes 0 8
  frameType := leNat (slice bytes 8 2)
  frameVersion := leNat (slice bytes 10 2)
  frameFlags := leNat (slice bytes 12 4)
  headerLength := leNat (slice bytes 16 4)
  payloadLength := leNat (slice bytes 24 8)
  sequence := leNat (slice bytes 32 8)
  headerCrc := leNat (slice bytes 40 4)
  prefixCrc := leNat (slice bytes 44 4)

/-- The requirements on the fields of a sealed prefix. -/
structure FieldsAccepted (fields : PrefixFields) (sequence : ℕ) (limits : Limits) : Prop where
  version : fields.frameVersion = frameVersion
  flags : fields.frameFlags = frameFlags
  frameType : fields.frameType = expectedFrameType sequence
  sequence : fields.sequence = sequence
  headerAligned : fields.headerLength % frameAlignment = 0
  schemaHeader : fields.frameType = schemaFrameType → fields.headerLength = schemaFrameHeaderSize
  dataHeader : fields.frameType = dataFrameType → dataBlockHeaderSize ≤ fields.headerLength
  payloadAligned : fields.payloadLength % frameAlignment = 0
  headerLimit : fields.headerLength ≤ limits.maxFrameHeaderLength
  payloadLimit : fields.payloadLength ≤ limits.maxFramePayloadLength
  total : prefixSize + fields.headerLength + fields.payloadLength + trailerSize ≤ u64Max

/-- What accepted fields declare. -/
def prefixOfFields (fields : PrefixFields) : FramePrefix where
  frameType := fields.frameType
  headerLength := fields.headerLength
  payloadLength := fields.payloadLength
  headerCrc := fields.headerCrc
  sequence := fields.sequence
  totalLength := prefixSize + fields.headerLength + fields.payloadLength + trailerSize

/-- A stored prefix that is undamaged and declares a frame this reader accepts. -/
structure AcceptedPrefix (bytes : Bytes) (sequence : ℕ) (limits : Limits) : Prop where
  magic : slice bytes 0 8 = frameMagic
  isSealed : Sealed bytes prefixCrcField
  fields : FieldsAccepted (prefixFieldsOf bytes) sequence limits

/-- What an accepted stored prefix declares. -/
def prefixOf (bytes : Bytes) : FramePrefix :=
  prefixOfFields (prefixFieldsOf bytes)

theorem totalLength_prefixOf (bytes : Bytes) : (prefixOf bytes).totalLength =
    prefixSize + (prefixOf bytes).headerLength + (prefixOf bytes).payloadLength + trailerSize :=
  rfl

theorem decodePrefix_eq {bytes : Bytes} (h : bytes.length = prefixSize) (offset : ℕ) :
    decodePrefix bytes offset = .ok (prefixFieldsOf bytes) := by
  have hlen : bytes.length = 48 := h
  have hu : bytes.length ≤ u64Max := by rw [hlen]; decide
  simp (disch := first | assumption | omega) only [decodePrefix, decodePrefixFields, StateT.run',
    Cursor.new, Cursor.readU16, Cursor.readU32, Cursor.readU64, Cursor.readBytes_bind,
    Cursor.readUInt_bind, Cursor.skip_bind, magicSize, prefixReservedSize]
  rfl

theorem verifyPrefixIntegrity_eq {bytes : Bytes} (h : bytes.length = prefixSize) (offset : ℕ) :
    verifyPrefixIntegrity bytes offset = (do
      failIf (slice bytes 0 8 ≠ frameMagic) (Error.corruption "bad frame magic" (some offset))
      failIf (¬Sealed bytes prefixCrcField)
        (Error.corruption "bad frame prefix CRC32C" (some offset))
      return prefixFieldsOf bytes) := by
  have hshort : ¬bytes.length < prefixCrcField := by rw [h]; decide
  rw [verifyPrefixIntegrity, decodePrefix_eq h, ok_bind, failIf_neg hshort, ok_bind]
  rfl

theorem checkFrameType_eq_ok {frameType sequence offset : ℕ} {u : Unit} :
    checkFrameType frameType sequence offset = .ok u ↔ frameType = expectedFrameType sequence := by
  unfold checkFrameType
  dsimp only
  split
  · simp_all
  · split <;> simp_all

theorem totalFrameLength_eq_ok {fields : PrefixFields} {offset total : ℕ} :
    totalFrameLength fields offset = .ok total ↔
      prefixSize + fields.headerLength + fields.payloadLength + trailerSize ≤ u64Max ∧
        prefixSize + fields.headerLength + fields.payloadLength + trailerSize = total := by
  simp only [totalFrameLength, okOr_eq_ok, Option.bind_eq_bind, Option.bind_eq_some_iff,
    checkedAdd_eq_some]
  constructor
  · rintro ⟨_, ⟨_, rfl⟩, _, ⟨_, rfl⟩, hle, rfl⟩
    exact ⟨hle, rfl⟩
  · rintro ⟨hle, rfl⟩
    exact ⟨_, ⟨by omega, rfl⟩, _, ⟨by omega, rfl⟩, hle, rfl⟩

theorem verifyPrefixFields_eq_ok {fields : PrefixFields} {offset sequence : ℕ} {limits : Limits}
    {framePrefix : FramePrefix} :
    verifyPrefixFields fields offset sequence limits = .ok framePrefix ↔
      FieldsAccepted fields sequence limits ∧ prefixOfFields fields = framePrefix := by
  simp only [verifyPrefixFields, checkEnvelope, checkSequence, checkHeaderLength,
    checkPayloadLength, checkLimits, bind_eq_ok, failIf_eq_ok, checkFrameType_eq_ok,
    totalFrameLength_eq_ok, not_not, not_lt, not_and, pure_eq_ok, Except.ok.injEq]
  constructor
  · rintro ⟨-, ⟨-, hversion, hflags⟩, -, htype, -, hseq, -, ⟨-, haligned, -, hschema, hdata⟩, -,
      hpayload, -, ⟨-, hheader, hlimit⟩, _, ⟨htotal, rfl⟩, rfl⟩
    exact ⟨⟨hversion, hflags, htype, hseq, haligned, hschema, hdata, hpayload, hheader, hlimit,
      htotal⟩, rfl⟩
  · rintro ⟨h, rfl⟩
    exact ⟨(), ⟨(), h.version, h.flags⟩, (), h.frameType, (), h.sequence, (),
      ⟨(), h.headerAligned, (), h.schemaHeader, h.dataHeader⟩, (), h.payloadAligned, (),
      ⟨(), h.headerLimit, h.payloadLimit⟩, _, ⟨h.total, rfl⟩, rfl⟩

/-- **A stored prefix is accepted for what it is**, wherever in the file it stands. -/
theorem parsePrefix_eq_ok {bytes : Bytes} (h : bytes.length = prefixSize) {offset sequence : ℕ}
    {limits : Limits} {framePrefix : FramePrefix} :
    parsePrefix bytes offset sequence limits = .ok framePrefix ↔
      AcceptedPrefix bytes sequence limits ∧ prefixOf bytes = framePrefix := by
  simp only [parsePrefix, verifyPrefixIntegrity_eq h, bind_eq_ok, withContext_eq_ok, failIf_eq_ok,
    verifyPrefixFields_eq_ok, not_not, pure_eq_ok, Except.ok.injEq]
  constructor
  · rintro ⟨_, ⟨-, hmagic, -, hseal, rfl⟩, hfields, rfl⟩
    exact ⟨⟨hmagic, hseal, hfields⟩, rfl⟩
  · rintro ⟨⟨hmagic, hseal, hfields⟩, rfl⟩
    exact ⟨_, ⟨(), hmagic, (), hseal, rfl⟩, hfields, rfl⟩

/-- A prefix whose checksum does not match is corruption, whatever its other fields say. -/
theorem failsWith_parsePrefix_of_not_sealed {bytes : Bytes} (h : bytes.length = prefixSize)
    (hseal : ¬Sealed bytes prefixCrcField) (offset sequence : ℕ) (limits : Limits) :
    FailsWith .corruption (parsePrefix bytes offset sequence limits) := by
  refine FailsWith.bind (FailsWith.withContext ?_ _) _
  rw [verifyPrefixIntegrity_eq h]
  exact failsWith_guard rfl fun _ ↦ failsWith_failIf_bind hseal _

/-! ### The body -/

theorem locate_eq_ok {offset : ℕ} {framePrefix : FramePrefix} {regions : FrameRegions} :
    locate offset framePrefix = .ok regions ↔
      offset + prefixSize + framePrefix.headerLength + framePrefix.payloadLength ≤ u64Max ∧
        regions = { frameOffset := offset, headerOffset := offset + prefixSize,
                    headerLength := framePrefix.headerLength,
                    payloadOffset := offset + prefixSize + framePrefix.headerLength,
                    payloadLength := framePrefix.payloadLength,
                    trailerOffset := offset + prefixSize + framePrefix.headerLength +
                      framePrefix.payloadLength } := by
  simp only [locate, bind_eq_ok, okOr_eq_ok, checkedAdd_eq_some, pure_eq_ok, Except.ok.injEq]
  constructor
  · rintro ⟨_, ⟨_, rfl⟩, _, ⟨_, rfl⟩, _, ⟨hle, rfl⟩, rfl⟩
    exact ⟨hle, rfl⟩
  · rintro ⟨hle, rfl⟩
    exact ⟨_, ⟨by omega, rfl⟩, _, ⟨by omega, rfl⟩, _, ⟨hle, rfl⟩, rfl⟩

/-- **Streaming a region agrees with reading it at once**, for an accumulator that does not care how
its input is cut. -/
theorem readChunks_eq {σ : Type} {visit : σ → Bytes → σ} (hnil : ∀ s, visit s [] = s)
    (happend : ∀ s xs ys, visit (visit s xs) ys = visit s (xs ++ ys)) {file : Bytes}
    (offset : ℕ) {position remaining : ℕ} (state : σ) (h : position + remaining ≤ file.length) :
    readChunks file offset visit position remaining state =
      .ok (visit state (slice file position remaining)) := by
  induction remaining using Nat.strong_induction_on generalizing position state with
  | _ remaining ih =>
    rw [readChunks]
    by_cases hzero : remaining = 0
    · rw [if_pos hzero, hzero, slice_length_zero, hnil]
    · have hchunk : 0 < min remaining checksumChunkSize := by
        simp only [checksumChunkSize]
        omega
      rw [if_neg hzero]
      dsimp only
      rw [failIf_neg (by omega), ok_bind, ih _ (by omega) _ (by omega), happend, ← slice_add,
        Nat.add_sub_cancel' (Nat.min_le_left _ _)]

theorem checksumFrame_eq {file : Bytes} (prefixBytes : Bytes) {regions : FrameRegions}
    (hheader : regions.headerOffset + regions.headerLength ≤ file.length)
    (hpayload : regions.payloadOffset + regions.payloadLength ≤ file.length) :
    checksumFrame file prefixBytes regions =
      .ok { header := Crc32c.new.update (slice file regions.headerOffset regions.headerLength),
            body := Crc32c.new.update (prefixBytes ++
              slice file regions.headerOffset regions.headerLength ++
                slice file regions.payloadOffset regions.payloadLength) } := by
  rw [checksumFrame, readRegion,
    readChunks_eq (by simp) (by simp [Crc32c.update_update]) _ _ hheader]
  simp only [ok_bind, readRegion]
  rw [readChunks_eq (by simp) (by simp [Crc32c.update_update]) _ _ hpayload]
  simp only [Crc32c.update_update]

/-- The fields of a stored trailer, by position. -/
def trailerFieldsOf (bytes : Bytes) : TrailerFields where
  totalLength := leNat (slice bytes 0 8)
  sequence := leNat (slice bytes 8 8)
  bodyCrc := leNat (slice bytes 16 4)
  trailerCrc := leNat (slice bytes 20 4)
  commitMagic := slice bytes 24 8

/-- The trailer bytes the trailer's own CRC covers. -/
def trailerCovered (bytes : Bytes) : Bytes :=
  bytes.take trailerCrcField ++ bytes.drop trailerCommitMagicField

/-- The trailer that commits a frame with this prefix. -/
structure IsTrailer (bytes : Bytes) (framePrefix : FramePrefix) : Prop where
  totalLength : (trailerFieldsOf bytes).totalLength = framePrefix.totalLength
  sequence : (trailerFieldsOf bytes).sequence = framePrefix.sequence
  magic : (trailerFieldsOf bytes).commitMagic = commitMagic
  crc : (trailerFieldsOf bytes).trailerCrc = checksum (trailerCovered bytes)

theorem decodeTrailer_eq {bytes : Bytes} (h : bytes.length = trailerSize) (offset : ℕ) :
    decodeTrailerFields.run' (Cursor.new bytes offset) = .ok (trailerFieldsOf bytes) := by
  have hlen : bytes.length = 32 := h
  have hu : bytes.length ≤ u64Max := by rw [hlen]; decide
  simp (disch := first | assumption | omega) only [decodeTrailerFields, StateT.run', Cursor.new,
    Cursor.readU32, Cursor.readU64, Cursor.readBytes_bind, Cursor.readUInt_bind, magicSize]
  rfl

theorem trailerChecksum_eq {bytes : Bytes} (h : bytes.length = trailerSize) (offset : ℕ) :
    trailerChecksum bytes offset = .ok (checksum (trailerCovered bytes)) := by
  have hcrc : ¬bytes.length < trailerCrcField := by rw [h]; decide
  have hmagic : ¬bytes.length < trailerCommitMagicField := by rw [h]; decide
  rw [trailerChecksum, failIf_neg hcrc, ok_bind, failIf_neg hmagic, ok_bind, Crc32c.update_update,
    finish_update_new]
  rfl

theorem parseTrailer_eq_ok {bytes : Bytes} (h : bytes.length = trailerSize)
    {framePrefix : FramePrefix} {offset crc : ℕ} :
    parseTrailer bytes framePrefix offset = .ok crc ↔
      IsTrailer bytes framePrefix ∧ (trailerFieldsOf bytes).bodyCrc = crc := by
  simp only [parseTrailer, validateTrailer, decodeTrailer_eq h, trailerChecksum_eq h, ok_bind,
    withContext_eq_ok, bind_eq_ok, failIf_eq_ok, not_not, pure_eq_ok, Except.ok.injEq]
  constructor
  · rintro ⟨-, htotal, -, hseq, -, hmagic, -, hcrc, rfl⟩
    exact ⟨⟨htotal, hseq, hmagic, hcrc⟩, rfl⟩
  · rintro ⟨⟨htotal, hseq, hmagic, hcrc⟩, rfl⟩
    exact ⟨(), htotal, (), hseq, (), hmagic, (), hcrc, rfl⟩

/-- A trailer is either valid or corruption. -/
theorem failsWith_parseTrailer {bytes : Bytes} (h : bytes.length = trailerSize)
    {framePrefix : FramePrefix} (hnot : ¬IsTrailer bytes framePrefix) (offset : ℕ) :
    FailsWith .corruption (parseTrailer bytes framePrefix offset) := by
  refine FailsWith.withContext (FailsWith.withContext ?_ _) _
  rw [validateTrailer, decodeTrailer_eq h, ok_bind]
  refine failsWith_guard rfl fun htotal ↦ ?_
  refine failsWith_guard rfl fun hseq ↦ ?_
  refine failsWith_guard rfl fun hmagic ↦ ?_
  rw [trailerChecksum_eq h, ok_bind]
  refine failsWith_guard rfl fun hcrc ↦ ?_
  exact absurd ⟨not_not.mp htotal, not_not.mp hseq, not_not.mp hmagic, not_not.mp hcrc⟩ hnot

/-- Where the body of a frame ends and its trailer begins. -/
def bodyLength (framePrefix : FramePrefix) : ℕ :=
  prefixSize + framePrefix.headerLength + framePrefix.payloadLength

/-- What the first 48 bytes of a frame declare. -/
def imagePrefix (image : Bytes) : FramePrefix :=
  prefixOf (image.take prefixSize)

/-- The trailer of a frame. -/
def imageTrailer (image : Bytes) : Bytes :=
  image.drop (bodyLength (imagePrefix image))

/-- The body of a frame is what its prefix and its trailer commit to. -/
structure BodyVerified (image : Bytes) : Prop where
  trailer : IsTrailer (imageTrailer image) (imagePrefix image)
  headerCrc : checksum (slice image prefixSize (imagePrefix image).headerLength) =
    (imagePrefix image).headerCrc
  bodyCrc : checksum (image.take (bodyLength (imagePrefix image))) =
    (trailerFieldsOf (imageTrailer image)).bodyCrc

/-- **A complete frame**, as a byte string. -/
structure IsFrame (image : Bytes) (sequence : ℕ) (limits : Limits) : Prop where
  accepted : AcceptedPrefix (image.take prefixSize) sequence limits
  length : image.length = (imagePrefix image).totalLength
  body : BodyVerified image

/-- Where the parts of a frame stand when it begins at `offset`. -/
def regionsAt (framePrefix : FramePrefix) (offset : ℕ) : FrameRegions where
  frameOffset := offset
  headerOffset := offset + prefixSize
  headerLength := framePrefix.headerLength
  payloadOffset := offset + prefixSize + framePrefix.headerLength
  payloadLength := framePrefix.payloadLength
  trailerOffset := offset + prefixSize + framePrefix.headerLength + framePrefix.payloadLength

/-- The coordinates of a frame that begins at `offset`. -/
def metadataAt (image : Bytes) (offset : ℕ) : FrameMetadata :=
  metadata (imagePrefix image) (regionsAt (imagePrefix image) offset)

theorem totalLength_imagePrefix (image : Bytes) :
    (imagePrefix image).totalLength = bodyLength (imagePrefix image) + trailerSize :=
  rfl

theorem length_imageTrailer {image : Bytes}
    (h : image.length = (imagePrefix image).totalLength) :
    (imageTrailer image).length = trailerSize := by
  rw [imageTrailer, List.length_drop, h, totalLength_imagePrefix]
  omega

/-- The checks of the body read nothing outside the frame. -/
theorem verifyBody_eq {file : Bytes} {offset : ℕ} {framePrefix : FramePrefix} {image : Bytes}
    (hhead : imagePrefix image = framePrefix)
    (himage : slice file offset framePrefix.totalLength = image)
    (hfile : offset + framePrefix.totalLength ≤ file.length) :
    verifyBody file (slice file offset prefixSize) framePrefix (regionsAt framePrefix offset) =
      (do let bodyCrc ← parseTrailer (imageTrailer image) framePrefix
            (offset + bodyLength framePrefix)
          failIf (checksum (slice image prefixSize framePrefix.headerLength) ≠
              framePrefix.headerCrc)
            (((Error.corruption "bad frame header CRC32C" (some (offset + prefixSize))).withContext
              (.frame framePrefix.sequence)).withContext .header)
          failIf (checksum (image.take (bodyLength framePrefix)) ≠ bodyCrc)
            ((Error.corruption "bad frame body CRC32C" (some offset)).withContext
              (.frame framePrefix.sequence))) := by
  have htotal : framePrefix.totalLength = bodyLength framePrefix + trailerSize := by
    rw [← hhead, totalLength_imagePrefix]
  have hbody : bodyLength framePrefix =
      prefixSize + framePrefix.headerLength + framePrefix.payloadLength := rfl
  have hoffset : (regionsAt framePrefix offset).trailerOffset =
    offset + bodyLength framePrefix := by
    simp only [regionsAt, hbody]
    omega
  have htrailer : slice file (offset + bodyLength framePrefix) trailerSize =
    imageTrailer image := by
    rw [imageTrailer, hhead, ← himage, drop_slice, htotal, Nat.add_sub_cancel_left]
  have hheader : slice file (offset + prefixSize) framePrefix.headerLength =
      slice image prefixSize framePrefix.headerLength := by
    rw [← himage, slice_slice (by omega)]
  have hall : slice file offset prefixSize ++
      slice file (offset + prefixSize) framePrefix.headerLength ++
        slice file (offset + prefixSize + framePrefix.headerLength) framePrefix.payloadLength =
      image.take (bodyLength framePrefix) := by
    rw [← himage, take_slice _ (by omega), hbody, slice_add, slice_add, Nat.add_assoc]
  have hheaderFits : (regionsAt framePrefix offset).headerOffset +
      (regionsAt framePrefix offset).headerLength ≤ file.length := by
    simp only [regionsAt]
    omega
  have hpayloadFits : (regionsAt framePrefix offset).payloadOffset +
      (regionsAt framePrefix offset).payloadLength ≤ file.length := by
    simp only [regionsAt]
    omega
  have hsums := checksumFrame_eq (slice file offset prefixSize) hheaderFits hpayloadFits
  rw [verifyBody, hoffset, readExactAt_of_le (by omega), htrailer, hsums]
  simp only [regionsAt, hall]
  rw [hheader]
  rfl

theorem verifyBody_eq_ok {file : Bytes} {offset : ℕ} {framePrefix : FramePrefix} {image : Bytes}
    (hhead : imagePrefix image = framePrefix)
    (himage : slice file offset framePrefix.totalLength = image)
    (hfile : offset + framePrefix.totalLength ≤ file.length) {u : Unit} :
    verifyBody file (slice file offset prefixSize) framePrefix (regionsAt framePrefix offset) =
      .ok u ↔ BodyVerified image := by
  have hlen : image.length = (imagePrefix image).totalLength := by
    rw [hhead, ← himage, length_slice_of_le hfile]
  rw [verifyBody_eq hhead himage hfile]
  simp only [bind_eq_ok, parseTrailer_eq_ok (length_imageTrailer hlen), failIf_eq_ok, not_not]
  constructor
  · rintro ⟨_, ⟨htrailer, rfl⟩, -, hheader, hbody⟩
    exact ⟨hhead ▸ htrailer, hhead ▸ hheader, hhead ▸ hbody⟩
  · rintro ⟨htrailer, hheader, hbody⟩
    exact ⟨_, ⟨hhead ▸ htrailer, rfl⟩, (), hhead ▸ hheader, hhead ▸ hbody⟩

/-! ### Reading a frame -/

theorem imagePrefix_slice (file : Bytes) (offset : ℕ) {total : ℕ} (h : prefixSize ≤ total) :
    imagePrefix (slice file offset total) = prefixOf (slice file offset prefixSize) := by
  rw [imagePrefix, take_slice _ h]

theorem prefixSize_le_totalLength (bytes : Bytes) : prefixSize ≤ (prefixOf bytes).totalLength := by
  rw [totalLength_prefixOf]
  omega

/-- The read of a frame in a file that has at least the bytes it is said to have. -/
theorem readFrame_eq {file : Bytes} {fileSize offset : ℕ} (hsize : fileSize ≤ file.length)
    (sequence : ℕ) (limits : Limits) (hoffset : offset ≤ fileSize) :
    readFrame file fileSize offset sequence limits =
      if fileSize - offset < prefixSize then
        .ok .incompleteTail
      else do
        let framePrefix ← parsePrefix (slice file offset prefixSize) offset sequence limits
        if fileSize - offset < framePrefix.totalLength then
          return .incompleteTail
        else
          let regions ← locate offset framePrefix
          verifyBody file (slice file offset prefixSize) framePrefix regions
          return .complete (metadata framePrefix regions) := by
  have hremaining : remainingBytes fileSize offset = .ok (fileSize - offset) := by
    rw [remainingBytes, checkedSub_of_le hoffset]
    rfl
  rw [readFrame, hremaining, ok_bind]
  split
  · rfl
  · rw [readExactAt_of_le (by omega)]
    rfl

/-- **`readFrame` accepts exactly the complete frames**, and the coordinates it returns are those
the frame's own prefix declares. -/
theorem readFrame_eq_complete {file : Bytes} {fileSize offset sequence : ℕ} {limits : Limits}
    {frame : FrameMetadata} (hsize : fileSize ≤ file.length) :
    readFrame file fileSize offset sequence limits = .ok (.complete frame) ↔
      ∃ total, offset + total ≤ fileSize ∧ offset + total ≤ u64Max + trailerSize ∧
        IsFrame (slice file offset total) sequence limits ∧
          metadataAt (slice file offset total) offset = frame := by
  constructor
  · intro h
    have hoffset : offset ≤ fileSize := by
      by_contra hlt
      simp [readFrame, remainingBytes, checkedSub, hlt, okOr] at h
    rw [readFrame_eq hsize _ _ hoffset] at h
    split at h
    · cases h
    rename_i hroom
    obtain ⟨framePrefix, hparse, h⟩ := bind_eq_ok.mp h
    have hlength : (slice file offset prefixSize).length = prefixSize :=
      length_slice_of_le (by omega)
    obtain ⟨haccepted, rfl⟩ := (parsePrefix_eq_ok hlength).mp hparse
    split at h
    · cases h
    rename_i hfits
    obtain ⟨regions, hlocate, h⟩ := bind_eq_ok.mp h
    obtain ⟨_, hverify, h⟩ := bind_eq_ok.mp h
    obtain ⟨hmax, rfl⟩ := locate_eq_ok.mp hlocate
    have himage := imagePrefix_slice file offset
      (prefixSize_le_totalLength (slice file offset prefixSize))
    have htotal := totalLength_prefixOf (slice file offset prefixSize)
    have hbody := (verifyBody_eq_ok himage rfl (by omega)).mp hverify
    refine ⟨_, by omega, by omega, ⟨?_, ?_, hbody⟩, ?_⟩
    · rwa [take_slice _ (prefixSize_le_totalLength _)]
    · rw [himage, length_slice_of_le (by omega)]
    · rw [metadataAt, himage]
      exact FrameRead.complete.inj (Except.ok.inj h)
  · rintro ⟨total, hfits, hmax, hframe, rfl⟩
    have hlength := hframe.length
    rw [length_slice_of_le (by omega)] at hlength
    have hroom : prefixSize ≤ total := hlength ▸ prefixSize_le_totalLength _
    have himage := imagePrefix_slice file offset hroom
    have haccepted := hframe.accepted
    rw [take_slice _ hroom] at haccepted
    have hparse : parsePrefix (slice file offset prefixSize) offset sequence limits =
        .ok (prefixOf (slice file offset prefixSize)) :=
      (parsePrefix_eq_ok (length_slice_of_le (by omega))).mpr ⟨haccepted, rfl⟩
    rw [himage] at hlength
    have htotal := totalLength_prefixOf (slice file offset prefixSize)
    have hlocate : locate offset (prefixOf (slice file offset prefixSize)) =
        .ok (regionsAt (prefixOf (slice file offset prefixSize)) offset) :=
      locate_eq_ok.mpr ⟨by omega, rfl⟩
    have hverify : verifyBody file (slice file offset prefixSize)
        (prefixOf (slice file offset prefixSize))
        (regionsAt (prefixOf (slice file offset prefixSize)) offset) = .ok () :=
      (verifyBody_eq_ok himage (by rw [← hlength]) (by omega)).mpr hframe.body
    rw [readFrame_eq hsize _ _ (by omega), if_neg (by omega), hparse, ok_bind,
      if_neg (by omega), hlocate, ok_bind, hverify, metadataAt, himage]
    rfl

/-! ### Growth, cuts and damage -/

/-- A complete frame is complete in every file that holds the same bytes there. -/
theorem readFrame_complete_of_slice {file file' : Bytes} {offset sequence : ℕ} {limits : Limits}
    {frame : FrameMetadata}
    (h : readFrame file file.length offset sequence limits = .ok (.complete frame))
    (hfits : offset + frame.totalLength ≤ file'.length)
    (hsame : slice file' offset frame.totalLength = slice file offset frame.totalLength) :
    readFrame file' file'.length offset sequence limits = .ok (.complete frame) := by
  obtain ⟨total, hle, hmax, hframe, hmeta⟩ := (readFrame_eq_complete le_rfl).mp h
  have hlength := hframe.length
  rw [length_slice_of_le hle] at hlength
  have htotal : frame.totalLength = total := by
    rw [← hmeta]
    exact hlength.symm
  rw [htotal] at hsame hfits
  exact (readFrame_eq_complete le_rfl).mpr ⟨total, hfits, hmax, hsame ▸ hframe, hsame ▸ hmeta⟩

/-- **Where a complete frame lies**: at the offset it was read from, inside the extent, and with
room for its prefix and its trailer. -/
theorem totalLength_of_complete {file : Bytes} {fileSize offset sequence : ℕ} {limits : Limits}
    {frame : FrameMetadata}
    (h : readFrame file fileSize offset sequence limits = .ok (.complete frame)) :
    frame.frameOffset = offset ∧ frame.sequence = sequence ∧
      prefixSize + trailerSize ≤ frame.totalLength ∧ offset + frame.totalLength ≤ fileSize := by
  obtain ⟨remaining, hremaining, h⟩ := bind_eq_ok.mp h
  rw [remainingBytes, okOr_eq_ok, checkedSub_eq_some] at hremaining
  split at h
  · cases h
  obtain ⟨prefixBytes, -, h⟩ := bind_eq_ok.mp h
  obtain ⟨framePrefix, hparse, h⟩ := bind_eq_ok.mp h
  split at h
  · cases h
  rename_i hroom
  obtain ⟨regions, hlocate, h⟩ := bind_eq_ok.mp h
  obtain ⟨_, -, h⟩ := bind_eq_ok.mp h
  obtain ⟨fields, -, hfields⟩ := bind_eq_ok.mp hparse
  rw [withContext_eq_ok, withContext_eq_ok, verifyPrefixFields_eq_ok] at hfields
  obtain ⟨haccepted, rfl⟩ := hfields
  obtain ⟨-, rfl⟩ := locate_eq_ok.mp hlocate
  obtain rfl := FrameRead.complete.inj (Except.ok.inj h)
  refine ⟨rfl, haccepted.sequence, ?_, ?_⟩
  · show prefixSize + trailerSize ≤ prefixSize + fields.headerLength + fields.payloadLength +
      trailerSize
    omega
  · show offset + (prefixOfFields fields).totalLength ≤ fileSize
    omega

theorem totalLength_pos_of_complete {file : Bytes} {fileSize offset sequence : ℕ} {limits : Limits}
    {frame : FrameMetadata}
    (h : readFrame file fileSize offset sequence limits = .ok (.complete frame)) :
    0 < frame.totalLength := by
  obtain ⟨-, -, hlength, -⟩ := totalLength_of_complete h
  exact Nat.lt_of_lt_of_le (by decide) hlength

/-- **A proper cut of a frame is an incomplete tail**, wherever the cut falls. -/
theorem IsFrame.readFrame_cut {file kept lost : Bytes} {sequence : ℕ} {limits : Limits}
    (hframe : IsFrame (kept ++ lost) sequence limits) (hlost : lost ≠ []) :
    readFrame (file ++ kept) (file ++ kept).length file.length sequence limits =
      .ok .incompleteTail := by
  have hpos : 0 < lost.length := List.length_pos_iff.mpr hlost
  have hdeclared := hframe.length
  rw [List.length_append] at hdeclared
  rw [readFrame_eq le_rfl _ _ (by simp)]
  have hremaining : (file ++ kept).length - file.length = kept.length := by simp
  rw [hremaining]
  split
  · rfl
  rename_i hroom
  -- The prefix lies inside the kept part, so it still declares the length of the whole frame.
  have hkept : (kept ++ lost).take prefixSize = kept.take prefixSize :=
    List.take_append_of_le_length (by omega)
  have hhead : kept.take prefixSize = slice (file ++ kept) file.length prefixSize := by
    rw [slice, List.drop_left]
  have haccepted := hframe.accepted
  have himage : imagePrefix (kept ++ lost) =
      prefixOf (slice (file ++ kept) file.length prefixSize) := by
    rw [imagePrefix, hkept, hhead]
  rw [hkept, hhead] at haccepted
  have hparse : parsePrefix (slice (file ++ kept) file.length prefixSize) file.length sequence
      limits = .ok (prefixOf (slice (file ++ kept) file.length prefixSize)) :=
    (parsePrefix_eq_ok (length_slice_of_le (by simp; omega))).mpr ⟨haccepted, rfl⟩
  rw [hparse, ok_bind, ← himage, if_pos (by omega)]
  rfl

/-- A frame that was read is an incomplete tail once a part of it is gone. -/
theorem readFrame_cut {file kept lost : Bytes} {sequence : ℕ} {limits : Limits}
    {frame : FrameMetadata} (hlost : lost ≠ [])
    (h : readFrame (file ++ (kept ++ lost)) (file ++ (kept ++ lost)).length file.length sequence
      limits = .ok (.complete frame))
    (htotal : frame.totalLength = (kept ++ lost).length) :
    readFrame (file ++ kept) (file ++ kept).length file.length sequence limits =
      .ok .incompleteTail := by
  obtain ⟨total, hfits, hmax, hframe, rfl⟩ := (readFrame_eq_complete le_rfl).mp h
  have hlength := hframe.length
  rw [length_slice_of_le hfits] at hlength
  have hdeclared : total = (kept ++ lost).length := hlength.trans htotal
  have himage : slice (file ++ (kept ++ lost)) file.length total = kept ++ lost := by
    rw [slice, List.drop_left, hdeclared, List.take_length]
  rw [himage] at hframe
  exact hframe.readFrame_cut hlost

theorem not_isTrailer_set {bytes : Bytes} {framePrefix : FramePrefix} {i : ℕ} {byte : UInt8}
    (h : IsTrailer bytes framePrefix) (hlength : bytes.length = trailerSize)
    (hi : i < bytes.length) (hne : bytes[i]? ≠ some byte) :
    ¬IsTrailer (bytes.set i byte) framePrefix := by
  have hlen : bytes.length = 32 := hlength
  have hcrcField : trailerCrcField = 20 := rfl
  have hmagicField : trailerCommitMagicField = 24 := rfl
  intro h'
  rcases Nat.lt_or_ge i 8 with hi8 | hi8
  · exact leNat_slice_set_ne (by omega) (by omega) (by omega) hne
      (h'.totalLength.trans h.totalLength.symm)
  rcases Nat.lt_or_ge i 16 with hi16 | hi16
  · exact leNat_slice_set_ne (by omega) (by omega) (by omega) hne
      (h'.sequence.trans h.sequence.symm)
  rcases Nat.lt_or_ge i trailerCrcField with hi20 | hi20
  · -- The stored body CRC is covered by the trailer's own.
    have hstored : (trailerFieldsOf (bytes.set i byte)).trailerCrc =
        (trailerFieldsOf bytes).trailerCrc :=
      congrArg leNat (slice_set_of_lt byte hi20)
    have hcovered : trailerCovered (bytes.set i byte) = (trailerCovered bytes).set i byte := by
      rw [trailerCovered, trailerCovered, List.take_set, List.drop_set,
        if_pos (by omega), List.set_append_left _ _ (by rw [List.length_take]; omega)]
    have hsame : (trailerCovered bytes)[i]? = bytes[i]? := by
      rw [trailerCovered, List.getElem?_append_left (by rw [List.length_take]; omega),
        List.getElem?_take_of_lt hi20]
    have hcrc := h'.crc
    rw [hstored, h.crc, hcovered] at hcrc
    refine checksum_set_ne ?_ (hsame ▸ hne) hcrc.symm
    rw [trailerCovered, List.length_append, List.length_take]
    omega
  rcases Nat.lt_or_ge i trailerCommitMagicField with hi24 | hi24
  · have hcovered : trailerCovered (bytes.set i byte) = trailerCovered bytes := by
      rw [trailerCovered, trailerCovered, List.take_set_of_le hi20, List.drop_set_of_lt hi24]
    have hcrc := h'.crc
    rw [hcovered, ← h.crc] at hcrc
    exact leNat_slice_set_ne (by omega) (by omega) (by omega) hne hcrc
  · exact slice_set_ne (by omega) (by omega) (by omega) hne (h'.magic.trans h.magic.symm)

/-- A frame with one byte replaced is not verified, and what it fails with is corruption. -/
theorem failsWith_verifyBody_set {file image : Bytes} {offset i : ℕ} {byte : UInt8}
    (himage : slice file offset image.length = image)
    (hlength : image.length = (imagePrefix image).totalLength) (hbody : BodyVerified image)
    (hfile : offset + image.length ≤ file.length)
    (hi : prefixSize ≤ i) (hlt : i < image.length) (hne : image[i]? ≠ some byte) :
    FailsWith .corruption (verifyBody (file.set (offset + i) byte)
      (slice (file.set (offset + i) byte) offset prefixSize) (imagePrefix image)
      (regionsAt (imagePrefix image) offset)) := by
  have himage' : slice (file.set (offset + i) byte) offset (imagePrefix image).totalLength =
      image.set i byte := by
    rw [← hlength, slice_set _ (by omega), himage, Nat.add_sub_cancel_left]
  have hhead : imagePrefix (image.set i byte) = imagePrefix image := by
    rw [imagePrefix, List.take_set_of_le hi, imagePrefix]
  have htotal := totalLength_imagePrefix image
  have htrailerLength := length_imageTrailer hlength
  have htrailer := hbody.trailer
  rw [verifyBody_eq hhead himage' (by simpa [← hlength] using hfile)]
  by_cases hregion : i < bodyLength (imagePrefix image)
  · have hsame : imageTrailer (image.set i byte) = imageTrailer image := by
      rw [imageTrailer, hhead, List.drop_set_of_lt hregion, imageTrailer]
    have hparse : parseTrailer (imageTrailer image) (imagePrefix image)
        (offset + bodyLength (imagePrefix image)) =
        .ok (trailerFieldsOf (imageTrailer image)).bodyCrc :=
      (parseTrailer_eq_ok htrailerLength).mpr ⟨htrailer, rfl⟩
    rw [hsame, hparse, ok_bind]
    refine failsWith_guard rfl fun _ ↦ ?_
    have hcovered : (image.take (bodyLength (imagePrefix image)))[i]? ≠ some byte := by
      rwa [List.getElem?_take_of_lt hregion]
    rw [List.take_set, ← hbody.bodyCrc,
      failIf_pos (checksum_set_ne (by rw [List.length_take]; omega) hcovered)]
    exact failsWith_error
  · have hset : imageTrailer (image.set i byte) =
        (imageTrailer image).set (i - bodyLength (imagePrefix image)) byte := by
      rw [imageTrailer, hhead, List.drop_set, if_neg hregion, imageTrailer]
    have hat : (imageTrailer image)[i - bodyLength (imagePrefix image)]? ≠ some byte := by
      rwa [imageTrailer, List.getElem?_drop, Nat.add_sub_cancel' (by omega)]
    have hnot := not_isTrailer_set htrailer htrailerLength (by omega) hat
    rw [hset]
    exact (failsWith_parseTrailer (by rw [List.length_set, htrailerLength]) hnot _).bind _

/-- **Replacing any byte of a complete frame is corruption**, wherever in the frame it lies. -/
theorem failsWith_readFrame_set {file : Bytes} {offset sequence i : ℕ} {limits : Limits}
    {frame : FrameMetadata} {byte : UInt8}
    (h : readFrame file file.length offset sequence limits = .ok (.complete frame))
    (hi : offset ≤ i) (hlt : i < offset + frame.totalLength) (hne : file[i]? ≠ some byte) :
    FailsWith .corruption
      (readFrame (file.set i byte) (file.set i byte).length offset sequence limits) := by
  obtain ⟨total, hfits, hmax, hframe, rfl⟩ := (readFrame_eq_complete le_rfl).mp h
  have hlength := hframe.length
  have himageLength : (slice file offset total).length = total := length_slice_of_le hfits
  have hdeclared : total = (imagePrefix (slice file offset total)).totalLength :=
    himageLength.symm.trans hlength
  have hroom : prefixSize ≤ total := hdeclared ▸ prefixSize_le_totalLength _
  replace hlt : i < offset + total := hdeclared ▸ hlt
  have hsize : (file.set i byte).length = file.length := List.length_set
  rw [readFrame_eq le_rfl _ _ (by omega), hsize, if_neg (by omega)]
  by_cases hhead : i < offset + prefixSize
  · have hset : slice (file.set i byte) offset prefixSize =
        (slice file offset prefixSize).set (i - offset) byte := slice_set _ hi
    have hseal := hframe.accepted.isSealed
    have hprefixLength : (slice file offset prefixSize).length = prefixSize :=
      length_slice_of_le (by omega)
    have hat : (slice file offset prefixSize)[i - offset]? ≠ some byte := by
      rwa [getElem?_slice _ (by omega), Nat.add_sub_cancel' hi]
    rw [take_slice _ hroom] at hseal
    have hnot := not_sealed_set hseal hprefixLength (by omega) hat
    rw [hset]
    exact (failsWith_parsePrefix_of_not_sealed (by rw [List.length_set, hprefixLength]) hnot
      _ _ _).bind _
  · have hsame : slice (file.set i byte) offset prefixSize = slice file offset prefixSize :=
      slice_set_of_le _ (by omega)
    have himage := imagePrefix_slice file offset hroom
    have haccepted := hframe.accepted
    rw [take_slice _ hroom] at haccepted
    have hparse : parsePrefix (slice file offset prefixSize) offset sequence limits =
        .ok (imagePrefix (slice file offset total)) :=
      (parsePrefix_eq_ok (length_slice_of_le (by omega))).mpr ⟨haccepted, himage.symm⟩
    have htotal := totalLength_imagePrefix (slice file offset total)
    simp only [bodyLength] at htotal
    have hlocate : locate offset (imagePrefix (slice file offset total)) =
        .ok (regionsAt (imagePrefix (slice file offset total)) offset) :=
      locate_eq_ok.mpr ⟨by omega, rfl⟩
    have hat : (slice file offset total)[i - offset]? ≠ some byte := by
      rwa [getElem?_slice _ (by omega), Nat.add_sub_cancel' hi]
    have hbad := failsWith_verifyBody_set (by rw [himageLength]) hlength hframe.body (by omega)
      (by omega) (by omega) hat
    rw [Nat.add_sub_cancel' hi, hsame] at hbad
    rw [hsame, hparse, ok_bind, if_neg (by omega), hlocate, ok_bind]
    exact hbad.bind _

end Frame

end Acta
