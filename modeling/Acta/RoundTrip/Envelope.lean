import Acta.Format.FrameImage
import Acta.RoundTrip.Framing

/-!
# The frame envelope

Building and reading a frame are inverse to each other.  A built frame is read back with the type,
the sequence and the regions it was built from, whatever stands around it
(`readFrame_of_buildFrame`).  A frame the reader accepts is the one the writer builds from its
parts, except for the four reserved bytes of the prefix, which the reader ignores, and the checksums
that cover them (`buildFrame_of_readFrame`).

For the second direction a frame is written as a fixed skeleton with three gaps (`imageWith`): the
reserved bytes, the prefix checksum, and the two checksums of the trailer.
-/

namespace Acta

open Machine Wire

namespace Write

/-! ### A frame with gaps -/

section Gaps

variable (frameType sequence : ℕ) (header payload : Bytes)

/-- The prefix up to its reserved bytes. -/
def prefixStart : Bytes :=
  frameMagic ++ leBytes 2 frameType ++ leBytes 2 frameVersion ++ leBytes 4 frameFlags ++
    leBytes 4 header.length

/-- The prefix between its reserved bytes and its checksum. -/
def prefixEnd : Bytes :=
  leBytes 8 payload.length ++ leBytes 8 sequence ++ leBytes 4 (checksum header)

/-- A frame between the prefix checksum and the checksums of the trailer. -/
def frameMiddle : Bytes :=
  header ++ payload ++ leBytes 8 (frameLength header payload) ++ leBytes 8 sequence

/-- A frame whose reserved bytes and checksums are given. -/
def imageWith (reserved prefixCrc trailerCrcs : Bytes) : Bytes :=
  prefixStart frameType header ++ reserved ++ prefixEnd sequence header payload ++ prefixCrc ++
    frameMiddle sequence header payload ++ trailerCrcs ++ commitMagic

theorem length_prefixStart : (prefixStart frameType header).length = 20 := by
  simp [prefixStart]

theorem length_prefixEnd : (prefixEnd sequence header payload).length = 20 := by
  simp [prefixEnd]

theorem length_frameMiddle : (frameMiddle sequence header payload).length =
    header.length + payload.length + 16 := by
  simp [frameMiddle, Nat.add_assoc]

/-- The frame the writer builds, as a frame with gaps. -/
theorem frameImage_eq_imageWith : ∃ prefixCrc trailerCrcs : Bytes,
    prefixCrc.length = 4 ∧ trailerCrcs.length = 8 ∧
      frameImage frameType sequence header payload =
        imageWith frameType sequence header payload (zeros prefixReservedSize) prefixCrc
          trailerCrcs := by
  refine ⟨leBytes 4 (checksum (prefixBody frameType sequence header payload)),
    leBytes 4 (checksum (frameBody frameType sequence header payload)) ++
      leBytes 4 (checksum (trailerBody (frameLength header payload) sequence
        (checksum (frameBody frameType sequence header payload)) ++ commitMagic)), ?_, ?_, ?_⟩
  · exact length_leBytes _ _
  · rw [List.length_append, length_leBytes, length_leBytes]
  · simp only [frameImage, frameBody, buildPrefix, buildTrailer, Crc32c.update_update,
      finish_update_new]
    simp only [prefixBody, trailerBody, imageWith, prefixStart, prefixEnd, frameMiddle,
      List.append_assoc]

variable {frameType sequence header payload}

/-- A byte outside the middle of an append does not depend on the middle. -/
theorem getElem?_append_middle (xs zs : Bytes) {ys ys' : Bytes} (hlength : ys.length = ys'.length)
    {i : ℕ} (h : i < xs.length ∨ xs.length + ys.length ≤ i) :
    (xs ++ (ys ++ zs))[i]? = (xs ++ (ys' ++ zs))[i]? := by
  rcases h with h | h
  · rw [List.getElem?_append_left h, List.getElem?_append_left h]
  · rw [List.getElem?_append_right (by omega), List.getElem?_append_right (by omega),
      List.getElem?_append_right (by omega), List.getElem?_append_right (by omega), hlength]

/-- The bytes of a frame the reader ignores, and those of the checksums that cover them. -/
def Unpinned (total i : ℕ) : Prop :=
  20 ≤ i ∧ i < 24 ∨ 44 ≤ i ∧ i < 48 ∨ total ≤ i + 16 ∧ i + 8 < total

/-- Two frames with the same parts differ in their gaps alone. -/
theorem getElem?_imageWith
    {reserved reserved' prefixCrc prefixCrc' trailerCrcs trailerCrcs' : Bytes}
    (hreserved : reserved.length = 4) (hreserved' : reserved'.length = 4)
    (hprefixCrc : prefixCrc.length = 4) (hprefixCrc' : prefixCrc'.length = 4)
    (htrailerCrcs : trailerCrcs.length = 8) (htrailerCrcs' : trailerCrcs'.length = 8) {i : ℕ}
    (h : ¬Unpinned (frameLength header payload) i) :
    (imageWith frameType sequence header payload reserved prefixCrc trailerCrcs)[i]? =
      (imageWith frameType sequence header payload reserved' prefixCrc' trailerCrcs')[i]? := by
  have hstart := length_prefixStart frameType header
  have hend := length_prefixEnd sequence header payload
  have hmiddle := length_frameMiddle sequence header payload
  simp only [Unpinned, frameLength, prefixSize, trailerSize] at h
  -- One gap is exchanged at a time.
  calc (imageWith frameType sequence header payload reserved prefixCrc trailerCrcs)[i]?
      = (imageWith frameType sequence header payload reserved' prefixCrc trailerCrcs)[i]? := by
        have hgap := getElem?_append_middle (prefixStart frameType header)
          (prefixEnd sequence header payload ++ (prefixCrc ++
            (frameMiddle sequence header payload ++ (trailerCrcs ++ commitMagic))))
          (hreserved.trans hreserved'.symm) (i := i) (by omega)
        simpa only [imageWith, List.append_assoc] using hgap
    _ = (imageWith frameType sequence header payload reserved' prefixCrc' trailerCrcs)[i]? := by
        have hgap := getElem?_append_middle
          (prefixStart frameType header ++ reserved' ++ prefixEnd sequence header payload)
          (frameMiddle sequence header payload ++ (trailerCrcs ++ commitMagic))
          (hprefixCrc.trans hprefixCrc'.symm) (i := i)
          (by simp only [List.length_append]; omega)
        simpa only [imageWith, List.append_assoc] using hgap
    _ = (imageWith frameType sequence header payload reserved' prefixCrc' trailerCrcs')[i]? := by
        have hgap := getElem?_append_middle
          (prefixStart frameType header ++ reserved' ++ prefixEnd sequence header payload ++
            prefixCrc' ++ frameMiddle sequence header payload) commitMagic
          (htrailerCrcs.trans htrailerCrcs'.symm) (i := i)
          (by simp only [List.length_append]; omega)
        simpa only [imageWith, List.append_assoc] using hgap

/-! ### A frame the reader accepts -/

/-- A stored field is the number it spells. -/
theorem slice_eq_leBytes {xs : Bytes} {start width value : ℕ} (h : start + width ≤ xs.length)
    (hvalue : leNat (slice xs start width) = value) :
    slice xs start width = leBytes width value := by
  have hlength := length_slice_of_le h
  rw [← hvalue]
  conv_lhs => rw [← leBytes_leNat (slice xs start width), hlength]

/-- The parts of a frame, cut out of it. -/
def headerOf (image : Bytes) : Bytes :=
  slice image prefixSize (Frame.imagePrefix image).headerLength

def payloadOf (image : Bytes) : Bytes :=
  slice image (prefixSize + (Frame.imagePrefix image).headerLength)
    (Frame.imagePrefix image).payloadLength

variable {image : Bytes} {limits : Limits}

/-- The lengths of a frame and of its parts. -/
theorem lengths_of_isFrame (h : Frame.IsFrame image sequence limits) :
    (headerOf image).length = (Frame.imagePrefix image).headerLength ∧
      (payloadOf image).length = (Frame.imagePrefix image).payloadLength ∧
        image.length = frameLength (headerOf image) (payloadOf image) := by
  have hlength := h.length
  rw [Frame.totalLength_imagePrefix, Frame.bodyLength] at hlength
  have hheader : (headerOf image).length = (Frame.imagePrefix image).headerLength :=
    length_slice_of_le (by omega)
  have hpayload : (payloadOf image).length = (Frame.imagePrefix image).payloadLength :=
    length_slice_of_le (by omega)
  exact ⟨hheader, hpayload, by rw [frameLength, hheader, hpayload, hlength]⟩

/-- The stored prefix of a frame, as a prefix with gaps. -/
theorem take_prefix_of_isFrame (h : Frame.IsFrame image sequence limits) :
    image.take prefixSize =
      prefixStart (Frame.imagePrefix image).frameType (headerOf image) ++ slice image 20 4 ++
        prefixEnd sequence (headerOf image) (payloadOf image) ++ slice image 44 4 := by
  obtain ⟨hheader, hpayload, hlength⟩ := lengths_of_isFrame h
  have hfields := h.accepted.fields
  have hroom : 48 ≤ image.length := by
    rw [hlength, frameLength, prefixSize]
    omega
  -- Each field of the prefix is read out of the first 48 bytes.
  have hfield {start width : ℕ} (hinside : start + width ≤ 48) :
      slice (image.take prefixSize) start width = slice image start width := by
    rw [← slice_zero, slice_slice (show start + width ≤ prefixSize from hinside), Nat.zero_add]
  have hmagic : slice image 0 8 = frameMagic := by
    rw [← hfield (by omega)]
    exact h.accepted.magic
  have htype : slice image 8 2 = leBytes 2 (Frame.imagePrefix image).frameType :=
    slice_eq_leBytes (by omega) (by rw [← hfield (by omega)]; rfl)
  have hversion : slice image 10 2 = leBytes 2 frameVersion :=
    slice_eq_leBytes (by omega) (by rw [← hfield (by omega)]; exact hfields.version)
  have hflags : slice image 12 4 = leBytes 4 frameFlags :=
    slice_eq_leBytes (by omega) (by rw [← hfield (by omega)]; exact hfields.flags)
  have hheaderLength : slice image 16 4 = leBytes 4 (headerOf image).length :=
    slice_eq_leBytes (by omega) (by rw [← hfield (by omega), hheader]; rfl)
  have hpayloadLength : slice image 24 8 = leBytes 8 (payloadOf image).length :=
    slice_eq_leBytes (by omega) (by rw [← hfield (by omega), hpayload]; rfl)
  have hsequence : slice image 32 8 = leBytes 8 sequence :=
    slice_eq_leBytes (by omega) (by rw [← hfield (by omega)]; exact hfields.sequence)
  have hheaderCrc : slice image 40 4 = leBytes 4 (checksum (headerOf image)) :=
    slice_eq_leBytes (by omega) (by rw [← hfield (by omega)]; exact h.body.headerCrc.symm)
  calc image.take prefixSize
      = slice image 0 (8 + 2 + 2 + 4 + 4 + 4 + 8 + 8 + 4 + 4) := (slice_zero _ _).symm
    _ = _ := by
      rw [slice_add, slice_add, slice_add, slice_add, slice_add, slice_add, slice_add, slice_add,
        slice_add]
      simp only [Nat.zero_add, Nat.reduceAdd, hmagic, htype, hversion, hflags, hheaderLength,
        hpayloadLength, hsequence, hheaderCrc, prefixStart, prefixEnd, List.append_assoc]

/-- **A frame is the frame with gaps that its parts make.** -/
theorem eq_imageWith_of_isFrame (h : Frame.IsFrame image sequence limits) :
    ∃ prefixCrc trailerCrcs : Bytes, prefixCrc.length = 4 ∧ trailerCrcs.length = 8 ∧
      image = imageWith (Frame.imagePrefix image).frameType sequence (headerOf image)
        (payloadOf image) (slice image 20 4) prefixCrc trailerCrcs := by
  obtain ⟨hheader, hpayload, hlength⟩ := lengths_of_isFrame h
  have hstart := take_prefix_of_isFrame h
  have htrailer := h.body.trailer
  rw [frameLength] at hlength
  -- The trailer begins where the payload ends.
  obtain ⟨body, hbody⟩ : ∃ body, body = prefixSize + (headerOf image).length +
    (payloadOf image).length := ⟨_, rfl⟩
  have hbodyLength : Frame.bodyLength (Frame.imagePrefix image) = body := by
    rw [Frame.bodyLength, hbody, hheader, hpayload]
  have hfield (start width : ℕ) : slice (Frame.imageTrailer image) start width =
      slice image (body + start) width := by
    rw [Frame.imageTrailer, hbodyLength, slice, slice, List.drop_drop]
  have hsize : trailerSize = 32 := rfl
  have hroom : prefixSize = 48 := rfl
  have htotal : slice image body 8 =
    leBytes 8 (frameLength (headerOf image) (payloadOf image)) := by
    refine slice_eq_leBytes (by omega) ?_
    have hdeclared := htrailer.totalLength
    rw [← h.length, hlength] at hdeclared
    rw [← Nat.add_zero body, ← hfield]
    exact hdeclared
  have hsequence : slice image (body + 8) 8 = leBytes 8 sequence := by
    refine slice_eq_leBytes (by omega) ?_
    rw [← hfield, ← h.accepted.fields.sequence]
    exact htrailer.sequence
  have hmagic : slice image (body + 24) 8 = commitMagic := by
    rw [← hfield]
    exact htrailer.magic
  refine ⟨slice image 44 4, slice image (body + 16) 8, length_slice_of_le (by omega),
    length_slice_of_le (by omega), ?_⟩
  have hparts : image = image.take prefixSize ++ headerOf image ++ payloadOf image ++
      slice image body 8 ++ slice image (body + 8) 8 ++ slice image (body + 16) 8 ++
        slice image (body + 24) 8 := by
    conv_lhs => rw [← slice_self image, hlength]
    rw [← hbody, hsize, show (32 : ℕ) = 8 + 8 + 8 + 8 from rfl, ← Nat.add_assoc, ← Nat.add_assoc,
      ← Nat.add_assoc, slice_add, slice_add, slice_add, slice_add, hbody, hheader, hpayload,
      slice_add, slice_add, slice_zero, headerOf, payloadOf]
    simp only [Nat.zero_add, Nat.add_assoc]
  conv_lhs => rw [hparts, hstart, htotal, hsequence, hmagic]
  simp only [imageWith, frameMiddle, List.append_assoc]

end Gaps

/-! ### Building and reading -/

variable {sequence offset : ℕ} {header payload : Bytes} {limits : Limits}

/-- **A built frame is read back**, wherever it stands. -/
theorem readFrame_of_buildFrame {frameType : ℕ} {image : Bytes}
    (h : buildFrame frameType sequence header payload = .ok image)
    (hframable : Framable frameType sequence header payload limits) (before after : Bytes)
    (hsize : (before ++ image ++ after).length ≤ u64Max) :
    Frame.readFrame (before ++ image ++ after) (before ++ image ++ after).length before.length
        sequence limits =
      .ok (.complete
        { frameType, sequence, frameOffset := before.length,
          headerOffset := before.length + prefixSize, headerLength := header.length,
          payloadOffset := before.length + prefixSize + header.length,
          payloadLength := payload.length, totalLength := frameLength header payload }) := by
  have hholds := holdsAt_append_middle before image after
  have hfits := hholds.fits
  refine (Frame.readFrame_eq_complete le_rfl).mpr ⟨image.length, hfits, by omega, ?_, ?_⟩
  · rw [hholds.slice_eq]
    exact isFrame_of_buildFrame h hframable
  · rw [hholds.slice_eq]
    exact metadataAt_of_buildFrame h hframable before.length

/-- **A frame the reader accepts is built again from its parts**, up to the reserved bytes of its
prefix and the checksums that cover them. -/
theorem buildFrame_of_readFrame {file : Bytes} {fileSize : ℕ} {frame : FrameMetadata}
    (hsize : fileSize ≤ file.length)
    (h : Frame.readFrame file fileSize offset sequence limits = .ok (.complete frame)) :
    ∃ rebuilt, buildFrame frame.frameType frame.sequence
        (slice file frame.headerOffset frame.headerLength)
        (slice file frame.payloadOffset frame.payloadLength) = .ok rebuilt ∧
      rebuilt.length = frame.totalLength ∧
        ∀ i < frame.totalLength, ¬Unpinned frame.totalLength i →
          rebuilt[i]? = file[frame.frameOffset + i]? := by
  obtain ⟨total, hfits, -, hframe, rfl⟩ := (Frame.readFrame_eq_complete hsize).mp h
  generalize himage : slice file offset total = image at hframe ⊢
  obtain ⟨hheader, hpayload, hlength⟩ := lengths_of_isFrame hframe
  obtain ⟨prefixCrc, trailerCrcs, hprefixCrc, htrailerCrcs, hstored⟩ :=
    eq_imageWith_of_isFrame hframe
  have hfields := hframe.accepted.fields
  have htotal : image.length = total := by
    rw [← himage]
    exact length_slice_of_le (by omega)
  have hdeclared : (Frame.metadataAt image offset).totalLength = total := by
    rw [← htotal]
    exact hframe.length.symm
  have hholds : HoldsAt file offset image := ⟨by rw [htotal]; exact himage, by omega⟩
  have hinside : prefixSize + (Frame.imagePrefix image).headerLength +
      (Frame.imagePrefix image).payloadLength ≤ image.length := by
    rw [hlength, frameLength, hheader, hpayload]
    omega
  -- The reported regions are the parts of the frame.
  have hheaderBytes : slice file (offset + prefixSize) (Frame.imagePrefix image).headerLength =
      headerOf image := hholds.slice (by omega)
  have hpayloadBytes : slice file (offset + prefixSize + (Frame.imagePrefix image).headerLength)
      (Frame.imagePrefix image).payloadLength = payloadOf image := by
    rw [Nat.add_assoc]
    exact hholds.slice (by omega)
  have hbuild : buildFrame (Frame.imagePrefix image).frameType sequence (headerOf image)
      (payloadOf image) = .ok (frameImage (Frame.imagePrefix image).frameType sequence
        (headerOf image) (payloadOf image)) := by
    refine (buildFrame_eq_ok _ _ _ _).mpr ⟨⟨?_, ?_⟩, ?_, ?_, rfl⟩
    · rw [hheader]
      exact hfields.headerAligned
    · rw [hpayload]
      exact hfields.payloadAligned
    · have hlt := leNat_lt (slice (image.take prefixSize) 16 4)
      have hfour : (slice (image.take prefixSize) 16 4).length ≤ 4 := by
        rw [length_slice]
        omega
      have hpow := Nat.pow_le_pow_right (show 0 < 256 by omega) hfour
      have hu : u32Max + 1 = 256 ^ 4 := by decide
      rw [hheader]
      show leNat (slice (image.take prefixSize) 16 4) ≤ u32Max
      omega
    · rw [← hlength, hframe.length]
      exact hfields.total
  obtain ⟨prefixCrc', trailerCrcs', hprefixCrc', htrailerCrcs', hrebuilt⟩ :=
    frameImage_eq_imageWith (Frame.imagePrefix image).frameType sequence (headerOf image)
      (payloadOf image)
  refine ⟨frameImage (Frame.imagePrefix image).frameType sequence (headerOf image)
    (payloadOf image), ?_, ?_, ?_⟩
  · show buildFrame (Frame.imagePrefix image).frameType (Frame.imagePrefix image).sequence
      (slice file (offset + prefixSize) (Frame.imagePrefix image).headerLength)
      (slice file (offset + prefixSize + (Frame.imagePrefix image).headerLength)
        (Frame.imagePrefix image).payloadLength) = _
    rw [hheaderBytes, hpayloadBytes, show (Frame.imagePrefix image).sequence = sequence from
      hfields.sequence, hbuild]
  · rw [length_frameImage, ← hlength, hdeclared, htotal]
  · intro i hi hpinned
    rw [hdeclared, ← htotal, hlength] at hpinned
    have hreserved : (slice image 20 4).length = 4 := by
      refine length_slice_of_le ?_
      have hroom : prefixSize = 48 := rfl
      omega
    have hsame : (frameImage (Frame.imagePrefix image).frameType sequence (headerOf image)
        (payloadOf image))[i]? = image[i]? := by
      conv_rhs => rw [hstored]
      rw [hrebuilt]
      exact getElem?_imageWith (length_zeros _) hreserved hprefixCrc' hprefixCrc htrailerCrcs'
        htrailerCrcs hpinned
    rw [hsame, ← himage]
    exact getElem?_slice file (hdeclared ▸ hi)

/-- **The frame envelope is a bijection on its image.**  A header and a payload of legal lengths are
built into a frame that is read back from any file that holds it, as the frame it was built as.
Conversely, a frame that is read from any file is what its own parts are built into, except for the
four reserved bytes of the prefix and the checksums that cover them. -/
theorem frame_envelope :
    (∀ (sequence : ℕ) (header payload before after : Bytes) (limits : Limits),
      header.length % frameAlignment = 0 → payload.length % frameAlignment = 0 →
      header.length ≤ u32Max →
      Framable (Frame.expectedFrameType sequence) sequence header payload limits →
      before.length + frameLength header payload + after.length ≤ u64Max →
      ∃ image, buildFrame (Frame.expectedFrameType sequence) sequence header payload = .ok image ∧
        Frame.readFrame (before ++ image ++ after) (before ++ image ++ after).length before.length
            sequence limits =
          .ok (.complete
            { frameType := Frame.expectedFrameType sequence, sequence, frameOffset := before.length,
              headerOffset := before.length + prefixSize, headerLength := header.length,
              payloadOffset := before.length + prefixSize + header.length,
              payloadLength := payload.length, totalLength := frameLength header payload })) ∧
    (∀ (file : Bytes) (fileSize offset sequence : ℕ) (limits : Limits) (frame : FrameMetadata),
      fileSize ≤ file.length →
      Frame.readFrame file fileSize offset sequence limits = .ok (.complete frame) →
      ∃ rebuilt, buildFrame frame.frameType frame.sequence
          (slice file frame.headerOffset frame.headerLength)
          (slice file frame.payloadOffset frame.payloadLength) = .ok rebuilt ∧
        rebuilt.length = frame.totalLength ∧
          ∀ i < frame.totalLength, ¬Unpinned frame.totalLength i →
            rebuilt[i]? = file[frame.frameOffset + i]?) := by
  refine ⟨?_, fun file fileSize offset sequence limits frame ↦ buildFrame_of_readFrame⟩
  intro sequence header payload before after limits hheader hpayload hmax hframable hsize
  have hbuild := (buildFrame_eq_ok (Frame.expectedFrameType sequence) sequence header payload).mpr
    ⟨⟨hheader, hpayload⟩, hmax, by omega, rfl⟩
  refine ⟨_, hbuild, readFrame_of_buildFrame hbuild hframable before after ?_⟩
  rw [List.length_append, List.length_append, length_frameImage]
  exact hsize

/-- A block header and a payload of one word, with one more byte after the frame. -/
theorem frame_envelope_oneWord :
    let header := 1 :: zeros 63
    let payload : Bytes := [5, 0, 0, 0, 0, 0, 0, 0]
    ∃ (image : Bytes) (frame : FrameMetadata) (rebuilt : Bytes),
      buildFrame dataFrameType 1 header payload = .ok image ∧
        Frame.readFrame (image ++ [7]) (image ++ [7]).length 0 1 Limits.default =
          .ok (.complete frame) ∧ frame.headerLength = 64 ∧ frame.payloadLength = 8 ∧
            buildFrame frame.frameType frame.sequence
                (slice (image ++ [7]) frame.headerOffset frame.headerLength)
                (slice (image ++ [7]) frame.payloadOffset frame.payloadLength) = .ok rebuilt ∧
              ∀ i < frame.totalLength, ¬Unpinned frame.totalLength i →
                rebuilt[i]? = (image ++ [7])[i]? := by
  intro header payload
  obtain ⟨image, hbuild, hread⟩ := frame_envelope.1 1 header payload [] [7] Limits.default
    (by decide) (by decide) (by decide)
    ⟨rfl, by decide, by decide, by decide, by decide, by decide⟩ (by decide)
  obtain ⟨rebuilt, hrebuilt, -, hsame⟩ := frame_envelope.2 _ _ _ _ _ _ le_rfl hread
  refine ⟨image, _, rebuilt, hbuild, hread, rfl, rfl, hrebuilt, fun i hi hpinned ↦ ?_⟩
  rw [hsame i hi hpinned]
  exact congrArg _ (Nat.zero_add i)

end Write

end Acta
