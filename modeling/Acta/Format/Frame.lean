import Acta.Crc32c
import Acta.Format.Cursor
import Acta.Format.Prologue
import Acta.Limits

/-!
# Frames

A frame is a 48-byte prefix, a header, a payload and a 32-byte commit trailer.  `readFrame`
validates the prefix in full, measures the frame against the file extent, and then verifies the
trailer and the two checksums over the body.  A frame the file ends inside is an incomplete tail
and not a defect.

What `readFrame` decides depends on the file only through the 48 bytes of the prefix and, when the
file is long enough, the bytes of the frame itself: `readFrame_eq` says so, and everything the
development later says about cut, extended and damaged files is derived from it.
-/

namespace Acta

open Machine Wire

/-- How much of a frame body is checksummed per read. -/
def checksumChunkSize : ℕ := 16 * 1024

/-- A frame whose prefix, header, payload, trailer and checksums have all been validated. -/
structure FrameMetadata where
  frameType : ℕ
  sequence : ℕ
  frameOffset : ℕ
  headerOffset : ℕ
  headerLength : ℕ
  payloadOffset : ℕ
  payloadLength : ℕ
  totalLength : ℕ
  deriving DecidableEq, Repr

/-- The outcome of reading the frame that begins at a known offset. -/
inductive FrameRead
  | complete (frame : FrameMetadata)
  | incompleteTail
  deriving DecidableEq, Repr

/-- A validated frame prefix. -/
structure FramePrefix where
  frameType : ℕ
  headerLength : ℕ
  payloadLength : ℕ
  headerCrc : ℕ
  sequence : ℕ
  totalLength : ℕ

/-- The prefix exactly as stored, before any of it is trusted. -/
structure PrefixFields where
  magic : Bytes
  frameType : ℕ
  frameVersion : ℕ
  frameFlags : ℕ
  headerLength : ℕ
  payloadLength : ℕ
  sequence : ℕ
  headerCrc : ℕ
  prefixCrc : ℕ

/-- Where each part of a frame lives in the file. -/
structure FrameRegions where
  frameOffset : ℕ
  headerOffset : ℕ
  headerLength : ℕ
  payloadOffset : ℕ
  payloadLength : ℕ
  trailerOffset : ℕ

/-- The two checksums of a frame, computed in one pass. -/
structure FrameChecksums where
  header : Crc32c
  body : Crc32c

namespace Frame

/-! ### The prefix -/

open Cursor in
/-- The prefix fields in declaration order. -/
def decodePrefixFields : CursorM PrefixFields := do
  let magic ← readBytes magicSize "frame magic"
  let frameType ← readU16 "frame type"
  let frameVersion ← readU16 "frame version"
  let frameFlags ← readU32 "frame flags"
  let headerLength ← readU32 "frame header length"
  skip prefixReservedSize "frame prefix reserved field"
  let payloadLength ← readU64 "frame payload length"
  let sequence ← readU64 "frame sequence number"
  let headerCrc ← readU32 "frame header CRC32C"
  let prefixCrc ← readU32 "frame prefix CRC32C"
  return { magic, frameType, frameVersion, frameFlags, headerLength, payloadLength, sequence,
           headerCrc, prefixCrc }

def decodePrefix (bytes : Bytes) (offset : ℕ) : Result PrefixFields :=
  decodePrefixFields.run' (Cursor.new bytes offset)

/-- Establish that the prefix is an undamaged frame prefix, before any length in it is trusted. -/
def verifyPrefixIntegrity (bytes : Bytes) (offset : ℕ) : Result PrefixFields := do
  let fields ← decodePrefix bytes offset
  failIf (fields.magic ≠ frameMagic) (Error.corruption "bad frame magic" (some offset))
  failIf (bytes.length < prefixCrcField)
    (Error.corruption "frame prefix CRC coverage is out of bounds" (some offset))
  failIf (fields.prefixCrc ≠ checksum (bytes.take prefixCrcField))
    (Error.corruption "bad frame prefix CRC32C" (some offset))
  return fields

def checkEnvelope (fields : PrefixFields) (offset : ℕ) : Result Unit := do
  failIf (fields.frameVersion ≠ frameVersion)
    (Error.unsupportedFrame s!"unsupported frame envelope version {fields.frameVersion}"
      (fieldOffset offset prefixFrameVersionField))
  failIf (fields.frameFlags ≠ frameFlags)
    (Error.unsupportedFrame s!"unsupported frame flags 0x{toHex fields.frameFlags}"
      (fieldOffset offset prefixFrameFlagsField))

/-- Sequence zero is the schema frame and data frames follow, so the expected type follows from
the sequence. -/
def expectedFrameType (sequence : ℕ) : ℕ :=
  if sequence = schemaFrameSequence then schemaFrameType else dataFrameType

/-- Reject frames this crate cannot interpret before any of the body is read. -/
def checkFrameType (frameType expectedSequence offset : ℕ) : Result Unit :=
  let expected := expectedFrameType expectedSequence
  if frameType = expected then
    .ok ()
  else
    let field := fieldOffset offset prefixFrameTypeField
    if frameType = checkpointFrameType then
      .error (Error.unsupportedFrame
        "checkpoint frames are reserved for a later format minor version" field)
    else
      .error (Error.corruption s!"expected frame type {expected}, found {frameType}" field)

def checkSequence (sequence expectedSequence offset : ℕ) : Result Unit :=
  failIf (sequence ≠ expectedSequence)
    (Error.corruption s!"expected frame sequence {expectedSequence}, found {sequence}"
      (fieldOffset offset prefixSequenceField))

def checkHeaderLength (fields : PrefixFields) (offset : ℕ) : Result Unit := do
  let field := fieldOffset offset prefixHeaderLengthField
  let length := fields.headerLength
  failIf (length % frameAlignment ≠ 0)
    (Error.corruption s!"unaligned frame header length {length}" field)
  failIf (fields.frameType = schemaFrameType ∧ length ≠ schemaFrameHeaderSize)
    (Error.corruption
      s!"a schema frame header is {schemaFrameHeaderSize} bytes, found {length}" field)
  failIf (fields.frameType = dataFrameType ∧ length < dataBlockHeaderSize)
    (Error.corruption
      s!"a data frame header starts with a {dataBlockHeaderSize}-byte block header, found {length} header bytes"
      field)

def checkPayloadLength (fields : PrefixFields) (offset : ℕ) : Result Unit :=
  failIf (fields.payloadLength % frameAlignment ≠ 0)
    (Error.corruption s!"unaligned frame payload length {fields.payloadLength}"
      (fieldOffset offset prefixPayloadLengthField))

def checkLimits (fields : PrefixFields) (offset : ℕ) (limits : Limits) : Result Unit := do
  failIf (limits.maxFrameHeaderLength < fields.headerLength)
    (Error.resourceLimit
      s!"frame header length {fields.headerLength} exceeds the {limits.maxFrameHeaderLength}-byte limit"
      (fieldOffset offset prefixHeaderLengthField))
  failIf (limits.maxFramePayloadLength < fields.payloadLength)
    (Error.resourceLimit
      s!"frame payload length {fields.payloadLength} exceeds the {limits.maxFramePayloadLength}-byte limit"
      (fieldOffset offset prefixPayloadLengthField))

def totalFrameLength (fields : PrefixFields) (offset : ℕ) : Result ℕ :=
  okOr (do
      let length ← checkedAdd prefixSize fields.headerLength
      let length ← checkedAdd length fields.payloadLength
      checkedAdd length trailerSize)
    (Error.corruption "frame length overflow" (some offset))

def verifyPrefixFields (fields : PrefixFields) (offset expectedSequence : ℕ) (limits : Limits) :
    Result FramePrefix := do
  checkEnvelope fields offset
  checkFrameType fields.frameType expectedSequence offset
  checkSequence fields.sequence expectedSequence offset
  checkHeaderLength fields offset
  checkPayloadLength fields offset
  checkLimits fields offset limits
  let totalLength ← totalFrameLength fields offset
  return { frameType := fields.frameType, headerLength := fields.headerLength,
           payloadLength := fields.payloadLength, headerCrc := fields.headerCrc,
           sequence := fields.sequence, totalLength }

/-- The prefix CRC is validated first, and only then is the stored sequence number trusted to name
the frame in an error. -/
def parsePrefix (bytes : Bytes) (offset expectedSequence : ℕ) (limits : Limits) :
    Result FramePrefix := do
  let fields ← (verifyPrefixIntegrity bytes offset).withContext .framePrefix
  ((verifyPrefixFields fields offset expectedSequence limits).withContext
    (.frame fields.sequence)).withContext .framePrefix

/-! ### The body -/

def locate (frameOffset : ℕ) (framePrefix : FramePrefix) : Result FrameRegions := do
  let overflowed := (Error.corruption "frame region offset overflow" (some frameOffset)).withContext
    (.frame framePrefix.sequence)
  let headerOffset ← okOr (checkedAdd frameOffset prefixSize) overflowed
  let payloadOffset ← okOr (checkedAdd headerOffset framePrefix.headerLength) overflowed
  let trailerOffset ← okOr (checkedAdd payloadOffset framePrefix.payloadLength) overflowed
  return { frameOffset, headerOffset, headerLength := framePrefix.headerLength, payloadOffset,
           payloadLength := framePrefix.payloadLength, trailerOffset }

/-- The trailer CRC covers every trailer byte except its own four. -/
def trailerChecksum (bytes : Bytes) (offset : ℕ) : Result ℕ := do
  let outOfBounds := Error.corruption "trailer CRC coverage is out of bounds" (some offset)
  failIf (bytes.length < trailerCrcField) outOfBounds
  let crc := Crc32c.new.update (bytes.take trailerCrcField)
  failIf (bytes.length < trailerCommitMagicField) outOfBounds
  return (crc.update (bytes.drop trailerCommitMagicField)).finish

/-- The trailer exactly as stored. -/
structure TrailerFields where
  totalLength : ℕ
  sequence : ℕ
  bodyCrc : ℕ
  trailerCrc : ℕ
  commitMagic : Bytes

open Cursor in
/-- The trailer fields in declaration order. -/
def decodeTrailerFields : CursorM TrailerFields := do
  let totalLength ← readU64 "trailer total frame length"
  let sequence ← readU64 "trailer sequence number"
  let bodyCrc ← readU32 "trailer body CRC32C"
  let trailerCrc ← readU32 "trailer CRC32C"
  let commitMagic ← readBytes magicSize "commit magic"
  return { totalLength, sequence, bodyCrc, trailerCrc, commitMagic }

def validateTrailer (bytes : Bytes) (framePrefix : FramePrefix) (offset : ℕ) : Result ℕ := do
  let fields ← decodeTrailerFields.run' (Cursor.new bytes offset)
  failIf (fields.totalLength ≠ framePrefix.totalLength)
    (Error.corruption
      s!"trailer total length {fields.totalLength} does not match prefix {framePrefix.totalLength}"
      (some offset))
  failIf (fields.sequence ≠ framePrefix.sequence)
    (Error.corruption
      s!"trailer sequence {fields.sequence} does not match prefix {framePrefix.sequence}"
      (fieldOffset offset trailerSequenceField))
  failIf (fields.commitMagic ≠ commitMagic)
    (Error.corruption "bad frame commit magic" (fieldOffset offset trailerCommitMagicField))
  let computed ← trailerChecksum bytes offset
  failIf (fields.trailerCrc ≠ computed)
    (Error.corruption "bad frame trailer CRC32C" (fieldOffset offset trailerCrcField))
  return fields.bodyCrc

/-- The body CRC a valid trailer commits to. -/
def parseTrailer (bytes : Bytes) (framePrefix : FramePrefix) (offset : ℕ) : Result ℕ :=
  ((validateTrailer bytes framePrefix offset).withContext
    (.frame framePrefix.sequence)).withContext .trailer

/-- Stream `remaining` bytes from `position` through a fixed buffer.  A failed read is reported at
the start of the region. -/
def readChunks {σ : Type} (file : Bytes) (offset : ℕ) (visit : σ → Bytes → σ)
    (position remaining : ℕ)
    (state : σ) : Result σ :=
  if remaining = 0 then
    .ok state
  else do
    let chunkLength := min remaining checksumChunkSize
    failIf (file.length < position + chunkLength) (Error.io unexpectedEof (some offset))
    readChunks file offset visit (position + chunkLength) (remaining - chunkLength)
      (visit state (slice file position chunkLength))
termination_by remaining
decreasing_by simp only [checksumChunkSize]; omega

/-- Stream a file region of any size into an accumulator. -/
def readRegion {σ : Type} (file : Bytes) (offset length : ℕ) (visit : σ → Bytes → σ) (state : σ) :
    Result σ :=
  readChunks file offset visit offset length state

/-- Compute the header and body CRCs in one pass: the body CRC covers the stored prefix, header and
payload, and the header CRC the padded header. -/
def checksumFrame (file prefixBytes : Bytes) (regions : FrameRegions) : Result FrameChecksums := do
  let start : FrameChecksums := { header := Crc32c.new, body := Crc32c.new.update prefixBytes }
  let afterHeader ← readRegion file regions.headerOffset regions.headerLength
    (fun sums chunk ↦ { header := sums.header.update chunk, body := sums.body.update chunk }) start
  readRegion file regions.payloadOffset regions.payloadLength
    (fun sums chunk ↦ { sums with body := sums.body.update chunk }) afterHeader

def verifyBody (file prefixBytes : Bytes) (framePrefix : FramePrefix) (regions : FrameRegions) :
    Result Unit := do
  let frame := ErrorContext.frame framePrefix.sequence
  let trailerBytes ← ((readExactAt file regions.trailerOffset trailerSize).withContext
    frame).withContext .trailer
  let bodyCrc ← parseTrailer trailerBytes framePrefix regions.trailerOffset
  let checksums ← (checksumFrame file prefixBytes regions).withContext frame
  failIf (checksums.header.finish ≠ framePrefix.headerCrc)
    (((Error.corruption "bad frame header CRC32C" (some regions.headerOffset)).withContext
      frame).withContext .header)
  failIf (checksums.body.finish ≠ bodyCrc)
    ((Error.corruption "bad frame body CRC32C" (some regions.frameOffset)).withContext frame)

/-! ### Reading a frame -/

def remainingBytes (fileSize offset : ℕ) : Result ℕ :=
  okOr (checkedSub fileSize offset)
    ((Error.corruption "frame offset is beyond the file extent" (some offset)).withContext .file)

/-- The coordinates of a frame found at `regions`. -/
def metadata (framePrefix : FramePrefix) (regions : FrameRegions) : FrameMetadata where
  frameType := framePrefix.frameType
  sequence := framePrefix.sequence
  frameOffset := regions.frameOffset
  headerOffset := regions.headerOffset
  headerLength := regions.headerLength
  payloadOffset := regions.payloadOffset
  payloadLength := regions.payloadLength
  totalLength := framePrefix.totalLength

/-- Read and fully validate the frame at `offset`. -/
def readFrame (file : Bytes) (fileSize offset expectedSequence : ℕ) (limits : Limits) :
    Result FrameRead := do
  let remaining ← remainingBytes fileSize offset
  if remaining < prefixSize then
    return .incompleteTail
  else
    let prefixBytes ← (readExactAt file offset prefixSize).withContext .framePrefix
    let framePrefix ← parsePrefix prefixBytes offset expectedSequence limits
    if remaining < framePrefix.totalLength then
      return .incompleteTail
    else
      let regions ← locate offset framePrefix
      verifyBody file prefixBytes framePrefix regions
      return .complete (metadata framePrefix regions)

/-- Read, exactly as stored, the commit trailer of the frame that ends at `endOffset`. -/
def readCommitTrailer (file : Bytes) (fileSize endOffset : ℕ) : Result Bytes := do
  let boundary := (checkedSub endOffset trailerSize).filter fun _ ↦ endOffset ≤ fileSize
  let trailerOffset ← okOr boundary
    ((Error.corruption "the committed boundary does not follow a complete frame trailer"
      (some endOffset)).withContext .file)
  (readExactAt file trailerOffset trailerSize).withContext .trailer

end Frame

end Acta
