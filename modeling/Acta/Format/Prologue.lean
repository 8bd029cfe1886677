import Acta.Crc32c
import Acta.Format.Cursor

/-!
# The file prologue

The fixed 64 bytes every file begins with.  `Prologue.parse` checks the magic and the CRC before it
trusts any other field.
-/

namespace Acta

open Wire

/-- The number spelled in base sixteen. -/
def toHex (n : ℕ) : String := String.ofList (Nat.toDigits 16 n)

/-- The parts of a validated prologue the rest of the crate needs. -/
structure Prologue where
  formatVersion : ℕ × ℕ
  featureFlags : ℕ
  fileId : Bytes
  deriving DecidableEq, Repr

/-- The prologue exactly as stored, before any of it is trusted. -/
structure PrologueFields where
  magic : Bytes
  formatMajor : ℕ
  formatMinor : ℕ
  prologueSize : ℕ
  featureFlags : ℕ
  fileId : Bytes
  schemaFrameOffset : ℕ
  storedCrc : ℕ

namespace Prologue

open Cursor in
/-- The fields in declaration order. -/
def decodeFields : CursorM PrologueFields := do
  let magic ← readBytes magicSize "file magic"
  let formatMajor ← readU16 "format major"
  let formatMinor ← readU16 "format minor"
  let prologueSize ← readU32 "prologue size"
  let featureFlags ← readU64 "feature flags"
  let fileId ← readBytes fileIdSize "file ID"
  let schemaFrameOffset ← readU64 "schema frame offset"
  skip prologueReservedSize "prologue reserved bytes"
  let storedCrc ← readU32 "prologue CRC32C"
  return { magic, formatMajor, formatMinor, prologueSize, featureFlags, fileId,
           schemaFrameOffset, storedCrc }

def decode (bytes : Bytes) : Result PrologueFields :=
  decodeFields.run' (Cursor.new bytes 0)

def checkMagic (fields : PrologueFields) : Result Unit :=
  failIf (fields.magic ≠ fileMagic) (Error.corruption "bad file magic" (some 0))

def checkCrc (bytes : Bytes) (fields : PrologueFields) : Result Unit := do
  failIf (bytes.length < prologueCrcField)
    (Error.corruption "prologue CRC coverage is out of bounds" (some 0))
  failIf (fields.storedCrc ≠ checksum (bytes.take prologueCrcField))
    (Error.corruption "bad prologue CRC32C" (some 0))

def checkFormatVersion (fields : PrologueFields) : Result Unit :=
  failIf ((fields.formatMajor, fields.formatMinor) ≠ (formatMajor, formatMinor))
    (Error.unsupportedVersion
      s!"unsupported Acta format version ({fields.formatMajor}, {fields.formatMinor}); this crate supports ({formatMajor}, {formatMinor})"
      (some prologueFormatVersionField))

def checkPrologueSize (fields : PrologueFields) : Result Unit :=
  failIf (fields.prologueSize ≠ prologueSize)
    (Error.corruption s!"prologue size is {prologueSize} in v0.2, found {fields.prologueSize}"
      (some prologueSizeField))

/-- The feature bits this version assigns no meaning to. -/
def unknownFeatures (flags : ℕ) : ℕ :=
  flags &&& (2 ^ 64 - 1 - supportedFeatures)

def checkFeatureFlags (fields : PrologueFields) : Result Unit :=
  failIf (unknownFeatures fields.featureFlags ≠ 0)
    (Error.unsupportedFeature
      s!"unknown prologue feature bits 0x{toHex (unknownFeatures fields.featureFlags)}"
      (some prologueFeatureFlagsField))

def checkSchemaFrameOffset (fields : PrologueFields) : Result Unit :=
  failIf (fields.schemaFrameOffset ≠ schemaFrameOffset)
    (Error.corruption
      s!"schema frame offset is {schemaFrameOffset} in v0.2, found {fields.schemaFrameOffset}"
      (some prologueSchemaFrameOffsetField))

def validate (bytes : Bytes) : Result Prologue := do
  let fields ← decode bytes
  checkMagic fields
  checkCrc bytes fields
  checkFormatVersion fields
  checkPrologueSize fields
  checkFeatureFlags fields
  checkSchemaFrameOffset fields
  return { formatVersion := (fields.formatMajor, fields.formatMinor),
           featureFlags := fields.featureFlags, fileId := fields.fileId }

def parse (bytes : Bytes) : Result Prologue :=
  (validate bytes).withContext .prologue

/-- Read and parse the prologue of a file whose extent has been captured. -/
def readFromFile (file : Bytes) (fileSize : ℕ) : Result Prologue := do
  (failIf (fileSize < prologueSize)
    (Error.corruption s!"file is shorter than the {prologueSize}-byte prologue"
      (some fileSize))).withContext .prologue
  let bytes ← (readExactAt file 0 prologueSize).withContext .prologue
  parse bytes

/-! ### The stored fields -/

/-- The fields of a stored prologue, by position. -/
def fieldsOf (bytes : Bytes) : PrologueFields where
  magic := slice bytes 0 8
  formatMajor := leNat (slice bytes 8 2)
  formatMinor := leNat (slice bytes 10 2)
  prologueSize := leNat (slice bytes 12 4)
  featureFlags := leNat (slice bytes 16 8)
  fileId := slice bytes 24 16
  schemaFrameOffset := leNat (slice bytes 40 8)
  storedCrc := leNat (slice bytes 60 4)

theorem decode_eq {bytes : Bytes} (h : bytes.length = prologueSize) :
    decode bytes = .ok (fieldsOf bytes) := by
  have hlen : bytes.length = 64 := h
  have hu : bytes.length ≤ Machine.u64Max := by rw [hlen]; decide
  simp (disch := first | assumption | omega) only [decode, decodeFields, StateT.run', Cursor.new,
    Cursor.readU16, Cursor.readU32, Cursor.readU64, Cursor.readBytes_bind, Cursor.readUInt_bind,
    Cursor.skip_bind, magicSize, fileIdSize, prologueReservedSize]
  rfl

/-- The checks a stored prologue passes. -/
structure IsPrologue (bytes : Bytes) : Prop where
  magic : slice bytes 0 8 = fileMagic
  isSealed : Sealed bytes prologueCrcField
  version : ((fieldsOf bytes).formatMajor, (fieldsOf bytes).formatMinor) =
    (formatMajor, formatMinor)
  size : (fieldsOf bytes).prologueSize = prologueSize
  features : unknownFeatures (fieldsOf bytes).featureFlags = 0
  schemaOffset : (fieldsOf bytes).schemaFrameOffset = schemaFrameOffset

/-- What a valid stored prologue says. -/
def ofBytes (bytes : Bytes) : Prologue where
  formatVersion := ((fieldsOf bytes).formatMajor, (fieldsOf bytes).formatMinor)
  featureFlags := (fieldsOf bytes).featureFlags
  fileId := (fieldsOf bytes).fileId

theorem checkCrc_eq {bytes : Bytes} (h : bytes.length = prologueSize) (fields : PrologueFields) :
    checkCrc bytes fields =
      failIf (fields.storedCrc ≠ checksum (bytes.take prologueCrcField))
        (Error.corruption "bad prologue CRC32C" (some 0)) := by
  have hshort : ¬bytes.length < prologueCrcField := by rw [h]; decide
  rw [checkCrc, failIf_neg hshort, ok_bind]

theorem parse_eq_ok {bytes : Bytes} {prologue : Prologue} (h : bytes.length = prologueSize) :
    parse bytes = .ok prologue ↔ IsPrologue bytes ∧ ofBytes bytes = prologue := by
  rw [parse, withContext_eq_ok, validate, decode_eq h, ok_bind]
  simp only [checkCrc_eq h, checkMagic, checkFormatVersion, checkPrologueSize, checkFeatureFlags,
    checkSchemaFrameOffset, bind_eq_ok, failIf_eq_ok, not_not, pure_eq_ok, Except.ok.injEq]
  constructor
  · rintro ⟨-, hmagic, -, hcrc, -, hversion, -, hsize, -, hfeatures, -, hoffset, rfl⟩
    exact ⟨⟨hmagic, hcrc, hversion, hsize, hfeatures, hoffset⟩, rfl⟩
  · rintro ⟨⟨hmagic, hcrc, hversion, hsize, hfeatures, hoffset⟩, rfl⟩
    exact ⟨(), hmagic, (), hcrc, (), hversion, (), hsize, (), hfeatures, (), hoffset, rfl⟩

/-- A prologue whose checksum does not match is corruption, whatever its other fields say. -/
theorem failsWith_parse_of_not_sealed {bytes : Bytes} (h : bytes.length = prologueSize)
    (hseal : ¬Sealed bytes prologueCrcField) : FailsWith .corruption (parse bytes) := by
  refine FailsWith.withContext ?_ _
  rw [validate, decode_eq h, ok_bind]
  refine failsWith_guard rfl fun _ ↦ ?_
  rw [checkCrc_eq h]
  exact failsWith_failIf_bind hseal _

/-- The prologue is read from the first 64 bytes of the file alone. -/
theorem readFromFile_eq {file : Bytes} {fileSize : ℕ} (hsize : prologueSize ≤ fileSize)
    (hfile : prologueSize ≤ file.length) :
    readFromFile file fileSize = parse (slice file 0 prologueSize) := by
  have hread : readExactAt file 0 prologueSize = .ok (slice file 0 prologueSize) :=
    readExactAt_of_le (by omega)
  rw [readFromFile, failIf_neg (by omega), hread]
  rfl

end Prologue

end Acta
