import Acta.Format.Scan

/-!
# What the messages of a walk begin with

A repair tells its own failures by the words their messages begin with, so it matters that no other
message begins with them.  `Unmarked` says so of every failure of an operation.  It goes through the
checks one by one, in the order of the source: a check is unmarked because its message is, and
whatever the message goes on to say, it differs from the words early on (`Differs`).
-/

namespace Acta

open Machine Wire

/-- A message begins with the words that both markers of a repair begin with. -/
def Marked (message : String) : Prop := "the incomplete tail was".toList <+: message.toList

/-! ### Messages that part from the words -/

/-- Whether a text has a letter that is not the one the words have in its place. -/
def parts : List Char → List Char → Bool
  | word :: words, letter :: letters => if word = letter then parts words letters else true
  | _, _ => false

theorem not_prefix_of_parts {words letters : List Char} (h : parts words letters = true)
    (rest : List Char) : ¬words <+: letters ++ rest := by
  fun_induction parts words letters with
  | case1 words letter letters ih =>
    rw [List.cons_append, List.cons_prefix_cons]
    exact fun hwords ↦ ih h hwords.2
  | case2 word words letter letters hne =>
    rw [List.cons_append, List.cons_prefix_cons]
    exact fun hwords ↦ hne hwords.1
  | case3 => cases h

/-- A text parts from the words within itself, so it is not marked whatever follows it. -/
structure Differs (text : String) : Prop where
  not_marked_append : ∀ rest : String, ¬Marked (text ++ rest)

/-- A text is compared with the words letter by letter, up to the first that differs.  This is the
side condition under which the simplifier rejects a message: `rfl` spells a literal out. -/
theorem Differs.ofLetters {text : String} {letters : List Char}
    (htext : String.ofList letters = text)
    (h : parts ['t', 'h', 'e', ' ', 'i', 'n', 'c', 'o', 'm', 'p', 'l', 'e', 't', 'e', ' ', 't', 'a',
      'i', 'l', ' ', 'w', 'a', 's'] letters = true) : Differs text := by
  refine ⟨fun rest hmarked ↦ ?_⟩
  have hwords : _ <+: (text ++ rest).toList := hmarked
  rw [← htext, String.toList_append, String.toList_ofList, String.toList_ofList] at hwords
  exact not_prefix_of_parts h _ hwords

theorem Differs.not_marked {text : String} (h : Differs text) : ¬Marked text := by
  have hempty := h.not_marked_append ""
  rwa [String.append_empty] at hempty

attribute [simp] Differs.not_marked_append
attribute [simp low] Differs.not_marked

@[simp] theorem marked_append_append {first second rest : String} :
    Marked (first ++ second ++ rest) ↔ Marked (first ++ (second ++ rest)) := by
  rw [String.append_assoc]

/-- No failure of an operation is marked. -/
def Unmarked {α : Type} (x : Result α) : Prop := ∀ e, x = .error e → ¬Marked e.message

@[simp] theorem toString_string (text : String) : toString text = text := rfl

/-! ### One rule for each way to fail -/

section Rules

variable {α β : Type}

@[simp] theorem unmarked_ok (a : α) : Unmarked (.ok a : Result α) := by
  intro e h
  cases h

@[simp] theorem unmarked_error {e : Error} :
    Unmarked (.error e : Result α) ↔ ¬Marked e.message := by
  constructor
  · exact fun h ↦ h e rfl
  · intro h e' he
    cases he
    exact h

@[simp] theorem unmarked_bind {x : Result α} {f : α → Result β} :
    Unmarked (x >>= f) ↔ Unmarked x ∧ ∀ a, x = .ok a → Unmarked (f a) := by
  cases x with
  | error e => simp
  | ok a => simp

@[simp] theorem unmarked_map {x : Result α} {f : α → β} : Unmarked (f <$> x) ↔ Unmarked x := by
  cases x with
  | error e => exact unmarked_error.trans unmarked_error.symm
  | ok a => exact iff_of_true (unmarked_ok _) (unmarked_ok a)

@[simp] theorem unmarked_failIf {c : Prop} [Decidable c] {e : Error} :
    Unmarked (failIf c e) ↔ (c → ¬Marked e.message) := by
  by_cases h : c
  · rw [failIf_pos h, unmarked_error, forall_prop_of_true h]
  · rw [failIf_neg h]
    exact iff_of_true (unmarked_ok _) fun hc ↦ absurd hc h

@[simp] theorem unmarked_okOr {value : Option α} {e : Error} :
    Unmarked (okOr value e) ↔ (value = none → ¬Marked e.message) := by
  cases value with
  | none =>
    show Unmarked (.error e : Result α) ↔ _
    rw [unmarked_error, forall_prop_of_true rfl]
  | some a => exact iff_of_true (unmarked_ok a) fun h ↦ by cases h

@[simp] theorem unmarked_ite {c : Prop} [Decidable c] {x y : Result α} :
    Unmarked (if c then x else y) ↔ (c → Unmarked x) ∧ (¬c → Unmarked y) := by
  by_cases h : c <;> simp [h]

theorem unmarked_of_ite {c : Prop} [Decidable c] {x y : Result α} (hx : Unmarked x)
    (hy : Unmarked y) : Unmarked (if c then x else y) := unmarked_ite.mpr ⟨fun _ ↦ hx, fun _ ↦ hy⟩

/-- A step that changes the error but not its message. -/
theorem unmarked_mapError {x : Result α} {f : Error → Error}
    (hf : ∀ e, (f e).message = e.message) : Unmarked (x.mapError f) ↔ Unmarked x := by
  cases x with
  | ok a => exact iff_of_true (unmarked_ok a) (unmarked_ok a)
  | error e =>
    show Unmarked (.error (f e) : Result α) ↔ _
    rw [unmarked_error, unmarked_error, hf]

@[simp] theorem unmarked_withContext {x : Result α} {c : ErrorContext} :
    Unmarked (x.withContext c) ↔ Unmarked x := unmarked_mapError fun _ ↦ rfl

@[simp] theorem unmarked_inRegion {x : Result α} {region : ErrorContext} :
    Unmarked (SchemaFrame.inRegion x region) ↔ Unmarked x := unmarked_mapError fun _ ↦ rfl

@[simp] theorem unmarked_inHeader {x : Result α} {frame : FrameMetadata} :
    Unmarked (DataFrame.inHeader frame x) ↔ Unmarked x := unmarked_mapError fun _ ↦ rfl

end Rules

@[simp] theorem message_corruption (message : String) (offset : Option ℕ) :
    (Error.corruption message offset).message = message := rfl

@[simp] theorem message_unsupportedVersion (message : String) (offset : Option ℕ) :
    (Error.unsupportedVersion message offset).message = message := rfl

@[simp] theorem message_unsupportedFeature (message : String) (offset : Option ℕ) :
    (Error.unsupportedFeature message offset).message = message := rfl

@[simp] theorem message_unsupportedFrame (message : String) (offset : Option ℕ) :
    (Error.unsupportedFrame message offset).message = message := rfl

@[simp] theorem message_resourceLimit (message : String) (offset : Option ℕ) :
    (Error.resourceLimit message offset).message = message := rfl

@[simp] theorem message_incompleteTail (message : String) (offset : Option ℕ) :
    (Error.incompleteTail message offset).message = message := rfl

@[simp] theorem message_invalidArgument (message : String) :
    (Error.invalidArgument message).message = message := rfl

@[simp] theorem message_io (message : String) (offset : Option ℕ) :
    (Error.io message offset).message = message := rfl

@[simp] theorem message_withContext (e : Error) (context : ErrorContext) :
    (e.withContext context).message = e.message := rfl

@[simp] theorem message_schemaError (e : Error) (region : ErrorContext) :
    (SchemaFrame.schemaError e region).message = e.message := rfl

@[simp] theorem message_headerError (frame : FrameMetadata) (e : Error) :
    (DataFrame.headerError frame e).message = e.message := rfl

/-! ### Reads -/

@[simp] theorem unmarked_readBytes (length : ℕ) (field : String) (cursor : Cursor) :
    Unmarked ((Cursor.readBytes length field).run cursor) := by
  simp (disch := refine Differs.ofLetters rfl ?_; decide) [StateT.run, Cursor.readBytes,
    Cursor.overflowed, Cursor.truncated]

@[simp] theorem unmarked_readUInt (width : ℕ) (field : String) (cursor : Cursor) :
    Unmarked ((Cursor.readUInt width field).run cursor) := by
  simp [Cursor.readUInt]

@[simp] theorem unmarked_skip (length : ℕ) (field : String) (cursor : Cursor) :
    Unmarked ((Cursor.skip length field).run cursor) := by
  simp [Cursor.skip]

@[simp] theorem unmarked_readExactAt (file : Bytes) (offset length : ℕ) :
    Unmarked (readExactAt file offset length) := by
  simp (disch := refine Differs.ofLetters rfl ?_; decide) [readExactAt, unexpectedEof]

/-! ### The prologue -/

namespace Prologue

@[simp] theorem unmarked_decode (bytes : Bytes) : Unmarked (decode bytes) := by
  simp [decode, decodeFields, Cursor.readU16, Cursor.readU32, Cursor.readU64]

theorem unmarked_readFromFile (file : Bytes) (fileSize : ℕ) :
    Unmarked (readFromFile file fileSize) := by
  simp (disch := refine Differs.ofLetters rfl ?_; decide) [readFromFile, parse, validate,
    checkMagic, checkCrc, checkFormatVersion, checkPrologueSize, checkFeatureFlags,
    checkSchemaFrameOffset]

end Prologue

/-! ### Frames -/

namespace Frame

@[simp] theorem unmarked_decodePrefix (bytes : Bytes) (offset : ℕ) :
    Unmarked (decodePrefix bytes offset) := by
  simp [decodePrefix, decodePrefixFields, Cursor.readU16, Cursor.readU32, Cursor.readU64]

@[simp] theorem unmarked_verifyPrefixFields (fields : PrefixFields) (offset expectedSequence : ℕ)
    (limits : Limits) : Unmarked (verifyPrefixFields fields offset expectedSequence limits) := by
  simp (disch := refine Differs.ofLetters rfl ?_; decide) [verifyPrefixFields, checkEnvelope,
    checkFrameType, checkSequence, checkHeaderLength, checkPayloadLength, checkLimits,
    totalFrameLength]

@[simp] theorem unmarked_parsePrefix (bytes : Bytes) (offset expectedSequence : ℕ)
    (limits : Limits) : Unmarked (parsePrefix bytes offset expectedSequence limits) := by
  simp (disch := refine Differs.ofLetters rfl ?_; decide) [parsePrefix, verifyPrefixIntegrity]

@[simp] theorem unmarked_parseTrailer (bytes : Bytes) (framePrefix : FramePrefix) (offset : ℕ) :
    Unmarked (parseTrailer bytes framePrefix offset) := by
  simp (disch := refine Differs.ofLetters rfl ?_; decide) [parseTrailer, validateTrailer,
    decodeTrailerFields, trailerChecksum, Cursor.readU32, Cursor.readU64]

/-- A region is read chunk by chunk, and every chunk fails with the same message. -/
theorem unmarked_readChunks {σ : Type} (file : Bytes) (offset : ℕ) (visit : σ → Bytes → σ)
    (position remaining : ℕ) (state : σ) :
    Unmarked (readChunks file offset visit position remaining state) := by
  fun_induction readChunks file offset visit position remaining state with
  | case1 => exact unmarked_ok _
  | case2 position remaining state _ chunkLength ih =>
    simp (disch := refine Differs.ofLetters rfl ?_; decide) [unexpectedEof, ih]

@[simp] theorem unmarked_checksumFrame (file prefixBytes : Bytes) (regions : FrameRegions) :
    Unmarked (checksumFrame file prefixBytes regions) := by
  simp [checksumFrame, readRegion, unmarked_readChunks]

theorem unmarked_readFrame (file : Bytes) (fileSize offset expectedSequence : ℕ)
    (limits : Limits) : Unmarked (readFrame file fileSize offset expectedSequence limits) := by
  simp (disch := refine Differs.ofLetters rfl ?_; decide) [readFrame, remainingBytes, locate,
    verifyBody]

end Frame

/-! ### The schema frame -/

namespace SchemaFrame

@[simp] theorem unmarked_readHeader (file : Bytes) (frame : FrameMetadata) :
    Unmarked (readHeader file frame) := by
  simp [readHeader, parseHeader, parseHeaderFields, Cursor.readU32, Cursor.readU64]

@[simp] theorem unmarked_checkHeader (fields : SchemaHeaderFields) (frame : FrameMetadata)
    (limits : Limits) : Unmarked (checkHeader fields frame limits) := by
  simp (disch := refine Differs.ofLetters rfl ?_; decide) [checkHeader]

@[simp] theorem unmarked_readName (file : Bytes) (offset length : ℕ) (limits : Limits) :
    Unmarked (readName file offset length limits) := by
  simp (disch := refine Differs.ofLetters rfl ?_; decide) [readName, readAllocated]

@[simp] theorem unmarked_readParameters (file : Bytes) (offset length maxLength : ℕ) :
    Unmarked (readAllocated file offset length "type parameters" maxLength) := by
  simp (disch := refine Differs.ofLetters rfl ?_; decide) [readAllocated]

@[simp] theorem unmarked_parseDescriptorFields (bytes : Bytes) (offset : ℕ) :
    Unmarked (parseDescriptorFields bytes offset) := by
  simp [parseDescriptorFields, descriptorFields, Cursor.readU16, Cursor.readU32]

@[simp] theorem unmarked_checkDescriptorFields (fields : DescriptorFields) (place : DescriptorPlace)
    (limits : Limits) : Unmarked (checkDescriptorFields fields place limits) := by
  simp (disch := refine Differs.ofLetters rfl ?_; decide) [checkDescriptorFields, checkFieldLength]

@[simp] theorem unmarked_timeUnitOf (code offset : ℕ) : Unmarked (timeUnitOf code offset) := by
  unfold timeUnitOf
  split <;> simp (disch := refine Differs.ofLetters rfl ?_; decide)

@[simp] theorem unmarked_timeZoneOf (mode : ℕ) (name : Bytes) (offset : ℕ) :
    Unmarked (timeZoneOf mode name offset) := by
  simp (disch := refine Differs.ofLetters rfl ?_; decide) [timeZoneOf]

section Parameters

variable {parameters : Bytes} {offset : ℕ} {invalidLength : Error}
  (h : ¬Marked invalidLength.message)
include h

theorem unmarked_noParameters (type : LogicalType) :
    Unmarked (noParameters parameters invalidLength type) := by
  simp [noParameters, h]

theorem unmarked_parseDecimal : Unmarked (parseDecimal parameters offset invalidLength) := by
  simp (disch := refine Differs.ofLetters rfl ?_; decide) [parseDecimal, h, Cursor.readU16,
    Cursor.readU32]

theorem unmarked_parseTimestamp : Unmarked (parseTimestamp parameters offset invalidLength) := by
  have hunit : Unmarked (Cursor.readUInt 1 "timestamp unit" (Cursor.new parameters offset)) :=
    unmarked_readUInt _ _ _
  simp (disch := refine Differs.ofLetters rfl ?_; decide) [parseTimestamp, hunit, h, Cursor.readU16,
    Cursor.readU32]

theorem unmarked_parseCategorical :
    Unmarked (parseCategorical parameters offset invalidLength) := by
  simp (disch := refine Differs.ofLetters rfl ?_; decide) [parseCategorical, h]

theorem unmarked_parseFixedBinary :
    Unmarked (parseFixedBinary parameters offset invalidLength) := by
  simp (disch := refine Differs.ofLetters rfl ?_; decide) [parseFixedBinary, h, Cursor.readU32]

end Parameters

/-- Every type is checked for its parameters, and they all fail with one message. -/
@[simp] theorem unmarked_parseType (typeId : ℕ) (parameters : Bytes)
    (parametersOffset descriptorOffset : ℕ) :
    Unmarked (parseType typeId parameters parametersOffset descriptorOffset) := by
  have hinvalid : ¬Marked (schemaError (Error.corruption
      s!"invalid parameter length {parameters.length} for logical type {typeId}"
      (fieldOffset descriptorOffset schemaDescriptorParametersLengthField)) .payload).message := by
    simp (disch := refine Differs.ofLetters rfl ?_; decide)
  have hunsupported : ¬Marked (schemaError (Error.unsupportedFrame
      s!"unsupported logical type ID {typeId}"
      (fieldOffset descriptorOffset schemaDescriptorTypeField)) .payload).message := by
    simp (disch := refine Differs.ofLetters rfl ?_; decide)
  rw [parseType]
  repeat refine unmarked_of_ite (unmarked_noParameters hinvalid _) ?_
  refine unmarked_of_ite (unmarked_parseDecimal hinvalid) ?_
  refine unmarked_of_ite (unmarked_parseTimestamp hinvalid) ?_
  refine unmarked_of_ite (unmarked_parseCategorical hinvalid) ?_
  exact unmarked_of_ite (unmarked_parseFixedBinary hinvalid) (unmarked_error.mpr hunsupported)

@[simp] theorem unmarked_parseDescriptor (file : Bytes) (frame : FrameMetadata)
    (payloadPosition : ℕ) (limits : Limits) :
    Unmarked (parseDescriptor file frame payloadPosition limits) := by
  simp (disch := refine Differs.ofLetters rfl ?_; decide) [parseDescriptor, locateDescriptor,
    checkedOffset]

@[simp] theorem unmarked_insertColumn (columns : List Column) (descriptor : Descriptor) :
    Unmarked (insertColumn columns descriptor) := by
  simp (disch := refine Differs.ofLetters rfl ?_; decide) [insertColumn]

@[simp] theorem unmarked_readDescriptors (file : Bytes) (frame : FrameMetadata) (limits : Limits)
    (count payloadPosition : ℕ) (columns : List Column) :
    Unmarked (readDescriptors file frame limits count payloadPosition columns) := by
  induction count generalizing payloadPosition columns with
  | zero => exact unmarked_ok _
  | succ count ih => simp [readDescriptors, ih]

@[simp] theorem unmarked_resolvePrimary (columns : List Column) (fields : SchemaHeaderFields)
    (frame : FrameMetadata) : Unmarked (resolvePrimary columns fields frame) := by
  simp (disch := refine Differs.ofLetters rfl ?_; decide) [resolvePrimary]

theorem unmarked_parse (file : Bytes) (frame : FrameMetadata) (limits : Limits) :
    Unmarked (parse file frame limits) := by
  simp (disch := refine Differs.ofLetters rfl ?_; decide) [parse, checkFrameType, readColumns]

end SchemaFrame

/-! ### Data frames -/

namespace DataFrame

@[simp] theorem unmarked_readHeader (file : Bytes) (frame : FrameMetadata) :
    Unmarked (readHeader file frame) := by
  simp [readHeader, parseHeader, blockHeaderFields, Cursor.readU32, Cursor.readU64]

@[simp] theorem unmarked_checkBlockHeader (fields : BlockHeaderFields) (frame : FrameMetadata)
    (schema : Schema) (featureFlags : ℕ) (expectedBaseRowId : Option ℕ) :
    Unmarked (checkBlockHeader fields frame schema featureFlags expectedBaseRowId) := by
  simp (disch := refine Differs.ofLetters rfl ?_; decide) [checkBlockHeader, checkSchemaAgreement,
    validateLayout, checkFlags, resolveBaseRowId, resolvePrimaryBounds]

theorem unmarked_parse (file : Bytes) (frame : FrameMetadata) (schema : Schema)
    (featureFlags : ℕ) (expectedBaseRowId : Option ℕ) :
    Unmarked (parse file frame schema featureFlags expectedBaseRowId) := by
  simp (disch := refine Differs.ofLetters rfl ?_; decide) [parse, checkFrameType]

end DataFrame

/-! ### The walk -/

namespace FileScan

/-- No failure to open a file is marked. -/
theorem unmarked_fromFile (file : Bytes) (limits : Limits) : Unmarked (fromFile file limits) := by
  have hframe (read : FrameRead) : Unmarked (completeSchemaFrame read) := by
    cases read <;> simp (disch := refine Differs.ofLetters rfl ?_; decide) [completeSchemaFrame,
      incompleteSchemaFrame]
  simp (disch := refine Differs.ofLetters rfl ?_; decide) [fromFile, Prologue.unmarked_readFromFile,
    Frame.unmarked_readFrame, hframe, SchemaFrame.unmarked_parse, nextOffset]

variable {σ : Type} {scan : FileScan} {visit : Visit σ}

theorem unmarked_stepFrame (hvisit : ∀ visited frame block, Unmarked (visit visited frame block))
    (state : WalkState σ) : Unmarked (stepFrame scan visit state) := by
  have hbase (expected : Option ℕ) (block : DataFrameMetadata) (frame : FrameMetadata) :
      Unmarked (nextBaseRowId expected block frame) := by
    rw [nextBaseRowId]
    split <;> simp (disch := refine Differs.ofLetters rfl ?_; decide)
  refine unmarked_bind.mpr ⟨Frame.unmarked_readFrame _ _ _ _ _, fun read _ ↦ ?_⟩
  cases read with
  | incompleteTail => exact unmarked_ok _
  | complete frame => simp (disch := refine Differs.ofLetters rfl ?_; decide) [
    DataFrame.unmarked_parse, hbase, hvisit, nextOffset]

/-- **No failure of a walk is marked**, unless the caller marks it. -/
theorem unmarked_walkDataFrames
    (hvisit : ∀ visited frame block, Unmarked (visit visited frame block)) (visited : σ) :
    Unmarked (scan.walkDataFrames visit visited) := by
  rw [walkDataFrames, walkDataFramesFrom]
  refine unmarked_bind.mpr ⟨fun e h ↦ ?_, fun _ _ ↦ unmarked_ok _⟩
  obtain ⟨state, -, -, hstep⟩ := LogScan.run_eq_error.mp h
  exact unmarked_stepFrame hvisit state e hstep

end FileScan

end Acta
