import Acta.RoundTrip.Streams

/-!
# Reading values back

A stream of values, with the lengths stream beside it where they vary in width, decodes into the
dense values it stands for, and what that costs is known (`layoutValues_decodes`).
-/

namespace Acta

open Machine Wire Candidates

/-! ### What a stream of values stands for -/

/-- A stream holds canonical bytes as they are, or byte-stream split. -/
def HoldsCanonical (stream : CandidateStream) (canonical : Bytes) (count width : ℕ) : Prop :=
  (stream.transform = transformRaw ∧ stream.bytes = canonical) ∨
    (stream.transform = transformByteStreamSplit ∧
      ∀ what, Transform.byteStreamSplit stream.bytes count width what = .ok canonical)

/-- A stream stands for dense values. -/
def Represents (logicalType : LogicalType) (values : List logicalType.storedType.Value)
    (stream : CandidateStream) : Prop :=
  match logicalType, values with
  | .bool, values => ∀ what,
    Transform.booleans stream.bytes values.length stream.transform what = .ok values
  | .integer type, values => ∀ what, Transform.integer type stream.bytes values.length type.width
    type.signed stream.transform what = .ok values
  | .date32, values => ∀ what, Transform.integer .int32 stream.bytes values.length 4 true
    stream.transform what = .ok values
  | .decimal _ _, values | .timestamp _ _, values => ∀ what,
    Transform.integer .int64 stream.bytes values.length 8 true stream.transform what = .ok values
  | .float32, values =>
    HoldsCanonical stream (values.flatMap StoredType.float32.key) values.length 4
  | .float64, values =>
    HoldsCanonical stream (values.flatMap StoredType.float64.key) values.length 8
  | .fixedBinary byteWidth, values =>
    HoldsCanonical stream (values.flatMap StoredType.bytes.key) values.length byteWidth.toNat
  | .utf8, values | .categorical _, values | .binary, values =>
    stream.transform = transformRaw ∧ stream.bytes = values.flatMap StoredType.bytes.key

/-! ### What reading it costs -/

/-- What restoring canonical bytes asks for. -/
def splitCost (transform size : ℕ) : ℕ :=
  if transform = transformRaw then 0 else size

/-- What unpacking `count` values from `length` bytes asks for, beyond reading their streams. -/
def LogicalType.unpackCost (logicalType : LogicalType) (transform count length : ℕ) : ℕ :=
  match logicalType with
  | .bool => count * 9
  | .integer type => count * type.width
  | .date32 => count * 4
  | .decimal _ _ | .timestamp _ _ => count * 8
  | .float32 => splitCost transform (count * 4) + count * 4
  | .float64 => splitCost transform (count * 8) + count * 8
  | .fixedBinary byteWidth =>
    splitCost transform (count * byteWidth.toNat) + count * (byteWidth.toNat + 24)
  | .utf8 | .categorical _ | .binary => count * 4 + (length + count * 24)

theorem IntType.width_le_eight (type : IntType) : type.width ≤ 8 := by
  cases type <;> decide

namespace BlockDecoder

variable {decoder : BlockDecoder} {candidate : CandidateStream} {stream : StreamDescriptor}
  {column : Column}

/-! ### One stream -/

theorem booleans_decodes {values : List Bool} (h : decoder.Delivers candidate stream)
    (hcount : candidate.elementCount = values.length)
    (hrows : values.length ≤ defaultMaxRowsPerBlock)
    (hvalues : ∀ what,
      Transform.booleans candidate.bytes values.length candidate.transform what = .ok values) :
    Decodes (decoder.booleans stream column) (stream.readCost + values.length * 9)
      ⟨.bool, values⟩ := by
  have hlength : stream.elementCount = values.length := h.elementCount.trans hcount
  have hcharge : Decodes (Read.chargeBooleans values.length) (values.length * 9) () :=
    decodes_chargeElements (mul_le_u64Max hrows (by decide))
  rw [booleans, hlength, h.transform]
  refine .congr (.bind (h.bytes column) (.bind hcharge (.lift_bind (hvalues _)
    (Metered.costs_pure _)))) ?_
  rw [Nat.add_zero]

theorem integers_decodes (type : IntType) {values : List type.Value}
    (h : decoder.Delivers candidate stream) (hcount : candidate.elementCount = values.length)
    (hrows : values.length ≤ defaultMaxRowsPerBlock)
    (hvalues : ∀ what, Transform.integer type candidate.bytes values.length type.width type.signed
      candidate.transform what = .ok values) :
    Decodes (decoder.integers stream column type) (stream.readCost + values.length * type.width)
      ⟨.integer type, values⟩ := by
  have hlength : stream.elementCount = values.length := h.elementCount.trans hcount
  have hcharge : Decodes (Budget.chargeElements values.length type.width)
      (values.length * type.width) () :=
    decodes_chargeElements (mul_le_u64Max hrows (type.width_le_eight.trans (by decide)))
  rw [integers, hlength, h.transform]
  refine .congr (.bind (h.bytes column) (.bind hcharge (.lift_bind (hvalues _)
    (Metered.costs_pure _)))) ?_
  rw [Nat.add_zero]

theorem canonicalBytes_decodes {canonical : Bytes} {count width : ℕ}
    (hkind : stream.transform = candidate.transform) (hcount : stream.elementCount = count)
    (hrows : count ≤ defaultMaxRowsPerBlock) (hwidth : width ≤ u32Max)
    (hlength : canonical.length = count * width)
    (hholds : HoldsCanonical candidate canonical count width) :
    Decodes (Read.canonicalBytes candidate.bytes stream column width)
      (splitCost stream.transform (count * width)) canonical := by
  have hexpected : checkedMul count width = some (count * width) := by
    rw [checkedMul_eq_some]
    exact ⟨mul_le_u64Max hrows (hwidth.trans (by decide)), rfl⟩
  have hguard (error : Error) : failIf (canonical.length ≠ count * width) error = .ok () :=
    failIf_neg (by rw [hlength, not_not])
  rw [Read.canonicalBytes, hcount, hexpected]
  refine .lift_bind rfl ?_
  rcases hholds with ⟨htransform, rfl⟩ | ⟨htransform, hsplit⟩
  · rw [splitCost, if_pos (hkind.trans htransform)]
    simp only [if_pos (hkind.trans htransform)]
    exact .lift_bind rfl (.lift_bind (hguard _) (Metered.costs_pure _))
  · have hraw : ¬stream.transform = transformRaw := by rw [hkind, htransform]; decide
    rw [splitCost, if_neg hraw]
    simp only [if_neg hraw, if_pos (hkind.trans htransform)]
    refine .congr (.bind (decodes_charge _) (.lift_bind (hsplit _)
      (.lift_bind (hguard _) (Metered.costs_pure _)))) ?_
    rw [Nat.add_zero]

/-- The values of one width are cut out of the bytes they were stored as. -/
theorem chunksExact_keys (type : StoredType) (values : List type.Value) {width : ℕ}
    (hpos : 0 < width) (hkeys : ∀ value ∈ values, (type.key value).length = width) :
    Read.chunksExact width (values.flatMap type.key) = values.map type.key := by
  have hcount : (values.flatMap type.key).length / width = values.length := by
    rw [length_flatMap_of_forall hkeys, Nat.mul_div_cancel _ hpos]
  rw [Read.chunksExact, hcount]
  exact chunks_flatMap hkeys

/-- Floats are decoded from the canonical bytes of their bit patterns. -/
theorem floats_decodes {float : Read.Float} {canonical : Bytes} {count : ℕ} {dense : DenseValues}
    (h : decoder.Delivers candidate stream) (hcount : candidate.elementCount = count)
    (hrows : count ≤ defaultMaxRowsPerBlock)
    (hvalues : HoldsCanonical candidate canonical count float.width)
    (hlength : canonical.length = count * float.width) (hdense : float.values canonical = dense) :
    Decodes (decoder.floats stream column float) (stream.readCost +
      (splitCost stream.transform (count * float.width) + count * float.width)) dense := by
  have helements : stream.elementCount = count := h.elementCount.trans hcount
  have hwidth : float.width ≤ 8 := by cases float <;> decide
  have hcharge : Decodes (Budget.chargeElements count float.width) (count * float.width) () :=
    decodes_chargeElements (mul_le_u64Max hrows (hwidth.trans (by decide)))
  rw [floats, helements, ← hdense]
  exact .bind (h.bytes column) (.bind (canonicalBytes_decodes h.transform helements hrows
    (hwidth.trans (by decide)) hlength hvalues) (hcharge.map _))

theorem float_values_single (values : List UInt32) :
    Read.Float.values (values.flatMap StoredType.float32.key) .single = ⟨.float32, values⟩ := by
  have hread : (fun raw ↦ UInt32.ofNat (leNat raw)) ∘ StoredType.float32.key = id := by
    funext bits
    simp [StoredType.key]
  have hchunks := chunksExact_keys .float32 values (by decide)
    fun value _ ↦ length_leBytes 4 value.toNat
  rw [Read.Float.values, hchunks, List.map_map, hread, List.map_id]

theorem float_values_double (values : List UInt64) :
    Read.Float.values (values.flatMap StoredType.float64.key) .double = ⟨.float64, values⟩ := by
  have hread : (fun raw ↦ UInt64.ofNat (leNat raw)) ∘ StoredType.float64.key = id := by
    funext bits
    simp [StoredType.key]
  have hchunks := chunksExact_keys .float64 values (by decide)
    fun value _ ↦ length_leBytes 8 value.toNat
  rw [Read.Float.values, hchunks, List.map_map, hread, List.map_id]

theorem fixedBinary_decodes {values : List Bytes} {width : ℕ}
    (h : decoder.Delivers candidate stream) (hcount : candidate.elementCount = values.length)
    (hrows : values.length ≤ defaultMaxRowsPerBlock) (hpos : 0 < width) (hwidth : width ≤ u32Max)
    (hkeys : ∀ value ∈ values, value.length = width)
    (hvalues : HoldsCanonical candidate (values.flatMap StoredType.bytes.key) values.length width) :
    Decodes (decoder.fixedBinary stream column width) (stream.readCost +
        (splitCost stream.transform (values.length * width) + values.length * (width + 24)))
      ⟨.bytes, values⟩ := by
  have helements : stream.elementCount = values.length := h.elementCount.trans hcount
  have hsum : saturatingAdd width Read.valueHandleBytes = width + 24 := by
    simp only [saturatingAdd, Read.valueHandleBytes, u32Max, u64Max] at hwidth ⊢
    omega
  have hcharge : Decodes (Budget.chargeElements values.length (width + 24))
      (values.length * (width + 24)) () := by
    refine decodes_chargeElements (mul_le_u64Max hrows ?_)
    simp only [u32Max] at hwidth
    omega
  have hchunks : Read.chunksExact width (values.flatMap StoredType.bytes.key) = values :=
    (chunksExact_keys .bytes values hpos hkeys).trans (List.map_id values)
  have hdense : (⟨.bytes, values⟩ : DenseValues) =
      ⟨.bytes, Read.chunksExact width (values.flatMap StoredType.bytes.key)⟩ := by rw [hchunks]
  rw [fixedBinary, helements, hsum, hdense]
  have hlength : (values.flatMap StoredType.bytes.key).length = values.length * width :=
    length_flatMap_of_forall hkeys
  exact .bind (h.bytes column) (.bind (canonicalBytes_decodes h.transform helements hrows hwidth
    hlength hvalues) (hcharge.map _))

/-! ### Values that vary in width -/

/-- Splitting a concatenation by the lengths of its parts gives the parts. -/
theorem splitFrom_eq {payload : Bytes} (front : Bytes) {values : List Bytes}
    (hpayload : payload = front ++ values.flatten) (hlength : payload.length ≤ u64Max)
    (column : Column) :
    Read.splitFrom payload column front.length (values.map List.length) =
      .ok (payload.length, values) := by
  induction values generalizing front with
  | nil =>
    rw [hpayload, List.flatten_nil, List.append_nil]
    rfl
  | cons value values ih =>
    have happend : payload = (front ++ value) ++ values.flatten := by
      rw [hpayload, List.flatten_cons, List.append_assoc]
    have hstop : front.length + value.length ≤ payload.length := by
      rw [happend, List.length_append, List.length_append]
      omega
    have hslice : slice payload front.length value.length = value := by
      rw [happend]
      exact slice_append_middle _ _ _
    have hrest := ih _ happend
    rw [List.length_append] at hrest
    rw [List.map_cons, Read.splitFrom, checkedAdd_of_le (hstop.trans hlength), okOr, ok_bind,
      failIf_neg (Nat.not_lt.mpr hstop), ok_bind, hrest, ok_bind, hslice]
    rfl

theorem splitValues_eq {values : List Bytes} (hlength : values.flatten.length ≤ u64Max)
    (column : Column) :
    Read.splitValues values.flatten (values.map List.length) column = .ok ⟨.bytes, values⟩ := by
  have hsplit := splitFrom_eq [] (List.nil_append values.flatten).symm hlength column
  rw [List.length_nil] at hsplit
  simp only [Read.splitValues, hsplit, ok_bind]
  rw [failIf_neg (by rw [not_not]), ok_bind, pure_eq_ok]

/-- As many byte strings as a block may have rows are not too long together. -/
theorem length_flatten_le {values : List Bytes} (hrows : values.length ≤ defaultMaxRowsPerBlock)
    (hlengths : ∀ value ∈ values, value.length ≤ u32Max) : values.flatten.length ≤ u64Max := by
  have hsum : (values.map List.length).sum ≤ values.length * u32Max := by
    simpa using List.sum_le_card_nsmul (values.map List.length) u32Max (by simpa using hlengths)
  rw [← List.length_flatten] at hsum
  exact hsum.trans (mul_le_u64Max hrows (by decide))

/-- A candidate is the lengths stream of byte strings. -/
structure IsLengths (candidate : CandidateStream) (values : List Bytes) : Prop where
  transform : candidate.transform = transformRaw
  elementCount : candidate.elementCount = values.length
  bytes : candidate.bytes = lengthBytes (values.map List.length)

theorem lengths_decodes {streams : List StreamDescriptor} {kind : ℕ} {values : List Bytes}
    (hfinds : Finds streams kind stream) (h : decoder.Delivers candidate stream)
    (hlengths : IsLengths candidate values) (hrows : values.length ≤ defaultMaxRowsPerBlock)
    (hfits : ∀ value ∈ values, value.length ≤ u32Max) :
    Decodes (decoder.lengths streams column kind values.length)
      (stream.readCost + values.length * 4) (values.map List.length) := by
  have helements : stream.elementCount = values.length := h.elementCount.trans hlengths.elementCount
  have hexpect : Read.expectElements stream values.length column = .ok () :=
    failIf_neg (by rw [helements, not_not])
  have hcharge : Decodes (Budget.chargeElements values.length Read.lengthValueBytes)
      (values.length * 4) () :=
    decodes_chargeElements (mul_le_u64Max hrows (by decide))
  have hrows' : values.length ≤ u32Max := hrows.trans (by decide)
  have hread := lengths_lengthBytes (values.map List.length) (by simpa using hrows')
    (by simpa using hfits) (Read.description column "lengths")
  rw [List.length_map] at hread
  rw [lengths]
  refine .lift_bind (hfinds.requiredStream_eq column) (.lift_bind hexpect ?_)
  rw [helements, h.transform, hlengths.transform]
  have hbytes := h.bytes column
  rw [hlengths.bytes] at hbytes
  cases hdecode : Transform.lengths (lengthBytes (values.map List.length)) values.length
      transformRaw (Read.description column "lengths") with
  | error e =>
    rw [hdecode] at hread
    cases hread
  | ok decoded =>
    rw [hdecode] at hread
    rw [← Except.ok.inj hread]
    refine .congr (.bind hbytes (.bind hcharge (.lift_bind hdecode (Metered.costs_pure _)))) ?_
    rw [Nat.add_zero]

end BlockDecoder

/-! ### The values of a column -/

/-- The bytes reading the streams of one kind asks for. -/
def readCostOf (streams : List StreamDescriptor) (kind : ℕ) : ℕ :=
  ((streams.filter (·.kind = kind)).map StreamDescriptor.readCost).sum

theorem Finds.readCostOf_eq {streams : List StreamDescriptor} {kind : ℕ}
    {stream : StreamDescriptor} (h : Finds streams kind stream) :
    readCostOf streams kind = stream.readCost := by
  rw [readCostOf, h, List.map_singleton, List.sum_singleton]

theorem readCostOf_eq_zero {streams : List StreamDescriptor} {kind : ℕ}
    (h : streams.filter (·.kind = kind) = []) : readCostOf streams kind = 0 := by
  rw [readCostOf, h]
  rfl

namespace BlockDecoder

variable {decoder : BlockDecoder}

/-- The streams of a column hold dense values, under one kind and their lengths under another. -/
structure HoldsValues (decoder : BlockDecoder) (column : Column) (streams : List StreamDescriptor)
    (valuesKind lengthsKind : ℕ) (values : List column.logicalType.storedType.Value)
    (candidate : CandidateStream) (stream : StreamDescriptor) : Prop where
  finds : Finds streams valuesKind stream
  delivers : decoder.Delivers candidate stream
  elementCount : candidate.elementCount = values.length
  represents : Represents column.logicalType values candidate
  withLengths : Write.isVariableWidth column.logicalType = true → ∃ lengths beside,
    Finds streams lengthsKind beside ∧ decoder.Delivers lengths beside ∧
      IsLengths lengths (keysOf column.logicalType values)
  withoutLengths : Write.isVariableWidth column.logicalType = false →
    streams.filter (·.kind = lengthsKind) = []

/-- Dense values a column can store, in a block. -/
structure FitBlock (logicalType : LogicalType) (values : List logicalType.storedType.Value) :
    Prop where
  hasWidth : logicalType.HasWidth
  rows : values.length ≤ defaultMaxRowsPerBlock
  keys : ∀ value ∈ values, logicalType.FitsKey (logicalType.storedType.key value)

theorem byteValues_decodes_variable {column : Column} {streams : List StreamDescriptor}
    {valuesKind lengthsKind : ℕ} {values : List Bytes} {candidate lengths : CandidateStream}
    {stream beside : StreamDescriptor} (hfinds : Finds streams valuesKind stream)
    (h : decoder.Delivers candidate stream) (hcount : candidate.elementCount = values.length)
    (htransform : candidate.transform = transformRaw) (hbytes : candidate.bytes = values.flatten)
    (hbeside : Finds streams lengthsKind beside) (hlengths : decoder.Delivers lengths beside)
    (his : IsLengths lengths values) (hrows : values.length ≤ defaultMaxRowsPerBlock)
    (hfits : ∀ value ∈ values, value.length ≤ u32Max)
    (hvariable : Write.isVariableWidth column.logicalType = true) :
    Decodes (decoder.byteValues streams column valuesKind lengthsKind values.length)
      (readCostOf streams valuesKind + readCostOf streams lengthsKind +
        (values.length * 4 + (candidate.bytes.length + values.length * 24))) ⟨.bytes, values⟩ := by
  have helements : stream.elementCount = values.length := h.elementCount.trans hcount
  have hexpect : Read.expectElements stream values.length column = .ok () :=
    failIf_neg (by rw [helements, not_not])
  have hraw (error : Error) : failIf (stream.transform ≠ transformRaw) error = .ok () :=
    failIf_neg (by rw [h.transform, htransform, not_not])
  have hcharge : Decodes (Budget.chargeElements values.length Read.valueHandleBytes)
      (values.length * 24) () :=
    decodes_chargeElements (mul_le_u64Max hrows (by decide))
  have hsplit := splitValues_eq (length_flatten_le hrows hfits) column
  have hpayload := h.bytes column
  rw [hbytes] at hpayload
  rw [hfinds.readCostOf_eq, hbeside.readCostOf_eq, hbytes, byteValues]
  refine .lift_bind (hfinds.requiredStream_eq column) (.lift_bind hexpect ?_)
  have hrest : Decodes (do
      failIf (stream.transform ≠ transformRaw)
        (Read.corrupt column "variable-width values must use the raw transform")
      let lengths ← decoder.lengths streams column lengthsKind values.length
      let payload ← decoder.streamBytes stream column
      Budget.charge payload.length
      Budget.chargeElements values.length Read.valueHandleBytes
      Read.splitValues payload lengths column)
      (stream.readCost + beside.readCost +
        (values.length * 4 + (values.flatten.length + values.length * 24))) ⟨.bytes, values⟩ := by
    refine .lift_bind (hraw _) (.congr (.bind (lengths_decodes hbeside hlengths his hrows hfits)
      (.bind hpayload (.bind (decodes_charge _) (.bind hcharge (Metered.costs_lift hsplit))))) ?_)
    omega
  -- A column of any of these types takes this branch of the source.
  obtain ⟨id, name, logicalType, nullable⟩ := column
  cases logicalType with
  | utf8 | categorical _ | binary => exact hrest
  | _ => cases hvariable

theorem byteValues_decodes_fixed {id : UInt32} {name : String} {byteWidth : UInt32}
    {nullable : Bool} {streams : List StreamDescriptor} {valuesKind : ℕ} (lengthsKind : ℕ)
    {count cost : ℕ} {stream : StreamDescriptor} {dense : DenseValues}
    (hfinds : Finds streams valuesKind stream)
    (hcount : stream.elementCount = count)
    (h : Decodes (decoder.fixedBinary stream ⟨id, name, .fixedBinary byteWidth, nullable⟩
      byteWidth.toNat) cost dense) :
    Decodes (decoder.byteValues streams ⟨id, name, .fixedBinary byteWidth, nullable⟩ valuesKind
      lengthsKind count) cost dense := by
  have hexpect : Read.expectElements stream count ⟨id, name, .fixedBinary byteWidth, nullable⟩ =
      .ok () := failIf_neg (by rw [hcount, not_not])
  exact .lift_bind (hfinds.requiredStream_eq _) (.lift_bind hexpect h)

/-- **The values of a column are decoded** from the streams that hold them. -/
theorem layoutValues_decodes {column : Column} {streams : List StreamDescriptor}
    {valuesKind lengthsKind : ℕ} {values : List column.logicalType.storedType.Value}
    {candidate : CandidateStream} {stream : StreamDescriptor}
    (h : HoldsValues decoder column streams valuesKind lengthsKind values candidate stream)
    (hfit : FitBlock column.logicalType values) :
    Decodes (decoder.layoutValues streams stream column valuesKind lengthsKind values.length)
      (readCostOf streams valuesKind + readCostOf streams lengthsKind +
        column.logicalType.unpackCost candidate.transform values.length candidate.bytes.length)
      ⟨column.logicalType.storedType, values⟩ := by
  obtain ⟨hfinds, hdelivers, hcount, hrepresents, hwith, hwithout⟩ := h
  have hrows := hfit.rows
  have hlength : stream.elementCount = values.length := hdelivers.elementCount.trans hcount
  have hkeys := hfit.keys
  have hvalues : readCostOf streams valuesKind = stream.readCost := hfinds.readCostOf_eq
  obtain ⟨id, name, logicalType, nullable⟩ := column
  cases logicalType with
  | bool =>
    rw [hvalues, readCostOf_eq_zero (hwithout rfl)]
    exact booleans_decodes hdelivers hcount hrows hrepresents
  | integer type =>
    rw [hvalues, readCostOf_eq_zero (hwithout rfl)]
    exact integers_decodes type hdelivers hcount hrows hrepresents
  | date32 =>
    rw [hvalues, readCostOf_eq_zero (hwithout rfl)]
    exact integers_decodes .int32 hdelivers hcount hrows hrepresents
  | decimal _ _ | timestamp _ _ =>
    rw [hvalues, readCostOf_eq_zero (hwithout rfl)]
    exact integers_decodes .int64 hdelivers hcount hrows hrepresents
  | float32 =>
    have hbytes : (values.flatMap StoredType.float32.key).length = values.length * 4 :=
      length_flatMap_of_forall fun _ _ ↦ length_leBytes 4 _
    rw [hvalues, readCostOf_eq_zero (hwithout rfl), ← hdelivers.transform]
    exact floats_decodes hdelivers hcount hrows hrepresents hbytes (float_values_single values)
  | float64 =>
    have hbytes : (values.flatMap StoredType.float64.key).length = values.length * 8 :=
      length_flatMap_of_forall fun _ _ ↦ length_leBytes 8 _
    rw [hvalues, readCostOf_eq_zero (hwithout rfl), ← hdelivers.transform]
    exact floats_decodes hdelivers hcount hrows hrepresents hbytes (float_values_double values)
  | fixedBinary byteWidth =>
    rw [hvalues, readCostOf_eq_zero (hwithout rfl), ← hdelivers.transform]
    have hbound : byteWidth.toNat ≤ u32Max := by
      have hlt := byteWidth.toNat_lt
      simp only [u32Max]
      omega
    exact byteValues_decodes_fixed lengthsKind hfinds hlength (fixedBinary_decodes hdelivers hcount
      hrows (hfit.hasWidth.pos rfl) hbound hkeys hrepresents)
  | utf8 | categorical _ | binary =>
    obtain ⟨lengths, beside, hbeside, hlengths, his⟩ := hwith rfl
    have hkeysOf : keysOf _ values = values := List.map_id values
    rw [hkeysOf] at his
    have hflatten : candidate.bytes = values.flatten := by
      rw [hrepresents.2, List.flatMap_def]
      exact congrArg _ hkeysOf
    exact byteValues_decodes_variable hfinds hdelivers hcount hrepresents.1 hflatten hbeside
      hlengths his hrows hkeys rfl

/-- **A plain column is decoded** into the dense values its streams hold. -/
theorem plain_decodes {column : Column} {streams : List StreamDescriptor}
    {values : List column.logicalType.storedType.Value} {candidate : CandidateStream}
    {stream : StreamDescriptor}
    (h : HoldsValues decoder column streams streamKindValues streamKindLengths values candidate
      stream) (hfit : FitBlock column.logicalType values) :
    Decodes (decoder.plain streams column values.length)
      (readCostOf streams streamKindValues + readCostOf streams streamKindLengths +
        column.logicalType.unpackCost candidate.transform values.length candidate.bytes.length)
      ⟨column.logicalType.storedType, values⟩ := by
  have hlength : stream.elementCount = values.length :=
    h.delivers.elementCount.trans h.elementCount
  have hexpect : Read.expectElements stream values.length column = .ok () :=
    failIf_neg (by rw [hlength, not_not])
  have hvalues := layoutValues_decodes h hfit
  rw [layoutValues] at hvalues
  rw [plain]
  by_cases hbytes : Read.isByteValued column = true
  · rwa [if_pos hbytes] at hvalues ⊢
  · rw [if_neg hbytes] at hvalues ⊢
    exact .lift_bind (h.finds.requiredStream_eq column) (.lift_bind hexpect hvalues)

end BlockDecoder

end Acta
