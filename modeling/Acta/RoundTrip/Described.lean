import Acta.RoundTrip.Selected

/-!
# Streams that a descriptor can describe

A stream table describes a stream by its kind, its transform, its element count and its lengths, and
a read refuses what is out of range there.  No stream the writer selects is: a stream that decodes
into as many values as a block has rows is short (`Transform.length_le_of_integer`,
`Transform.length_le_of_booleans`), and one of byte strings is no longer than the values of the
column (`Selects.describable`).
-/

namespace Acta

open Machine Wire Candidates

/-! ### How long a stream is -/

namespace Transform

variable {payload : Bytes} {count width : ℕ} {signed : Bool} {what : String}

theorem BitUnpacker.length_le_of_new {unpacker : BitUnpacker}
    (h : BitUnpacker.new payload count what = .ok unpacker) : payload.length ≤ count * 8 + 1 := by
  unfold BitUnpacker.new at h
  split at h
  · cases h
  · rename_i first data
    obtain ⟨_, hwidth, h⟩ := bind_eq_ok.mp h
    rw [failIf_eq_ok, not_lt] at hwidth
    rw [List.length_cons]
    split at h
    · obtain ⟨_, hempty, -⟩ := bind_eq_ok.mp h
      rw [failIf_eq_ok, not_not] at hempty
      rw [hempty]
      exact Nat.le_add_left 1 _
    · obtain ⟨bitCount, hbits, h⟩ := bind_eq_ok.mp h
      obtain ⟨padded, hpadded, h⟩ := bind_eq_ok.mp h
      obtain ⟨_, hlength, -⟩ := bind_eq_ok.mp h
      rw [okOr_eq_ok, checkedMul_eq_some] at hbits
      rw [okOr_eq_ok, checkedAdd_eq_some] at hpadded
      rw [failIf_eq_ok, not_not] at hlength
      -- No value is packed wider than 64 bits.
      have hmul : count * first.toNat ≤ count * 64 := Nat.mul_le_mul_left _ hwidth
      omega

section Integers

variable {type : IntType} {values : List type.Value}

theorem length_le_of_frameOfReference (hwidth : width ≤ 8)
    (h : frameOfReference type payload count width signed what = .ok values) :
    payload.length ≤ count * 8 + 9 := by
  unfold frameOfReference at h
  split at h
  · obtain ⟨_, hempty, -⟩ := bind_eq_ok.mp h
    rw [failIf_eq_ok, not_not] at hempty
    rw [hempty]
    exact Nat.zero_le _
  · obtain ⟨_, -, h⟩ := bind_eq_ok.mp h
    obtain ⟨_, hnew, -⟩ := bind_eq_ok.mp h
    have hlength := BitUnpacker.length_le_of_new hnew
    rw [List.length_drop] at hlength
    omega

theorem length_le_of_delta (hwidth : width ≤ 8)
    (h : delta type payload count width signed what = .ok values) :
    payload.length ≤ count * 8 + 9 := by
  unfold delta at h
  split at h
  · obtain ⟨_, hempty, -⟩ := bind_eq_ok.mp h
    rw [failIf_eq_ok, not_not] at hempty
    rw [hempty]
    exact Nat.zero_le _
  · obtain ⟨_, -, h⟩ := bind_eq_ok.mp h
    obtain ⟨_, -, h⟩ := bind_eq_ok.mp h
    split at h
    · obtain ⟨_, hlength, -⟩ := bind_eq_ok.mp h
      rw [failIf_eq_ok, not_not] at hlength
      omega
    · obtain ⟨_, hnew, -⟩ := bind_eq_ok.mp h
      have hlength := BitUnpacker.length_le_of_new hnew
      rw [List.length_drop] at hlength
      omega

theorem length_le_of_deltaOfDelta (hwidth : width ≤ 8)
    (h : deltaOfDelta type payload count width signed what = .ok values) :
    payload.length ≤ count * 8 + 9 := by
  obtain ⟨_, hcount, h⟩ := bind_eq_ok.mp h
  obtain ⟨_, -, h⟩ := bind_eq_ok.mp h
  obtain ⟨stop, hstop, h⟩ := bind_eq_ok.mp h
  obtain ⟨_, -, h⟩ := bind_eq_ok.mp h
  obtain ⟨_, -, h⟩ := bind_eq_ok.mp h
  obtain ⟨_, -, h⟩ := bind_eq_ok.mp h
  obtain ⟨_, -, h⟩ := bind_eq_ok.mp h
  obtain ⟨_, hnew, -⟩ := bind_eq_ok.mp h
  rw [failIf_eq_ok, not_lt] at hcount
  rw [okOr_eq_ok, checkedAdd_eq_some] at hstop
  have hlength := BitUnpacker.length_le_of_new hnew
  rw [List.length_drop] at hlength
  omega

/-- **A stream that decodes into integers is short.** -/
theorem length_le_of_integer {transform : ℕ} (hwidth : width ≤ 8)
    (h : integer type payload count width signed transform what = .ok values) :
    transform ≤ transformBooleanRle ∧ payload.length ≤ count * 8 + 9 := by
  obtain ⟨_, -, h⟩ := bind_eq_ok.mp h
  split at h
  · obtain ⟨expected, hexpected, h⟩ := bind_eq_ok.mp h
    obtain ⟨_, hlength, -⟩ := bind_eq_ok.mp h
    rw [checkedByteCount, okOr_eq_ok, checkedMul_eq_some] at hexpected
    rw [failIf_eq_ok, not_not] at hlength
    have hmul : count * width ≤ count * 8 := Nat.mul_le_mul_left _ hwidth
    exact ⟨by decide, by omega⟩
  · obtain ⟨_, hnew, -⟩ := bind_eq_ok.mp h
    exact ⟨by decide, (BitUnpacker.length_le_of_new hnew).trans (by omega)⟩
  · exact ⟨by decide, length_le_of_frameOfReference hwidth h⟩
  · exact ⟨by decide, length_le_of_delta hwidth h⟩
  · exact ⟨by decide, length_le_of_deltaOfDelta hwidth h⟩
  · cases h

end Integers

/-- **A stream that decodes into flags is short.** -/
theorem length_le_of_booleans {transform : ℕ} {values : List Bool}
    (h : booleans payload count transform what = .ok values) :
    transform ≤ transformBooleanRle ∧ payload.length ≤ count * 9 + 9 := by
  unfold booleans at h
  split at h
  · obtain ⟨_, hpadded, h⟩ := bind_eq_ok.mp h
    obtain ⟨_, hlength, -⟩ := bind_eq_ok.mp h
    rw [okOr_eq_ok, checkedAdd_eq_some] at hpadded
    rw [failIf_eq_ok, not_not] at hlength
    exact ⟨by decide, by omega⟩
  · obtain ⟨_, hnew, -⟩ := bind_eq_ok.mp h
    exact ⟨by decide, (BitUnpacker.length_le_of_new hnew).trans (by omega)⟩
  · refine ⟨Nat.le_refl _, ?_⟩
    obtain ⟨stored, hstored, h⟩ := bind_eq_ok.mp h
    obtain ⟨_, hruns, h⟩ := bind_eq_ok.mp h
    rw [failIf_eq_ok, not_lt] at hruns
    split at h
    · obtain ⟨_, hempty, -⟩ := bind_eq_ok.mp h
      rw [failIf_eq_ok, not_or, not_not, not_not] at hempty
      omega
    · obtain ⟨_, -, h⟩ := bind_eq_ok.mp h
      obtain ⟨_, hnew, -⟩ := bind_eq_ok.mp h
      have hlength := BitUnpacker.length_le_of_new hnew
      rw [List.length_drop] at hlength
      omega
  · cases h

/-- Byte-stream split stores as many bytes as it restores. -/
theorem length_of_byteStreamSplit {canonical : Bytes}
    (h : byteStreamSplit payload count width what = .ok canonical) :
    payload.length = canonical.length := by
  obtain ⟨expected, hexpected, h⟩ := bind_eq_ok.mp h
  obtain ⟨_, hlength, h⟩ := bind_eq_ok.mp h
  cases h
  rw [checkedByteCount, okOr_eq_ok, checkedMul_eq_some] at hexpected
  rw [failIf_eq_ok, not_not] at hlength
  have hrows : ((List.range count).flatMap fun value ↦ (List.range width).map fun byte ↦
      payload[byte * count + value]?.getD 0).length = (List.range count).length * width :=
    length_flatMap_of_forall fun value _ ↦ by rw [List.length_map, List.length_range]
  rw [hrows, List.length_range, hlength, hexpected.2]

end Transform

/-! ### What a descriptor can describe -/

/-- A stream that is in range for a descriptor of the stream table. -/
structure Describable (candidate : CandidateStream) : Prop where
  kind : streamKindValidity ≤ candidate.kind ∧ candidate.kind ≤ streamKindRunLengths
  transform : candidate.transform ≤ transformBooleanRle
  elementCount : candidate.elementCount ≤ defaultMaxRowsPerBlock
  length : candidate.bytes.length ≤ defaultMaxFramePayloadLength

/-- As many values as a block has rows take few enough bytes. -/
theorem length_le_maxFramePayload {length count : ℕ} (h : length ≤ count * 9 + 9)
    (hcount : count ≤ defaultMaxRowsPerBlock) : length ≤ defaultMaxFramePayloadLength := by
  simp only [defaultMaxRowsPerBlock, defaultMaxFramePayloadLength] at hcount ⊢
  omega

section Represents

variable {logicalType : LogicalType} {values : List logicalType.storedType.Value}
  {stream : CandidateStream} {candidates : List CandidateStream}

/-- The bytes of the keys of values. -/
def keyBytes (logicalType : LogicalType) (values : List logicalType.storedType.Value) : ℕ :=
  (values.flatMap logicalType.storedType.key).length

theorem HoldsCanonical.describes {canonical : Bytes} {count width : ℕ}
    (h : HoldsCanonical stream canonical count width) :
    stream.transform ≤ transformBooleanRle ∧ stream.bytes.length = canonical.length := by
  rcases h with ⟨htransform, hbytes⟩ | ⟨htransform, hsplit⟩
  · exact ⟨htransform ▸ by decide, by rw [hbytes]⟩
  · exact ⟨htransform ▸ by decide, Transform.length_of_byteStreamSplit (hsplit "")⟩

theorem describes_integer {type : IntType} {integers : List type.Value}
    (hcount : integers.length ≤ defaultMaxRowsPerBlock)
    (h : ∀ what, Transform.integer type stream.bytes integers.length type.width type.signed
      stream.transform what = .ok integers) :
    stream.transform ≤ transformBooleanRle ∧
      stream.bytes.length ≤ defaultMaxFramePayloadLength := by
  obtain ⟨htransform, hlength⟩ := Transform.length_le_of_integer type.width_le_eight (h "")
  exact ⟨htransform, length_le_maxFramePayload (hlength.trans (by omega)) hcount⟩

/-- **A stream that represents values is in range**, where the keys of the values are. -/
theorem Represents.describes (h : Represents logicalType values stream)
    (hcount : values.length ≤ defaultMaxRowsPerBlock)
    (hkeys : keyBytes logicalType values ≤ defaultMaxFramePayloadLength) :
    stream.transform ≤ transformBooleanRle ∧
      stream.bytes.length ≤ defaultMaxFramePayloadLength := by
  cases logicalType with
  | bool =>
    have hdecode : ∀ what,
      Transform.booleans stream.bytes values.length stream.transform what = .ok values := h
    obtain ⟨htransform, hlength⟩ := Transform.length_le_of_booleans (hdecode "")
    exact ⟨htransform, length_le_maxFramePayload hlength hcount⟩
  | integer type => exact describes_integer hcount h
  | date32 => exact @describes_integer _ .int32 values hcount h
  | decimal _ _ | timestamp _ _ => exact @describes_integer _ .int64 values hcount h
  | float32 | float64 | fixedBinary _ =>
    obtain ⟨htransform, hlength⟩ := HoldsCanonical.describes h
    exact ⟨htransform, hlength.trans_le hkeys⟩
  | utf8 | categorical _ | binary =>
    obtain ⟨htransform, hbytes⟩ := h
    refine ⟨htransform ▸ by decide, ?_⟩
    rw [hbytes]
    exact hkeys

/-- Streams that hold values are in range, whichever kinds they are of. -/
theorem Held.describable {valuesKind lengthsKind : ℕ} {candidate : CandidateStream}
    (h : Held logicalType valuesKind lengthsKind values candidates candidate)
    (hvalues : streamKindValidity ≤ valuesKind ∧ valuesKind ≤ streamKindRunLengths)
    (hlengths : streamKindValidity ≤ lengthsKind ∧ lengthsKind ≤ streamKindRunLengths)
    (hcount : values.length ≤ defaultMaxRowsPerBlock)
    (hkeys : keyBytes logicalType values ≤ defaultMaxFramePayloadLength) :
    ∀ stream ∈ candidates, Describable stream := by
  obtain ⟨htransform, hlength⟩ := h.represents.describes hcount hkeys
  have hraw : transformRaw ≤ transformBooleanRle := by decide
  rw [h.streams, lengthsBeside]
  refine List.forall_mem_cons.mpr
    ⟨⟨h.kind ▸ hvalues, htransform, h.elementCount ▸ hcount, hlength⟩, ?_⟩
  split
  · refine List.forall_mem_singleton.mpr ⟨hlengths, hraw, hcount, ?_⟩
    have hbytes : (lengthBytes ((keysOf logicalType values).map List.length)).length =
        values.length * 4 := by
      rw [length_lengthBytes, List.length_map, length_keysOf]
    refine length_le_maxFramePayload ?_ hcount
    rw [hbytes]
    omega
  · simp

theorem describable_packed {kind width : ℕ} {numbers : List ℕ}
    (hkind : streamKindValidity ≤ kind ∧ kind ≤ streamKindRunLengths)
    (hpacks : PacksIn width numbers) (hcount : numbers.length ≤ defaultMaxRowsPerBlock) :
    Describable (packedBeside kind width numbers) := by
  have htransform : transformBitPacked ≤ transformBooleanRle := by decide
  refine ⟨hkind, htransform, hcount, ?_⟩
  have hwidth := hpacks.bits_le
  have hmul : numbers.length * width ≤ numbers.length * 64 := Nat.mul_le_mul_left _ hwidth
  have hlength : (packedBeside kind width numbers).bytes.length =
      bitmapBytes (numbers.length * width) + 1 := by
    rw [packedBeside, List.length_cons, length_packBits, length_wordBits]
  refine length_le_maxFramePayload ?_ hcount
  rw [hlength, bitmapBytes]
  omega

/-- Some of the values have no more key bytes than all of them. -/
theorem keyBytes_le_of_sublist {chosen : List logicalType.storedType.Value}
    (h : chosen.Sublist values) : keyBytes logicalType chosen ≤ keyBytes logicalType values := by
  rw [keyBytes, keyBytes, List.flatMap_def, List.flatMap_def]
  exact (h.map _).flatten.length_le

/-- The values of runs are among the values they repeat, in the same order. -/
theorem sublist_expand_zip {α : Type} {chosen : List α} {lengths : List ℕ}
    (hlength : chosen.length = lengths.length) (hpositive : ∀ length ∈ lengths, 0 < length) :
    chosen.Sublist (Runs.expand (chosen.zip lengths)) := by
  induction chosen generalizing lengths with
  | nil => exact List.nil_sublist _
  | cons value chosen ih =>
    obtain ⟨length, lengths, rfl⟩ := List.exists_cons_of_length_eq_add_one hlength.symm
    obtain ⟨hpos, hrest⟩ := List.forall_mem_cons.mp hpositive
    rw [List.zip_cons_cons, Runs.expand, List.flatMap_cons]
    have hfirst : [value].Sublist (List.replicate length value) :=
      List.singleton_sublist.mpr (List.mem_replicate.mpr ⟨hpos.ne', rfl⟩)
    exact hfirst.append (ih (Nat.succ.inj hlength) hrest)

/-- **The streams of a layout are in range**, where the keys of the values are. -/
theorem Stands.describable {layout : ℕ} (h : Stands logicalType values layout candidates)
    (hne : values ≠ []) (hcount : values.length ≤ defaultMaxRowsPerBlock)
    (hkeys : keyBytes logicalType values ≤ defaultMaxFramePayloadLength) :
    ∀ stream ∈ candidates, Describable stream := by
  cases h with
  | plain held => exact held.describable (by decide) (by decide) hcount hkeys
  | @constant _ _ value same held =>
    have hmem : value ∈ values := by
      rw [same]
      exact List.mem_replicate.mpr ⟨fun hzero ↦ hne (List.length_eq_zero_iff.mp hzero), rfl⟩
    have hone : 1 ≤ defaultMaxRowsPerBlock := by decide
    exact held.describable (by decide) (by decide) hone
      ((keyBytes_le_of_sublist (List.singleton_sublist.mpr hmem)).trans hkeys)
  | @dictionary _ _ chosen indices width lookups used length_le bytes_le packs held =>
    have hindices : indices.length = values.length := by
      simpa using congrArg List.length lookups
    refine List.forall_mem_append.mpr ⟨held.describable (by decide) (by decide)
      (length_le.trans (by decide)) (bytes_le.trans (by decide)), List.forall_mem_singleton.mpr ?_⟩
    exact describable_packed (by decide) packs (hindices.trans_le hcount)
  | @runLength _ _ chosen lengths width expands positive length_eq packs held =>
    have hsublist := sublist_expand_zip length_eq positive
    rw [expands] at hsublist
    have hruns : lengths.length ≤ values.length := length_eq ▸ hsublist.length_le
    refine List.forall_mem_append.mpr ⟨held.describable (by decide) (by decide)
      (hsublist.length_le.trans hcount) ((keyBytes_le_of_sublist hsublist).trans hkeys),
      List.forall_mem_singleton.mpr ?_⟩
    exact describable_packed (by decide) packs (hruns.trans hcount)

/-- The layouts are numbered up to the last. -/
theorem Stands.layout_le {layout : ℕ} (h : Stands logicalType values layout candidates) :
    layout ≤ columnLayoutRunLength := by
  cases h with
  | plain _ | constant _ _ | dictionary _ _ _ _ _ _ | runLength _ _ _ _ _ => decide

end Represents

namespace Write

/-- The stream of a validity is in range. -/
theorem HoldsValidity.describable {bits : List Bool} {candidates : List CandidateStream}
    (h : HoldsValidity bits candidates) (hcount : bits.length ≤ defaultMaxRowsPerBlock) :
    ∀ stream ∈ candidates, Describable stream := by
  rw [HoldsValidity] at h
  split at h
  · rw [h]
    exact fun _ hmem ↦ absurd hmem List.not_mem_nil
  · obtain ⟨candidate, rfl, hkind, helements, hdecode⟩ := h
    obtain ⟨htransform, hlength⟩ := Transform.length_le_of_booleans (hdecode "")
    have hvalidity : streamKindValidity ≤ streamKindRunLengths := by decide
    rw [← hkind] at hvalidity
    exact List.forall_mem_singleton.mpr ⟨⟨hkind.ge, hvalidity⟩, htransform, helements ▸ hcount,
      length_le_maxFramePayload hlength hcount⟩

section Selects

variable {zstd : Zstd} {codec : WriterCodec} {level : ℤ} {column : Column} {bits : List Bool}
  {values : List column.logicalType.storedType.Value} {validity candidates : List CandidateStream}
  {selected : SelectedColumn}
  (h : Selects zstd codec level column bits values validity candidates selected)
include h

/-- **Whatever is selected for a column is in range**, where the keys of its values are. -/
theorem Selects.describable (hbits : bits.length ≤ defaultMaxRowsPerBlock)
    (hkeys : keyBytes column.logicalType values ≤ defaultMaxFramePayloadLength) :
    ∀ stream ∈ validity ++ candidates, Describable stream := by
  refine List.forall_mem_append.mpr ⟨h.holdsValidity.describable hbits, ?_⟩
  rcases eq_or_ne values [] with hnil | hne
  · rw [(h.absent hnil).1]
    exact fun _ hmem ↦ absurd hmem List.not_mem_nil
  · exact (h.stands hne).describable hne h.fits.rows hkeys

theorem Selects.layout_le : selected.layout ≤ columnLayoutRunLength := by
  rcases eq_or_ne values [] with hnil | hne
  · rw [(h.absent hnil).2]
    decide
  · exact (h.stands hne).layout_le

end Selects

end Write

end Acta
