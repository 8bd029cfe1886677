import Acta.Lib.Runs
import Acta.Read.Scan
import Mathlib.Algebra.Order.BigOperators.Group.List

/-!
# What a decode may materialize

The logical size of what a decode returns is at most what it charged
(`BlockDecoder.affords_block`).  Each step of a decode is covered by the charges made up to it, and
there is a rule for each way of composing steps (`Metered.Affords`); the steps themselves are the
layouts and the value types.

Copying a value into several positions is charged at the longest value.  That charge saturates at
the largest machine integer, but where it does at most one value is copied, and that one has been
paid for already (`size_le_of_copies`).
-/

namespace Acta

open Machine Wire

/-! ### Logical sizes -/

/-- The logical size of one dense value: its width, or its bytes and a handle. -/
def StoredType.valueSize : (type : StoredType) → type.Value → ℕ
  | .bool, _ => 1
  | .integer type, _ => type.width
  | .float32, _ => 4
  | .float64, _ => 8
  | .bytes, value => value.length + Read.valueHandleBytes

/-- The logical size of dense values. -/
def DenseValues.size (dense : DenseValues) : ℕ :=
  (dense.values.map dense.type.valueSize).sum

/-- The logical size of one value position: its width, or its bytes and a handle. -/
def ArrayType.valueSize : (type : ArrayType) → type.Value → ℕ
  | .bool, _ => 1
  | .integer type, _ => type.width
  | .float32, _ => 4
  | .float64, _ => 8
  | .decimal _ _, _ => 8
  | .timestamp _ _, _ => 8
  | .utf8, value => (utf8Bytes value).length + Read.valueHandleBytes
  | .categorical, value => (utf8Bytes value).length + Read.valueHandleBytes
  | .binary, value => value.length + Read.valueHandleBytes
  | .fixedBinary, value => value.length + Read.valueHandleBytes
  | .date32, _ => 4

/-- The logical size of a validity, a byte for each bit. -/
def validitySize (validity : Option (List Bool)) : ℕ :=
  (validity.map List.length).getD 0

/-- The logical size of an array: its values and its validity. -/
def LogicalArray.size (array : LogicalArray) : ℕ :=
  (array.values.map array.type.valueSize).sum + validitySize array.validity

/-- The logical size of a batch. -/
def RecordBatch.size (batch : RecordBatch) : ℕ :=
  (batch.columns.map LogicalArray.size).sum

/-! ### Copies -/

section Copies

theorem sum_map_le {α : Type} {values : List α} {size : α → ℕ} {bound : ℕ}
    (h : ∀ value ∈ values, size value ≤ bound) :
    (values.map size).sum ≤ values.length * bound := by
  have hsum : (values.map size).sum ≤ (values.map size).length • bound :=
    List.sum_le_card_nsmul _ _ fun n hn ↦ by
      obtain ⟨value, hvalue, rfl⟩ := List.mem_map.mp hn
      exact h value hvalue
  simpa using hsum

variable {dense : DenseValues}

/-- A value that is not the longest by saturation is covered by the charge for one copy. -/
theorem valueSize_le_valueBytes {value : dense.type.Value} (h : value ∈ dense.values)
    (hsaturated : dense.valueBytes < u64Max) : dense.type.valueSize value ≤ dense.valueBytes := by
  obtain ⟨type, values⟩ := dense
  cases type with
  | bytes =>
    have hlongest := (Runs.foldl_max_bounds (values.map List.length) 0).2 value.length
      (List.mem_map_of_mem h)
    simp only [DenseValues.valueBytes, saturatingAdd] at hsaturated ⊢
    simp only [StoredType.valueSize]
    omega
  | _ => exact le_rfl

/-- **Copies are covered by their charge** and by what has been paid for the values they copy. -/
theorem size_le_of_copies {copies : List dense.type.Value} {count : ℕ}
    (hcount : copies.length = count) (hmem : ∀ copy ∈ copies, copy ∈ dense.values)
    (hcharge : count * dense.valueBytes ≤ u64Max) :
    (copies.map dense.type.valueSize).sum ≤ dense.size + count * dense.valueBytes := by
  match copies, hcount with
  | [], _ => exact Nat.zero_le _
  | [copy], _ =>
    have hsingle : dense.type.valueSize copy ≤ dense.size :=
      List.single_le_sum (fun _ _ ↦ Nat.zero_le _) _
        (List.mem_map_of_mem (hmem copy List.mem_cons_self))
    simp only [List.map_cons, List.map_nil, List.sum_cons, List.sum_nil]
    omega
  | first :: second :: rest, hcount =>
    have hpos : 0 < u64Max := by decide
    have htwo : 2 ≤ count := by
      rw [← hcount]
      simp
    have hsaturated : dense.valueBytes < u64Max := by
      have hdouble := Nat.mul_le_mul_right dense.valueBytes htwo
      omega
    have hsum : ((first :: second :: rest).map dense.type.valueSize).sum ≤
        count * dense.valueBytes := by
      rw [← hcount]
      exact sum_map_le fun copy hcopy ↦ valueSize_le_valueBytes (hmem copy hcopy) hsaturated
    omega

end Copies

/-! ### Expansions -/

namespace Read

variable {α : Type} {column : Column} {values copies : List α}

theorem mem_of_repeatValue {count : ℕ} (h : repeatValue count column values = .ok copies) :
    copies.length = count ∧ ∀ copy ∈ copies, copy ∈ values := by
  unfold repeatValue at h
  split at h
  · cases h
    refine ⟨List.length_replicate, fun copy hcopy ↦ ?_⟩
    rw [List.eq_of_mem_replicate hcopy]
    exact List.mem_singleton_self _
  · cases h

theorem mem_of_lookup {indices : List ℕ} (h : lookup indices column values = .ok copies) :
    copies.length = indices.length ∧ ∀ copy ∈ copies, copy ∈ values := by
  refine ⟨length_of_mapM_eq_ok h, fun copy hcopy ↦ ?_⟩
  obtain ⟨index, -, hindex⟩ := exists_of_mapM_eq_ok h hcopy
  exact List.mem_of_getElem? (okOr_eq_ok.mp hindex)

theorem mem_of_expandRuns {lengths : List ℕ} (h : expandRuns lengths column values = .ok copies) :
    copies.length = lengths.sum ∧ ∀ copy ∈ copies, copy ∈ values := by
  obtain ⟨_, hlength, h⟩ := bind_eq_ok.mp h
  cases h
  rw [failIf_eq_ok, not_not] at hlength
  constructor
  · have hlengths : (values.zip lengths).map Prod.snd = lengths :=
      List.map_snd_zip (by omega)
    conv_rhs => rw [← hlengths]
    rw [List.length_flatMap]
    congr 1
    exact List.map_congr_left fun run _ ↦ List.length_replicate
  · intro copy hcopy
    obtain ⟨run, hrun, hmem⟩ := List.mem_flatMap.mp hcopy
    rw [List.eq_of_mem_replicate hmem]
    exact (List.of_mem_zip hrun).1

/-- A sum of lengths that does not overflow is their sum. -/
theorem foldlM_checkedAdd_eq_some {lengths : List ℕ} {start total : ℕ}
    (h : lengths.foldlM checkedAdd start = some total) : start + lengths.sum = total := by
  induction lengths generalizing start with
  | nil =>
    cases h
    rfl
  | cons length lengths ih =>
    rw [List.foldlM_cons, Option.bind_eq_bind, Option.bind_eq_some_iff] at h
    obtain ⟨next, hnext, h⟩ := h
    obtain ⟨-, rfl⟩ := checkedAdd_eq_some.mp hnext
    rw [List.sum_cons, ← ih h, Nat.add_assoc]

end Read

/-! ### Charges -/

namespace Budget

/-- A decode whose value is covered by what it charges and what has been paid before it. -/
abbrev Affords {α : Type} (paid : ℕ) (decode : DecodeM α) (size : α → ℕ) : Prop :=
  Metered.Affords Charge.decoded paid decode size

theorem affords_charge (paid bytes : ℕ) : Affords paid (charge bytes) fun _ ↦ paid + bytes :=
  Metered.affords_spend (Charge.bytes bytes)

theorem affords_chargeElements (paid count width : ℕ) :
    Affords paid (chargeElements count width) fun _ ↦ paid + count * width := by
  refine Metered.Affords.lift_bind fun bytes hbytes ↦ ?_
  obtain ⟨-, rfl⟩ := checkedMul_eq_some.mp (okOr_eq_ok.mp hbytes)
  exact affords_charge paid _

theorem affords_recordStream (paid bytes : ℕ) : Affords paid (recordStream bytes) fun _ ↦ paid :=
  (Metered.affords_spend (Charge.stream bytes)).mono fun _ _ ↦ Nat.le_add_right _ _

theorem affords_recordBytesRead (paid bytes : ℕ) :
    Affords paid (recordBytesRead bytes) fun _ ↦ paid :=
  (Metered.affords_spend (Charge.read bytes)).mono fun _ _ ↦ Nat.le_add_right _ _

/-- A charge for elements that was made did not overflow. -/
theorem mul_le_of_chargeElements {count width : ℕ}
    (h : (chargeElements count width).outcome = .ok ()) : count * width ≤ u64Max := by
  unfold chargeElements at h
  cases hmul : checkedMul count width with
  | none =>
    rw [hmul] at h
    cases h
  | some bytes => exact (checkedMul_eq_some.mp hmul).1

end Budget

/-! ### Layouts and arrays -/

namespace DenseValues

open Budget

variable {paid : ℕ} {dense : DenseValues} {column : Column}

/-- **An expansion that copies values is covered** by its charge. -/
theorem affords_copies {count : ℕ}
    {expansion : List dense.type.Value → Result (List dense.type.Value)}
    (h : ∀ copies, expansion dense.values = .ok copies →
      copies.length = count ∧ ∀ copy ∈ copies, copy ∈ dense.values) :
    Affords (paid + dense.size)
      (do chargeElements count dense.valueBytes; (dense.expand expansion : Result DenseValues))
      fun expanded ↦ paid + expanded.size := by
  refine (affords_chargeElements _ _ _).bind fun u hcharge ↦ ?_
  refine Metered.affords_lift fun expanded hexpand ↦ ?_
  obtain ⟨copies, hcopies, hexpanded⟩ := bind_eq_ok.mp hexpand
  cases hexpanded
  obtain ⟨hcount, hmem⟩ := h copies hcopies
  have hle := size_le_of_copies hcount hmem (mul_le_of_chargeElements hcharge)
  show paid + (copies.map dense.type.valueSize).sum ≤ _
  omega

theorem affords_repeated (count : ℕ) :
    Affords (paid + dense.size) (dense.repeated count column) fun expanded ↦ paid + expanded.size :=
  affords_copies fun _ ↦ Read.mem_of_repeatValue

theorem affords_expanded (indices : List ℕ) :
    Affords (paid + dense.size) (dense.expanded indices column)
      fun expanded ↦ paid + expanded.size :=
  affords_copies fun _ ↦ Read.mem_of_lookup

theorem affords_runs (lengths : List ℕ) :
    Affords (paid + dense.size) (dense.runs lengths column) fun expanded ↦
      paid + expanded.size := by
  refine Metered.Affords.lift_bind fun total htotal ↦ ?_
  have hsum := Read.foldlM_checkedAdd_eq_some (okOr_eq_ok.mp htotal)
  rw [Nat.zero_add] at hsum
  rw [← hsum]
  exact affords_copies fun _ ↦ Read.mem_of_expandRuns

end DenseValues

namespace Read

section Scatter

variable {α β : Type} {column : Column} {fallback : β} {convert : α → Result β} {sizeα : α → ℕ}
  {sizeβ : β → ℕ} {slot : ℕ}

/-- Scattered values are covered by the values and a slot for each row. -/
theorem sum_placeRows (hconvert : ∀ a b, convert a = .ok b → sizeβ b = sizeα a)
    (hfallback : sizeβ fallback ≤ slot) {bits : List Bool} {dense : List α} {values : List β}
    (h : placeRows column fallback convert bits dense = .ok values) :
    (values.map sizeβ).sum ≤ (dense.map sizeα).sum + bits.length * slot := by
  induction bits generalizing dense values with
  | nil =>
    cases h
    exact Nat.zero_le _
  | cons bit bits ih =>
    rw [List.length_cons, Nat.succ_mul]
    cases bit with
    | false =>
      obtain ⟨rest, hrest, h⟩ := bind_eq_ok.mp h
      cases h
      have hle := ih hrest
      rw [List.map_cons, List.sum_cons]
      omega
    | true =>
      cases dense with
      | nil => cases h
      | cons stored dense =>
        obtain ⟨value, hvalue, h⟩ := bind_eq_ok.mp h
        obtain ⟨rest, hrest, h⟩ := bind_eq_ok.mp h
        cases h
        have hle := ih hrest
        have hsame := hconvert stored value hvalue
        rw [List.map_cons, List.sum_cons, List.map_cons, List.sum_cons]
        omega

/-- A slot is charged for each row unless the values are moved into place. -/
def slotsCharged (column : Column) (validity : Option (List Bool)) (rows slot : ℕ) : ℕ :=
  if movesIntoPlace column validity then 0 else rows * slot

theorem sum_scatter {fallback : α} (hfallback : sizeα fallback ≤ slot)
    {validity : Option (List Bool)} {rows : ℕ} (hbits : ∀ bits ∈ validity, bits.length = rows)
    {dense values : List α} (h : scatter column fallback dense validity rows = .ok values) :
    (values.map sizeα).sum ≤ (dense.map sizeα).sum + slotsCharged column validity rows slot := by
  cases validity with
  | none =>
    obtain ⟨_, -, h⟩ := bind_eq_ok.mp h
    cases h
    exact Nat.le_add_right _ _
  | some bits =>
    obtain ⟨_, -, h⟩ := bind_eq_ok.mp h
    have hsame (a b : α) (hab : Except.ok a = (Except.ok b : Result α)) : sizeα b = sizeα a := by
      cases hab
      rfl
    have hle := sum_placeRows hsame hfallback h
    rw [hbits bits rfl] at hle
    exact hle

/-- The size of text is that of its bytes. -/
theorem size_asText {bytes : Bytes} {text : String} (h : asText column bytes = .ok text) :
    (utf8Bytes text).length + valueHandleBytes = StoredType.valueSize .bytes bytes := by
  rw [utf8Bytes_of_utf8Decode (okOr_eq_ok.mp h)]
  rfl

theorem map_size_asText {dense : List Bytes} {values : List String}
    (h : List.Forall₂ (fun bytes text ↦ asText column bytes = .ok text) dense values) :
    values.map (fun text ↦ (utf8Bytes text).length + valueHandleBytes) =
      dense.map (StoredType.valueSize .bytes) := by
  induction h with
  | nil => rfl
  | cons hvalue _ ih => rw [List.map_cons, List.map_cons, size_asText hvalue, ih]

theorem sum_intoText {validity : Option (List Bool)} {rows : ℕ}
    (hbits : ∀ bits ∈ validity, bits.length = rows) {dense : List Bytes} {values : List String}
    (h : intoText column dense validity rows = .ok values) :
    (values.map fun text ↦ (utf8Bytes text).length + valueHandleBytes).sum ≤
      (dense.map (StoredType.valueSize .bytes)).sum +
        slotsCharged column validity rows valueHandleBytes := by
  cases validity with
  | none =>
    obtain ⟨_, -, h⟩ := bind_eq_ok.mp h
    rw [map_size_asText (mapM_eq_ok.mp h)]
    exact Nat.le_add_right _ _
  | some bits =>
    obtain ⟨_, -, h⟩ := bind_eq_ok.mp h
    have hempty : (utf8Bytes "").length + valueHandleBytes ≤ valueHandleBytes := by decide
    have hle := sum_placeRows (fun _ _ ↦ size_asText) hempty h
    rw [hbits bits rfl] at hle
    exact hle

theorem sum_positions {validity : Option (List Bool)} {rows : ℕ}
    (hbits : ∀ bits ∈ validity, bits.length = rows) {logicalType : LogicalType}
    {dense : List logicalType.storedType.Value} {values : List logicalType.arrayType.Value}
    (h : positions column validity rows logicalType dense = .ok values) :
    (values.map logicalType.arrayType.valueSize).sum ≤
      (dense.map logicalType.storedType.valueSize).sum +
        slotsCharged column validity rows (DenseValues.slotBytes ⟨_, dense⟩) := by
  cases logicalType with
  | utf8 => exact sum_intoText hbits h
  | categorical => exact sum_intoText hbits h
  | _ =>
    refine sum_scatter ?_ hbits h
    exact Nat.le_refl _

end Scatter

end Read

namespace DenseValues

open Budget Read

variable {paid : ℕ} {dense : DenseValues} {column : Column} {validity : Option (List Bool)}
  {rows : ℕ} {array : LogicalArray}

theorem size_le_of_buildArray (hbits : ∀ bits ∈ validity, bits.length = rows)
    (h : buildArray column dense validity rows = .ok array) :
    array.size ≤ dense.size + slotsCharged column validity rows dense.slotBytes +
      validitySize validity := by
  obtain ⟨type, values⟩ := dense
  unfold buildArray at h
  split at h
  · rename_i htype
    dsimp only at htype
    subst htype
    obtain ⟨placed, hplaced, harray⟩ := bind_eq_ok.mp h
    cases harray
    exact Nat.add_le_add_right (sum_positions hbits hplaced) _
  · cases h

/-- **An array is covered** by the dense values it takes, its validity and the slots charged for. -/
theorem affords_intoArray :
    Affords (paid + validitySize validity + dense.size) (dense.intoArray column validity rows)
      fun array ↦ paid + array.size := by
  have hbuild : Affords (paid + validitySize validity + dense.size +
        slotsCharged column validity rows dense.slotBytes)
      (do failIf (validity.any (·.length ≠ rows))
            (corrupt column "validity bitmap has the wrong row count")
          buildArray column dense validity rows) fun array ↦ paid + array.size := by
    refine Metered.Affords.lift_bind fun _ hrows ↦ ?_
    refine Metered.affords_lift fun array harray ↦ ?_
    have hbits (bits : List Bool) (hbits : bits ∈ validity) : bits.length = rows := by
      rw [failIf_eq_ok] at hrows
      by_contra hne
      refine hrows ?_
      cases hbits
      simpa using hne
    have hle := size_le_of_buildArray hbits harray
    omega
  unfold intoArray
  unfold slotsCharged at hbuild
  split at hbuild
  · rename_i hmoves
    simp only [hmoves, if_true]
    exact hbuild
  · rename_i hmoves
    simp only [hmoves]
    exact (affords_chargeElements _ _ _).bind fun _ _ ↦ hbuild

end DenseValues

/-! ### Streams -/

namespace Read

theorem length_readExactAt {file stored : Bytes} {offset length : ℕ}
    (h : readExactAt file offset length = .ok stored) : stored.length = length := by
  unfold readExactAt at h
  split at h
  · rename_i hread
    cases h
    rcases hread with rfl | hread
    · rw [slice_length_zero]
      rfl
    · exact length_slice_of_le hread
  · cases h

theorem length_decompress {zstd : Zstd} {codec length : ℕ} {stored transformed : Bytes}
    (h : decompress zstd codec stored length = .ok transformed) : transformed.length = length := by
  unfold decompress at h
  split at h
  · obtain ⟨_, -, h⟩ := bind_eq_ok.mp h
    obtain ⟨_, hlength, h⟩ := bind_eq_ok.mp h
    cases h
    rwa [failIf_eq_ok, not_not] at hlength
  · cases h

/-- The values of a byte-values stream are cut from it one after another. -/
theorem length_splitFrom {payload : Bytes} {column : Column} {lengths : List ℕ}
    {offset last : ℕ} {values : List Bytes}
    (h : splitFrom payload column offset lengths = .ok (last, values)) :
    values.length = lengths.length ∧ offset + (values.map List.length).sum = last := by
  induction lengths generalizing offset last values with
  | nil =>
    cases h
    exact ⟨rfl, rfl⟩
  | cons length lengths ih =>
    obtain ⟨stop, hstop, h⟩ := bind_eq_ok.mp h
    obtain ⟨_, hfits, h⟩ := bind_eq_ok.mp h
    obtain ⟨⟨last', rest⟩, hrest, h⟩ := bind_eq_ok.mp h
    cases h
    obtain ⟨hcount, hsum⟩ := ih hrest
    rw [okOr_eq_ok, checkedAdd_eq_some] at hstop
    rw [failIf_eq_ok, not_lt] at hfits
    have hslice : (slice payload offset length).length = length :=
      length_slice_of_le (by omega)
    refine ⟨by rw [List.length_cons, List.length_cons, hcount], ?_⟩
    rw [List.map_cons, List.sum_cons, hslice]
    omega

theorem sum_map_valueSize (values : List Bytes) :
    (values.map (StoredType.valueSize .bytes)).sum =
      (values.map List.length).sum + values.length * valueHandleBytes := by
  induction values with
  | nil => rfl
  | cons value values ih =>
    rw [List.map_cons, List.sum_cons, List.map_cons, List.sum_cons, List.length_cons, ih,
      StoredType.valueSize]
    ring

theorem size_of_splitValues {payload : Bytes} {lengths : List ℕ} {column : Column}
    {dense : DenseValues} (h : splitValues payload lengths column = .ok dense) :
    dense.size = payload.length + lengths.length * valueHandleBytes := by
  obtain ⟨⟨last, values⟩, hsplit, h⟩ := bind_eq_ok.mp h
  obtain ⟨_, hlast, h⟩ := bind_eq_ok.mp h
  cases h
  obtain ⟨hcount, hsum⟩ := length_splitFrom hsplit
  rw [failIf_eq_ok, not_not] at hlast
  show (values.map (StoredType.valueSize .bytes)).sum = _
  rw [sum_map_valueSize, hcount]
  omega

/-- Values cut to one width take that width and a handle each. -/
theorem size_chunksExact_le (width : ℕ) (bytes : Bytes) :
    (⟨.bytes, chunksExact width bytes⟩ : DenseValues).size ≤
      bytes.length / width * (width + valueHandleBytes) := by
  have hlength : (chunksExact width bytes).length = bytes.length / width := by
    rw [chunksExact, Transform.chunks, List.length_map, List.length_range]
  rw [← hlength]
  refine sum_map_le fun chunk hchunk ↦ ?_
  obtain ⟨position, -, rfl⟩ := List.mem_map.mp hchunk
  rw [StoredType.valueSize, length_slice]
  omega

theorem size_floatValues (canonical : Bytes) (float : Read.Float) :
    (float.values canonical).size = canonical.length / float.width * float.width := by
  cases float <;>
  simp [Float.values, DenseValues.size, StoredType.valueSize, chunksExact, Transform.chunks,
    Float.width, Function.comp_def]

end Read

namespace BlockDecoder

open Budget Read

variable {decoder : BlockDecoder} {paid : ℕ} {column : Column} {stream : StreamDescriptor}
  {streams : List StreamDescriptor}

/-- The bytes of a stream are covered, stored and decompressed. -/
theorem affords_streamBytes :
    Affords paid (decoder.streamBytes stream column) fun payload ↦ paid + payload.length := by
  refine Metered.Affords.lift_bind fun offset _ ↦ ?_
  refine (affords_charge _ _).bind fun _ _ ↦ ?_
  refine Metered.Affords.lift_bind fun stored hstored ↦ ?_
  split
  · refine (affords_recordStream _ _).bind fun _ _ ↦ ?_
    refine Metered.affords_pure ?_
    obtain ⟨bytes, hread, hcrc⟩ := bind_eq_ok.mp hstored
    obtain ⟨_, -, hbytes⟩ := bind_eq_ok.mp hcrc
    cases hbytes
    rw [length_readExactAt hread]
  · refine (affords_charge _ _).bind fun _ _ ↦ ?_
    refine Metered.Affords.lift_bind fun transformed htransformed ↦ ?_
    refine (affords_recordStream _ _).bind fun _ _ ↦ ?_
    refine Metered.affords_pure ?_
    rw [withMessagePrefix_eq_ok] at htransformed
    rw [length_decompress htransformed]
    omega

/-- Packed values are covered at eight bytes each. -/
theorem affords_unpack {count : ℕ} {what : String} :
    Affords paid (decoder.unpack stream column count what)
      fun values ↦ paid + values.length * unpackedValueBytes := by
  refine Metered.Affords.lift_bind fun _ _ ↦ ?_
  refine affords_streamBytes.bind fun payload _ ↦ ?_
  refine (affords_chargeElements _ _ _).bind fun _ _ ↦ ?_
  refine Metered.affords_lift fun values hvalues ↦ ?_
  rw [Transform.length_bitUnpack hvalues]
  omega

theorem affords_lengths {kind count : ℕ} :
    Affords paid (decoder.lengths streams column kind count)
      fun lengths ↦ paid + lengths.length * lengthValueBytes := by
  refine Metered.Affords.lift_bind fun stream _ ↦ ?_
  refine Metered.Affords.lift_bind fun _ hcount ↦ ?_
  refine affords_streamBytes.bind fun payload _ ↦ ?_
  refine (affords_chargeElements _ _ _).bind fun _ _ ↦ ?_
  refine Metered.Affords.lift_bind fun lengths hlengths ↦ ?_
  refine Metered.affords_pure ?_
  rw [expectElements, failIf_eq_ok, not_not] at hcount
  rw [List.length_map, Transform.length_integer hlengths, hcount]
  omega

/-- A lengths stream gives as many lengths as are asked for. -/
theorem length_of_lengths {kind count : ℕ} {lengths : List ℕ}
    (h : (decoder.lengths streams column kind count).outcome = .ok lengths) :
    lengths.length = count := by
  obtain ⟨stream, -, h⟩ := Metered.outcome_bind_eq_ok.mp h
  obtain ⟨_, hcount, h⟩ := Metered.outcome_bind_eq_ok.mp h
  obtain ⟨payload, -, h⟩ := Metered.outcome_bind_eq_ok.mp h
  obtain ⟨_, -, h⟩ := Metered.outcome_bind_eq_ok.mp h
  obtain ⟨values, hvalues, h⟩ := Metered.outcome_bind_eq_ok.mp h
  cases h
  have hdecoded : Transform.lengths payload stream.elementCount stream.transform
      (description column "lengths") = .ok values := hvalues
  have hexpected := failIf_eq_ok.mp hcount
  rw [List.length_map, Transform.length_integer hdecoded]
  omega

/-! ### Stored values -/

theorem affords_booleans :
    Affords paid (decoder.booleans stream column) fun dense ↦ paid + dense.size := by
  refine affords_streamBytes.bind fun payload _ ↦ ?_
  refine (affords_chargeElements _ _ _).bind fun _ _ ↦ ?_
  refine Metered.Affords.lift_bind fun values hvalues ↦ ?_
  refine Metered.affords_pure ?_
  have hsize : (⟨.bool, values⟩ : DenseValues).size ≤ values.length * 1 :=
    sum_map_le fun _ _ ↦ le_rfl
  rw [Transform.length_booleans hvalues] at hsize
  rw [booleanValueBytes, unpackedValueBytes]
  omega

theorem affords_integers {type : IntType} :
    Affords paid (decoder.integers stream column type) fun dense ↦ paid + dense.size := by
  refine affords_streamBytes.bind fun payload _ ↦ ?_
  refine (affords_chargeElements _ _ _).bind fun _ _ ↦ ?_
  refine Metered.Affords.lift_bind fun values hvalues ↦ ?_
  refine Metered.affords_pure ?_
  have hsize : (⟨.integer type, values⟩ : DenseValues).size ≤ values.length * type.width :=
    sum_map_le fun _ _ ↦ le_rfl
  rw [Transform.length_integer hvalues] at hsize
  omega

theorem length_of_canonicalBytes {payload canonical : Bytes} {width : ℕ}
    (h : (canonicalBytes payload stream column width).outcome = .ok canonical) :
    canonical.length = stream.elementCount * width := by
  obtain ⟨expected, hexpected, h⟩ := Metered.outcome_bind_eq_ok.mp h
  obtain ⟨_, rfl⟩ := checkedMul_eq_some.mp (okOr_eq_ok.mp hexpected)
  have hchecked (restored : Bytes) {e : Error}
      (h : (do failIf (restored.length ≠ stream.elementCount * width) e; pure restored :
        DecodeM Bytes).outcome = .ok canonical) :
      canonical.length = stream.elementCount * width := by
    obtain ⟨_, hlength, h⟩ := Metered.outcome_bind_eq_ok.mp h
    cases h
    exact not_not.mp (failIf_eq_ok.mp hlength)
  dsimp only at h
  split at h
  · exact hchecked _ h
  split at h
  · obtain ⟨_, -, h⟩ := Metered.outcome_bind_eq_ok.mp h
    obtain ⟨restored, -, h⟩ := Metered.outcome_bind_eq_ok.mp h
    exact hchecked restored h
  · cases h

theorem affords_floats {float : Read.Float} :
    Affords paid (decoder.floats stream column float) fun dense ↦ paid + dense.size := by
  refine affords_streamBytes.bind fun payload _ ↦ ?_
  refine (Metered.affords_paid _).bind fun canonical hcanonical ↦ ?_
  refine (affords_chargeElements _ _ _).bind fun _ _ ↦ ?_
  refine Metered.affords_pure ?_
  have hpos : 0 < float.width := by cases float <;> decide
  rw [size_floatValues, length_of_canonicalBytes hcanonical, Nat.mul_div_cancel _ hpos]
  omega

theorem affords_fixedBinary {width : ℕ} (hwidth : width + valueHandleBytes ≤ u64Max) :
    Affords paid (decoder.fixedBinary stream column width) fun dense ↦ paid + dense.size := by
  refine affords_streamBytes.bind fun payload _ ↦ ?_
  refine (Metered.affords_paid _).bind fun canonical hcanonical ↦ ?_
  refine (affords_chargeElements _ _ _).bind fun _ _ ↦ ?_
  refine Metered.affords_pure ?_
  have hcharge : saturatingAdd width valueHandleBytes = width + valueHandleBytes :=
    Nat.min_eq_left hwidth
  have hcount : canonical.length / width ≤ stream.elementCount := by
    rw [length_of_canonicalBytes hcanonical]
    exact Nat.div_le_of_le_mul (Nat.mul_comm _ _).le
  have hsize := size_chunksExact_le width canonical
  have hmul := Nat.mul_le_mul_right (width + valueHandleBytes) hcount
  rw [hcharge]
  omega

theorem fixedWidth_le (byteWidth : UInt32) : byteWidth.toNat + valueHandleBytes ≤ u64Max := by
  have hlt := byteWidth.toNat_lt
  rw [valueHandleBytes, u64Max]
  omega

theorem affords_storedValues :
    Affords paid (decoder.storedValues stream column) fun dense ↦ paid + dense.size := by
  unfold storedValues
  split
  · exact affords_booleans
  · exact affords_integers
  · exact affords_integers
  · exact affords_integers
  · exact affords_integers
  · exact affords_floats
  · exact affords_floats
  · exact affords_fixedBinary (fixedWidth_le _)
  all_goals
    rintro dense ⟨⟩

theorem affords_byteValues {valuesKind lengthsKind count : ℕ} :
    Affords paid (decoder.byteValues streams column valuesKind lengthsKind count)
      fun dense ↦ paid + dense.size := by
  refine Metered.Affords.lift_bind fun stream _ ↦ ?_
  refine Metered.Affords.lift_bind fun _ _ ↦ ?_
  split
  · exact affords_fixedBinary (fixedWidth_le _)
  · refine Metered.Affords.lift_bind fun _ _ ↦ ?_
    refine affords_lengths.bind fun lengths hlengths ↦ ?_
    refine affords_streamBytes.bind fun payload _ ↦ ?_
    refine (affords_charge _ _).bind fun _ _ ↦ ?_
    refine (affords_chargeElements _ _ _).bind fun _ _ ↦ ?_
    refine Metered.affords_lift fun dense hdense ↦ ?_
    rw [size_of_splitValues hdense, length_of_lengths hlengths]
    omega

/-! ### Layouts -/

theorem affords_plain {count : ℕ} :
    Affords paid (decoder.plain streams column count) fun dense ↦ paid + dense.size := by
  unfold plain
  split
  · exact affords_byteValues
  · refine Metered.Affords.lift_bind fun stream _ ↦ ?_
    exact Metered.Affords.lift_bind fun _ _ ↦ affords_storedValues

theorem affords_layoutValues {valuesKind lengthsKind count : ℕ} :
    Affords paid (decoder.layoutValues streams stream column valuesKind lengthsKind count)
      fun dense ↦ paid + dense.size := by
  unfold layoutValues
  split
  · exact affords_byteValues
  · exact affords_storedValues

theorem affords_constant {count : ℕ} :
    Affords paid (decoder.constant streams column count) fun dense ↦ paid + dense.size :=
  affords_plain.bind fun value _ ↦ value.affords_repeated count

theorem affords_dictionary {count : ℕ} :
    Affords paid (decoder.dictionary streams column count) fun dense ↦ paid + dense.size := by
  refine (Metered.affords_paid _).bind fun indices _ ↦ ?_
  refine Metered.Affords.lift_bind fun stream _ ↦ ?_
  refine Metered.Affords.lift_bind fun _ _ ↦ ?_
  exact affords_layoutValues.bind fun dictionary _ ↦ dictionary.affords_expanded indices

theorem affords_runLength {count : ℕ} :
    Affords paid (decoder.runLength streams column count) fun dense ↦ paid + dense.size := by
  refine (Metered.affords_paid _).bind fun lengths _ ↦ ?_
  refine Metered.Affords.lift_bind fun stream _ ↦ ?_
  refine Metered.Affords.lift_bind fun _ _ ↦ ?_
  exact affords_layoutValues.bind fun values _ ↦ values.affords_runs lengths

theorem affords_denseValues {descriptor : ColumnBlockDescriptor} {count : ℕ} :
    Affords paid (decoder.denseValues streams column descriptor count)
      fun dense ↦ paid + dense.size := by
  unfold denseValues
  split
  · exact affords_plain
  split
  · exact affords_constant
  split
  · exact affords_dictionary
  split
  · exact affords_runLength
  · rintro dense ⟨⟩

/-! ### Columns -/

variable {descriptor : ColumnBlockDescriptor} {rows : ℕ}

theorem affords_implicitValidity {found : Option StreamDescriptor} :
    Affords paid (implicitValidity column descriptor found rows)
      fun validity ↦ paid + validitySize validity := by
  refine Metered.Affords.lift_bind fun _ _ ↦ ?_
  split
  · exact Metered.affords_pure le_rfl
  · refine Metered.Affords.lift_bind fun _ _ ↦ ?_
    refine (affords_chargeElements _ _ _).bind fun _ _ ↦ ?_
    refine Metered.affords_pure ?_
    rw [booleanValueBytes, Nat.mul_one]
    exact Nat.add_le_add_left List.length_replicate.le _

theorem affords_storedValidity :
    Affords paid (decoder.storedValidity column descriptor stream rows)
      fun validity ↦ paid + validitySize validity := by
  refine Metered.Affords.lift_bind fun _ hcount ↦ ?_
  refine affords_streamBytes.bind fun payload _ ↦ ?_
  refine (affords_chargeElements _ _ _).bind fun _ _ ↦ ?_
  refine Metered.Affords.lift_bind fun bits hbits ↦ ?_
  refine Metered.Affords.lift_bind fun _ _ ↦ ?_
  refine Metered.affords_pure ?_
  rw [expectElements, failIf_eq_ok, not_not] at hcount
  show paid + bits.length ≤ _
  rw [Transform.length_booleans hbits, hcount, booleanValueBytes, unpackedValueBytes]
  omega

theorem affords_validity :
    Affords paid (decoder.validity streams column descriptor rows)
      fun validity ↦ paid + validitySize validity := by
  refine Metered.Affords.lift_bind fun found _ ↦ ?_
  split
  · refine Metered.Affords.lift_bind fun _ _ ↦ ?_
    exact Metered.affords_pure le_rfl
  split
  · exact affords_implicitValidity
  split
  · exact affords_storedValidity
  · refine Metered.Affords.lift_bind fun _ _ ↦ ?_
    exact Metered.affords_pure le_rfl

/-- **A decoded column is covered** by what its decode charges. -/
theorem affords_column :
    Affords paid (decoder.column column descriptor rows) fun array ↦ paid + array.size := by
  refine Metered.Affords.lift_bind fun streams _ ↦ ?_
  refine Metered.Affords.lift_bind fun _ _ ↦ ?_
  refine affords_validity.bind fun validity _ ↦ ?_
  have hrest (dense : DenseValues) :
      Affords (paid + validitySize validity + dense.size)
        (do let array ← dense.intoArray column validity rows
            Validate.verifyColumnStatistics decoder.file decoder.fileSize decoder.frame descriptor
              column array decoder.limits
            Budget.recordBytesRead descriptor.statsLength
            return array) fun array ↦ paid + array.size := by
    refine dense.affords_intoArray.bind fun array _ ↦ ?_
    refine Metered.Affords.lift_bind fun _ _ ↦ ?_
    exact (affords_recordBytesRead _ _).bind fun _ _ ↦ Metered.affords_pure le_rfl
  split
  · refine Metered.Affords.lift_bind fun dense hdense ↦ ?_
    obtain ⟨_, -, hdense⟩ := bind_eq_ok.mp hdense
    obtain ⟨_, -, hdense⟩ := bind_eq_ok.mp hdense
    cases hdense
    exact hrest (.empty column)
  · exact affords_denseValues.bind fun dense _ ↦ hrest dense

theorem affords_decodedColumn {schema : Schema} {index : ℕ} :
    Affords paid (decoder.decodedColumn schema index rows) fun array ↦ paid + array.size := by
  refine Metered.Affords.lift_bind fun column _ ↦ ?_
  exact Metered.Affords.lift_bind fun descriptor _ ↦ affords_column

/-! ### The block -/

/-- The logical size of the arrays that have been decoded. -/
def Arrays.size (arrays : Arrays) : ℕ :=
  (arrays.map fun array ↦ (array.map LogicalArray.size).getD 0).sum

theorem Arrays.size_replicate (count : ℕ) : Arrays.size (List.replicate count none) = 0 := by
  rw [Arrays.size, List.map_replicate, List.sum_replicate]
  rfl

theorem Arrays.size_set_le (arrays : Arrays) (index : ℕ) (array : LogicalArray) :
    Arrays.size (arrays.set index (some array)) ≤ Arrays.size arrays + array.size := by
  induction arrays generalizing index with
  | nil => exact Nat.zero_le _
  | cons first rest ih =>
    cases index with
    | zero =>
      simp only [Arrays.size, List.set_cons_zero, List.map_cons, List.sum_cons, Option.map_some,
        Option.getD_some]
      omega
    | succ index =>
      have hle := ih index
      simp only [Arrays.size, List.set_cons_succ, List.map_cons, List.sum_cons] at hle ⊢
      omega

/-- Taking an array out takes its size. -/
theorem Arrays.size_set_none {arrays : Arrays} {index : ℕ} {array : LogicalArray}
    (h : arrays[index]? = some (some array)) :
    Arrays.size (arrays.set index none) + array.size = Arrays.size arrays := by
  induction arrays generalizing index with
  | nil => cases h
  | cons first rest ih =>
    cases index with
    | zero =>
      cases h
      simp only [Arrays.size, List.set_cons_zero, List.map_cons, List.sum_cons, Option.map_some,
        Option.getD_some, Option.map_none, Option.getD_none]
      omega
    | succ index =>
      have heq := ih h
      simp only [Arrays.size, List.set_cons_succ, List.map_cons, List.sum_cons] at heq ⊢
      omega

/-- No array is handed out twice. -/
theorem size_takeArrays_le {indices : List ℕ} {arrays : Arrays} {taken : List LogicalArray}
    (h : takeArrays indices arrays = .ok taken) :
    (taken.map LogicalArray.size).sum ≤ Arrays.size arrays := by
  induction indices generalizing arrays taken with
  | nil =>
    cases h
    exact Nat.zero_le _
  | cons index indices ih =>
    obtain ⟨array, harray, h⟩ := bind_eq_ok.mp h
    obtain ⟨rest, hrest, h⟩ := bind_eq_ok.mp h
    cases h
    rw [okOr_eq_ok, Option.join_eq_some_iff] at harray
    have hout := Arrays.size_set_none harray
    have hle := ih hrest
    rw [List.map_cons, List.sum_cons]
    omega

theorem affords_decodeInto {schema : Schema} (arrays : Arrays) (index : ℕ) :
    Affords (Arrays.size arrays) (decoder.decodeInto schema rows arrays index) Arrays.size := by
  refine affords_decodedColumn.bind fun array _ ↦ ?_
  exact Metered.affords_pure (Arrays.size_set_le arrays index array)

end BlockDecoder

theorem RecordBatch.size_of_tryNew {schema : Schema} {columns : List LogicalArray} {rows : ℕ}
    {batch : RecordBatch} (h : RecordBatch.tryNew schema columns rows = .ok batch) :
    batch.size = (columns.map LogicalArray.size).sum := by
  unfold tryNew at h
  split at h
  · split at h
    · cases h
      rfl
    · cases h
  · cases h

namespace BlockDecoder

open Budget Read

variable {decoder : BlockDecoder}

/-- **What a decode returns is covered by what it charges.** -/
theorem affords_block (selection : Selection) :
    Affords 0 (decoder.block selection) fun decoded ↦ decoded.batch.size := by
  refine Metered.Affords.lift_bind fun rows _ ↦ ?_
  refine Metered.Affords.lift_bind fun _ _ ↦ ?_
  have hempty := Arrays.size_replicate selection.sourceSchema.columns.length
  rw [← hempty]
  refine (Metered.Affords.foldlM affords_decodeInto _ _).bind fun arrays _ ↦ ?_
  refine (Metered.Affords.foldlM affords_decodeInto _ _).bind fun arrays _ ↦ ?_
  refine (Metered.affords_paid _).bind fun primary _ ↦ ?_
  refine Metered.Affords.lift_bind fun taken htaken ↦ ?_
  refine Metered.Affords.lift_bind fun batch hbatch ↦ ?_
  refine Metered.affords_pure ?_
  show batch.size ≤ _
  rw [RecordBatch.size_of_tryNew hbatch]
  exact size_takeArrays_le htaken

end BlockDecoder

end Acta
