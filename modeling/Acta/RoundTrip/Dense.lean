import Acta.Read.Values
import Acta.RoundTrip.Transforms
import Acta.Write.Encode

/-!
# The dense values of a column

Between the array a column arrives in and the array it is decoded into stand its dense values, the
stored form of the non-null rows in row order.  What the encoder prepares and profiles is a function
of the dense values alone (`prepare_eq_ok`), and of these only of the byte strings they are stored
as, their keys (`keys_prepared`).
-/

namespace Acta

open Machine Wire Candidates

/-! ### Stored values -/

/-- The byte string a dense value is compared by and stored as. -/
def StoredType.key : (type : StoredType) → type.Value → Bytes
  | .bool, value => [value.toUInt8]
  | .integer _, value => IntType.toLeBytes value
  | .float32, bits => leBytes 4 bits.toNat
  | .float64, bits => leBytes 8 bits.toNat
  | .bytes, value => value

/-- The flag a dense value is. -/
def StoredType.truth : (type : StoredType) → type.Value → Bool
  | .bool, value => value
  | _, _ => false

namespace LogicalType

/-- The dense value an array value is stored as. -/
def stored : (logicalType : LogicalType) → logicalType.arrayType.Value →
    logicalType.storedType.Value
  | .bool, value => value
  | .integer _, value => value
  | .float32, bits => bits
  | .float64, bits => bits
  | .decimal _ _, value => value
  | .timestamp _ _, value => value
  | .utf8, text => utf8Bytes text
  | .categorical _, text => utf8Bytes text
  | .binary, bytes => bytes
  | .fixedBinary _, bytes => bytes
  | .date32, value => value

/-- How the dense values of a type are laid out: as bits, in one width, or each in its own. -/
inductive Shape
  | bits
  | fixed (width : ℕ) (signed : Option Bool)
  | variableWidth
  deriving DecidableEq

def shape : LogicalType → Shape
  | .bool => .bits
  | .integer type => .fixed type.width (some type.signed)
  | .date32 => .fixed 4 (some true)
  | .decimal _ _ | .timestamp _ _ => .fixed 8 (some true)
  | .float32 => .fixed 4 none
  | .float64 => .fixed 8 none
  | .fixedBinary byteWidth => .fixed byteWidth.toNat none
  | .utf8 | .categorical _ | .binary => .variableWidth

/-- The keys a column can store. -/
def FitsKey (logicalType : LogicalType) (key : Bytes) : Prop :=
  match logicalType.shape with
  | .bits => True
  | .fixed width _ => key.length = width
  | .variableWidth => key.length ≤ u32Max

/-- What the encoder prepares from dense values. -/
def prepared (logicalType : LogicalType) (values : List logicalType.storedType.Value) :
    PreparedValues :=
  match logicalType.shape with
  | .bits => .bool (values.map logicalType.storedType.truth)
  | .fixed width signed => .fixed width signed (values.flatMap logicalType.storedType.key)
  | .variableWidth =>
    .variableWidth (values.flatMap logicalType.storedType.key)
      (values.map fun value ↦ (logicalType.storedType.key value).length)

end LogicalType

theorem storedBytes_eq_key (logicalType : LogicalType) (value : logicalType.arrayType.Value) :
    storedBytes ⟨logicalType.arrayType, value⟩ =
      logicalType.storedType.key (logicalType.stored value) := by
  cases logicalType <;> rfl

theorem StoredType.key_injective (type : StoredType) : Function.Injective type.key := by
  intro left right h
  cases type with
  | bool => revert left right; decide
  | integer type =>
    have hread := congrArg (fun bytes ↦ Transform.readInteger bytes type.signed) h
    simp only [StoredType.key, readInteger_toLeBytes] at hread
    exact Subtype.ext hread
  | float32 =>
    have hread := congrArg leNat h
    simp only [StoredType.key, leNat_leBytes_uint32] at hread
    exact UInt32.toNat_inj.mp hread
  | float64 =>
    have hread := congrArg leNat h
    simp only [StoredType.key, leNat_leBytes_uint64] at hread
    exact UInt64.toNat_inj.mp hread
  | bytes => exact h

@[simp] theorem length_lengthBytes (lengths : List ℕ) :
    (lengthBytes lengths).length = lengths.length * 4 :=
  length_flatMap_of_forall fun length _ ↦ length_leBytes 4 length

/-! ### Preparing dense values -/

theorem describes_arrayType (logicalType : LogicalType) :
    logicalType.describes logicalType.arrayType = true := by
  cases logicalType with
  | integer type => exact decide_eq_true rfl
  | _ => rfl

theorem emptyValues_eq_ok {logicalType : LogicalType} {start : PreparedValues}
    (h : emptyValues logicalType = .ok start) : start = logicalType.prepared [] := by
  cases logicalType with
  | fixedBinary byteWidth =>
    obtain ⟨-, -, hstart⟩ := bind_eq_ok.mp h
    cases hstart
    rfl
  | _ =>
    cases h
    rfl

/-- One more value is prepared after the others, if it fits its column. -/
theorem pushValue_eq_ok {logicalType : LogicalType} {values : List logicalType.storedType.Value}
    {value : logicalType.arrayType.Value} {next : PreparedValues}
    (h : pushValue logicalType (logicalType.prepared values) ⟨logicalType.arrayType, value⟩ =
      .ok next) :
    logicalType.FitsKey (logicalType.storedType.key (logicalType.stored value)) ∧
      next = logicalType.prepared (values ++ [logicalType.stored value]) := by
  have hdescribes := describes_arrayType logicalType
  have hkey := storedBytes_eq_key logicalType value
  cases logicalType with
  | bool =>
    cases h
    refine ⟨trivial, ?_⟩
    simp only [LogicalType.prepared, LogicalType.shape, List.map_append]
    rfl
  | utf8 | categorical _ | binary =>
    simp only [pushValue, hdescribes, if_true, LogicalType.prepared, LogicalType.shape,
      pushVariable, hkey, bind_eq_ok, failIf_eq_ok, pure_eq_ok, Except.ok.injEq] at h
    obtain ⟨-, hlength, rfl⟩ := h
    refine ⟨Nat.not_lt.mp hlength, ?_⟩
    simp only [LogicalType.prepared, LogicalType.shape, List.flatMap_append, List.map_append,
      List.flatMap_singleton, List.map_singleton]
  | fixedBinary byteWidth =>
    simp only [pushValue, hdescribes, if_true, LogicalType.prepared, LogicalType.shape,
      hasDeclaredWidth, hkey, bind_eq_ok, failIf_eq_ok, pure_eq_ok, Except.ok.injEq, not_not,
      decide_eq_true_eq] at h
    obtain ⟨-, hwidth, rfl⟩ := h
    refine ⟨hwidth, ?_⟩
    simp only [LogicalType.prepared, LogicalType.shape, List.flatMap_append,
      List.flatMap_singleton]
  | integer _ | decimal _ _ | timestamp _ _ | date32 =>
    simp only [pushValue, hdescribes, if_true, LogicalType.prepared, LogicalType.shape,
      hasDeclaredWidth, hkey, bind_eq_ok, failIf_eq_ok, pure_eq_ok, Except.ok.injEq] at h
    obtain ⟨-, -, rfl⟩ := h
    refine ⟨IntType.length_toLeBytes _, ?_⟩
    simp only [LogicalType.prepared, LogicalType.shape, List.flatMap_append,
      List.flatMap_singleton]
  | float32 | float64 =>
    simp only [pushValue, hdescribes, if_true, LogicalType.prepared, LogicalType.shape,
      hasDeclaredWidth, hkey, bind_eq_ok, failIf_eq_ok, pure_eq_ok, Except.ok.injEq] at h
    obtain ⟨-, -, rfl⟩ := h
    refine ⟨length_leBytes _ _, ?_⟩
    simp only [LogicalType.prepared, LogicalType.shape, List.flatMap_append,
      List.flatMap_singleton]

/-- A value that fits its column is prepared after the others. -/
theorem pushValue_eq {logicalType : LogicalType} {values : List logicalType.storedType.Value}
    {value : logicalType.arrayType.Value}
    (hfits : logicalType.FitsKey (logicalType.storedType.key (logicalType.stored value))) :
    pushValue logicalType (logicalType.prepared values) ⟨logicalType.arrayType, value⟩ =
      .ok (logicalType.prepared (values ++ [logicalType.stored value])) := by
  have hdescribes := describes_arrayType logicalType
  have hkey := storedBytes_eq_key logicalType value
  rcases hpush : pushValue logicalType (logicalType.prepared values)
    ⟨logicalType.arrayType, value⟩ with e | next
  · exfalso
    cases logicalType with
    | bool => cases hpush
    | utf8 | categorical _ | binary =>
      simp only [pushValue, hdescribes, if_true, LogicalType.prepared, LogicalType.shape,
        pushVariable, hkey, failIf_neg (Nat.not_lt.mpr hfits), ok_bind] at hpush
      cases hpush
    | fixedBinary byteWidth =>
      have hwidth : hasDeclaredWidth (.fixedBinary byteWidth)
          ⟨(LogicalType.fixedBinary byteWidth).arrayType, value⟩ = true :=
        decide_eq_true (hkey ▸ hfits)
      simp only [pushValue, hdescribes, if_true, LogicalType.prepared, LogicalType.shape,
        hwidth] at hpush
      cases hpush
    | _ =>
      simp only [pushValue, hdescribes, if_true, LogicalType.prepared, LogicalType.shape,
        hasDeclaredWidth] at hpush
      cases hpush
  · rw [(pushValue_eq_ok hpush).2]

/-- The dense values an encoder is given, for array values that are all present. -/
def presentValues (logicalType : LogicalType) (values : List logicalType.arrayType.Value) :
    List (Result ScalarValue) :=
  values.map fun value ↦ .ok ⟨logicalType.arrayType, value⟩

/-- **What is prepared is a function of the dense values**, all of which fit their column. -/
theorem prepare_eq_ok {logicalType : LogicalType} {values : List logicalType.arrayType.Value}
    {prepared : PreparedValues} {profiled : ValueProfile}
    (h : prepare logicalType (presentValues logicalType values) = .ok (prepared, profiled)) :
    (∀ value ∈ values.map logicalType.stored,
        logicalType.FitsKey (logicalType.storedType.key value)) ∧
      prepared = logicalType.prepared (values.map logicalType.stored) ∧
        profiled = profile prepared := by
  obtain ⟨start, hstart, h⟩ := bind_eq_ok.mp h
  obtain ⟨final, hfinal, h⟩ := bind_eq_ok.mp h
  rw [pure_eq_ok, Except.ok.injEq, Prod.mk.injEq] at h
  obtain ⟨rfl, rfl⟩ := h
  rw [emptyValues_eq_ok hstart] at hfinal
  -- The values taken in so far stand in front of those to come.
  have hfold : ∀ (rest : List logicalType.arrayType.Value)
      (seen : List logicalType.storedType.Value),
      (presentValues logicalType rest).foldlM
          (fun prepared value ↦ do pushValue logicalType prepared (← value))
          (logicalType.prepared seen) = .ok final →
        (∀ value ∈ rest.map logicalType.stored,
            logicalType.FitsKey (logicalType.storedType.key value)) ∧
          final = logicalType.prepared (seen ++ rest.map logicalType.stored) := by
    intro rest
    induction rest with
    | nil =>
      intro seen hseen
      cases hseen
      exact ⟨by simp, by simp⟩
    | cons value rest ih =>
      intro seen hseen
      rw [presentValues, List.map_cons, List.foldlM_cons, ok_bind] at hseen
      obtain ⟨next, hnext, hrest⟩ := bind_eq_ok.mp hseen
      obtain ⟨hfits, rfl⟩ := pushValue_eq_ok hnext
      obtain ⟨hall, hfinal⟩ := ih _ hrest
      refine ⟨?_, by simpa using hfinal⟩
      rw [List.map_cons]
      exact List.forall_mem_cons.mpr ⟨hfits, hall⟩
  obtain ⟨hfits, hprepared⟩ := hfold values [] hfinal
  exact ⟨hfits, by simpa using hprepared, rfl⟩

/-! ### Keys -/

/-- Values of this type take up room. -/
def LogicalType.HasWidth (logicalType : LogicalType) : Prop :=
  logicalType ≠ .fixedBinary 0

theorem LogicalType.HasWidth.pos {logicalType : LogicalType} (h : logicalType.HasWidth)
    {width : ℕ} {signed : Option Bool} (hshape : logicalType.shape = .fixed width signed) :
    0 < width := by
  cases logicalType with
  | bool | utf8 | categorical _ | binary => cases hshape
  | integer type =>
    cases hshape
    exact type.width_pos
  | float32 | float64 | decimal _ _ | timestamp _ _ | date32 =>
    cases hshape
    omega
  | fixedBinary byteWidth =>
    cases hshape
    by_contra hzero
    have : byteWidth = 0 := UInt32.toNat_inj.mp (by simpa using hzero)
    exact h (by rw [this])

/-- **Values that fit their column are prepared.** -/
theorem prepare_eq {logicalType : LogicalType} (hwidth : logicalType.HasWidth)
    {values : List logicalType.arrayType.Value}
    (hfits : ∀ value ∈ values.map logicalType.stored,
      logicalType.FitsKey (logicalType.storedType.key value)) :
    prepare logicalType (presentValues logicalType values) =
      .ok (logicalType.prepared (values.map logicalType.stored),
        profile (logicalType.prepared (values.map logicalType.stored))) := by
  have hstart : emptyValues logicalType = .ok (logicalType.prepared []) := by
    cases logicalType with
    | fixedBinary byteWidth =>
      have hne : ¬byteWidth = 0 := fun hzero ↦ hwidth (by rw [hzero])
      rw [emptyValues, failIf_neg hne]
      rfl
    | _ => rfl
  have hfold (seen : List logicalType.storedType.Value) :
      (presentValues logicalType values).foldlM
          (fun prepared value ↦ do pushValue logicalType prepared (← value))
          (logicalType.prepared seen) =
        .ok (logicalType.prepared (seen ++ values.map logicalType.stored)) := by
    induction values generalizing seen with
    | nil => rw [List.map_nil, List.append_nil]; rfl
    | cons value rest ih =>
      obtain ⟨hfirst, hrest⟩ := List.forall_mem_cons.mp hfits
      rw [presentValues, List.map_cons, List.foldlM_cons, ok_bind, pushValue_eq hfirst, ok_bind]
      refine (ih hrest _).trans ?_
      rw [List.map_cons, List.append_assoc, List.singleton_append]
  rw [prepare, hstart, ok_bind, hfold [], List.nil_append, ok_bind, pure_eq_ok]

theorem cut_flatten (strings : List Bytes) :
    PreparedValues.cut strings.flatten (strings.map List.length) = strings := by
  induction strings with
  | nil => rfl
  | cons first rest ih =>
    rw [List.flatten_cons, List.map_cons, PreparedValues.cut, if_pos (by simp), List.take_left,
      List.drop_left, ih]

theorem chunksExact_flatMap {α : Type} {width : ℕ} {stored : α → Bytes} {values : List α}
    (hpos : 0 < width) (h : ∀ value ∈ values, (stored value).length = width) :
    PreparedValues.chunksExact width (values.flatMap stored) = values.map stored := by
  have hcount : (values.flatMap stored).length / width = values.length := by
    rw [length_flatMap_of_forall h, Nat.mul_div_cancel _ hpos]
  rw [PreparedValues.chunksExact, hcount]
  exact chunks_flatMap h

section Keys

variable {logicalType : LogicalType} {values : List logicalType.storedType.Value}

/-- The keys of the dense values. -/
def keysOf (logicalType : LogicalType) (values : List logicalType.storedType.Value) : List Bytes :=
  values.map logicalType.storedType.key

@[simp] theorem length_keysOf : (keysOf logicalType values).length = values.length :=
  List.length_map _

/-- **The profile compares the keys of the dense values.** -/
theorem keys_prepared (hwidth : logicalType.HasWidth)
    (hfits : ∀ value ∈ values, logicalType.FitsKey (logicalType.storedType.key value)) :
    (logicalType.prepared values).keys = keysOf logicalType values := by
  cases hshape : logicalType.shape with
  | bits =>
    cases logicalType with
    | bool =>
      show (values.map id).map _ = values.map _
      rw [List.map_id]
      rfl
    | _ => cases hshape
  | fixed width signed =>
    have hlength : ∀ value ∈ values, (logicalType.storedType.key value).length = width := by
      intro value hvalue
      have hkey := hfits value hvalue
      rwa [LogicalType.FitsKey, hshape] at hkey
    rw [LogicalType.prepared, hshape]
    exact chunksExact_flatMap (hwidth.pos hshape) hlength
  | variableWidth =>
    have hcut := cut_flatten (keysOf logicalType values)
    rw [LogicalType.prepared, hshape]
    rw [keysOf, List.map_map] at hcut
    rwa [List.flatMap_def]

theorem count_prepared (hwidth : logicalType.HasWidth)
    (hfits : ∀ value ∈ values, logicalType.FitsKey (logicalType.storedType.key value)) :
    (logicalType.prepared values).count = values.length := by
  cases hshape : logicalType.shape with
  | bits =>
    rw [LogicalType.prepared, hshape]
    exact List.length_map _
  | fixed width signed =>
    have hlength : ∀ value ∈ values, (logicalType.storedType.key value).length = width := by
      intro value hvalue
      have hkey := hfits value hvalue
      rwa [LogicalType.FitsKey, hshape] at hkey
    rw [LogicalType.prepared, hshape]
    show (values.flatMap logicalType.storedType.key).length / width = values.length
    rw [length_flatMap_of_forall hlength, Nat.mul_div_cancel _ (hwidth.pos hshape)]
  | variableWidth =>
    rw [LogicalType.prepared, hshape]
    exact List.length_map _

/-- Keys that occur among the dense values are keys of dense values. -/
theorem exists_values_of_keys {keys : List Bytes}
    (h : ∀ key ∈ keys, key ∈ keysOf logicalType values) :
    ∃ chosen : List logicalType.storedType.Value, keysOf logicalType chosen = keys ∧
      ∀ value ∈ chosen, value ∈ values := by
  induction keys with
  | nil => exact ⟨[], rfl, by simp⟩
  | cons key keys ih =>
    obtain ⟨chosen, hchosen, hmem⟩ := ih fun other hother ↦ h other (List.mem_cons_of_mem _ hother)
    obtain ⟨value, hvalue, rfl⟩ := List.mem_map.mp (h key List.mem_cons_self)
    refine ⟨value :: chosen, ?_, List.forall_mem_cons.mpr ⟨hvalue, hmem⟩⟩
    rw [keysOf, List.map_cons]
    exact congrArg _ hchosen

theorem keysOf_injective {left right : List logicalType.storedType.Value}
    (h : keysOf logicalType left = keysOf logicalType right) : left = right :=
  List.map_injective_iff.mpr logicalType.storedType.key_injective h

end Keys

end Acta
