import Mathlib.Data.List.Basic

/-!
# Regions of a list

A region of a byte string is given by where it starts and how long it is.  `slice` reads it, and
the lemmas here say what a region sees of an append, of another region, and of a single replaced
element.
-/

namespace Wire

variable {α : Type*}

/-- The `length` elements of `xs` from position `start`, or what is left of them if `xs` ends
first. -/
def slice (xs : List α) (start length : ℕ) : List α :=
  (xs.drop start).take length

theorem length_slice (xs : List α) (start length : ℕ) :
    (slice xs start length).length = min length (xs.length - start) := by
  simp [slice]

theorem length_slice_of_le {xs : List α} {start length : ℕ} (h : start + length ≤ xs.length) :
    (slice xs start length).length = length := by
  rw [length_slice]
  omega

@[simp] theorem slice_length_zero (xs : List α) (start : ℕ) : slice xs start 0 = [] := by
  simp [slice]

@[simp] theorem slice_self (xs : List α) : slice xs 0 xs.length = xs := by
  simp [slice]

theorem slice_zero (xs : List α) (length : ℕ) : slice xs 0 length = xs.take length := by
  simp [slice]

/-! ### Regions of an append -/

theorem slice_append_left {xs : List α} {start length : ℕ} (ys : List α)
    (h : start + length ≤ xs.length) : slice (xs ++ ys) start length = slice xs start length := by
  unfold slice
  rw [List.drop_append_of_le_length (by omega), List.take_append_of_le_length]
  rw [List.length_drop]
  omega

theorem slice_append_right (xs ys : List α) (start length : ℕ) :
    slice (xs ++ ys) (xs.length + start) length = slice ys start length := by
  rw [slice, slice, List.drop_append, List.drop_eq_nil_of_le (by omega), Nat.add_sub_cancel_left,
    List.nil_append]

theorem slice_append_right' {xs : List α} (ys : List α) {start : ℕ} (length : ℕ)
    (h : xs.length ≤ start) :
    slice (xs ++ ys) start length = slice ys (start - xs.length) length := by
  conv_lhs => rw [← Nat.add_sub_cancel' h, slice_append_right]

/-- The first field of a record. -/
theorem slice_field {xs : List α} {length : ℕ} (ys : List α) (h : xs.length = length) :
    slice (xs ++ ys) 0 length = xs := by
  subst h
  rw [slice_append_left _ (by simp), slice_self]

/-- The last field of a record. -/
theorem slice_whole {xs : List α} {length : ℕ} (h : xs.length = length) :
    slice xs 0 length = xs := by
  subst h
  exact slice_self xs

/-- The region that is exactly the middle part of a three-part append. -/
theorem slice_append_middle (xs ys zs : List α) :
    slice (xs ++ ys ++ zs) xs.length ys.length = ys := by
  rw [slice_append_left _ (by simp)]
  simpa using slice_append_right xs ys 0 ys.length

/-- A record of a table of records of one width, laid end to end. -/
theorem slice_flatMap {β : Type*} {f : β → List α} {width : ℕ} {xs : List β}
    (h : ∀ x ∈ xs, (f x).length = width) {i : ℕ} (hi : i < xs.length) :
    slice (xs.flatMap f) (i * width) width = f xs[i] := by
  induction xs generalizing i with
  | nil => exact absurd hi (Nat.not_lt_zero _)
  | cons x xs ih =>
    obtain ⟨hx, hxs⟩ := List.forall_mem_cons.mp h
    rw [List.flatMap_cons]
    cases i with
    | zero => rw [Nat.zero_mul, slice_field _ hx, List.getElem_cons_zero]
    | succ i =>
      rw [slice_append_right' _ _ (by rw [hx, Nat.succ_mul]; omega), hx, Nat.succ_mul,
        Nat.add_sub_cancel, ih hxs (Nat.lt_of_succ_lt_succ hi), List.getElem_cons_succ]

theorem slice_eq_of_isPrefix {xs ys : List α} {start length : ℕ} (hp : xs <+: ys)
    (h : start + length ≤ xs.length) : slice ys start length = slice xs start length := by
  obtain ⟨zs, rfl⟩ := hp
  exact slice_append_left zs h

theorem slice_add (xs : List α) (start a b : ℕ) :
    slice xs start (a + b) = slice xs start a ++ slice xs (start + a) b := by
  simp [slice, List.take_add, List.drop_drop]

/-! ### Regions of a region -/

theorem slice_slice {xs : List α} {start length inner n : ℕ} (h : inner + n ≤ length) :
    slice (slice xs start length) inner n = slice xs (start + inner) n := by
  unfold slice
  rw [List.drop_take, List.drop_drop, List.take_take]
  congr 1
  omega

theorem take_slice {start length n : ℕ} (xs : List α) (h : n ≤ length) :
    (slice xs start length).take n = slice xs start n := by
  rw [slice, List.take_take, Nat.min_eq_left h, slice]

theorem drop_slice (xs : List α) (start length n : ℕ) :
    (slice xs start length).drop n = slice xs (start + n) (length - n) := by
  rw [slice, List.drop_take, List.drop_drop, slice]

/-! ### One replaced element -/

theorem slice_set_of_lt {xs : List α} {start length i : ℕ} (v : α) (h : i < start) :
    slice (xs.set i v) start length = slice xs start length := by
  unfold slice
  rw [List.drop_set_of_lt h]

theorem slice_set_of_le {xs : List α} {start length i : ℕ} (v : α) (h : start + length ≤ i) :
    slice (xs.set i v) start length = slice xs start length := by
  unfold slice
  rw [List.drop_set, if_neg (by omega), List.take_set_of_le (by omega)]

theorem slice_set {xs : List α} {start length i : ℕ} (v : α) (h : start ≤ i) :
    slice (xs.set i v) start length = (slice xs start length).set (i - start) v := by
  unfold slice
  rw [List.drop_set, if_neg (by omega), List.take_set]

theorem getElem?_slice (xs : List α) {start length i : ℕ} (h : i < length) :
    (slice xs start length)[i]? = xs[start + i]? := by
  rw [slice, List.getElem?_take_of_lt h, List.getElem?_drop]

theorem set_ne_self {xs : List α} {i : ℕ} {v : α} (h : i < xs.length) (hv : xs[i]? ≠ some v) :
    xs.set i v ≠ xs := by
  intro he
  apply hv
  rw [← he, List.getElem?_set_self h]

/-! ### What a region holds -/

/-- The list holds `ys` at `start`. -/
structure HoldsAt (xs : List α) (start : ℕ) (ys : List α) : Prop where
  slice_eq : slice xs start ys.length = ys
  fits : start + ys.length ≤ xs.length

theorem holdsAt_self (xs : List α) : HoldsAt xs 0 xs :=
  ⟨slice_self xs, by omega⟩

theorem holdsAt_append_middle (xs ys zs : List α) : HoldsAt (xs ++ ys ++ zs) xs.length ys :=
  ⟨slice_append_middle xs ys zs, by simp⟩

theorem holdsAt_append_right (xs ys : List α) : HoldsAt (xs ++ ys) xs.length ys := by
  have h := holdsAt_append_middle xs ys []
  rwa [List.append_nil] at h

theorem HoldsAt.append_right {xs ys : List α} {start : ℕ} (h : HoldsAt xs start ys)
    (zs : List α) : HoldsAt (xs ++ zs) start ys := by
  have hfits := h.fits
  refine ⟨?_, by rw [List.length_append]; omega⟩
  rw [slice_append_left _ hfits]
  exact h.slice_eq

/-- A region of what is held. -/
theorem HoldsAt.slice {xs ys : List α} {start inner length : ℕ} (h : HoldsAt xs start ys)
    (hinner : inner + length ≤ ys.length) :
    slice xs (start + inner) length = Wire.slice ys inner length := by
  conv_rhs => rw [← h.slice_eq]
  rw [slice_slice hinner]

theorem HoldsAt.left {xs ys zs : List α} {start : ℕ} (h : HoldsAt xs start (ys ++ zs)) :
    HoldsAt xs start ys := by
  have hfits := h.fits
  rw [List.length_append] at hfits
  refine ⟨?_, by omega⟩
  have hslice := h.slice (show 0 + ys.length ≤ (ys ++ zs).length by simp)
  rwa [Nat.add_zero, slice_append_left _ (by simp), slice_self] at hslice

theorem HoldsAt.right {xs ys zs : List α} {start : ℕ} (h : HoldsAt xs start (ys ++ zs)) :
    HoldsAt xs (start + ys.length) zs := by
  have hfits := h.fits
  rw [List.length_append] at hfits
  refine ⟨?_, by omega⟩
  rw [h.slice (by simp), slice_append_right' _ _ (Nat.le_refl _), Nat.sub_self, slice_self]

/-- What is held inside what is held. -/
theorem HoldsAt.inside {xs ys zs : List α} {start inner : ℕ} (h : HoldsAt xs start ys)
    (hinner : HoldsAt ys inner zs) : HoldsAt xs (start + inner) zs := by
  have hfits := h.fits
  have hfits' := hinner.fits
  refine ⟨?_, by omega⟩
  rw [h.slice hfits', hinner.slice_eq]

end Wire
