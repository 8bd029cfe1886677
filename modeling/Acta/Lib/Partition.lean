import Acta.Lib.Slice
import Mathlib.Data.List.Count
import Mathlib.Data.List.Pairwise

/-!
# Partitioned lists

A list is partitioned by a predicate when the elements it holds of come before the others.  Then it
is cut by the number of them: they are the list up to there, and the others are the rest
(`Partitioned.filter_eq_take`, `Partitioned.filter_not_eq_drop`).  What lies between two such cuts
is a slice of the list (`Partitioned.filter_between`).
-/

namespace Wire

variable {α : Type}

/-- Once the predicate fails, it fails for the rest of the list. -/
def Partitioned (p : α → Bool) (xs : List α) : Prop :=
  xs.Pairwise fun a b ↦ p b = true → p a = true

namespace Partitioned

variable {p q : α → Bool} {xs : List α}

theorem tail {x : α} (h : Partitioned p (x :: xs)) : Partitioned p xs :=
  (List.pairwise_cons.mp h).2

/-- Where the predicate fails for the first element, it holds of none. -/
theorem countP_eq_zero {x : α} (h : Partitioned p (x :: xs)) (hx : p x = false) :
    xs.countP p = 0 := by
  rw [List.countP_eq_zero]
  intro y hy hpy
  have hpx := (List.pairwise_cons.mp h).1 y hy hpy
  rw [hx] at hpx
  cases hpx

/-- **The elements that the predicate holds of are the first ones.** -/
theorem filter_eq_take (h : Partitioned p xs) : xs.filter p = xs.take (xs.countP p) := by
  induction xs with
  | nil => rfl
  | cons x xs ih =>
    cases hx : p x with
    | true =>
      rw [List.filter_cons_of_pos hx, List.countP_cons_of_pos hx, List.take_succ_cons, ih h.tail]
    | false =>
      have hnot : ¬p x = true := by rw [hx]; exact Bool.false_ne_true
      have hzero := h.countP_eq_zero hx
      rw [List.filter_cons_of_neg hnot, List.countP_cons_of_neg hnot, hzero, List.take_zero]
      exact List.filter_eq_nil_iff.mpr (List.countP_eq_zero.mp hzero)

/-- **The others are the rest.** -/
theorem filter_not_eq_drop (h : Partitioned p xs) :
    (xs.filter fun x ↦ !p x) = xs.drop (xs.countP p) := by
  induction xs with
  | nil => rfl
  | cons x xs ih =>
    cases hx : p x with
    | true =>
      rw [List.filter_cons_of_neg (by rw [hx]; exact Bool.false_ne_true),
        List.countP_cons_of_pos hx, List.drop_succ_cons, ih h.tail]
    | false =>
      have hnot : ¬p x = true := by rw [hx]; exact Bool.false_ne_true
      have hzero := h.countP_eq_zero hx
      rw [List.filter_cons_of_pos (by rw [hx]; rfl), ih h.tail, List.countP_cons_of_neg hnot,
        hzero, List.drop_zero, List.drop_zero]

/-- The predicate holds at a position exactly when the position comes before the cut. -/
theorem getElem_iff (h : Partitioned p xs) {i : ℕ} (hi : i < xs.length) :
    p xs[i] = true ↔ i < xs.countP p := by
  induction xs generalizing i with
  | nil => exact absurd hi (Nat.not_lt_zero i)
  | cons x xs ih =>
    cases hx : p x with
    | true =>
      rw [List.countP_cons_of_pos hx]
      cases i with
      | zero => exact iff_of_true hx (Nat.succ_pos _)
      | succ i =>
        rw [List.getElem_cons_succ, ih h.tail (Nat.lt_of_succ_lt_succ hi)]
        exact Nat.succ_lt_succ_iff.symm
    | false =>
      have hnot : ¬p x = true := by rw [hx]; exact Bool.false_ne_true
      have hzero := h.countP_eq_zero hx
      rw [List.countP_cons_of_neg hnot, hzero]
      refine iff_of_false (fun hpi ↦ ?_) (Nat.not_lt_zero i)
      cases i with
      | zero => exact hnot hpi
      | succ i =>
        exact List.countP_eq_zero.mp hzero _ (List.getElem_mem (Nat.lt_of_succ_lt_succ hi)) hpi

/-- **What lies between two cuts is a slice.** -/
theorem filter_between (hp : Partitioned p xs) (hq : Partitioned q xs)
    (hpq : ∀ x, p x = true → q x = true) :
    (xs.filter fun x ↦ !p x && q x) = slice xs (xs.countP p) (xs.countP q - xs.countP p) ∧
      xs.countP p ≤ xs.countP q := by
  have hcount : (xs.filter q).countP p = xs.countP p := by
    rw [List.countP_filter]
    refine List.countP_congr fun x _ ↦ ?_
    rw [Bool.and_eq_true]
    exact and_iff_left_of_imp (hpq x)
  have hle : xs.countP p ≤ xs.countP q := List.countP_mono_left fun x _ ↦ hpq x
  have hfilter : Partitioned p (xs.filter q) := hp.filter q
  refine ⟨?_, hle⟩
  rw [← List.filter_filter, hfilter.filter_not_eq_drop, hcount, hq.filter_eq_take, slice,
    List.drop_take]

end Partitioned

/-- A list whose keys are in order is partitioned by every predicate that goes down the order. -/
theorem partitioned_of_pairwise {β : Type} {r : β → β → Prop} {key : α → β} {p : α → Bool}
    {xs : List α} (h : (xs.map key).Pairwise r)
    (hp : ∀ a b, r (key a) (key b) → p b = true → p a = true) : Partitioned p xs :=
  (List.pairwise_map.mp h).imp fun {a b} hle ↦ hp a b hle

end Wire
