import Mathlib.Algebra.Order.BigOperators.Group.List
import Mathlib.Algebra.Order.Group.Nat
import Mathlib.Algebra.Order.Ring.Int
import Mathlib.Data.List.Basic

/-!
# Runs

A list cut into maximal runs of equal neighbours, each with its length.  Repeating every value for
its length gives the list back, and every length is positive.
-/

namespace Runs

variable {α : Type*} [DecidableEq α]

/-- The maximal runs of equal neighbours, as the value and the length of each. -/
def runs : List α → List (α × ℕ)
  | [] => []
  | x :: xs =>
    match runs xs with
    | (y, length) :: rest =>
      if x = y then (y, length + 1) :: rest else (x, 1) :: (y, length) :: rest
    | [] => [(x, 1)]

/-- Repeat every value for its length. -/
def expand (rs : List (α × ℕ)) : List α :=
  rs.flatMap fun run ↦ List.replicate run.2 run.1

/-- **Runs describe the list they were read off.** -/
theorem expand_runs (xs : List α) : expand (runs xs) = xs := by
  induction xs with
  | nil => rfl
  | cons x xs ih =>
    rw [runs]
    split
    · rename_i y length rest hruns
      rw [hruns] at ih
      by_cases hxy : x = y
      · subst hxy
        rw [if_pos rfl, expand, List.flatMap_cons, List.replicate_succ, List.cons_append]
        exact congrArg (x :: ·) ih
      · rw [if_neg hxy]
        exact congrArg (x :: ·) ih
    · rename_i hruns
      rw [hruns] at ih
      exact congrArg (x :: ·) ih

theorem length_pos_of_mem_runs {xs : List α} {run : α × ℕ} (h : run ∈ runs xs) : 0 < run.2 := by
  induction xs generalizing run with
  | nil => cases h
  | cons x xs ih =>
    rw [runs] at h
    split at h
    · rename_i y length rest hruns
      split at h
      · rcases List.mem_cons.mp h with rfl | h
        · exact Nat.succ_pos _
        · exact ih (hruns ▸ List.mem_cons_of_mem _ h)
      · rcases List.mem_cons.mp h with rfl | h
        · exact Nat.one_pos
        · exact ih (hruns ▸ h)
    · rw [List.mem_singleton] at h
      subst h
      exact Nat.one_pos

theorem sum_lengths_runs (xs : List α) : ((runs xs).map Prod.snd).sum = xs.length := by
  conv_rhs => rw [← expand_runs xs]
  induction runs xs with
  | nil => rfl
  | cons run rs ih =>
    rw [List.map_cons, List.sum_cons, ih]
    simp [expand]

/-! ### Reading from the left -/

/-- The run that a value makes the last one longer, or follows. -/
def push (rs : List (α × ℕ)) (x : α) : List (α × ℕ) :=
  match rs.getLast? with
  | some (y, length) => if y = x then rs.dropLast ++ [(y, length + 1)] else rs ++ [(x, 1)]
  | none => [(x, 1)]

theorem push_concat (rs : List (α × ℕ)) (y x : α) (length : ℕ) :
    push (rs ++ [(y, length)]) x =
      rs ++ if y = x then [(y, length + 1)] else [(y, length), (x, 1)] := by
  rw [push, List.getLast?_concat, List.dropLast_concat]
  by_cases hyx : y = x
  · simp only [if_pos hyx]
  · simp only [if_neg hyx, List.append_assoc, List.singleton_append]

theorem push_cons (run : α × ℕ) {rs : List (α × ℕ)} (h : rs ≠ []) (x : α) :
    push (run :: rs) x = run :: push rs x := by
  obtain ⟨front, ⟨y, length⟩, rfl⟩ := (List.eq_nil_or_concat rs).resolve_left h
  rw [List.concat_eq_append, ← List.cons_append, push_concat, push_concat, List.cons_append]

/-- **One more value belongs to the last run or begins another.** -/
theorem runs_concat (xs : List α) (x : α) : runs (xs ++ [x]) = push (runs xs) x := by
  induction xs with
  | nil => rfl
  | cons first xs ih =>
    rw [List.cons_append, runs, ih, runs]
    rcases runs xs with - | ⟨⟨y, length⟩, - | ⟨run, rest⟩⟩
    · by_cases hx : first = x
      · subst hx
        simp [push]
      · simp [push, hx]
    · -- The only run may take the first value, the last one, both or neither.
      by_cases hfirst : first = y
      · subst hfirst
        by_cases hx : first = x
        · simp [push, hx]
        · simp [push, hx]
      · by_cases hyx : y = x
        · subst hyx
          simp [push, hfirst]
        · simp [push, hyx, hfirst]
    · rw [push_cons _ (List.cons_ne_nil _ _)]
      show (if first = y then _ else _) = push (if first = y then _ else _) x
      by_cases hfirst : first = y
      · rw [if_pos hfirst, if_pos hfirst, push_cons _ (List.cons_ne_nil _ _)]
      · rw [if_neg hfirst, if_neg hfirst, push_cons _ (List.cons_ne_nil _ _),
          push_cons _ (List.cons_ne_nil _ _)]

/-- The value of each run is an element of the list. -/
theorem mem_of_mem_runs {xs : List α} {run : α × ℕ} (h : run ∈ runs xs) : run.1 ∈ xs := by
  have hexpand : run.1 ∈ expand (runs xs) :=
    List.mem_flatMap.mpr ⟨run, h,
      List.mem_replicate.mpr ⟨Nat.ne_of_gt (length_pos_of_mem_runs h), rfl⟩⟩
  rwa [expand_runs] at hexpand

theorem runs_ne_nil {xs : List α} (h : xs ≠ []) : runs xs ≠ [] := by
  intro hnil
  apply h
  rw [← expand_runs xs, hnil]
  rfl

/-- Renaming the values of a list one to one renames the values of its runs. -/
theorem runs_map {β : Type*} [DecidableEq β] {f : α → β} (hf : Function.Injective f) (xs : List α) :
    runs (xs.map f) = (runs xs).map fun run ↦ (f run.1, run.2) := by
  induction xs with
  | nil => rfl
  | cons x xs ih =>
    rw [List.map_cons, runs, ih, runs]
    cases hruns : runs xs with
    | nil => rfl
    | cons run rest =>
      obtain ⟨y, length⟩ := run
      by_cases heq : x = y
      · simp [heq]
      · simp [heq, hf.ne heq]

/-- Equal values are one run. -/
theorem length_runs_le_one {xs : List α} {value : α} (h : ∀ x ∈ xs, x = value) :
    (runs xs).length ≤ 1 ∧ ∀ run ∈ runs xs, run.1 = value := by
  have hmem : ∀ run ∈ runs xs, run.1 = value := fun run hrun ↦ h run.1 (mem_of_mem_runs hrun)
  refine ⟨?_, hmem⟩
  induction xs with
  | nil => exact Nat.zero_le 1
  | cons x xs ih =>
    obtain ⟨hx, hxs⟩ := List.forall_mem_cons.mp h
    have hrest := ih hxs fun run hrun ↦ hxs run.1 (mem_of_mem_runs hrun)
    rw [runs]
    split
    · rename_i y length rest hruns
      rw [hruns] at hrest
      have hy : y = value := hxs y (mem_of_mem_runs (hruns ▸ List.mem_cons_self))
      rw [if_pos (hx.trans hy.symm)]
      exact hrest
    · exact le_rfl

/-! ### Lengths and their largest -/

theorem length_le_sum {values : List ℕ} (h : ∀ value ∈ values, 0 < value) :
    values.length ≤ values.sum := by
  induction values with
  | nil => simp
  | cons value values ih =>
    have hvalue := h value List.mem_cons_self
    have hvalues := ih fun other hother ↦ h other (List.mem_cons_of_mem _ hother)
    simp only [List.length_cons, List.sum_cons]
    omega

/-- The lengths of the runs of a list are positive and do not exceed its length. -/
theorem runs_bounds (values : List α) :
    (runs values).length ≤ values.length ∧
      ∀ length ∈ (runs values).map Prod.snd, 0 < length ∧ length ≤ values.length := by
  have hpos : ∀ length ∈ (runs values).map Prod.snd, 0 < length := by
    intro length hlength
    obtain ⟨run, hrun, rfl⟩ := List.mem_map.mp hlength
    exact length_pos_of_mem_runs hrun
  have hsum := sum_lengths_runs values
  refine ⟨?_, fun length hlength ↦ ⟨hpos length hlength, ?_⟩⟩
  · have hle := length_le_sum hpos
    rwa [hsum, List.length_map] at hle
  · rw [← hsum]
    exact List.le_sum_of_mem hlength

theorem foldl_max_bounds (values : List ℕ) (start : ℕ) :
    start ≤ values.foldl max start ∧ ∀ value ∈ values, value ≤ values.foldl max start := by
  induction values generalizing start with
  | nil => exact ⟨le_rfl, by simp⟩
  | cons value values ih =>
    obtain ⟨hstart, hvalues⟩ := ih (max start value)
    rw [List.foldl_cons]
    refine ⟨by omega, ?_⟩
    intro other hother
    rcases List.mem_cons.mp hother with rfl | hother
    · omega
    · exact hvalues other hother

theorem foldl_max_le {values : List ℕ} {start bound : ℕ} (hstart : start ≤ bound)
    (h : ∀ value ∈ values, value ≤ bound) : values.foldl max start ≤ bound := by
  induction values generalizing start with
  | nil => exact hstart
  | cons value values ih =>
    rw [List.foldl_cons]
    refine ih ?_ fun other hother ↦ h other (List.mem_cons_of_mem _ hother)
    have hvalue := h value List.mem_cons_self
    omega

end Runs
