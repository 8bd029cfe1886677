import Acta.Lib.Slice
import Mathlib.Data.Nat.Basic

/-!
# Grids

Rows of one width laid end to end.  A list that is as long as a grid is the grid of its own elements
(`grid_getElem`), laying it out column by column and reading that layout back gives it back
(`grid_transpose`), and cutting a flattened list of rows gives the rows (`map_slice_flatten`).
-/

namespace Wire

variable {α : Type*}

/-- The cells of a grid, row after row. -/
def grid (rows columns : ℕ) (cell : ℕ → ℕ → α) : List α :=
  (List.range rows).flatMap fun row ↦ (List.range columns).map (cell row)

@[simp] theorem length_grid (rows columns : ℕ) (cell : ℕ → ℕ → α) :
    (grid rows columns cell).length = rows * columns := by
  simp [grid, List.length_flatMap]

theorem grid_succ (rows columns : ℕ) (cell : ℕ → ℕ → α) :
    grid (rows + 1) columns cell =
      grid rows columns cell ++ (List.range columns).map (cell rows) := by
  simp [grid, List.range_succ, List.flatMap_append]

theorem getElem?_grid {rows columns row column : ℕ} (cell : ℕ → ℕ → α) (hrow : row < rows)
    (hcolumn : column < columns) :
    (grid rows columns cell)[row * columns + column]? = some (cell row column) := by
  induction rows with
  | zero => omega
  | succ rows ih =>
    rw [grid_succ]
    by_cases hlast : row < rows
    · have hin : row * columns + column < (grid rows columns cell).length := by
        rw [length_grid]
        calc row * columns + column < (row + 1) * columns := by rw [Nat.succ_mul]; omega
          _ ≤ rows * columns := Nat.mul_le_mul_right _ hlast
      rw [List.getElem?_append_left hin]
      exact ih hlast
    · obtain rfl : row = rows := by omega
      rw [List.getElem?_append_right (by rw [length_grid]; omega), length_grid,
        Nat.add_sub_cancel_left, List.getElem?_map, List.getElem?_range hcolumn, Option.map_some]

/-- Cells that agree inside the grid make the same grid. -/
theorem grid_congr {rows columns : ℕ} {left right : ℕ → ℕ → α}
    (h : ∀ row < rows, ∀ column < columns, left row column = right row column) :
    grid rows columns left = grid rows columns right := by
  unfold grid
  refine List.flatMap_congr fun row hrow ↦ List.map_congr_left fun column hcolumn ↦ ?_
  exact h row (List.mem_range.mp hrow) column (List.mem_range.mp hcolumn)

/-- **A list is the grid of its elements.** -/
theorem grid_getElem {rows columns : ℕ} {xs : List α} (fallback : α)
    (h : xs.length = rows * columns) :
    grid rows columns (fun row column ↦ xs[row * columns + column]?.getD fallback) = xs := by
  apply List.ext_getElem?
  intro i
  by_cases hi : i < xs.length
  · have hcolumns : 0 < columns := by
      by_contra hzero
      have : columns = 0 := by omega
      rw [this, Nat.mul_zero] at h
      omega
    have hrow : i / columns < rows := Nat.div_lt_of_lt_mul (by rw [Nat.mul_comm]; omega)
    have hcolumn : i % columns < columns := Nat.mod_lt _ hcolumns
    have hindex : i / columns * columns + i % columns = i := by
      rw [Nat.mul_comm]
      exact Nat.div_add_mod i columns
    have hcell := getElem?_grid (fun row column ↦ xs[row * columns + column]?.getD fallback)
      hrow hcolumn
    rw [hindex] at hcell
    rw [hcell, List.getElem?_eq_getElem hi, Option.getD_some]
  · rw [List.getElem?_eq_none (by simp; omega), List.getElem?_eq_none (by omega)]

/-- **Reading back a layout by columns** gives the list that was laid out. -/
theorem grid_transpose {rows columns : ℕ} {xs : List α} (fallback : α)
    (h : xs.length = rows * columns) :
    grid rows columns (fun row column ↦
      (grid columns rows fun column row ↦
        xs[row * columns + column]?.getD fallback)[column * rows + row]?.getD fallback) = xs := by
  rw [← grid_getElem fallback h]
  refine grid_congr fun row hrow column hcolumn ↦ ?_
  rw [getElem?_grid _ hcolumn hrow, Option.getD_some, grid_getElem fallback h]

/-! ### Rows -/

theorem length_flatten_of_forall {width : ℕ} {rows : List (List α)}
    (h : ∀ row ∈ rows, row.length = width) : rows.flatten.length = rows.length * width := by
  induction rows with
  | nil => simp
  | cons row rows ih =>
    have hrow : row.length = width := h row List.mem_cons_self
    have hrows := ih fun row hmem ↦ h row (List.mem_cons_of_mem _ hmem)
    rw [List.flatten_cons, List.length_append, hrow, hrows, List.length_cons, Nat.succ_mul,
      Nat.add_comm]

/-- **Cutting flattened rows** of one width gives the rows. -/
theorem map_slice_flatten {width : ℕ} {rows : List (List α)}
    (h : ∀ row ∈ rows, row.length = width) :
    (List.range rows.length).map (fun index ↦ slice rows.flatten (index * width) width) = rows := by
  induction rows with
  | nil => rfl
  | cons row rows ih =>
    have hrow : row.length = width := h row List.mem_cons_self
    have hrows := ih fun row hmem ↦ h row (List.mem_cons_of_mem _ hmem)
    rw [List.length_cons, List.range_succ_eq_map, List.map_cons, List.map_map, List.flatten_cons,
      Nat.zero_mul, slice_field _ hrow]
    refine congrArg (row :: ·) ?_
    refine Eq.trans (List.map_congr_left fun index _ ↦ ?_) hrows
    rw [Function.comp_apply, Nat.succ_mul, Nat.add_comm, ← hrow, slice_append_right]

end Wire
