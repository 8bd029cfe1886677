import Acta.Lib.Partition
import Acta.Read.Scan
import Acta.Write.Ledger

/-!
# What a range keeps of a block

A range keeps the rows whose primary value lies in it.  A block whose values are in order is cut
between two partition points, and any other block is filtered row by row; the rows kept are the same
(`filterBatch_eq`), and what either way asserts of its arguments holds
(`filterAsserts`).  A block is pruned only where its bounds leave no row to keep
(`keptAt_of_shouldPrune`).
-/

namespace Acta

open Machine Wire

/-! ### Rows that are taken out of a batch -/

theorem getElem?_filterMap_getElem? {α : Type} (xs : List α) {indices : List ℕ}
    (h : ∀ index ∈ indices, index < xs.length) {row : ℕ} (hrow : row < indices.length) :
    (indices.filterMap (xs[·]?))[row]? = xs[indices[row]]? := by
  induction indices generalizing row with
  | nil => exact absurd hrow (Nat.not_lt_zero row)
  | cons index indices ih =>
    obtain ⟨hindex, hrest⟩ := List.forall_mem_cons.mp h
    rw [List.filterMap_cons_some (List.getElem?_eq_getElem hindex)]
    cases row with
    | zero => exact (List.getElem?_eq_getElem hindex).symm
    | succ row => exact ih hrest (Nat.lt_of_succ_lt_succ hrow)

/-- The rows taken out of an array are the rows of the array there. -/
theorem LogicalArray.valueAt_take {array : LogicalArray} {indices : List ℕ}
    (h : ∀ index ∈ indices, index < array.len)
    (hvalidity : ∀ bits ∈ array.validity, bits.length = array.len) {row : ℕ}
    (hrow : row < indices.length) :
    (array.take indices).valueAt row = array.valueAt indices[row] := by
  have hnull : (array.take indices).isNull row = array.isNull indices[row] := by
    show isNullAt (array.validity.map fun bits ↦ indices.filterMap (bits[·]?)) row = _
    rw [isNull]
    cases hcase : array.validity with
    | none => rfl
    | some bits =>
      have hbits : ∀ index ∈ indices, index < bits.length := fun index hindex ↦ by
        rw [hvalidity bits hcase]
        exact h index hindex
      simp only [isNullAt, Option.map_some, Option.any_some,
        getElem?_filterMap_getElem? bits hbits hrow]
  have hvalue : (array.take indices).values[row]? = array.values[indices[row]]? :=
    getElem?_filterMap_getElem? array.values h hrow
  rw [valueAt, valueAt, hnull, hvalue]
  rfl

namespace RecordBatch

variable {batch : RecordBatch}

/-- The array of a batch is as long as the batch, and so is its validity. -/
theorem fits_of_mem {array : LogicalArray} (h : array ∈ batch.columns) :
    array.len = batch.rowCount ∧ ∀ bits ∈ array.validity, bits.length = batch.rowCount := by
  obtain ⟨index, hindex, rfl⟩ := List.getElem_of_mem h
  have hlength := batch.fits.length_eq
  have hfits := batch.fits.get (hlength ▸ hindex) hindex
  exact ⟨hfits.len, fun bits hbits ↦ (hfits.validity bits hbits).1⟩

/-- **The rows taken out of a batch** are the rows of the batch there. -/
theorem rows_take {indices : List ℕ} (h : ∀ index ∈ indices, index < batch.rowCount) :
    (batch.take indices).rows = indices.map batch.rowAt := by
  have hcount : (batch.take indices).rowCount = indices.length :=
    congrArg List.length (List.filter_eq_self.mpr fun index hindex ↦
      decide_eq_true (h index hindex))
  refine List.ext_getElem ?_ fun row hrow hrow' ↦ ?_
  · rw [length_rows, hcount, List.length_map]
  rw [List.length_map] at hrow'
  simp only [rows, List.getElem_map, List.getElem_range]
  show (batch.columns.map (·.take indices)).map (·.valueAt row) = _
  rw [List.map_map]
  refine List.map_congr_left fun array harray ↦ ?_
  obtain ⟨hlen, hbits⟩ := fits_of_mem harray
  exact LogicalArray.valueAt_take (by rwa [hlen]) (by rwa [hlen]) hrow'

end RecordBatch

/-! ### The rows that a range keeps -/

/-- Whether a value lies in a range. -/
def PrimaryRange.covers (range : PrimaryRange) (value : ℤ) : Bool :=
  range.bounds.1 ≤ value ∧ value < range.bounds.2

/-- The positions of the values that lie in a range, in order. -/
def PrimaryRange.keptAt (range : PrimaryRange) (values : List ℤ) : List ℕ :=
  (List.range values.length).filter fun row ↦ values[row]?.any range.covers

namespace PrimaryRange

variable {range : PrimaryRange} {values : List ℤ}

theorem covers_iff {value : ℤ} :
    range.covers value = true ↔ range.bounds.1 ≤ value ∧ value < range.bounds.2 :=
  decide_eq_true_iff

theorem mem_keptAt {row : ℕ} :
    row ∈ range.keptAt values ↔ ∃ value, values[row]? = some value ∧ range.covers value = true := by
  rw [keptAt, List.mem_filter, List.mem_range, Option.any_eq_true]
  refine and_iff_right_of_imp ?_
  rintro ⟨value, hvalue, -⟩
  exact (List.getElem?_eq_some_iff.mp hvalue).1

theorem lt_of_mem_keptAt {row : ℕ} (h : row ∈ range.keptAt values) : row < values.length :=
  List.mem_range.mp (List.mem_of_mem_filter h)

/-- An empty range keeps nothing. -/
theorem keptAt_of_eq (h : range.bounds.1 = range.bounds.2) (values : List ℤ) :
    range.keptAt values = [] := by
  refine List.eq_nil_iff_forall_not_mem.mpr fun row hrow ↦ ?_
  obtain ⟨value, -, hcovers⟩ := mem_keptAt.mp hrow
  rw [covers_iff] at hcovers
  omega

/-- **Bounds that a range does not reach leave nothing to keep.** -/
theorem keptAt_of_bounds {minimum maximum : ℤ} (hminimum : values.min? = some minimum)
    (hmaximum : values.max? = some maximum)
    (h : maximum < range.bounds.1 ∨ range.bounds.2 ≤ minimum) : range.keptAt values = [] := by
  refine List.eq_nil_iff_forall_not_mem.mpr fun row hrow ↦ ?_
  obtain ⟨value, hvalue, hcovers⟩ := mem_keptAt.mp hrow
  have hmem : value ∈ values := List.mem_of_getElem? hvalue
  have hlow := (List.min?_eq_some_iff.mp hminimum).2 value hmem
  have hhigh := (List.max?_eq_some_iff.mp hmaximum).2 value hmem
  rw [covers_iff] at hcovers
  omega

end PrimaryRange

namespace ScanPlan

/-- **A binary search finds the cut of a partitioned list.** -/
theorem partitionPoint_eq {below : ℤ → Bool} {values : List ℤ} (h : Partitioned below values)
    {low high : ℕ} (hlow : low ≤ values.countP below) (hhigh : values.countP below ≤ high)
    (hlength : high ≤ values.length) :
    partitionPoint below values low high = values.countP below := by
  fun_induction partitionPoint below values low high with
  | case1 low high hlt middle hbelow ih =>
    have hmiddle : middle < values.length := by omega
    rw [List.getElem?_eq_getElem hmiddle, Option.getD_some, h.getElem_iff hmiddle] at hbelow
    exact ih hbelow hhigh hlength
  | case2 low high hlt middle hbelow ih =>
    have hmiddle : middle < values.length := by omega
    rw [List.getElem?_eq_getElem hmiddle, Option.getD_some, h.getElem_iff hmiddle] at hbelow
    exact ih hlow (by omega) (by omega)
  | case3 low high hle => omega

/-- The values of a list below a bound come first where the list is in order. -/
theorem partitioned_lt {values : List ℤ} (h : values.Pairwise (· ≤ ·)) (bound : ℤ) :
    Partitioned (fun value ↦ decide (value < bound)) values :=
  h.imp fun {a b} hle hb ↦ decide_eq_true (by have := of_decide_eq_true hb; omega)

/-- The partition point of a bound in a list that is in order. -/
theorem partitionPoint_lt {values : List ℤ} (h : values.Pairwise (· ≤ ·)) (bound : ℤ) :
    partitionPoint (· < bound) values 0 values.length =
      values.countP fun value ↦ decide (value < bound) :=
  partitionPoint_eq (partitioned_lt h bound) (Nat.zero_le _) List.countP_le_length le_rfl

/-- A list is read off its positions. -/
theorem map_getElem?_range (values : List ℤ) :
    ((List.range values.length).map fun row ↦ values[row]?.getD 0) = values := by
  refine List.ext_getElem (by rw [List.length_map, List.length_range]) fun row _ hrow ↦ ?_
  rw [List.getElem_map, List.getElem_range, List.getElem?_eq_getElem hrow, Option.getD_some]

/-- **Between the partition points of the ends of a range lie the positions it keeps.** -/
theorem keptAt_of_sorted {range : PrimaryRange} {values : List ℤ}
    (h : values.Pairwise (· ≤ ·)) (hrange : range.bounds.1 ≤ range.bounds.2) :
    let first := partitionPoint (· < range.bounds.1) values 0 values.length
    let last := partitionPoint (· < range.bounds.2) values 0 values.length
    range.keptAt values = Wire.slice (List.range values.length) first (last - first) ∧
      first ≤ last ∧ last ≤ values.length := by
  intro first last
  let key (row : ℕ) : ℤ := values[row]?.getD 0
  have hkeys : (List.range values.length).map key = values := map_getElem?_range values
  have hsorted : ((List.range values.length).map key).Pairwise (· ≤ ·) := hkeys.symm ▸ h
  have hpart (bound : ℤ) :
      Partitioned (fun row ↦ decide (key row < bound)) (List.range values.length) :=
    partitioned_of_pairwise hsorted fun a b hle hb ↦
      decide_eq_true (by have := of_decide_eq_true hb; omega)
  have hcount (bound : ℤ) :
      (List.range values.length).countP (fun row ↦ decide (key row < bound)) =
        partitionPoint (· < bound) values 0 values.length := by
    rw [partitionPoint_lt h]
    conv_rhs => rw [← hkeys, List.countP_map]
    rfl
  obtain ⟨hbetween, hle⟩ := (hpart range.bounds.1).filter_between (hpart range.bounds.2)
    fun row hrow ↦ decide_eq_true (by have := of_decide_eq_true hrow; omega)
  rw [hcount, hcount] at hbetween hle
  refine ⟨?_, hle, ?_⟩
  · rw [← hbetween, PrimaryRange.keptAt]
    refine List.filter_congr fun row hrow ↦ ?_
    rw [List.getElem?_eq_getElem (List.mem_range.mp hrow), Option.any_some]
    show decide _ = (!decide (key row < _) && decide (key row < _))
    have hkey : key row = values.get ⟨row, List.mem_range.mp hrow⟩ := by
      show values[row]?.getD 0 = _
      rw [List.getElem?_eq_getElem (List.mem_range.mp hrow), Option.getD_some]
      rfl
    rw [List.get_eq_getElem] at hkey
    rw [hkey, ← decide_not, ← Bool.decide_and]
    exact decide_eq_decide.mpr (and_congr_left' Int.not_lt.symm)
  · show partitionPoint _ _ _ _ ≤ _
    rw [partitionPoint_lt h]
    exact List.countP_le_length

/-- What the two ways of filtering assert of their arguments: a slice ends behind its start and
inside the batch, and every row that is taken lies in the batch. -/
structure FilterAsserts (batch : RecordBatch) (primaryValues : List ℤ) (primarySorted : Bool)
    (range : PrimaryRange) : Prop where
  slice : primarySorted = true →
    partitionPoint (· < range.bounds.1) primaryValues 0 primaryValues.length ≤
        partitionPoint (· < range.bounds.2) primaryValues 0 primaryValues.length ∧
      partitionPoint (· < range.bounds.2) primaryValues 0 primaryValues.length ≤ batch.rowCount
  take : ∀ row ∈ range.keptAt primaryValues, row < batch.rowCount

section FilterBatch

variable {batch : RecordBatch} {primaryValues : List ℤ} {primarySorted : Bool}
  {range : PrimaryRange} (hlength : primaryValues.length = batch.rowCount)
  (hsorted : primarySorted = true → primaryValues.Pairwise (· ≤ ·))
  (hrange : range.bounds.1 ≤ range.bounds.2)
include hlength hsorted hrange

theorem filterAsserts : FilterAsserts batch primaryValues primarySorted range where
  slice hprimary := by
    obtain ⟨-, hle, hlast⟩ := keptAt_of_sorted (hsorted hprimary) hrange
    exact ⟨hle, hlength ▸ hlast⟩
  take row hrow := hlength ▸ PrimaryRange.lt_of_mem_keptAt hrow

/-- **Filtering keeps the rows that the range covers**, in order, and hands out no batch where there
are none. -/
theorem filterBatch_eq :
    ∃ kept : RecordBatch, kept.schema = batch.schema ∧
      kept.rows = (range.keptAt primaryValues).map batch.rowAt ∧
        filterBatch primarySorted batch primaryValues range =
          if range.keptAt primaryValues = [] then none else some kept := by
  have hasserts := filterAsserts hlength hsorted hrange
  let first := partitionPoint (· < range.bounds.1) primaryValues 0 primaryValues.length
  let last := partitionPoint (· < range.bounds.2) primaryValues 0 primaryValues.length
  have hunfold : filterBatch primarySorted batch primaryValues range =
      if range.bounds.1 = range.bounds.2 then none
      else if primarySorted then if first = last then none else some (batch.slice first last)
      else if range.keptAt primaryValues = [] then none
      else some (batch.take (range.keptAt primaryValues)) := rfl
  rw [hunfold]
  cases primarySorted with
  | true =>
    obtain ⟨hkept, hle, -⟩ := keptAt_of_sorted (hsorted rfl) hrange
    obtain ⟨-, hlast⟩ := hasserts.slice rfl
    have hnone : range.keptAt primaryValues = [] ↔ first = last := by
      rw [hkept, ← List.length_eq_zero_iff, length_slice, List.length_range]
      omega
    refine ⟨batch.slice first last, rfl, ?_, ?_⟩
    · rw [RecordBatch.rows_slice hlast, hkept, RecordBatch.rows, Wire.slice, Wire.slice,
        List.map_take, List.map_drop, ← hlength]
    · by_cases hempty : range.bounds.1 = range.bounds.2
      · rw [if_pos hempty, if_pos (PrimaryRange.keptAt_of_eq hempty _)]
      · rw [if_neg hempty, if_pos rfl]
        exact if_congr hnone.symm rfl rfl
  | false =>
    refine ⟨batch.take (range.keptAt primaryValues), rfl, RecordBatch.rows_take hasserts.take, ?_⟩
    by_cases hempty : range.bounds.1 = range.bounds.2
    · rw [if_pos hempty, if_pos (PrimaryRange.keptAt_of_eq hempty _)]
    · rw [if_neg hempty, if_neg Bool.false_ne_true]

end FilterBatch

/-! ### Pruning -/

/-- **A block is pruned only where the range keeps none of its rows.** -/
theorem keptAt_of_shouldPrune {plan : ScanPlan} {range : PrimaryRange} {block : BlockMetadata}
    {values : List ℤ} (hrange : plan.range = some range)
    (hbounds : ∀ minimum maximum, block.primaryBounds = some (minimum, maximum) →
      values.min? = some minimum ∧ values.max? = some maximum)
    (h : plan.shouldPrune block = true) : range.keptAt values = [] := by
  rw [shouldPrune, hrange] at h
  dsimp only at h
  by_cases hempty : range.bounds.1 = range.bounds.2
  · exact PrimaryRange.keptAt_of_eq hempty _
  rw [if_neg hempty] at h
  rcases hcase : block.primaryBounds with - | ⟨minimum, maximum⟩
  · rw [hcase] at h
    cases h
  · rw [hcase] at h
    obtain ⟨hminimum, hmaximum⟩ := hbounds minimum maximum hcase
    exact PrimaryRange.keptAt_of_bounds hminimum hmaximum (of_decide_eq_true h)

end ScanPlan

end Acta
