import Acta.Lib.Ranking
import Acta.Read.Statistics
import Acta.RoundTrip.RawColumn
import Mathlib.Data.Int.ConditionallyCompleteOrder
import Mathlib.Data.Prod.Lex
import Mathlib.Order.Monotone.Basic

/-!
# Statistics are exact

The writer reduces the values of a block to a minimum and a maximum and stores them in the width of
the logical type; the reader parses what is stored and reduces the values that it has decoded.
Values of one domain stand in a linear order (`StatisticValue.rank`), both reductions end with the
first of the least and the first of the greatest of them (`exists_extrema`), and the stored
bytes are parsed as the values they were stored from (`parseStatistic_eq_ok`).

So a pair is accepted exactly where it is stored from values that are numerically equal to the
extrema, and the writer never stores another one (`statistics_exact`).
-/

namespace Acta

open Machine Wire Write StatisticValue

/-! ### The order of a domain -/

namespace StatisticValue

/-- Values of different domains are not compared. -/
def domain : StatisticValue → ℕ
  | bool _ => 0
  | signed _ => 1
  | unsigned _ => 2
  | float32 _ => 3
  | float64 _ => 4
  | bytes _ => 5

/-- Where a value that is not NaN stands among those of its domain. -/
def rank : StatisticValue → ℤ ×ₗ List ℕ
  | bool value => toLex ((value.toNat : ℤ), [])
  | signed value => toLex (value, [])
  | unsigned value => toLex ((value : ℤ), [])
  | float32 bits => toLex (floatKey 32 bits.toNat, [])
  | float64 bits => toLex (floatKey 64 bits.toNat, [])
  | bytes value => toLex (0, value.map UInt8.toNat)

theorem strictMono_number : StrictMono fun value : ℤ ↦ (toLex (value, []) : ℤ ×ₗ List ℕ) :=
  fun _ _ h ↦ Prod.Lex.toLex_lt_toLex.mpr (.inl h)

theorem strictMono_string :
    StrictMono fun value : List ℕ ↦ (toLex (0, value) : ℤ ×ₗ List ℕ) :=
  fun _ _ h ↦ Prod.Lex.toLex_lt_toLex.mpr (.inr ⟨rfl, h⟩)

theorem strictMono_natCast : StrictMono fun value : ℕ ↦ (value : ℤ) :=
  fun _ _ h ↦ Int.ofNat_lt.mpr h

theorem strictMono_toNat : StrictMono Bool.toNat := by
  intro left right h
  obtain ⟨rfl, rfl⟩ := Bool.lt_iff.mp h
  exact Nat.zero_lt_one

/-- **Values of one domain are compared by their ranks**, unless one of them is NaN. -/
theorem compare_eq_cmp_rank {left right : StatisticValue} (hdomain : left.domain = right.domain)
    (hleft : left.isNan = false) (hright : right.isNan = false) :
    left.compare right = some (cmp left.rank right.rank) := by
  have hnumbers : ¬(left.isNan = true ∨ right.isNan = true) := by simp [hleft, hright]
  rcases left with left | left | left | left | left | left <;>
    rcases right with right | right | right | right | right | right <;>
    simp only [domain, Nat.reduceEqDiff] at hdomain
  case bool.bool =>
    exact congrArg some ((strictMono_number.comp
      (strictMono_natCast.comp strictMono_toNat)).cmp_map_eq left right).symm
  case signed.signed => exact congrArg some (strictMono_number.cmp_map_eq left right).symm
  case unsigned.unsigned =>
    exact congrArg some ((strictMono_number.comp strictMono_natCast).cmp_map_eq left right).symm
  case float32.float32 =>
    rw [compare, if_neg hnumbers]
    exact congrArg some (strictMono_number.cmp_map_eq _ _).symm
  case float64.float64 =>
    rw [compare, if_neg hnumbers]
    exact congrArg some (strictMono_number.cmp_map_eq _ _).symm
  case bytes.bytes =>
    -- Byte strings are compared by deciding the same order another way.
    refine congrArg some (Eq.trans ?_ (strictMono_string.cmp_map_eq _ _).symm)
    unfold cmp cmpUsing
    congr

/-- Numbers of one domain are equal where their ranks are. -/
theorem compare_eq_iff {left right : StatisticValue} (hdomain : left.domain = right.domain)
    (hleft : left.isNan = false) (hright : right.isNan = false) :
    left.compare right = some .eq ↔ left.rank = right.rank := by
  rw [compare_eq_cmp_rank hdomain hleft hright, Option.some_inj, cmp_eq_eq_iff]

/-- Only values of one domain that are not NaN are compared. -/
theorem of_compare_eq_some {left right : StatisticValue} {ordering : Ordering}
    (h : left.compare right = some ordering) :
    left.domain = right.domain ∧ left.isNan = false ∧ right.isNan = false := by
  cases left <;> cases right <;> try cases h
  case float32.float32 | float64.float64 =>
    obtain ⟨hnumbers, -⟩ := Option.ite_none_left_eq_some.mp h
    obtain ⟨hleft, hright⟩ := not_or.mp hnumbers
    exact ⟨rfl, eq_false_of_ne_true hleft, eq_false_of_ne_true hright⟩
  all_goals exact ⟨rfl, rfl, rfl⟩

end StatisticValue

/-! ### The extrema of some values -/

/-- A value that is numerically equal to the least of some values. -/
structure IsMinimum (values : List StatisticValue) (minimum : StatisticValue) : Prop where
  attained : ∃ value ∈ values, minimum.compare value = some .eq
  le : ∀ value ∈ values, minimum.compare value = some .lt ∨ minimum.compare value = some .eq

/-- A value that is numerically equal to the greatest of some values. -/
structure IsMaximum (values : List StatisticValue) (maximum : StatisticValue) : Prop where
  attained : ∃ value ∈ values, maximum.compare value = some .eq
  ge : ∀ value ∈ values, maximum.compare value = some .gt ∨ maximum.compare value = some .eq

/-- Values of one domain, none of which is NaN. -/
def Comparable (domain : ℕ) (values : List StatisticValue) : Prop :=
  ∀ value ∈ values, value.domain = domain ∧ value.isNan = false

section Extrema

variable {domain : ℕ} {values : List StatisticValue} {low high value : StatisticValue}

/-- **A minimum is equal to any value that none stands below.** -/
theorem isMinimum_iff (h : Comparable domain values) (hmem : low ∈ values)
    (hle : ∀ value ∈ values, low.rank ≤ value.rank) :
    IsMinimum values value ↔ value.compare low = some .eq := by
  obtain ⟨hlow, hlownan⟩ := h low hmem
  constructor
  · rintro ⟨⟨other, hother, hequal⟩, hbelow⟩
    obtain ⟨hdomain, hvalue, hothernan⟩ := of_compare_eq_some hequal
    have hsame : value.domain = low.domain := hdomain.trans ((h other hother).1.trans hlow.symm)
    have hrank := (compare_eq_iff hdomain hvalue hothernan).mp hequal
    have hatmost : value.rank ≤ low.rank := by
      have hcompare := hbelow low hmem
      rw [compare_eq_cmp_rank hsame hvalue hlownan, Option.some_inj, Option.some_inj,
        cmp_eq_lt_iff, cmp_eq_eq_iff] at hcompare
      exact hcompare.elim le_of_lt le_of_eq
    exact (compare_eq_iff hsame hvalue hlownan).mpr
      (hatmost.antisymm (hrank ▸ hle other hother))
  · intro hequal
    obtain ⟨hdomain, hvalue, -⟩ := of_compare_eq_some hequal
    have hrank := (compare_eq_iff hdomain hvalue hlownan).mp hequal
    refine ⟨⟨low, hmem, hequal⟩, fun other hother ↦ ?_⟩
    obtain ⟨hotherdomain, hothernan⟩ := h other hother
    rw [compare_eq_cmp_rank (hdomain.trans (hlow.trans hotherdomain.symm)) hvalue hothernan,
      Option.some_inj, Option.some_inj, cmp_eq_lt_iff, cmp_eq_eq_iff, hrank]
    exact (hle other hother).lt_or_eq

/-- **A maximum is equal to any value that none stands above.** -/
theorem isMaximum_iff (h : Comparable domain values) (hmem : high ∈ values)
    (hge : ∀ value ∈ values, value.rank ≤ high.rank) :
    IsMaximum values value ↔ value.compare high = some .eq := by
  obtain ⟨hhigh, hhighnan⟩ := h high hmem
  constructor
  · rintro ⟨⟨other, hother, hequal⟩, habove⟩
    obtain ⟨hdomain, hvalue, hothernan⟩ := of_compare_eq_some hequal
    have hsame : value.domain = high.domain := hdomain.trans ((h other hother).1.trans hhigh.symm)
    have hrank := (compare_eq_iff hdomain hvalue hothernan).mp hequal
    have hatleast : high.rank ≤ value.rank := by
      have hcompare := habove high hmem
      rw [compare_eq_cmp_rank hsame hvalue hhighnan, Option.some_inj, Option.some_inj,
        cmp_eq_gt_iff, cmp_eq_eq_iff] at hcompare
      exact hcompare.elim le_of_lt ge_of_eq
    exact (compare_eq_iff hsame hvalue hhighnan).mpr
      (le_antisymm (hrank ▸ hge other hother) hatleast)
  · intro hequal
    obtain ⟨hdomain, hvalue, -⟩ := of_compare_eq_some hequal
    have hrank := (compare_eq_iff hdomain hvalue hhighnan).mp hequal
    refine ⟨⟨high, hmem, hequal⟩, fun other hother ↦ ?_⟩
    obtain ⟨hotherdomain, hothernan⟩ := h other hother
    rw [compare_eq_cmp_rank (hdomain.trans (hhigh.trans hotherdomain.symm)) hvalue hothernan,
      Option.some_inj, Option.some_inj, cmp_eq_gt_iff, cmp_eq_eq_iff, hrank]
    exact (hge other hother).lt_or_eq.imp_right Eq.symm

/-- A value replaces an extremum of its domain by its rank. -/
theorem replaces_eq {current : StatisticValue} (hdomain : value.domain = current.domain)
    (hvalue : value.isNan = false) (hcurrent : current.isNan = false) (ordering : Ordering) :
    Extrema.replaces value (some current) ordering =
      decide (cmp value.rank current.rank = ordering) := by
  rw [Extrema.replaces, Option.all_some, compare_eq_cmp_rank hdomain hvalue hcurrent]
  exact decide_eq_decide.mpr Option.some_inj

/-- The least value so far, where `better` keeps the smaller rank. -/
def lower : StatisticValue → StatisticValue → StatisticValue :=
  Ranking.better (fun _ ↦ True) rank

/-- The greatest value so far, where `better` keeps the smaller rank of the opposite order. -/
def higher : StatisticValue → StatisticValue → StatisticValue :=
  Ranking.better (fun _ ↦ True) fun value ↦ OrderDual.toDual value.rank

theorem push_eq (hlow : low.domain = domain ∧ low.isNan = false)
    (hhigh : high.domain = domain ∧ high.isNan = false)
    (hvalue : value.domain = domain ∧ value.isNan = false) :
    Extrema.push ⟨some low, some high⟩ value =
      ⟨some (lower low value), some (higher high value)⟩ := by
  rw [Extrema.push, replaces_eq (hvalue.1.trans hlow.1.symm) hvalue.2 hlow.2,
    replaces_eq (hvalue.1.trans hhigh.1.symm) hvalue.2 hhigh.2, lower, higher, Ranking.better,
    Ranking.better, apply_ite some, apply_ite some]
  have hbelow : decide (cmp value.rank low.rank = .lt) = true ↔ True ∧ value.rank < low.rank :=
    decide_eq_true_iff.trans ((cmp_eq_lt_iff _ _).trans (and_iff_right trivial).symm)
  have habove : decide (cmp value.rank high.rank = .gt) = true ↔ True ∧ high.rank < value.rank :=
    decide_eq_true_iff.trans ((cmp_eq_gt_iff _ _).trans (and_iff_right trivial).symm)
  exact congrArg₂ Extrema.mk (if_congr hbelow rfl rfl) (if_congr habove rfl rfl)

theorem lower_eq_or (low value : StatisticValue) :
    lower low value = low ∨ lower low value = value := by
  rw [lower, Ranking.better]
  split
  · exact .inr rfl
  · exact .inl rfl

theorem higher_eq_or (high value : StatisticValue) :
    higher high value = high ∨ higher high value = value := by
  rw [higher, Ranking.better]
  split
  · exact .inr rfl
  · exact .inl rfl

/-- **A reduction keeps the better values** of one domain. -/
theorem foldl_push_eq (h : Comparable domain values)
    (hlow : low.domain = domain ∧ low.isNan = false)
    (hhigh : high.domain = domain ∧ high.isNan = false) :
    values.foldl Extrema.push ⟨some low, some high⟩ =
      ⟨some (values.foldl lower low), some (values.foldl higher high)⟩ := by
  induction values generalizing low high with
  | nil => rfl
  | cons value values ih =>
    obtain ⟨hvalue, hvalues⟩ := List.forall_mem_cons.mp h
    rw [List.foldl_cons, List.foldl_cons, List.foldl_cons, push_eq hlow hhigh hvalue]
    refine ih hvalues ?_ ?_
    · rcases lower_eq_or low value with hsame | hsame
      · rwa [hsame]
      · rwa [hsame]
    · rcases higher_eq_or high value with hsame | hsame
      · rwa [hsame]
      · rwa [hsame]

/-- **A reduction ends with extrema of the values**, when there are any. -/
theorem exists_extrema (h : Comparable domain values) (hne : values ≠ []) :
    ∃ low high, (values.foldl Extrema.push {}).pair = some (low, high) ∧
      (low ∈ values ∧ ∀ value ∈ values, low.rank ≤ value.rank) ∧
      high ∈ values ∧ ∀ value ∈ values, value.rank ≤ high.rank := by
  obtain ⟨first, rest, rfl⟩ := List.exists_cons_of_ne_nil hne
  obtain ⟨hfirst, hrest⟩ := List.forall_mem_cons.mp h
  have hfold : (first :: rest).foldl Extrema.push {} =
      ⟨some (rest.foldl lower first), some (rest.foldl higher first)⟩ :=
    foldl_push_eq hrest hfirst hfirst
  refine ⟨rest.foldl lower first, rest.foldl higher first, by rw [hfold]; rfl, ⟨?_, ?_⟩, ?_, ?_⟩
  · exact List.mem_cons.mpr ((Ranking.foldl_better_mem rest first).imp_right And.left)
  · obtain ⟨hstart, hall⟩ := @Ranking.foldl_better_le _ _ _ (fun _ ↦ True) _ rank rest first
    exact List.forall_mem_cons.mpr ⟨hstart, fun value hvalue ↦ hall value hvalue trivial⟩
  · exact List.mem_cons.mpr ((Ranking.foldl_better_mem rest first).imp_right And.left)
  · obtain ⟨hstart, hall⟩ := @Ranking.foldl_better_le _ _ _ (fun _ ↦ True) _
      (fun value : StatisticValue ↦ OrderDual.toDual value.rank) rest first
    exact List.forall_mem_cons.mpr ⟨hstart, fun value hvalue ↦ hall value hvalue trivial⟩

end Extrema

/-! ### The values of a column -/

/-- The values of a column that its statistics are about: those that are neither null nor NaN. -/
def statisticsOf (values : List (Option ScalarValue)) : List StatisticValue :=
  (values.reduceOption.filterMap ScalarValue.statistic).filter fun value ↦ !value.isNan

theorem statisticsOf_some {value : ScalarValue} {statistic : StatisticValue}
    (h : value.statistic = some statistic) (values : List (Option ScalarValue)) :
    statisticsOf (some value :: values) =
      if statistic.isNan then statisticsOf values else statistic :: statisticsOf values := by
  rw [statisticsOf, List.reduceOption_cons_of_some, List.filterMap_cons, h]
  cases hnan : statistic.isNan with
  | true => exact List.filter_cons_of_neg (by simp [hnan])
  | false => exact List.filter_cons_of_pos (by simp [hnan])

/-- The values that a logical type compares. -/
def LogicalType.Admits : LogicalType → StatisticValue → Prop
  | .bool, .bool _ => True
  | .integer type, .signed value => type.signed = true ∧ type.InRange value
  | .integer type, .unsigned value => type.signed = false ∧ type.InRange value
  | .date32, .signed value => IntType.int32.InRange value
  | .decimal _ _, .signed value => IntType.int64.InRange value
  | .timestamp _ _, .signed value => IntType.int64.InRange value
  | .float32, .float32 _ => True
  | .float64, .float64 _ => True
  | .fixedBinary _, .bytes _ => True
  | _, _ => False

section Column

variable {column : Column} {width : ℕ}

theorem LogicalType.Admits.domain_eq {logicalType : LogicalType} {left right : StatisticValue}
    (hleft : logicalType.Admits left) (hright : logicalType.Admits right) :
    left.domain = right.domain := by
  cases logicalType <;> cases left <;> cases right <;> simp_all [LogicalType.Admits, domain]

/-- A value that is equal to one of a logical type is of that type as well. -/
theorem LogicalType.Admits.of_compare {logicalType : LogicalType} {left right : StatisticValue}
    (h : logicalType.Admits right) (hequal : left.compare right = some .eq) :
    logicalType.Admits left := by
  have hdomain := (of_compare_eq_some hequal).1
  have hcmp {α : Type} [LinearOrder α] {one other : α} (heq : some (cmp one other) = some .eq) :
      one = other := (cmp_eq_eq_iff one other).mp (Option.some.inj heq)
  cases right <;> cases left <;> try cases hdomain
  case bool.bool.refl | float32.float32.refl | float64.float64.refl | bytes.bytes.refl =>
    cases logicalType <;> exact h
  case signed.signed.refl | unsigned.unsigned.refl =>
    obtain rfl := hcmp hequal
    exact h

/-- **A described value has a statistic**, where the logical type has any. -/
theorem exists_statistic (hwidth : Validate.canonicalWidth column = .ok width)
    {value : ScalarValue} (h : column.logicalType.describes value.type = true) :
    ∃ statistic, value.statistic = some statistic ∧ column.logicalType.Admits statistic := by
  obtain ⟨id, name, logicalType, nullable⟩ := column
  obtain ⟨type, stored⟩ := value
  dsimp only at h
  cases logicalType with
  | utf8 | categorical _ | binary => cases hwidth
  | bool | float32 | float64 | fixedBinary _ =>
    cases type <;> try cases h
    exact ⟨_, rfl, trivial⟩
  | decimal _ _ | timestamp _ _ | date32 =>
    cases type <;> try cases h
    exact ⟨_, rfl, Subtype.property stored⟩
  | integer expected =>
    cases type <;> try cases h
    case integer actual =>
      obtain rfl := of_decide_eq_true h
      refine ⟨_, rfl, ?_⟩
      show LogicalType.Admits _ (if _ then _ else _)
      split
      case isTrue hsigned => exact ⟨hsigned, stored.property⟩
      case isFalse hsigned =>
        have hnonneg : 0 ≤ stored.val := by
          have hlowest := stored.property.1
          rwa [IntType.lowest, if_neg hsigned] at hlowest
        refine ⟨eq_false_of_ne_true hsigned, ?_⟩
        rw [Int.toNat_of_nonneg hnonneg]
        exact stored.property

/-- **The reader reduces the values of a column** in row order. -/
theorem foldlM_reduceRow (hwidth : Validate.canonicalWidth column = .ok width)
    {values : List (Option ScalarValue)}
    (h : ∀ value, some value ∈ values → column.logicalType.describes value.type = true)
    (extrema : Extrema) :
    values.foldlM (Validate.reduceRow column) extrema =
      .ok ((statisticsOf values).foldl Extrema.push extrema) := by
  induction values generalizing extrema with
  | nil => rfl
  | cons row rest ih =>
    have hrest := ih fun value hvalue ↦ h value (List.mem_cons_of_mem _ hvalue)
    rw [List.foldlM_cons]
    rcases row with - | value
    · exact hrest extrema
    · obtain ⟨statistic, hstatistic, -⟩ := exists_statistic hwidth (h value List.mem_cons_self)
      rw [statisticsOf_some hstatistic, Validate.reduceRow, Validate.scalarValue, hstatistic]
      show ((if _ then _ else _) >>= _) = _
      split
      case isTrue => exact hrest extrema
      case isFalse => exact hrest (extrema.push statistic)

/-- The values of a column are of its logical type, and none of them is NaN. -/
theorem admits_of_mem_statisticsOf (hwidth : Validate.canonicalWidth column = .ok width)
    {values : List (Option ScalarValue)}
    (h : ∀ value, some value ∈ values → column.logicalType.describes value.type = true)
    {statistic : StatisticValue} (hmem : statistic ∈ statisticsOf values) :
    column.logicalType.Admits statistic ∧ statistic.isNan = false := by
  obtain ⟨hmem, hnan⟩ := List.mem_filter.mp hmem
  obtain ⟨value, hvalue, hstatistic⟩ := List.mem_filterMap.mp hmem
  obtain ⟨found, hfound, hadmits⟩ :=
    exists_statistic hwidth (h value (List.reduceOption_mem_iff.mp hvalue))
  cases hfound.symm.trans hstatistic
  exact ⟨hadmits, Bool.not_eq_eq_eq_not.mp hnan⟩

theorem exists_comparable (hwidth : Validate.canonicalWidth column = .ok width)
    {values : List (Option ScalarValue)}
    (h : ∀ value, some value ∈ values → column.logicalType.describes value.type = true) :
    ∃ domain, Comparable domain (statisticsOf values) := by
  rcases hvalues : statisticsOf values with - | ⟨first, rest⟩
  · exact ⟨0, fun value hvalue ↦ absurd hvalue List.not_mem_nil⟩
  · rw [← hvalues]
    have hfirst : first ∈ statisticsOf values := hvalues ▸ List.mem_cons_self
    refine ⟨first.domain, fun value hvalue ↦ ?_⟩
    obtain ⟨hadmits, hnan⟩ := admits_of_mem_statisticsOf hwidth h hvalue
    exact ⟨hadmits.domain_eq (admits_of_mem_statisticsOf hwidth h hfirst).1, hnan⟩

theorem statistic_of_statisticValue {value : ScalarValue} {statistic : StatisticValue}
    (h : statisticValue column value = .ok statistic) : value.statistic = some statistic := by
  rw [statisticValue] at h
  obtain ⟨-, -, h⟩ := bind_eq_ok.mp h
  obtain ⟨found, hfound, h⟩ := bind_eq_ok.mp h
  have hsame : found = statistic := by
    split at h
    · obtain ⟨-, -, h⟩ := bind_eq_ok.mp h
      cases h
      rfl
    · cases h
      rfl
  subst hsame
  exact okOr_eq_ok.mp hfound

/-- **The writer reduces the same values** in the same order. -/
theorem foldlM_scanStatistic {values : List (Option ScalarValue)} {state final : Extrema × ℕ}
    (h : (values.reduceOption.map Except.ok).foldlM (scanStatistic column) state = .ok final) :
    final.1 = (statisticsOf values).foldl Extrema.push state.1 := by
  induction values generalizing state with
  | nil =>
    cases h
    rfl
  | cons row rest ih =>
    rcases row with - | value
    · exact ih h
    · rw [List.reduceOption_cons_of_some, List.map_cons, List.foldlM_cons] at h
      obtain ⟨next, hnext, hrest⟩ := bind_eq_ok.mp h
      obtain ⟨_, hvalue, hnext⟩ := bind_eq_ok.mp hnext
      cases hvalue
      obtain ⟨statistic, hstatistic, hnext⟩ := bind_eq_ok.mp hnext
      rw [statisticsOf_some (statistic_of_statisticValue hstatistic), ih hrest]
      split at hnext
      case isTrue hnan =>
        cases hnext
        rw [if_pos hnan]
      case isFalse hnan =>
        cases hnext
        rw [if_neg hnan, List.foldl_cons]

end Column

/-! ### The stored values -/

namespace Write

section Width

variable {logicalType : LogicalType} {width : ℕ} {bytes : Bytes}

/-- A statistic is stored in the width of its type. -/
theorem length_of_statisticBytes {value : StatisticValue}
    (hwidth : statisticWidth logicalType = some width)
    (h : statisticBytes logicalType value = some bytes) : bytes.length = width := by
  cases logicalType <;> cases value <;> try cases h
  case bool.bool =>
    cases hwidth
    rfl
  case float32.float32 | float64.float64 | decimal.signed | timestamp.signed | date32.signed =>
    cases hwidth
    exact length_leBytes _ _
  case integer.signed type value =>
    cases hwidth
    obtain ⟨-, hbytes⟩ := Option.ite_none_right_eq_some.mp h
    cases hbytes
    exact length_leBytes _ _
  case integer.unsigned type value =>
    cases hwidth
    obtain ⟨-, hbytes⟩ := Option.ite_none_left_eq_some.mp h
    cases hbytes
    exact length_leBytes _ _
  case fixedBinary.bytes byteWidth value =>
    obtain ⟨hlength, hbytes⟩ := Option.ite_none_right_eq_some.mp h
    obtain ⟨-, hwidth⟩ := Option.ite_none_left_eq_some.mp hwidth
    cases hbytes
    cases hwidth
    exact hlength

/-- A pair is stored where both of its values are, one after the other. -/
theorem encodeStatistics_eq_ok {minimum maximum : StatisticValue}
    (hwidth : statisticWidth logicalType = some width) :
    encodeStatistics logicalType minimum maximum = .ok bytes ↔
      ∃ low high, statisticBytes logicalType minimum = some low ∧
        statisticBytes logicalType maximum = some high ∧ low ++ high = bytes := by
  rw [encodeStatistics, hwidth]
  constructor
  · intro h
    obtain ⟨-, -, h⟩ := bind_eq_ok.mp h
    obtain ⟨low, hlow, h⟩ := bind_eq_ok.mp h
    obtain ⟨high, hhigh, h⟩ := bind_eq_ok.mp h
    cases h
    exact ⟨low, high, okOr_eq_ok.mp hlow, okOr_eq_ok.mp hhigh, rfl⟩
  · rintro ⟨low, high, hlow, hhigh, rfl⟩
    rw [hlow, hhigh]
    rfl

/-- A pair holds two statistics of the width of its type. -/
theorem length_of_encodeStatistics {minimum maximum : StatisticValue}
    (hwidth : statisticWidth logicalType = some width)
    (h : encodeStatistics logicalType minimum maximum = .ok bytes) : bytes.length = 2 * width := by
  obtain ⟨low, high, hlow, hhigh, rfl⟩ := (encodeStatistics_eq_ok hwidth).mp h
  rw [List.length_append, length_of_statisticBytes hwidth hlow,
    length_of_statisticBytes hwidth hhigh, Nat.two_mul]

end Width

end Write

section Stored

variable {column : Column} {width : ℕ} {bytes : Bytes} {value : StatisticValue}

/-- Both sides take the same width for a type. -/
theorem statisticWidth_eq (hwidth : Validate.canonicalWidth column = .ok width) :
    statisticWidth column.logicalType = some width := by
  obtain ⟨id, name, logicalType, nullable⟩ := column
  cases logicalType <;> try cases hwidth
  case fixedBinary byteWidth =>
    change (if byteWidth ≠ 0 then _ else _) = _ at hwidth
    split at hwidth
    case isTrue hne =>
      cases hwidth
      exact if_neg hne
    case isFalse => cases hwidth
  all_goals rfl

theorem parseBool_eq_ok (hlength : bytes.length = 1) {flag : Bool} :
    Validate.parseBool bytes column = .ok flag ↔ [flag.toUInt8] = bytes := by
  obtain ⟨byte, rfl⟩ := List.length_eq_one_iff.mp hlength
  rw [Validate.parseBool, List.cons.injEq, and_iff_left rfl]
  split
  case isTrue hzero =>
    subst hzero
    cases flag <;> decide
  case isFalse hzero =>
    split
    case isTrue hone =>
      subst hone
      cases flag <;> decide
    case isFalse hone =>
      constructor
      · exact fun h ↦ nomatch h
      · rintro rfl
        cases flag
        · exact absurd rfl hzero
        · exact absurd rfl hone

theorem mem_widths {type : IntType} (hlength : bytes.length = type.width) :
    ¬bytes.length ∉ [1, 2, 4, 8] := by
  rw [hlength]
  cases type <;> decide

theorem parseSigned_eq_ok {type : IntType} (hsigned : type.signed = true)
    (hlength : bytes.length = type.width) {number : ℤ} :
    Validate.parseSigned bytes column = .ok number ↔
      type.InRange number ∧ leBytes type.width (toTwos (8 * type.width) number) = bytes := by
  have hne : bytes ≠ [] := List.ne_nil_of_length_pos (hlength ▸ type.width_pos)
  rw [Validate.parseSigned, failIf_neg (mem_widths hlength), ok_bind, pure_eq_ok,
    Except.ok.injEq, ofTwos_leNat_eq_iff hne, hlength, IntType.InRange, IntType.lowest,
    IntType.limit, if_pos hsigned, if_pos hsigned]

theorem parseUnsigned_eq_ok {type : IntType} (hsigned : ¬type.signed = true)
    (hlength : bytes.length = type.width) {number : ℕ} :
    Validate.parseUnsigned bytes column = .ok number ↔
      type.InRange number ∧ leBytes type.width number = bytes := by
  have hrange : type.InRange number ↔ number < 256 ^ type.width := by
    rw [IntType.InRange, IntType.lowest, IntType.limit, if_neg hsigned, if_neg hsigned,
      Nat.pow_mul, Int.ofNat_lt]
    exact and_iff_right (Int.natCast_nonneg number)
  rw [Validate.parseUnsigned, failIf_neg (mem_widths hlength), ok_bind, pure_eq_ok,
    Except.ok.injEq, leNat_eq_iff, hlength, hrange]

theorem parseFloat32_eq_ok (hlength : bytes.length = 4) {bits : UInt32} :
    Validate.parseFloat32 bytes column = .ok bits ↔
      (float32 bits).isNan = false ∧ leBytes 4 bits.toNat = bytes := by
  have hlt : leNat bytes < 2 ^ 32 := by
    have hbound := leNat_lt bytes
    rwa [hlength] at hbound
  have hbits : UInt32.ofNat (leNat bytes) = bits ↔ leBytes 4 bits.toNat = bytes := by
    rw [← UInt32.toNat_inj, UInt32.toNat_ofNat_of_lt' hlt, leNat_eq_iff, hlength]
    exact and_iff_right bits.toNat_lt
  rw [Validate.parseFloat32, failIf_neg (not_not.mpr hlength), ok_bind, ← hbits]
  constructor
  · intro h
    obtain ⟨_, hnan, h⟩ := bind_eq_ok.mp h
    cases h
    exact ⟨eq_false_of_ne_true (failIf_eq_ok.mp hnan), rfl⟩
  · rintro ⟨hnan, rfl⟩
    show (failIf _ _ >>= _) = _
    rw [failIf_neg (by simp [hnan]), ok_bind, pure_eq_ok]

theorem parseFloat64_eq_ok (hlength : bytes.length = 8) {bits : UInt64} :
    Validate.parseFloat64 bytes column = .ok bits ↔
      (float64 bits).isNan = false ∧ leBytes 8 bits.toNat = bytes := by
  have hlt : leNat bytes < 2 ^ 64 := by
    have hbound := leNat_lt bytes
    rwa [hlength] at hbound
  have hbits : UInt64.ofNat (leNat bytes) = bits ↔ leBytes 8 bits.toNat = bytes := by
    rw [← UInt64.toNat_inj, UInt64.toNat_ofNat_of_lt' hlt, leNat_eq_iff, hlength]
    exact and_iff_right bits.toNat_lt
  rw [Validate.parseFloat64, failIf_neg (not_not.mpr hlength), ok_bind, ← hbits]
  constructor
  · intro h
    obtain ⟨_, hnan, h⟩ := bind_eq_ok.mp h
    cases h
    exact ⟨eq_false_of_ne_true (failIf_eq_ok.mp hnan), rfl⟩
  · rintro ⟨hnan, rfl⟩
    show (failIf _ _ >>= _) = _
    rw [failIf_neg (by simp [hnan]), ok_bind, pure_eq_ok]

/-- A value that a logical type compares, stored in some bytes. -/
def StoresValue (logicalType : LogicalType) (bytes : Bytes) (value : StatisticValue) : Prop :=
  logicalType.Admits value ∧ value.isNan = false ∧ statisticBytes logicalType value = some bytes

/-- What is parsed as a value of one domain is what is stored as one. -/
theorem wrapped_iff {α : Type} {parsed : Result α} {wrap : α → StatisticValue}
    {logicalType : LogicalType}
    (hparsed : ∀ found, parsed = .ok found ↔ StoresValue logicalType bytes (wrap found))
    (hwrap : logicalType.Admits value → ∃ found, wrap found = value) :
    (do return wrap (← parsed)) = Except.ok value ↔ StoresValue logicalType bytes value := by
  rw [bind_eq_ok]
  constructor
  · rintro ⟨found, hfound, h⟩
    cases h
    exact (hparsed found).mp hfound
  · intro h
    obtain ⟨found, rfl⟩ := hwrap h.1
    exact ⟨found, (hparsed found).mpr h, rfl⟩

/-- **A stored extremum is parsed as the value it was stored from**, and NaN is not parsed. -/
theorem parseStatistic_eq_ok (hwidth : Validate.canonicalWidth column = .ok width)
    (hlength : bytes.length = width) :
    Validate.parseStatistic bytes column = .ok value ↔
      StoresValue column.logicalType bytes value := by
  obtain ⟨id, name, logicalType, nullable⟩ := column
  cases logicalType with
  | bool =>
    cases hwidth
    refine wrapped_iff (fun found ↦ (parseBool_eq_ok hlength).trans ?_) ?_
    · exact ⟨fun h ↦ ⟨trivial, rfl, congrArg some h⟩, fun h ↦ Option.some_inj.mp h.2.2⟩
    · cases value <;> simp [LogicalType.Admits]
  | integer type =>
    cases hwidth
    show (if _ then _ else _) = _ ↔ _
    split
    case isTrue hsigned =>
      refine wrapped_iff (fun found ↦ (parseSigned_eq_ok hsigned hlength).trans ?_) ?_
      · rw [StoresValue, statisticBytes, if_pos hsigned, Option.some_inj]
        exact ⟨fun h ↦ ⟨⟨hsigned, h.1⟩, rfl, h.2⟩, fun h ↦ ⟨h.1.2, h.2.2⟩⟩
      · cases value <;> simp [LogicalType.Admits, hsigned]
    case isFalse hsigned =>
      refine wrapped_iff (fun found ↦ (parseUnsigned_eq_ok hsigned hlength).trans ?_) ?_
      · rw [StoresValue, statisticBytes, if_neg hsigned, Option.some_inj]
        exact ⟨fun h ↦ ⟨⟨eq_false_of_ne_true hsigned, h.1⟩, rfl, h.2⟩, fun h ↦ ⟨h.1.2, h.2.2⟩⟩
      · cases value <;> simp [LogicalType.Admits, hsigned]
  | float32 =>
    cases hwidth
    refine wrapped_iff (fun found ↦ (parseFloat32_eq_ok hlength).trans ?_) ?_
    · exact ⟨fun h ↦ ⟨trivial, h.1, congrArg some h.2⟩, fun h ↦ ⟨h.2.1, Option.some_inj.mp h.2.2⟩⟩
    · cases value <;> simp [LogicalType.Admits]
  | float64 =>
    cases hwidth
    refine wrapped_iff (fun found ↦ (parseFloat64_eq_ok hlength).trans ?_) ?_
    · exact ⟨fun h ↦ ⟨trivial, h.1, congrArg some h.2⟩, fun h ↦ ⟨h.2.1, Option.some_inj.mp h.2.2⟩⟩
    · cases value <;> simp [LogicalType.Admits]
  | decimal _ _ | timestamp _ _ =>
    cases hwidth
    refine wrapped_iff (fun found ↦ (@parseSigned_eq_ok _ _ .int64 rfl hlength found).trans ?_) ?_
    · exact ⟨fun h ↦ ⟨h.1, rfl, congrArg some h.2⟩, fun h ↦ ⟨h.1, Option.some_inj.mp h.2.2⟩⟩
    · cases value <;> simp [LogicalType.Admits]
  | date32 =>
    cases hwidth
    refine wrapped_iff (fun found ↦ (@parseSigned_eq_ok _ _ .int32 rfl hlength found).trans ?_) ?_
    · exact ⟨fun h ↦ ⟨h.1, rfl, congrArg some h.2⟩, fun h ↦ ⟨h.1, Option.some_inj.mp h.2.2⟩⟩
    · cases value <;> simp [LogicalType.Admits]
  | fixedBinary byteWidth =>
    have hbytes : bytes.length = byteWidth.toNat := by
      change (if byteWidth ≠ 0 then _ else _) = _ at hwidth
      split at hwidth
      · cases hwidth
        exact hlength
      · cases hwidth
    show Except.ok (StatisticValue.bytes bytes) = _ ↔ _
    rw [Except.ok.injEq]
    constructor
    · rintro rfl
      exact ⟨trivial, rfl, if_pos hbytes⟩
    · rintro ⟨hadmits, -, hstored⟩
      cases value <;> try cases hstored
      obtain ⟨-, hsame⟩ := Option.ite_none_right_eq_some.mp hstored
      exact congrArg StatisticValue.bytes (Option.some_inj.mp hsame).symm
  | utf8 | categorical _ | binary => cases hwidth

theorem width_lt (hwidth : Validate.canonicalWidth column = .ok width) : width < 2 ^ 32 := by
  obtain ⟨id, name, logicalType, nullable⟩ := column
  cases logicalType <;> try cases hwidth
  case fixedBinary byteWidth =>
    change (if byteWidth ≠ 0 then _ else _) = _ at hwidth
    split at hwidth
    case isTrue =>
      cases hwidth
      exact byteWidth.toNat_lt
    case isFalse => cases hwidth
  case integer type => exact lt_of_le_of_lt type.width_le (by decide)
  all_goals decide

/-- **A stored pair is parsed as the pair it was stored from.** -/
theorem parseStoredStatistics_eq_ok (hwidth : Validate.canonicalWidth column = .ok width)
    (hlength : bytes.length = 2 * width) {minimum maximum : StatisticValue} :
    Validate.parseStoredStatistics bytes column = .ok (minimum, maximum) ↔
      (column.logicalType.Admits minimum ∧ minimum.isNan = false) ∧
        (column.logicalType.Admits maximum ∧ maximum.isNan = false) ∧
          encodeStatistics column.logicalType minimum maximum = .ok bytes := by
  have hlong : ¬bytes.length < saturatingMul width 2 := by
    rw [saturatingMul]
    omega
  have hlow : (slice bytes 0 width).length = width := length_slice_of_le (by omega)
  have hhigh : (slice bytes width width).length = width := length_slice_of_le (by omega)
  have hparts : slice bytes 0 width ++ slice bytes width width = bytes := by
    have hadd := slice_add bytes 0 width width
    rw [Nat.zero_add, show width + width = bytes.length by omega, slice_self] at hadd
    exact hadd.symm
  rw [Validate.parseStoredStatistics, hwidth, ok_bind, failIf_neg hlong, ok_bind,
    encodeStatistics_eq_ok (statisticWidth_eq hwidth)]
  constructor
  · intro h
    obtain ⟨_, hminimum, h⟩ := bind_eq_ok.mp h
    obtain ⟨_, hmaximum, h⟩ := bind_eq_ok.mp h
    cases h
    obtain ⟨hadmits, hnan, hbytes⟩ := (parseStatistic_eq_ok hwidth hlow).mp hminimum
    obtain ⟨hadmits', hnan', hbytes'⟩ := (parseStatistic_eq_ok hwidth hhigh).mp hmaximum
    exact ⟨⟨hadmits, hnan⟩, ⟨hadmits', hnan'⟩, _, _, hbytes, hbytes', hparts⟩
  · rintro ⟨⟨hadmits, hnan⟩, ⟨hadmits', hnan'⟩, low, high, hbytes, hbytes', hsplit⟩
    have hlow' := length_of_statisticBytes (statisticWidth_eq hwidth) hbytes
    obtain ⟨rfl, rfl⟩ := List.append_inj (hsplit.trans hparts.symm) (hlow'.trans hlow.symm)
    rw [(parseStatistic_eq_ok hwidth hlow).mpr ⟨hadmits, hnan, hbytes⟩, ok_bind,
      (parseStatistic_eq_ok hwidth hhigh).mpr ⟨hadmits', hnan', hbytes'⟩]
    rfl

end Stored

/-! ### Verification -/

/-- A min/max claim whose range lies in the frame header, and the bytes that it finds there. -/
structure ClaimsExtrema (file : Bytes) (fileSize : ℕ) (frame : FrameMetadata)
    (descriptor : ColumnBlockDescriptor) (limits : Limits) (stored : Bytes) : Prop where
  statsKind : descriptor.statsKind = statsMinMax
  flag : descriptor.flags &&& columnHasStatsFlag ≠ 0
  statsLength : descriptor.statsLength = stored.length
  inHeader : descriptor.statsOffset + stored.length ≤ frame.headerLength
  headerLength_le : frame.headerLength ≤ limits.maxFrameHeaderLength
  inSnapshot : frame.headerOffset + frame.headerLength ≤ fileSize
  fileSize_le : fileSize ≤ u64Max
  held : HoldsAt file (frame.headerOffset + descriptor.statsOffset) stored

section Verification

variable {file : Bytes} {fileSize : ℕ} {frame : FrameMetadata}
  {descriptor : ColumnBlockDescriptor} {limits : Limits} {stored : Bytes} {column : Column}
  {width : ℕ} {array : LogicalArray}

/-- The bytes of a claim are read. -/
theorem ClaimsExtrema.readStatistics_eq
    (h : ClaimsExtrema file fileSize frame descriptor limits stored) :
    Validate.readStatistics file fileSize frame descriptor column limits = .ok stored := by
  have hstart := h.inHeader
  have hheader := h.headerLength_le
  have hsnapshot := h.inSnapshot
  have hsize := h.fileSize_le
  have hrange : Validate.statisticsRange frame descriptor column fileSize limits =
      .ok (frame.headerOffset + descriptor.statsOffset, stored.length) := by
    rw [Validate.statisticsRange, h.statsLength]
    refine bind_eq_ok.mpr ⟨_, okOr_eq_ok.mpr (checkedAdd_of_le (by omega)), ?_⟩
    refine bind_eq_ok.mpr ⟨_, okOr_eq_ok.mpr (checkedAdd_of_le (by omega)), ?_⟩
    refine bind_eq_ok.mpr ⟨_, okOr_eq_ok.mpr (checkedAdd_of_le (by omega)), ?_⟩
    rw [failIf_neg (by omega), ok_bind, failIf_neg (by omega), ok_bind, failIf_neg (by omega),
      ok_bind, pure_eq_ok]
  rw [Validate.readStatistics, hrange, ok_bind]
  show (readExactAt file (frame.headerOffset + descriptor.statsOffset) stored.length).withContext _
    = .ok stored
  rw [withContext_eq_ok, readExactAt_of_le h.held.fits, h.held.slice_eq]

/-- **What the reader accepts**, step by step. -/
theorem ClaimsExtrema.verify_eq_ok (h : ClaimsExtrema file fileSize frame descriptor limits stored)
    (hwidth : Validate.canonicalWidth column = .ok width) :
    Validate.verifyColumnStatistics file fileSize frame descriptor column array limits = .ok () ↔
      stored.length = width * 2 ∧
        ∃ minimum maximum, Validate.parseStoredStatistics stored column = .ok (minimum, maximum) ∧
          Validate.verifyStoredOrder column minimum maximum = .ok () ∧
            ∃ actual, Validate.reduceDecodedValues array column = .ok (some actual) ∧
              minimum.compare actual.1 = some .eq ∧ maximum.compare actual.2 = some .eq := by
  have hwide := width_lt hwidth
  have hclassify : Validate.classify descriptor column frame.headerOffset =
      .ok (.minMax (width * 2)) := by
    have hproduct : checkedMul width 2 = some (width * 2) := by
      rw [checkedMul_eq_some, show u64Max = 2 ^ 64 - 1 from rfl]
      omega
    rw [Validate.classify, h.statsKind, hwidth, if_neg (by decide), if_pos rfl,
      failIf_neg (by simpa using h.flag), ok_bind, ok_bind, hproduct]
    rfl
  rw [Validate.verifyColumnStatistics, hclassify, ok_bind, h.statsLength]
  show (failIf _ _ >>= _) = _ ↔ _
  constructor
  · intro h'
    obtain ⟨_, hlength, h'⟩ := bind_eq_ok.mp h'
    rw [h.readStatistics_eq, ok_bind] at h'
    obtain ⟨⟨minimum, maximum⟩, hparse, h'⟩ := bind_eq_ok.mp h'
    obtain ⟨_, horder, h'⟩ := bind_eq_ok.mp h'
    obtain ⟨found, hreduce, h'⟩ := bind_eq_ok.mp h'
    obtain ⟨actual, hactual, h'⟩ := bind_eq_ok.mp h'
    cases okOr_eq_ok.mp hactual
    change Validate.verifyMatches column (minimum, maximum) actual = _ at h'
    rw [Validate.verifyMatches, failIf_eq_ok, not_or, not_not, not_not] at h'
    exact ⟨not_not.mp (failIf_eq_ok.mp hlength), minimum, maximum, hparse, horder, actual, hreduce,
      h'⟩
  · rintro ⟨hlength, minimum, maximum, hparse, horder, actual, hreduce, hminimum, hmaximum⟩
    rw [failIf_neg (not_not.mpr hlength), ok_bind, h.readStatistics_eq, ok_bind, hparse, ok_bind,
      horder, ok_bind, hreduce, ok_bind]
    show Validate.verifyMatches column (minimum, maximum) actual = _
    rw [Validate.verifyMatches, failIf_neg (by simp [hminimum, hmaximum])]

/-- The values of an array have the type of the array. -/
theorem describes_rows (hdescribes : column.logicalType.describes array.type = true)
    (value : ScalarValue) (h : some value ∈ array.rows) :
    column.logicalType.describes value.type = true := by
  obtain ⟨row, -, hrow⟩ := List.mem_map.mp h
  rwa [LogicalArray.type_of_valueAt hrow]

theorem reduceDecodedValues_eq (hwidth : Validate.canonicalWidth column = .ok width)
    (hdescribes : column.logicalType.describes array.type = true) :
    Validate.reduceDecodedValues array column =
      .ok ((statisticsOf array.rows).foldl Extrema.push {}).pair := by
  rw [Validate.reduceDecodedValues, foldlM_reduceRow hwidth (describes_rows hdescribes), ok_bind,
    pure_eq_ok]

theorem verifyStoredOrder_of_le {minimum maximum : StatisticValue}
    (hdomain : minimum.domain = maximum.domain) (hminimum : minimum.isNan = false)
    (hmaximum : maximum.isNan = false) (hle : minimum.rank ≤ maximum.rank) :
    Validate.verifyStoredOrder column minimum maximum = .ok () := by
  rw [Validate.verifyStoredOrder, compare_eq_cmp_rank hdomain hminimum hmaximum]
  rcases hle.lt_or_eq with hlt | heq
  · rw [(cmp_eq_lt_iff _ _).mpr hlt]
  · rw [(cmp_eq_eq_iff _ _).mpr heq]

/-- **The reader accepts a claim** exactly where it is stored from the extrema of the values. -/
theorem ClaimsExtrema.verify_iff (h : ClaimsExtrema file fileSize frame descriptor limits stored)
    (hwidth : Validate.canonicalWidth column = .ok width)
    (hdescribes : column.logicalType.describes array.type = true) :
    Validate.verifyColumnStatistics file fileSize frame descriptor column array limits = .ok () ↔
      stored.length = 2 * width ∧ statisticsOf array.rows ≠ [] ∧
        ∃ minimum maximum, encodeStatistics column.logicalType minimum maximum = .ok stored ∧
          IsMinimum (statisticsOf array.rows) minimum ∧
            IsMaximum (statisticsOf array.rows) maximum := by
  have hrows := describes_rows hdescribes
  obtain ⟨domain, hcomparable⟩ := exists_comparable hwidth hrows
  rw [h.verify_eq_ok hwidth, reduceDecodedValues_eq hwidth hdescribes, Nat.mul_comm]
  refine and_congr_right fun hlength ↦ ?_
  constructor
  · rintro ⟨minimum, maximum, hparse, -, actual, hreduce, hminimum, hmaximum⟩
    have hpair := Except.ok.inj hreduce
    have hne : statisticsOf array.rows ≠ [] := by
      intro hnil
      rw [hnil] at hpair
      cases hpair
    obtain ⟨low, high, hextrema, ⟨hlow, hle⟩, hhigh, hge⟩ := exists_extrema hcomparable hne
    cases hextrema.symm.trans hpair
    obtain ⟨-, -, hencode⟩ := (parseStoredStatistics_eq_ok hwidth hlength).mp hparse
    exact ⟨hne, minimum, maximum, hencode, (isMinimum_iff hcomparable hlow hle).mpr hminimum,
      (isMaximum_iff hcomparable hhigh hge).mpr hmaximum⟩
  · rintro ⟨hne, minimum, maximum, hencode, hminimum, hmaximum⟩
    obtain ⟨low, high, hextrema, ⟨hlow, hle⟩, hhigh, hge⟩ := exists_extrema hcomparable hne
    have hminimum := (isMinimum_iff hcomparable hlow hle).mp hminimum
    have hmaximum := (isMaximum_iff hcomparable hhigh hge).mp hmaximum
    obtain ⟨hlowdomain, hnan, hlownan⟩ := of_compare_eq_some hminimum
    obtain ⟨hhighdomain, hnan', hhighnan⟩ := of_compare_eq_some hmaximum
    have hadmits := (admits_of_mem_statisticsOf hwidth hrows hlow).1.of_compare hminimum
    have hadmits' := (admits_of_mem_statisticsOf hwidth hrows hhigh).1.of_compare hmaximum
    have hrank : minimum.rank ≤ maximum.rank := by
      calc minimum.rank = low.rank := (compare_eq_iff hlowdomain hnan hlownan).mp hminimum
        _ ≤ high.rank := hle high hhigh
        _ = maximum.rank := ((compare_eq_iff hhighdomain hnan' hhighnan).mp hmaximum).symm
    refine ⟨minimum, maximum, ?_, ?_, (low, high), congrArg Except.ok hextrema, hminimum, hmaximum⟩
    · exact (parseStoredStatistics_eq_ok hwidth hlength).mpr
        ⟨⟨hadmits, hnan⟩, ⟨hadmits', hnan'⟩, hencode⟩
    · exact verifyStoredOrder_of_le (hadmits.domain_eq hadmits') hnan hnan' hrank

/-- **What the writer stores** are the extrema of the rows. -/
theorem generateStatistics_eq_some {rows : BlockRows} {index : ℕ} {policy : WriterStatistics}
    {isPrimary : Bool} (hwidth : Validate.canonicalWidth column = .ok width)
    (h : generateStatistics column rows index (validityBits rows index) policy isPrimary =
      .ok (some stored)) :
    ∃ minimum maximum,
      ((statisticsOf (rows.logical index)).foldl Extrema.push {}).pair = some (minimum, maximum) ∧
        encodeStatistics column.logicalType minimum maximum = .ok stored := by
  rw [generateStatistics, statisticWidth_eq hwidth, denseValues_eq_reduceOption] at h
  change (if _ then _ else _) = _ at h
  split at h
  · cases h
  obtain ⟨⟨extrema, valueCount⟩, hscan, h⟩ := bind_eq_ok.mp h
  have hextrema : extrema = (statisticsOf (rows.logical index)).foldl Extrema.push {} :=
    foldlM_scanStatistic hscan
  rw [← hextrema]
  rcases hpair : extrema.pair with - | ⟨minimum, maximum⟩
  · dsimp only at h
    rw [hpair] at h
    cases h
  · dsimp only at h
    rw [hpair] at h
    dsimp only at h
    split at h
    · cases h
    · obtain ⟨bytes, hencode, h⟩ := bind_eq_ok.mp h
      cases h
      exact ⟨minimum, maximum, rfl, hencode⟩

/-- **The reader accepts what the writer stores** for the rows it has decoded. -/
theorem ClaimsExtrema.verify_of_generated
    (h : ClaimsExtrema file fileSize frame descriptor limits stored)
    (hwidth : Validate.canonicalWidth column = .ok width)
    (hdescribes : column.logicalType.describes array.type = true) {rows : BlockRows} {index : ℕ}
    {policy : WriterStatistics} {isPrimary : Bool} (hrows : rows.logical index = array.rows)
    (hgenerated : generateStatistics column rows index (validityBits rows index) policy isPrimary =
      .ok (some stored)) :
    Validate.verifyColumnStatistics file fileSize frame descriptor column array limits =
      .ok () := by
  refine (h.verify_iff hwidth hdescribes).mpr ?_
  obtain ⟨minimum, maximum, hpair, hencode⟩ := generateStatistics_eq_some hwidth hgenerated
  rw [hrows] at hpair
  have hne : statisticsOf array.rows ≠ [] := by
    intro hnil
    rw [hnil] at hpair
    cases hpair
  obtain ⟨domain, hcomparable⟩ := exists_comparable hwidth (describes_rows hdescribes)
  obtain ⟨low, high, hextrema, ⟨hlow, hle⟩, hhigh, hge⟩ := exists_extrema hcomparable hne
  cases hextrema.symm.trans hpair
  have hlength := length_of_encodeStatistics (statisticWidth_eq hwidth) hencode
  have hlownan := (hcomparable minimum hlow).2
  have hhighnan := (hcomparable maximum hhigh).2
  exact ⟨hlength, hne, minimum, maximum, hencode,
    (isMinimum_iff hcomparable hlow hle).mpr ((compare_eq_iff rfl hlownan hlownan).mpr rfl),
    (isMaximum_iff hcomparable hhigh hge).mpr ((compare_eq_iff rfl hhighnan hhighnan).mpr rfl)⟩

/-- Statistics are only generated for a type that has a width. -/
theorem exists_canonicalWidth {rows : BlockRows} {index : ℕ} {validBits : List Bool}
    {policy : WriterStatistics} {isPrimary : Bool}
    (h : generateStatistics column rows index validBits policy isPrimary = .ok (some stored)) :
    ∃ width, Validate.canonicalWidth column = .ok width := by
  have hsome : (statisticWidth column.logicalType).isSome = true := by
    by_contra hnone
    rw [Bool.not_eq_true, Option.isSome_eq_false_iff, Option.isNone_iff_eq_none] at hnone
    rw [generateStatistics, hnone] at h
    cases h
  unfold Validate.canonicalWidth
  cases hlogical : column.logicalType with
  | utf8 | categorical _ | binary =>
    rw [hlogical] at hsome
    cases hsome
  | fixedBinary byteWidth =>
    rw [hlogical, statisticWidth] at hsome
    split at hsome
    · cases hsome
    · rename_i hpositive
      exact ⟨_, if_pos hpositive⟩
  | _ => exact ⟨_, rfl⟩

/-- A column without statistics claims none. -/
theorem verifyColumnStatistics_absent (hkind : descriptor.statsKind = statsNone)
    (hflag : descriptor.flags &&& columnHasStatsFlag = 0) (hoffset : descriptor.statsOffset = 0)
    (hlength : descriptor.statsLength = 0) :
    Validate.verifyColumnStatistics file fileSize frame descriptor column array limits =
      .ok () := by
  have hclassify : Validate.classify descriptor column frame.headerOffset = .ok .absent := by
    rw [Validate.classify, if_pos hkind, failIf_neg (by simp [hflag, hoffset, hlength]), ok_bind,
      pure_eq_ok]
  rw [Validate.verifyColumnStatistics, hclassify, ok_bind]
  rfl

/-- **Statistics are exact.**  The reader accepts the pair that the writer stores for the rows it
has decoded, and it accepts any pair exactly where the claim has the length of the column's type and
is stored from a minimum and a maximum that are numerically equal to the extrema of the values. -/
theorem statistics_exact (h : ClaimsExtrema file fileSize frame descriptor limits stored)
    (hwidth : Validate.canonicalWidth column = .ok width)
    (hdescribes : column.logicalType.describes array.type = true) :
    (∀ rows index policy isPrimary, rows.logical index = array.rows →
      generateStatistics column rows index (validityBits rows index) policy isPrimary =
          .ok (some stored) →
        Validate.verifyColumnStatistics file fileSize frame descriptor column array limits =
          .ok ()) ∧
      (Validate.verifyColumnStatistics file fileSize frame descriptor column array limits = .ok () ↔
        stored.length = 2 * width ∧ statisticsOf array.rows ≠ [] ∧
          ∃ minimum maximum, encodeStatistics column.logicalType minimum maximum = .ok stored ∧
            IsMinimum (statisticsOf array.rows) minimum ∧
              IsMaximum (statisticsOf array.rows) maximum) :=
  ⟨fun _ _ _ _ hrows hgenerated ↦ h.verify_of_generated hwidth hdescribes hrows hgenerated,
    h.verify_iff hwidth hdescribes⟩

end Verification

/-- A NaN, the two zeros, a null and one and a half. -/
def mixedFloats : LogicalArray where
  type := .float32
  values := [(0x7fc00000 : UInt32), (0x80000000 : UInt32), (0 : UInt32), (0 : UInt32),
    (0x3fc00000 : UInt32)]
  validity := some [true, true, true, false, true]

/-- The positive zero is the minimum, although the first of the zeros is the negative one. -/
def mixedExtrema : Bytes := [0, 0, 0, 0, 0, 0, 0xc0, 0x3f]

/-- A claim for the extrema of the floats, in a header that holds nothing else. -/
def mixedClaim : ColumnBlockDescriptor where
  columnId := 0
  layout := 0
  flags := columnHasStatsFlag
  nullCount := 1
  denseCount := 4
  firstStream := 0
  streamCount := 0
  statsKind := statsMinMax
  statsOffset := 0
  statsLength := 8

def mixedFrame : FrameMetadata where
  frameType := dataFrameType
  sequence := 0
  frameOffset := 0
  headerOffset := 0
  headerLength := 8
  payloadOffset := 8
  payloadLength := 0
  totalLength := 8

theorem statistics_exact_mixedFloats :
    Validate.verifyColumnStatistics mixedExtrema 8 mixedFrame mixedClaim
      ⟨0, "value", .float32, true⟩ mixedFloats .default = .ok () := by
  have hclaim : ClaimsExtrema mixedExtrema 8 mixedFrame mixedClaim .default mixedExtrema :=
    ⟨rfl, by decide, rfl, by decide, by decide, by decide, by decide, holdsAt_self _⟩
  have hstatistics : statisticsOf mixedFloats.rows =
      [.float32 0x80000000, .float32 0, .float32 0x3fc00000] := by decide
  refine (@statistics_exact _ _ _ _ _ _ ⟨0, "value", .float32, true⟩ 4 mixedFloats hclaim rfl
    rfl).2.mpr ⟨rfl, ?_, .float32 0, .float32 0x3fc00000, rfl, ?_, ?_⟩
  · rw [hstatistics]
    exact List.cons_ne_nil _ _
  · rw [hstatistics]
    exact ⟨⟨.float32 0, by decide, by decide⟩, by decide⟩
  · rw [hstatistics]
    exact ⟨⟨.float32 0x3fc00000, by decide, by decide⟩, by decide⟩

end Acta
