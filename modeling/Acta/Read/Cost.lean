import Acta.Limits
import Acta.Read.Budget
import Mathlib.Algebra.Order.Ring.Nat

/-!
# What a decode costs

`Decodes decode cost a` says that a decode succeeds with `a` and asks for `cost` decoded bytes in
all.  What it asks for is known from the file alone, so it succeeds exactly within such an allowance
(`Decodes.run_eq`); and a decode that succeeds within any allowance has such a cost
(`decodes_of_outcome`).
-/

namespace Acta

open Machine

/-- A decode succeeds with `a`, and asks for `cost` decoded bytes in all. -/
abbrev Decodes {α : Type} (decode : DecodeM α) (cost : ℕ) (a : α) : Prop :=
  Metered.Costs Charge.decoded decode cost a

/-- **A decode that costs `cost` succeeds exactly within an allowance of `cost`.** -/
theorem Decodes.run_eq {α : Type} {decode : DecodeM α} {cost : ℕ} {a : α}
    (h : Decodes decode cost a) (allowance : ℕ) :
    (Budget.run decode (Budget.new allowance none)).1 =
      if cost ≤ allowance then .ok a else .error Budget.exceeded := by
  rw [Budget.run_new_none, Budget.charged, h.weight_spent, h.outcome]

theorem decodes_charge (bytes : ℕ) : Decodes (Budget.charge bytes) bytes () :=
  Metered.costs_spend _

theorem decodes_recordStream (bytes : ℕ) : Decodes (Budget.recordStream bytes) 0 () :=
  Metered.costs_spend _

theorem decodes_recordBytesRead (bytes : ℕ) : Decodes (Budget.recordBytesRead bytes) 0 () :=
  Metered.costs_spend _

theorem decodes_chargeElements {count width : ℕ} (h : count * width ≤ u64Max) :
    Decodes (Budget.chargeElements count width) (count * width) () :=
  .lift_bind (by rw [okOr_eq_ok, checkedMul_eq_some]; exact ⟨h, rfl⟩) (decodes_charge _)

/-- As many elements as a block may have rows, each no wider than a value may be. -/
theorem mul_le_u64Max {count width : ℕ} (hcount : count ≤ defaultMaxRowsPerBlock)
    (hwidth : width ≤ 2 ^ 33) : count * width ≤ u64Max := by
  have hmul : count * width ≤ defaultMaxRowsPerBlock * 2 ^ 33 := Nat.mul_le_mul hcount hwidth
  exact hmul.trans (by decide)

/-- A decode that comes to a value has a cost. -/
theorem decodes_of_outcome {α : Type} {decode : DecodeM α} {a : α} (h : decode.outcome = .ok a) :
    Decodes decode (Budget.charged decode.spent) a :=
  ⟨h, rfl⟩

end Acta
