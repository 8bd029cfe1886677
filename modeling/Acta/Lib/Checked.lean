import Mathlib.Algebra.Order.Ring.Int

/-!
# Checked 64-bit arithmetic

Unsigned 64-bit numbers are natural numbers here, and the operations that can leave the range are
partial: they return nothing where the machine operation would overflow.  The saturating operations
stop at the largest number instead.
-/

namespace Machine

/-- The largest unsigned 64-bit integer. -/
def u64Max : ℕ := 2 ^ 64 - 1

/-- The largest unsigned 32-bit integer. -/
def u32Max : ℕ := 2 ^ 32 - 1

/-- The largest signed 64-bit integer, which is also the most bytes that a vector can have. -/
def isizeMax : ℕ := 2 ^ 63 - 1

/-- Addition, undefined on overflow. -/
def checkedAdd (a b : ℕ) : Option ℕ :=
  if a + b ≤ u64Max then some (a + b) else none

/-- Multiplication, undefined on overflow. -/
def checkedMul (a b : ℕ) : Option ℕ :=
  if a * b ≤ u64Max then some (a * b) else none

/-- Subtraction, undefined below zero. -/
def checkedSub (a b : ℕ) : Option ℕ :=
  if b ≤ a then some (a - b) else none

/-- A sum or difference of signed 128-bit integers, undefined when it leaves their range. -/
def checkedI128 (value : ℤ) : Option ℤ :=
  if -(2 ^ 127) ≤ value ∧ value < 2 ^ 127 then some value else none

/-- Addition that stops at the largest number. -/
def saturatingAdd (a b : ℕ) : ℕ := min (a + b) u64Max

/-- Multiplication that stops at the largest number. -/
def saturatingMul (a b : ℕ) : ℕ := min (a * b) u64Max

@[simp] theorem checkedAdd_eq_some {a b c : ℕ} :
    checkedAdd a b = some c ↔ a + b ≤ u64Max ∧ a + b = c := by
  simp [checkedAdd]

@[simp] theorem checkedMul_eq_some {a b c : ℕ} :
    checkedMul a b = some c ↔ a * b ≤ u64Max ∧ a * b = c := by
  simp [checkedMul]

@[simp] theorem checkedSub_eq_some {a b c : ℕ} :
    checkedSub a b = some c ↔ b ≤ a ∧ a - b = c := by
  simp [checkedSub]

theorem checkedAdd_of_le {a b : ℕ} (h : a + b ≤ u64Max) : checkedAdd a b = some (a + b) :=
  if_pos h

theorem checkedSub_of_le {a b : ℕ} (h : b ≤ a) : checkedSub a b = some (a - b) :=
  if_pos h

end Machine
