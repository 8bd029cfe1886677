import Acta.LogicalArray
import Mathlib.Data.List.Lex
import Mathlib.Order.Compare

/-!
# Statistic values

A column's minimum and maximum are claims about its values in the domain the logical type compares
in.  The writer and the reader each reduce the values of a column to their extrema, and both do it
with `Extrema.push`, in row order and keeping the first of equal values.
-/

namespace Acta

open Wire

/-- One statistic, in the value domain its logical type compares in.  Floats are bit patterns. -/
inductive StatisticValue
  | bool (value : Bool)
  | signed (value : ℤ)
  | unsigned (value : ℕ)
  | float32 (bits : UInt32)
  | float64 (bits : UInt64)
  | bytes (value : Bytes)
  deriving DecidableEq

/-- The magnitude of a float of the given width: its bits without the sign. -/
def floatMagnitude (width bits : ℕ) : ℕ := bits % 2 ^ (width - 1)

/-- The bits of an infinity, which the magnitude of every number is bounded by. -/
def floatInfinity (width mantissa : ℕ) : ℕ := 2 ^ (width - 1) - 2 ^ mantissa

/-- Where a float that is not NaN stands among the others.  The two zeros stand together. -/
def floatKey (width bits : ℕ) : ℤ :=
  if bits < 2 ^ (width - 1) then (floatMagnitude width bits : ℤ) else -(floatMagnitude width bits)

namespace StatisticValue

def isNan : StatisticValue → Bool
  | float32 bits => floatInfinity 32 23 < floatMagnitude 32 bits.toNat
  | float64 bits => floatInfinity 64 52 < floatMagnitude 64 bits.toNat
  | _ => false

/-- Compare two statistics.  Nothing is returned for values of different domains, or for a NaN. -/
def compare : StatisticValue → StatisticValue → Option Ordering
  | bool left, bool right => some (cmp left right)
  | signed left, signed right => some (cmp left right)
  | unsigned left, unsigned right => some (cmp left right)
  | float32 left, float32 right =>
    if (float32 left).isNan ∨ (float32 right).isNan then none
    else some (cmp (floatKey 32 left.toNat) (floatKey 32 right.toNat))
  | float64 left, float64 right =>
    if (float64 left).isNan ∨ (float64 right).isNan then none
    else some (cmp (floatKey 64 left.toNat) (floatKey 64 right.toNat))
  | bytes left, bytes right => some (cmp (left.map UInt8.toNat) (right.map UInt8.toNat))
  | _, _ => none

end StatisticValue

/-- The statistic value of a scalar, for the logical types that have one. -/
def ScalarValue.statistic : ScalarValue → Option StatisticValue
  | ⟨.bool, value⟩ => some (.bool value)
  | ⟨.integer type, value⟩ =>
    some (if type.signed then .signed value.val else .unsigned value.val.toNat)
  | ⟨.float32, bits⟩ => some (.float32 bits)
  | ⟨.float64, bits⟩ => some (.float64 bits)
  | ⟨.decimal _ _, unscaled⟩ => some (.signed unscaled.val)
  | ⟨.timestamp _ _, value⟩ => some (.signed value.val)
  | ⟨.fixedBinary, value⟩ => some (.bytes value)
  | ⟨.date32, value⟩ => some (.signed value.val)
  | ⟨.utf8, _⟩ | ⟨.categorical, _⟩ | ⟨.binary, _⟩ => none

/-- The extrema of the values seen so far. -/
structure Extrema where
  minimum : Option StatisticValue := none
  maximum : Option StatisticValue := none

namespace Extrema

/-- A value replaces an extremum when there is none yet, or when it compares as asked. -/
def replaces (value : StatisticValue) (current : Option StatisticValue) (ordering : Ordering) :
    Bool :=
  current.all fun current ↦ value.compare current = some ordering

/-- Take in the next value, which is not NaN. -/
def push (extrema : Extrema) (value : StatisticValue) : Extrema where
  minimum := if replaces value extrema.minimum .lt then some value else extrema.minimum
  maximum := if replaces value extrema.maximum .gt then some value else extrema.maximum

/-- Both extrema, once there has been a value. -/
def pair (extrema : Extrema) : Option (StatisticValue × StatisticValue) :=
  extrema.minimum.bind fun minimum ↦ extrema.maximum.map (minimum, ·)

end Extrema

end Acta
