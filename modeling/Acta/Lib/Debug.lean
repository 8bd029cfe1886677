import Mathlib.Algebra.Group.Int.Defs
import Mathlib.Algebra.Group.Nat.Defs

/-!
# Values in messages

How the standard library's `{:?}` writes lists, optional values, text and binary floats.

A float is written as the shortest decimal that is read back as the same float.  The floats next to
it leave it an interval of numbers that round to it, and the decimal is taken from the coarsest
power of ten of which a multiple lies in that interval.
-/

namespace Debug

/-- A list of elements that are written already. -/
def list (elements : List String) : String := "[" ++ String.intercalate ", " elements ++ "]"

def option : Option String → String
  | none => "None"
  | some element => s!"Some({element})"

/-! ### Text -/

/-- A character inside quotation marks.  Controls are escaped; of the characters beyond the ASCII
ones, so are those that the tables of the standard library call unprintable, which are not told
apart here. -/
def char (c : Char) : String :=
  match c.toNat with
  | 0 => "\\0"
  | 9 => "\\t"
  | 10 => "\\n"
  | 13 => "\\r"
  | 34 => "\\\""
  | 92 => "\\\\"
  | code =>
    if code < 32 ∨ 127 ≤ code ∧ code < 160 then
      "\\u\x7b" ++ String.ofList (Nat.toDigits 16 code) ++ "\x7d"
    else
      String.singleton c

def text (characters : String) : String :=
  "\"" ++ String.join (characters.toList.map char) ++ "\""

/-! ### Floats -/

/-- The layout of a binary float. -/
structure FloatLayout where
  exponentBits : ℕ
  fractionBits : ℕ

namespace FloatLayout

def single : FloatLayout := ⟨8, 23⟩

def double : FloatLayout := ⟨11, 52⟩

variable (layout : FloatLayout)

/-- The fields of a float. -/
def fraction (bits : ℕ) : ℕ := bits % 2 ^ layout.fractionBits

def exponent (bits : ℕ) : ℕ := bits / 2 ^ layout.fractionBits % 2 ^ layout.exponentBits

def isNegative (bits : ℕ) : Bool := bits.testBit (layout.fractionBits + layout.exponentBits)

end FloatLayout

/-- A positive number `mant * 2 ^ exp` and the numbers that round to it: those at most `minus` units
below and `plus` units above. -/
structure Decoded where
  mant : ℕ
  minus : ℕ
  plus : ℕ
  exp : ℤ
  inclusive : Bool

/-- A finite float.  The float below a power of two is nearer than the one above it. -/
def decode (layout : FloatLayout) (bits : ℕ) : Decoded :=
  let fraction := layout.fraction bits
  let unit := 2 ^ layout.fractionBits
  let exp : ℤ := layout.exponent bits - (2 ^ (layout.exponentBits - 1) - 1 + layout.fractionBits)
  if layout.exponent bits = 0 then
    { mant := 2 * fraction, minus := 1, plus := 1, exp, inclusive := true }
  else if fraction = 0 then
    { mant := 4 * unit, minus := 1, plus := 2, exp := exp - 2, inclusive := true }
  else
    { mant := 2 * (unit + fraction), minus := 1, plus := 1, exp := exp - 1,
      inclusive := fraction % 2 = 0 }

/-- Whether one of two numbers comes before the other, or is it where the ends are included. -/
def Decoded.reaches (decoded : Decoded) (low high : ℕ) : Bool :=
  low < high ∨ decoded.inclusive ∧ low = high

/-- The multiple of `10 ^ power` in the interval, and of two of them the nearer one. -/
def Decoded.multiple (decoded : Decoded) (power : ℤ) : Option ℕ :=
  let scale := 2 ^ decoded.exp.toNat * 10 ^ (-power).toNat
  let unit := 10 ^ power.toNat * 2 ^ (-decoded.exp).toNat
  let value := decoded.mant * scale
  let below := value / unit
  let down := decoded.reaches ((decoded.mant - decoded.minus) * scale) (below * unit)
  let up := decoded.reaches ((below + 1) * unit) ((decoded.mant + decoded.plus) * scale)
  if up ∧ (¬down ∨ unit ≤ 2 * (value % unit)) then some (below + 1)
  else if down then some below
  else none

/-- The shortest decimal, as digits and the power of ten they count, from a power downwards. -/
def Decoded.shortest (decoded : Decoded) (lowest : ℤ) : ℕ → ℕ × ℤ
  | 0 => (0, lowest)
  | steps + 1 =>
    match decoded.multiple (lowest + steps) with
    | some digits => (digits, lowest + steps)
    | none => decoded.shortest lowest steps

/-- Digits with the point behind the first `point` of them. -/
def positional (digits : List Char) (point : ℤ) : String :=
  if point ≤ 0 then
    "0." ++ String.ofList (List.replicate (-point).toNat '0' ++ digits)
  else
    let whole := digits.take point.toNat ++ List.replicate (point.toNat - digits.length) '0'
    let rest := digits.drop point.toNat
    String.ofList whole ++ "." ++ (if rest = [] then "0" else String.ofList rest)

/-- Digits with the point behind the first of them, and a power of ten. -/
def scientific (digits : List Char) (point : ℤ) : String :=
  let rest := digits.drop 1
  String.ofList (digits.take 1) ++ (if rest = [] then "" else "." ++ String.ofList rest) ++
    "e" ++ toString (point - 1)

/-- A positive float.  From 10^16 on, and below 10^-4, it is written with a power of ten. -/
def magnitude (layout : FloatLayout) (bits : ℕ) : String :=
  let (count, power) := (decode layout bits).shortest (-345) 655
  let digits := Nat.toDigits 10 count
  let point := digits.length + power
  if point < -3 ∨ 16 < point then scientific digits point else positional digits point

def float (layout : FloatLayout) (bits : ℕ) : String :=
  let sign := if layout.isNegative bits then "-" else ""
  if layout.exponent bits = 2 ^ layout.exponentBits - 1 then
    if layout.fraction bits = 0 then sign ++ "inf" else "NaN"
  else if layout.exponent bits = 0 ∧ layout.fraction bits = 0 then
    sign ++ "0.0"
  else
    sign ++ magnitude layout bits

example : float .double 0x3ff0000000000000 = "1.0" := by decide +kernel
example : float .double 0xbfb999999999999a = "-0.1" := by decide +kernel
example : float .double 0x4341c37937e08000 = "1e16" := by decide +kernel

end Debug
