/-!
# Binary numbers of fixed precision

A **binary number** is `±significand · 2 ^ exponent`. A `BinaryFormat` says how many bits the
significand may have and how far the exponent may go; `BinaryFormat.round` takes a quotient of
natural numbers to the nearest number of the format, ties going to the even significand. Everything
is exact arithmetic on naturals, so nothing here depends on what a machine's floating point does.

Rounding yields numbers in **normal form** (`BinaryFormat.Normal`): the significand has full width
unless the exponent is already the least one. Two normal numbers with the same sign are equal
exactly when they have the same value, which is why structural equality of numbers is meaningful
below.
-/

namespace ContractHost

-- Powers are the built-in ones, also where another library defines its own.
attribute [local instance (high)] instPowNat

/-- The number `±significand · 2 ^ exponent`. -/
structure BinaryNumber where
  negative : Bool
  significand : Nat
  exponent : Int
  deriving DecidableEq, Repr

/-- What a floating-point slot can hold. -/
inductive FloatValue
  | nan
  | infinity (negative : Bool)
  | finite (x : BinaryNumber)
  deriving DecidableEq, Repr

/-- A binary floating-point format: the width of the significand and the exponents of its last
place. -/
structure BinaryFormat where
  precision : Nat
  leastExponent : Int
  greatestExponent : Int
  deriving DecidableEq, Repr

namespace BinaryFormat

/-- The 64-bit format. -/
def double : BinaryFormat := ⟨53, -1074, 971⟩

/-- The 32-bit format. -/
def single : BinaryFormat := ⟨24, -149, 104⟩

/-- Full width, or the least exponent. -/
def Normal (fmt : BinaryFormat) (x : BinaryNumber) : Prop :=
  x.significand < 2 ^ fmt.precision ∧ fmt.leastExponent ≤ x.exponent ∧
    x.exponent ≤ fmt.greatestExponent ∧
    (2 ^ (fmt.precision - 1) ≤ x.significand ∨ x.exponent = fmt.leastExponent)

instance (fmt : BinaryFormat) (x : BinaryNumber) : Decidable (fmt.Normal x) :=
  inferInstanceAs (Decidable (_ ∧ _ ∧ _ ∧ _))

/-- Zero, with a sign. -/
def zero (fmt : BinaryFormat) (negative : Bool) : BinaryNumber :=
  ⟨negative, 0, fmt.leastExponent⟩

/-- The integer part of the binary logarithm of `num / den`, both positive. -/
def floorLog2 (num den : Nat) : Int :=
  let guess : Int := (Nat.log2 num : Int) - Nat.log2 den
  if num * 2 ^ (-guess).toNat < den * 2 ^ guess.toNat then guess - 1 else guess

/-- The quotient `num / den` rounded to an integer, a half going to the even neighbour. -/
def roundQuotient (num den : Nat) : Nat :=
  let q := num / den
  let r := num % den
  if 2 * r < den then q else if den < 2 * r then q + 1 else if q % 2 = 0 then q else q + 1

/-- The number of the format nearest to `± num / den`. Beyond the greatest number it is infinity. -/
def round (fmt : BinaryFormat) (negative : Bool) (num den : Nat) : FloatValue :=
  if num = 0 then .finite (fmt.zero negative)
  else
    let exponent := max fmt.leastExponent (floorLog2 num den - fmt.precision + 1)
    let m := roundQuotient (num * 2 ^ (-exponent).toNat) (den * 2 ^ exponent.toNat)
    -- Rounding up may carry into one bit more than the format has.
    let (m, exponent) :=
      if m = 2 ^ fmt.precision then (2 ^ (fmt.precision - 1), exponent + 1) else (m, exponent)
    if fmt.greatestExponent < exponent then .infinity negative
    else .finite ⟨negative, m, exponent⟩

/-- The number of the format nearest to an integer. -/
def ofInt (fmt : BinaryFormat) (n : Int) : FloatValue :=
  fmt.round (decide (n < 0)) n.natAbs 1

end BinaryFormat

namespace BinaryNumber

/-- The signed significand when the exponent is brought down to `k`. -/
def scaledTo (x : BinaryNumber) (k : Int) : Int :=
  let m : Int := x.significand * 2 ^ (x.exponent - k).toNat
  if x.negative then -m else m

/-- Comparison by value, at the smaller of the two exponents. Both zeros are the same value. -/
def le (x y : BinaryNumber) : Bool :=
  let k := min x.exponent y.exponent
  decide (x.scaledTo k ≤ y.scaledTo k)

/-- Strict comparison by value. -/
def lt (x y : BinaryNumber) : Bool :=
  !y.le x

/-- Equality by value. -/
def same (x y : BinaryNumber) : Bool :=
  x.le y && y.le x

/-- The value is an integer. -/
def isWhole (x : BinaryNumber) : Bool :=
  x.significand % 2 ^ (-x.exponent).toNat == 0

/-- The absolute value as a quotient. -/
def quotient (x : BinaryNumber) : Nat × Nat :=
  (x.significand * 2 ^ x.exponent.toNat, 2 ^ (-x.exponent).toNat)

end BinaryNumber

end ContractHost
