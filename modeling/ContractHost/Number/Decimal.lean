import ContractHost.Number.Binary

/-!
# Decimal numerals

A **decimal** is `±coefficient · 10 ^ exponent`. Reading one into a binary format rounds its exact
value once (`Decimal.toBinary`). Writing a binary number picks the decimal with the fewest digits
that reads back as that number, and of those the nearest one (`BinaryNumber.shortest`). The search
checks each candidate by reading it, so what is written reads back.

Which of two equally near decimals is taken, and where the digits stand in the text, is decided by a
`FloatLayout`. The JSON form takes the even one, writes a small or large number in scientific
notation and always shows that it is not an integer; the plain form takes the greater one and never
uses an exponent.
-/

namespace ContractHost

-- Powers are the built-in ones, also where another library defines its own.
attribute [local instance (high)] instPowNat

/-- The number `±coefficient · 10 ^ exponent`. -/
structure Decimal where
  negative : Bool
  coefficient : Nat
  exponent : Int
  deriving DecidableEq, Repr

namespace Decimal

/-- The number of decimal digits. -/
def digitCount (n : Nat) : Nat :=
  (Nat.toDigits 10 n).length

/-- The number of the format nearest to the decimal. A decimal so large or so small that its exact
value cannot matter is settled by its number of digits alone. -/
def toBinary (d : Decimal) (fmt : BinaryFormat) : FloatValue :=
  let magnitude := (digitCount d.coefficient : Int) + d.exponent
  if d.coefficient = 0 then .finite (fmt.zero d.negative)
  -- The value is less than `10 ^ magnitude` and at least a tenth of it, so these two bounds, which
  -- would do for powers of two, do for powers of ten.
  else if fmt.greatestExponent + fmt.precision < magnitude then .infinity d.negative
  else if magnitude < fmt.leastExponent then .finite (fmt.zero d.negative)
  else fmt.round d.negative (d.coefficient * 10 ^ d.exponent.toNat) (10 ^ (-d.exponent).toNat)

/-- Drop the zeros at the end of the coefficient, at most `fuel` of them. -/
def dropZeros : Nat → Nat → Int → Nat × Int
  | 0, c, k => (c, k)
  | n + 1, c, k => if c ≠ 0 ∧ c % 10 = 0 then dropZeros n (c / 10) (k + 1) else (c, k)

/-- The same decimal without zeros at the end of its coefficient. -/
def trim (d : Decimal) : Decimal :=
  let (c, k) := dropZeros (digitCount d.coefficient) d.coefficient d.exponent
  ⟨d.negative, c, k⟩

end Decimal

/-- Which of two equally near decimals is preferred. -/
inductive Tie
  /-- The one with the even coefficient. -/
  | toEven
  /-- The one farther from zero. -/
  | away
  deriving DecidableEq, Repr

/-- Of two neighbours at the same distance, the lower one is preferred. -/
def Tie.keeps : Tie → Nat → Bool
  | .toEven, lower => lower % 2 == 0
  | .away, _ => false

namespace BinaryNumber

/-- The integer part of the decimal logarithm of `num / den`, both positive. -/
def floorLog10 (num den : Nat) : Int :=
  if den ≤ num then (Decimal.digitCount (num / den) : Int) - 1
  else
    let j := Decimal.digitCount (den / num) - 1
    if den = num * 10 ^ j then -(j : Int) else -(j : Int) - 1

/-- The two neighbours of `num / den` among the multiples of `10 ^ k`, the nearer one first; of two
equally near ones, the preferred one. -/
def neighbours (tie : Tie) (num den : Nat) (k : Int) : List Nat :=
  let n := num * 10 ^ (-k).toNat
  let d := den * 10 ^ k.toNat
  let q := n / d
  let r := n % d
  if 2 * r < d ∨ (2 * r = d ∧ tie.keeps q) then [q, q + 1] else [q + 1, q]

/-- The decimal of `count` or fewer digits that reads back as `x`, if there is one. -/
def withDigits (fmt : BinaryFormat) (tie : Tie) (x : BinaryNumber) (count : Nat) :
    Option Decimal :=
  let (num, den) := x.quotient
  let k := floorLog10 num den - count + 1
  ((neighbours tie num den k).map fun c ↦ (⟨x.negative, c, k⟩ : Decimal)).find? fun d ↦
    d.toBinary fmt == .finite x

/-- The exact value as a decimal. -/
def exact (x : BinaryNumber) : Decimal :=
  ⟨x.negative, x.significand * 2 ^ x.exponent.toNat * 5 ^ (-x.exponent).toNat, min x.exponent 0⟩

/-- The decimal with the fewest digits that reads back as `x`, and of those the nearest. -/
def shortest (fmt : BinaryFormat) (tie : Tie) (x : BinaryNumber) : Decimal :=
  if x.significand = 0 then ⟨x.negative, 0, 0⟩
  else
    match (List.range 17).findSome? fun n ↦ x.withDigits fmt tie (n + 1) with
    | some d => d.trim
    | none => x.exact.trim

end BinaryNumber

/-! ### Layout -/

/-- How a floating-point number is laid out. Positional notation is used when the exponent of the
leading digit lies between the two bounds (`none` means no bound), scientific notation otherwise. -/
structure FloatLayout where
  /-- The choice between two shortest decimals that are equally near. -/
  tie : Tie
  positional : Option (Int × Int)
  /-- Write `.0` after a whole number in positional notation. -/
  marksFraction : Bool
  deriving DecidableEq, Repr

namespace FloatLayout

/-- JSON numbers of the 64-bit format. -/
def jsonDouble : FloatLayout := ⟨.toEven, some (-5, 15), true⟩

/-- JSON numbers of the 32-bit format. -/
def jsonSingle : FloatLayout := ⟨.toEven, some (-6, 12), true⟩

/-- Plain text: no exponent, and nothing after a whole number. -/
def plain : FloatLayout := ⟨.away, none, false⟩

/-- The digits of `coefficient · 10 ^ exponent` with a point where it belongs. -/
def positionalDigits (marksFraction : Bool) (coefficient : Nat) (exponent : Int) : List Char :=
  let digits := Nat.toDigits 10 coefficient
  if 0 ≤ exponent then
    let zeros := if coefficient = 0 then [] else List.replicate exponent.toNat '0'
    digits ++ zeros ++ if marksFraction then ['.', '0'] else []
  else
    let places := (-exponent).toNat
    if places < digits.length then
      digits.take (digits.length - places) ++ '.' :: digits.drop (digits.length - places)
    else '0' :: '.' :: List.replicate (places - digits.length) '0' ++ digits

/-- The leading digit, the others after a point, and the exponent with its sign. -/
def scientificDigits (coefficient : Nat) (leading : Int) : List Char :=
  let mantissa :=
    match Nat.toDigits 10 coefficient with
    | [] => []
    | [d] => [d]
    | d :: rest => d :: '.' :: rest
  mantissa ++ 'e' :: (if leading < 0 then '-' else '+') :: Nat.toDigits 10 leading.natAbs

/-- The text of a decimal without zeros at the end of its coefficient. -/
def write (layout : FloatLayout) (d : Decimal) : List Char :=
  let leading := (Decimal.digitCount d.coefficient : Int) - 1 + d.exponent
  let isPositional :=
    match layout.positional with
    | none => true
    | some (least, greatest) => d.coefficient = 0 || (least ≤ leading && leading ≤ greatest)
  let body :=
    if isPositional then positionalDigits layout.marksFraction d.coefficient d.exponent
    else scientificDigits d.coefficient leading
  if d.negative then '-' :: body else body

/-- The text of a binary number: the fewest digits that read back. -/
def writeNumber (layout : FloatLayout) (fmt : BinaryFormat) (x : BinaryNumber) : List Char :=
  layout.write (x.shortest fmt layout.tie)

end FloatLayout

end ContractHost
