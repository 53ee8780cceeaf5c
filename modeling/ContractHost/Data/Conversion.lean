import ContractHost.Data.Value

/-!
# Conversion of scalars

A scalar argument arrives as a plain string. `Scalar.convert` reads it; the empty string is the zero
of every scalar type. Truth values have twelve spellings, an integer is an optional sign and decimal
digits, and a floating-point number is a decimal with an optional fraction and exponent or one of
the names of infinity and not-a-number, in any case.
-/

namespace ContractHost

/-- A string that is no scalar of the wanted type. -/
structure ConversionError where
  raw : String
  kind : Scalar
  deriving DecidableEq, Repr

/-- The text of the error. -/
def ConversionError.message (e : ConversionError) : String :=
  "Cannot convert passed value " ++ e.raw ++ " to " ++ e.kind.name

namespace Scalar

/-- A truth value. -/
def readBool? (raw : String) : Option Bool :=
  if raw ∈ ["1", "t", "T", "true", "TRUE", "True"] then some true
  else if raw ∈ ["0", "f", "F", "false", "FALSE", "False"] then some false
  else none

/-- One or more decimal digits. -/
def readDigits? (cs : List Char) : Option Nat :=
  if cs ≠ [] ∧ cs.all Char.isDigit then some (Nat.ofDigitChars 10 cs 0) else none

/-- An optional sign and decimal digits; the minus sign is for signed kinds. -/
def readInteger? (isSigned : Bool) : List Char → Option Int
  | '+' :: digits => (readDigits? digits).map Int.ofNat
  | '-' :: digits => if isSigned then (readDigits? digits).map fun n ↦ -(n : Int) else none
  | digits => (readDigits? digits).map Int.ofNat

/-- An optional sign. -/
def splitSign : List Char → Bool × List Char
  | '+' :: rest => (false, rest)
  | '-' :: rest => (true, rest)
  | rest => (false, rest)

/-- A name of infinity or of not-a-number. -/
def readSpecial? (negative : Bool) (cs : List Char) : Option FloatValue :=
  let name := String.ofList (cs.map Char.toLower)
  if name = "inf" ∨ name = "infinity" then some (.infinity negative)
  else if name = "nan" then some .nan
  else none

/-- The digits after a point, if there is a point. -/
def splitFraction : List Char → List Char × List Char
  | '.' :: rest => (rest.takeWhile Char.isDigit, rest.dropWhile Char.isDigit)
  | rest => ([], rest)

/-- The exponent at the end of a number. -/
def readExponent? : List Char → Option Int
  | [] => some 0
  | c :: rest =>
    if c = 'e' ∨ c = 'E' then
      let (negative, digits) := splitSign rest
      (readDigits? digits).map fun n ↦ if negative then -(n : Int) else n
    else none

/-- A decimal with digits on at least one side of its point. -/
def readDecimal? (negative : Bool) (cs : List Char) : Option Decimal := do
  let whole := cs.takeWhile Char.isDigit
  let (fraction, rest) := splitFraction (cs.dropWhile Char.isDigit)
  let digits := whole ++ fraction
  if digits = [] then none
  else
    let exponent ← readExponent? rest
    return ⟨negative, Nat.ofDigitChars 10 digits 0, exponent - fraction.length⟩

/-- A floating-point number. -/
def readFloat? (fmt : BinaryFormat) (cs : List Char) : Option FloatValue :=
  let (negative, rest) := splitSign cs
  match readDecimal? negative rest with
  | some d => some (d.toBinary fmt)
  | none => readSpecial? negative rest

/-- The datum of a string that is not empty. -/
def read? (raw : String) : Scalar → Option Datum
  | .bool => (readBool? raw).map .bool
  | .string => some (.string raw)
  | .integer k => do
    let n ← readInteger? k.isSigned raw.toList
    if k.InRange n then some (.int n) else none
  | .single => (readFloat? .single raw.toList).map .single
  | .double => (readFloat? .double raw.toList).map .double

/-- The zero of a scalar type. -/
def zero : Scalar → Datum
  | .bool => .bool false
  | .string => .string ""
  | .integer _ => .int 0
  | .single => .single (.finite (BinaryFormat.single.zero false))
  | .double => .double (.finite (BinaryFormat.double.zero false))

/-- Convert an argument to a scalar; the empty string is the zero of the type. -/
def convert (s : Scalar) (raw : String) : Except ConversionError Value :=
  if raw = "" then .ok (.typed (.scalar s) s.zero)
  else
    match s.read? raw with
    | some d => .ok (.typed (.scalar s) d)
    | none => .error ⟨raw, s⟩

end Scalar

end ContractHost
