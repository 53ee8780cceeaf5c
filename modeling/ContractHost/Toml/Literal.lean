import ContractHost.Number.Decimal
import ContractHost.Text.Hex
import ContractHost.Toml.Basic

/-!
# Unquoted values in TOML

Truth values, integers, floating-point numbers and moments are written without quotes, as one run of
letters, digits, signs, points and colons. `Toml.ofLiteral?` says what such a run means.

Digits may be grouped by single underscores between them. A decimal integer has no leading zero and
lies in the signed 64-bit range; hexadecimal, octal and binary ones have no sign. Moments have to be
on the calendar.
-/

namespace ContractHost

-- Powers are the built-in ones, also where another library defines its own.
attribute [local instance (high)] instPowNat

namespace Toml

/-- The characters of an unquoted value. -/
def isLiteralChar (c : Char) : Bool :=
  c.isAlphanum || c == '_' || c == '+' || c == '-' || c == '.' || c == ':'

/-! ### Numbers -/

/-- One or more digits without the underscores between them. -/
def ungroup? (isDigit : Char → Bool) : List Char → Option (List Char)
  | [] => none
  | [d] => if isDigit d then some [d] else none
  | d :: '_' :: rest => if isDigit d then (ungroup? isDigit rest).map (d :: ·) else none
  | d :: rest => if isDigit d then (ungroup? isDigit rest).map (d :: ·) else none

/-- A decimal number without leading zeros. -/
def wholeDigits? (cs : List Char) : Option (List Char) := do
  let digits ← ungroup? Char.isDigit cs
  if digits.head? = some '0' ∧ digits ≠ ['0'] then none else some digits

/-- A sign, and what follows it. -/
def splitSign : List Char → Bool × List Char
  | '+' :: rest => (false, rest)
  | '-' :: rest => (true, rest)
  | rest => (false, rest)

/-- An integer in the signed 64-bit range. -/
def inRange? (n : Int) : Option Toml :=
  if -2 ^ (63 : Nat) ≤ n ∧ n < 2 ^ (63 : Nat) then some (.integer n) else none

/-- A digit in a base. -/
def isDigitOf (base : Nat) (c : Char) : Bool :=
  match Hex.digit? c with
  | some d => d < base
  | none => false

/-- An integer in a base other than ten. -/
def ofBase? (base : Nat) (cs : List Char) : Option Toml := do
  let digits ← ungroup? (isDigitOf base) cs
  inRange? (Int.ofNat ((digits.filterMap Hex.digit?).foldl (fun n d ↦ base * n + d) 0))

/-- An integer. -/
def ofInteger? : List Char → Option Toml
  | '0' :: 'x' :: digits => ofBase? 16 digits
  | '0' :: 'o' :: digits => ofBase? 8 digits
  | '0' :: 'b' :: digits => ofBase? 2 digits
  | cs => do
    let (negative, rest) := splitSign cs
    let n := Nat.ofDigitChars 10 (← wholeDigits? rest) 0
    inRange? (if negative then -n else n)

/-- The exponent of a floating-point number. -/
def exponent? (cs : List Char) : Option Int := do
  let (negative, rest) := splitSign cs
  let n := Nat.ofDigitChars 10 (← ungroup? Char.isDigit rest) 0
  return if negative then -n else n

/-- The digits before and after the point of a floating-point number. -/
def mantissa? (cs : List Char) : Option (List Char × List Char) :=
  match cs.span (· ≠ '.') with
  | (whole, '.' :: fraction) => do return (← wholeDigits? whole, ← ungroup? Char.isDigit fraction)
  | (whole, _) => do return (← wholeDigits? whole, [])

/-- The decimal that a number with a fraction or an exponent means. -/
def decimal? (cs : List Char) : Option Decimal := do
  let (negative, rest) := splitSign cs
  let (front, back) := rest.span fun c ↦ c ≠ 'e' ∧ c ≠ 'E'
  let (whole, fraction) ← mantissa? front
  let exponent ← if back = [] then some 0 else exponent? back.tail
  if fraction = [] ∧ back = [] then none
  else
    return ⟨negative, Nat.ofDigitChars 10 (whole ++ fraction) 0, exponent - fraction.length⟩

/-- A floating-point number. One that is too large is refused, one that is too small is an
infinity. -/
def ofFloat? (cs : List Char) : Option Toml :=
  match decimal? cs with
  | some d =>
    match d.toBinary .double with
    | .infinity false => none
    | x => some (.float x)
  | none =>
    match splitSign cs with
    | (negative, ['i', 'n', 'f']) => some (.float (.infinity negative))
    | (_, ['n', 'a', 'n']) => some (.float .nan)
    | _ => none

/-! ### Moments -/

/-- The number that decimal digits denote. -/
def number? (digits : List Char) : Option Nat :=
  if digits.all Char.isDigit then some (Nat.ofDigitChars 10 digits 0) else none

/-- The number of days in a month. -/
def daysIn (year month : Nat) : Nat :=
  if month = 2 then
    if year % 4 = 0 ∧ (year % 100 ≠ 0 ∨ year % 400 = 0) then 29 else 28
  else if month ∈ [4, 6, 9, 11] then 30
  else 31

/-- Read a date; the rest follows it. -/
def dropDate? : List Char → Option (List Char)
  | y₁ :: y₂ :: y₃ :: y₄ :: '-' :: m₁ :: m₂ :: '-' :: d₁ :: d₂ :: rest => do
    let year ← number? [y₁, y₂, y₃, y₄]
    let month ← number? [m₁, m₂]
    let day ← number? [d₁, d₂]
    if 1 ≤ month ∧ month ≤ 12 ∧ 1 ≤ day ∧ day ≤ daysIn year month then some rest else none
  | _ => none

/-- Read the fraction of a second, if there is one. -/
def dropFraction? : List Char → Option (List Char)
  | '.' :: d :: rest => if d.isDigit then some (rest.dropWhile Char.isDigit) else none
  | '.' :: [] => none
  | rest => some rest

/-- Read a time of day. A minute may have a leap second. -/
def dropTime? : List Char → Option (List Char)
  | h₁ :: h₂ :: ':' :: m₁ :: m₂ :: ':' :: s₁ :: s₂ :: rest => do
    let hour ← number? [h₁, h₂]
    let minute ← number? [m₁, m₂]
    let second ← number? [s₁, s₂]
    if hour < 24 ∧ minute < 60 ∧ second ≤ 60 then dropFraction? rest else none
  | _ => none

/-- A distance from universal time, or none. -/
def isOffset : List Char → Bool
  | [] => true
  | [c] => c == 'Z' || c == 'z'
  | [sign, h₁, h₂, ':', m₁, m₂] =>
    (sign == '+' || sign == '-') &&
      (match number? [h₁, h₂], number? [m₁, m₂] with
        | some hour, some minute => decide (hour < 24 ∧ minute < 60)
        | _, _ => false)
  | _ => false

/-- A date, a time of day, or a date and a time with or without an offset. -/
def isMoment (cs : List Char) : Bool :=
  match dropDate? cs with
  | some [] => true
  | some (c :: rest) =>
    (c == 'T' || c == 't' || c == ' ') &&
      (match dropTime? rest with
        | some offset => isOffset offset
        | none => false)
  | none => dropTime? cs == some []

/-! ### Unquoted values -/

/-- The value of an unquoted text. -/
def ofLiteral? (cs : List Char) : Option Toml :=
  if cs = ['t', 'r', 'u', 'e'] then some (.bool true)
  else if cs = ['f', 'a', 'l', 's', 'e'] then some (.bool false)
  else if isMoment cs then some (.moment (String.ofList cs))
  else (ofInteger? cs).orElse fun () ↦ ofFloat? cs

/-- Take an unquoted text from the front. One space may stand between a date and a time of day. -/
def takeLiteral (cs : List Char) : List Char × List Char :=
  let (front, rest) := cs.span isLiteralChar
  match dropDate? front, rest with
  | some [], ' ' :: h₁ :: h₂ :: ':' :: more =>
    let (back, after) := more.span isLiteralChar
    if h₁.isDigit && h₂.isDigit then (front ++ ' ' :: h₁ :: h₂ :: ':' :: back, after)
    else (front, rest)
  | _, _ => (front, rest)

end Toml

end ContractHost
