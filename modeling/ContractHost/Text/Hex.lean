/-!
# Hexadecimal bytes

A byte is written as two lower-case hexadecimal digits.
-/

namespace ContractHost

namespace Hex

/-- The digit of a number below sixteen. -/
def digit (n : Nat) : Char :=
  if n < 10 then Char.ofNat (48 + n) else Char.ofNat (87 + n)

/-- The number of a digit, in either case. -/
def digit? (c : Char) : Option Nat :=
  if '0' ≤ c ∧ c ≤ '9' then some (c.toNat - 48)
  else if 'a' ≤ c ∧ c ≤ 'f' then some (c.toNat - 87)
  else if 'A' ≤ c ∧ c ≤ 'F' then some (c.toNat - 55)
  else none

/-- The text of a byte sequence. -/
def encode (bytes : List UInt8) : String :=
  String.ofList (bytes.flatMap fun b ↦ [digit (b.toNat / 16), digit (b.toNat % 16)])

/-- The bytes of a text of digit pairs. -/
def decodeChars : List Char → Option (List UInt8)
  | [] => some []
  | [_] => none
  | a :: b :: rest => do
    let high ← digit? a
    let low ← digit? b
    return UInt8.ofNat (high * 16 + low) :: (← decodeChars rest)

/-- The bytes of a string of digit pairs. -/
def decode (s : String) : Option (List UInt8) :=
  decodeChars s.toList

end Hex

end ContractHost
