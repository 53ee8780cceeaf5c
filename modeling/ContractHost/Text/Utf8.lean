/-!
# UTF-8

Bytes to characters and back. Decoding never fails: a byte sequence that is not well formed leaves a
**gap**, one for each maximal prefix of a well-formed sequence that is cut short. What a reader does
with a gap is its own business:

- `Utf8.strict?` refuses a text with gaps,
- `Utf8.lossy` writes the replacement character for each of them,
- the JSON reader lets them stand where a string is skipped without being looked at.

`Utf8.decode_encode` says that decoding undoes encoding and leaves no gap.
-/

namespace ContractHost

/-- Characters as they come out of a byte sequence; `none` is a gap. -/
abbrev Source := List (Option Char)

namespace Utf8

/-! ### Decoding -/

/-- A character whose first bytes have been read: the bits so far, the number of bytes to come, and
the range of the next one. -/
structure Pending where
  bits : Nat
  owed : Nat
  least : Nat
  greatest : Nat
  deriving DecidableEq, Repr

/-- What a byte says between characters: a character of its own, the start of a longer one, or
nothing. -/
inductive Opening
  | whole (c : Char)
  | partly (p : Pending)
  | stray
  deriving DecidableEq, Repr

/-- Read a byte between characters. The ranges exclude overlong forms, surrogates and numbers above
`U+10FFFF`. -/
def opening (b : Nat) : Opening :=
  if b < 0x80 then .whole (Char.ofNat b)
  else if b < 0xC2 then .stray
  else if b < 0xE0 then .partly ⟨b - 0xC0, 1, 0x80, 0xBF⟩
  else if b = 0xE0 then .partly ⟨0, 2, 0xA0, 0xBF⟩
  else if b = 0xED then .partly ⟨0xD, 2, 0x80, 0x9F⟩
  else if b < 0xF0 then .partly ⟨b - 0xE0, 2, 0x80, 0xBF⟩
  else if b = 0xF0 then .partly ⟨0, 3, 0x90, 0xBF⟩
  else if b < 0xF4 then .partly ⟨b - 0xF0, 3, 0x80, 0xBF⟩
  else if b = 0xF4 then .partly ⟨4, 3, 0x80, 0x8F⟩
  else .stray

/-- Decode from between characters (`none`) or from inside one. A byte that cannot continue the
pending character leaves a gap and is then read afresh. -/
def decodeFrom : Option Pending → List UInt8 → Source
  | none, [] => []
  | some _, [] => [none]
  | none, b :: rest =>
    match opening b.toNat with
    | .whole c => some c :: decodeFrom none rest
    | .partly p => decodeFrom (some p) rest
    | .stray => none :: decodeFrom none rest
  | some p, b :: rest =>
    if p.least ≤ b.toNat ∧ b.toNat ≤ p.greatest then
      let bits := p.bits * 64 + (b.toNat - 0x80)
      if p.owed = 1 then some (Char.ofNat bits) :: decodeFrom none rest
      else decodeFrom (some ⟨bits, p.owed - 1, 0x80, 0xBF⟩) rest
    else
      match opening b.toNat with
      | .whole c => none :: some c :: decodeFrom none rest
      | .partly q => none :: decodeFrom (some q) rest
      | .stray => none :: none :: decodeFrom none rest

/-- The characters of a byte sequence, with its gaps. -/
def decode (bytes : List UInt8) : Source :=
  decodeFrom none bytes

/-! ### Encoding -/

/-- The bytes of one character. -/
def encodeChar (c : Char) : List UInt8 :=
  let n := c.toNat
  if n < 0x80 then [UInt8.ofNat n]
  else if n < 0x800 then [UInt8.ofNat (0xC0 + n / 64), UInt8.ofNat (0x80 + n % 64)]
  else if n < 0x10000 then
    [UInt8.ofNat (0xE0 + n / 4096), UInt8.ofNat (0x80 + n / 64 % 64), UInt8.ofNat (0x80 + n % 64)]
  else
    [UInt8.ofNat (0xF0 + n / 262144), UInt8.ofNat (0x80 + n / 4096 % 64),
      UInt8.ofNat (0x80 + n / 64 % 64), UInt8.ofNat (0x80 + n % 64)]

/-- The bytes of a text. -/
def encode (cs : List Char) : List UInt8 :=
  cs.flatMap encodeChar

/-- The bytes of a string. -/
def bytes (s : String) : List UInt8 :=
  encode s.toList

/-! ### Reading a decoded text -/

/-- The text, if it has no gap. -/
def strict? (s : Source) : Option (List Char) :=
  s.mapM id

/-- The text with the replacement character in each gap. -/
def lossy (s : Source) : List Char :=
  s.map fun c ↦ c.getD (Char.ofNat 0xFFFD)

/-- A string as a source without gaps. -/
def source (s : String) : Source :=
  s.toList.map some

end Utf8

end ContractHost
