import ContractHost.Json.Basic
import ContractHost.Text.Hex
import ContractHost.Text.Utf8

/-!
# JSON tokens

The lexer takes a source apart into tokens. A string token keeps its **pieces** undecoded, since a
string that is skipped may hold what no string may say: half of a surrogate pair, or a gap in the
encoding. `Piece.decode?` is where those are refused. A number token keeps its exact decimal value.

The lexer goes by the structure of the source. Each scanner hands back what it left, and
`length_scan*` says that it left less than it was given.
-/

namespace ContractHost

namespace Json

/-! ### Pieces of a string -/

/-- One element of a string between its quotes. -/
inductive Piece
  /-- A character that stands for itself. -/
  | plain (c : Char)
  /-- A character behind a backslash. -/
  | escaped (c : Char)
  /-- A UTF-16 unit written with four hexadecimal digits. -/
  | unit (n : Nat)
  /-- A gap in the encoding of the text. -/
  | gap
  deriving DecidableEq, Repr

namespace Piece

/-- The character of a surrogate pair. -/
def pairChar (high low : Nat) : Char :=
  Char.ofNat (0x10000 + (high - 0xD800) * 0x400 + (low - 0xDC00))

/-- The characters a string says. Surrogates come in pairs, and there is no gap. -/
def decode? : List Piece → Option (List Char)
  | [] => some []
  | .plain c :: rest => (decode? rest).map (c :: ·)
  | .escaped c :: rest => (decode? rest).map (c :: ·)
  | .gap :: _ => none
  | [.unit n] => if 0xD800 ≤ n ∧ n < 0xE000 then none else some [Char.ofNat n]
  | .unit n :: .unit m :: rest =>
    if 0xD800 ≤ n ∧ n < 0xE000 then
      if n < 0xDC00 ∧ 0xDC00 ≤ m ∧ m < 0xE000 then (decode? rest).map (pairChar n m :: ·)
      else none
    else (decode? (.unit m :: rest)).map (Char.ofNat n :: ·)
  | .unit n :: p :: rest =>
    if 0xD800 ≤ n ∧ n < 0xE000 then none else (decode? (p :: rest)).map (Char.ofNat n :: ·)

/-- The string that the pieces say. -/
def text? (pieces : List Piece) : Option String :=
  (decode? pieces).map String.ofList

/-- The characters of a string without any escape. -/
def plain? : List Piece → Option (List Char)
  | [] => some []
  | .plain c :: rest => (plain? rest).map (c :: ·)
  | _ :: _ => none

end Piece

/-! ### Numerals -/

/-- A number as it is written: its value, and whether it has neither a fraction nor an exponent. -/
structure Numeral where
  value : Decimal
  integral : Bool
  deriving DecidableEq, Repr

namespace Numeral

/-- The integer a numeral stands for. A numeral with a fraction or an exponent stands for none, and
`-0` is not an integer. -/
def int? (n : Numeral) : Option Int :=
  if n.integral then
    if n.value.negative then
      if n.value.coefficient = 0 then none else some (-(n.value.coefficient : Int))
    else some n.value.coefficient
  else none

end Numeral

/-- The digits at the front of a source, and what follows them. -/
def scanDigits : Source → List Char × Source
  | some c :: rest =>
    if c.isDigit then ((c :: (scanDigits rest).1), (scanDigits rest).2) else ([], some c :: rest)
  | rest => ([], rest)

theorem length_scanDigits (s : Source) : (scanDigits s).2.length ≤ s.length := by
  fun_induction scanDigits s with
  | case1 c rest _ ih => simp only [List.length_cons]; omega
  | case2 => simp
  | case3 => simp

/-- The sign in front of a number. -/
def scanMinus : Source → Bool × Source
  | some '-' :: rest => (true, rest)
  | rest => (false, rest)

theorem length_scanMinus (s : Source) : (scanMinus s).2.length ≤ s.length := by
  fun_cases scanMinus s <;> simp

/-- The fraction of a number; a point needs a digit after it. -/
def scanFraction : Source → Option (List Char × Source)
  | some '.' :: rest =>
    match scanDigits rest with
    | ([], _) => none
    | (digits, rest) => some (digits, rest)
  | rest => some ([], rest)

theorem length_scanFraction {s r : Source} {ds : List Char} (h : scanFraction s = some (ds, r)) :
    r.length ≤ s.length := by
  revert h
  fun_cases scanFraction s with
  | case1 => simp
  | case2 rest digits rest' _ hd =>
    intro h
    cases h
    have := length_scanDigits rest
    simp only [hd] at this
    simp only [List.length_cons]
    omega
  | case3 => intro h; cases h; simp

/-- An optional sign in an exponent. -/
def scanSign : Source → Bool × Source
  | some '+' :: rest => (false, rest)
  | some '-' :: rest => (true, rest)
  | rest => (false, rest)

theorem length_scanSign (s : Source) : (scanSign s).2.length ≤ s.length := by
  fun_cases scanSign s <;> simp

/-- The value of a list of decimal digits. -/
def digitsValue (digits : List Char) : Nat :=
  Nat.ofDigitChars 10 digits 0

/-- The exponent of a number, if it has one. -/
def scanExponent : Source → Option (Option Int × Source)
  | some c :: rest =>
    if c = 'e' ∨ c = 'E' then
      match scanDigits (scanSign rest).2 with
      | ([], _) => none
      | (digits, after) =>
        let n : Int := digitsValue digits
        some (some (if (scanSign rest).1 then -n else n), after)
    else some (none, some c :: rest)
  | rest => some (none, rest)

theorem length_scanExponent {s r : Source} {e : Option Int} (h : scanExponent s = some (e, r)) :
    r.length ≤ s.length := by
  revert h
  fun_cases scanExponent s with
  | case1 => simp
  | case2 c rest _ digits after hne hd =>
    intro h
    cases h
    have h₁ := length_scanDigits (scanSign rest).2
    have h₂ := length_scanSign rest
    simp only [hd] at h₁
    simp only [List.length_cons]
    omega
  | case3 => intro h; cases h; simp
  | case4 => intro h; cases h; simp

/-- An integer part: no digit may follow a leading zero. -/
def integerPart? (digits : List Char) : Bool :=
  match digits with
  | [] => false
  | [_] => true
  | d :: _ :: _ => d != '0'

/-- The number at the front of a source. -/
def scanNumeral (s : Source) : Option (Numeral × Source) :=
  let (negative, s) := scanMinus s
  let (whole, s) := scanDigits s
  if integerPart? whole then do
    let (fraction, s) ← scanFraction s
    let (exponent, s) ← scanExponent s
    let value : Decimal :=
      ⟨negative, digitsValue (whole ++ fraction), exponent.getD 0 - fraction.length⟩
    return (⟨value, fraction.isEmpty && exponent.isNone⟩, s)
  else none

/-- A number has at least one digit. -/
theorem length_scanDigits_lt {s : Source} (h : integerPart? (scanDigits s).1 = true) :
    (scanDigits s).2.length < s.length := by
  fun_cases scanDigits s with
  | case1 c rest _ =>
    have := length_scanDigits rest
    simp_all only [scanDigits, if_true, List.length_cons]
    omega
  | case2 c rest hc => simp_all [scanDigits, integerPart?]
  | case3 s hs => simp_all [scanDigits, integerPart?]

theorem length_scanNumeral {s r : Source} {n : Numeral} (h : scanNumeral s = some (n, r)) :
    r.length < s.length := by
  simp only [scanNumeral] at h
  split at h
  · next hi =>
    simp only [Option.bind_eq_bind, Option.bind_eq_some_iff, Option.pure_def, Option.some.injEq,
      Prod.mk.injEq, Prod.exists] at h
    obtain ⟨ds, s₁, h₁, e, s₂, h₂, -, rfl⟩ := h
    have a := length_scanMinus s
    have b := length_scanDigits_lt hi
    have c := length_scanFraction h₁
    have d := length_scanExponent h₂
    omega
  · cases h

/-! ### Tokens -/

/-- A JSON token. -/
inductive Token
  | comma
  | colon
  | openList
  | closeList
  | openObject
  | closeObject
  | null
  | bool (b : Bool)
  | number (n : Numeral)
  | string (pieces : List Piece)
  deriving DecidableEq, Repr

/-- The characters that may stand behind a backslash for one character. -/
def escape? : Char → Option Char
  | '"' => some '"'
  | '\\' => some '\\'
  | '/' => some '/'
  | 'b' => some '\x08'
  | 'f' => some '\x0c'
  | 'n' => some '\n'
  | 'r' => some '\r'
  | 't' => some '\t'
  | _ => none

/-- Four hexadecimal digits. -/
def hexUnit? (a b c d : Char) : Option Nat := do
  return (((← Hex.digit? a) * 16 + (← Hex.digit? b)) * 16 + (← Hex.digit? c)) * 16 +
    (← Hex.digit? d)

/-- Put a piece in front of what was scanned after it. -/
def push (p : Piece) (scanned : Option (List Piece × Source)) : Option (List Piece × Source) :=
  scanned.map fun (ps, rest) ↦ (p :: ps, rest)

/-- The rest of a string after its opening quote. Control characters have to be escaped. -/
def scanString : Source → Option (List Piece × Source)
  | [] => none
  | none :: rest => push .gap (scanString rest)
  | some '"' :: rest => some ([], rest)
  | some '\\' :: some 'u' :: some a :: some b :: some c :: some d :: rest =>
    match hexUnit? a b c d with
    | some n => push (.unit n) (scanString rest)
    | none => none
  | some '\\' :: some e :: rest =>
    match escape? e with
    | some c => push (.escaped c) (scanString rest)
    | none => none
  | some '\\' :: _ => none
  | some c :: rest => if c.toNat < 0x20 then none else push (.plain c) (scanString rest)

theorem push_eq_some {p : Piece} {scanned : Option (List Piece × Source)} {ps : List Piece}
    {r : Source} (h : push p scanned = some (ps, r)) : ∃ qs, scanned = some (qs, r) := by
  obtain ⟨⟨qs, r'⟩, hq, he⟩ := Option.map_eq_some_iff.1 h
  cases he
  exact ⟨qs, hq⟩

theorem length_scanString {s r : Source} {ps : List Piece} (h : scanString s = some (ps, r)) :
    r.length < s.length := by
  fun_induction scanString s generalizing ps r with
  | case1 => simp at h
  | case2 rest ih =>
    obtain ⟨qs, hq⟩ := push_eq_some h
    exact Nat.lt_succ_of_lt (ih hq)
  | case3 => cases h; simp
  | case4 a b c d rest n _ ih =>
    obtain ⟨qs, hq⟩ := push_eq_some h
    have := ih hq
    simp only [List.length_cons]
    omega
  | case5 => cases h
  | case6 e rest _ c _ ih =>
    obtain ⟨qs, hq⟩ := push_eq_some h
    exact Nat.lt_succ_of_lt (Nat.lt_succ_of_lt (ih hq))
  | case7 => cases h
  | case8 => cases h
  | case9 => cases h
  | case10 c rest _ _ _ _ _ ih =>
    obtain ⟨qs, hq⟩ := push_eq_some h
    exact Nat.lt_succ_of_lt (ih hq)

/-- The token at the front of a source that does not start with white space. -/
def scanToken : Source → Option (Token × Source)
  | some ',' :: rest => some (.comma, rest)
  | some ':' :: rest => some (.colon, rest)
  | some '[' :: rest => some (.openList, rest)
  | some ']' :: rest => some (.closeList, rest)
  | some '\x7b' :: rest => some (.openObject, rest)
  | some '\x7d' :: rest => some (.closeObject, rest)
  | some 'n' :: some 'u' :: some 'l' :: some 'l' :: rest => some (.null, rest)
  | some 't' :: some 'r' :: some 'u' :: some 'e' :: rest => some (.bool true, rest)
  | some 'f' :: some 'a' :: some 'l' :: some 's' :: some 'e' :: rest => some (.bool false, rest)
  | some '"' :: rest => (scanString rest).map fun (ps, r) ↦ (.string ps, r)
  | s => (scanNumeral s).map fun (n, r) ↦ (.number n, r)

/-- The white space between tokens. -/
def isSpace (c : Char) : Bool :=
  c == ' ' || c == '\n' || c == '\t' || c == '\r'

/-- Drop the white space at the front. -/
def skipSpace : Source → Source
  | some c :: rest => if isSpace c then skipSpace rest else some c :: rest
  | rest => rest

theorem length_skipSpace (s : Source) : (skipSpace s).length ≤ s.length := by
  fun_induction skipSpace s with
  | case1 c rest _ ih => simp only [List.length_cons]; omega
  | case2 => simp
  | case3 => simp

/-! ### The token sequence of a text -/

theorem length_scanToken {s r : Source} {t : Token} (h : scanToken s = some (t, r)) :
    r.length < s.length := by
  revert h
  fun_cases scanToken s with
  | case10 rest =>
    intro h
    obtain ⟨⟨ps, r'⟩, hr, he⟩ := Option.map_eq_some_iff.1 h
    cases he
    exact Nat.lt_succ_of_lt (length_scanString hr)
  | case11 =>
    intro h
    obtain ⟨⟨n, r'⟩, hr, he⟩ := Option.map_eq_some_iff.1 h
    cases he
    exact length_scanNumeral hr
  | _ => intro h; cases h; simp only [List.length_cons]; omega

/-- The tokens of a source, if it can be taken apart into tokens. -/
def tokens? (s : Source) : Option (List Token) :=
  match _ : skipSpace s with
  | [] => some []
  | c :: rest =>
    match _ : scanToken (c :: rest) with
    | none => none
    | some (t, after) => (tokens? after).map (t :: ·)
termination_by s.length
decreasing_by
  have h₁ := length_skipSpace s
  have h₂ := length_scanToken ‹_›
  simp_all only [List.length_cons]
  omega

end Json

end ContractHost
