import ContractHost.Text.Hex

/-!
# Quoted text in TOML

A text is quoted in one of four ways: between double or single quotes, and on one line or on
several. Between double quotes a backslash starts an escape, between single quotes everything stands
for itself.

- The four readers take what follows the opening quotes and return the text and what follows the
  closing ones. Lines are expected to end with a line feed alone.
- `Quoting.best` chooses how a text is written: the first way, in a fixed order of preference,
  that needs no escapes, and otherwise double quotes.
-/

namespace ContractHost

namespace Toml

/-! ### Reading -/

/-- A blank inside a line. -/
def isBlank (c : Char) : Bool :=
  c == ' ' || c == '\t'

/-- A character that stands for itself in a comment and between single quotes: a tab, or anything
that is no control character. -/
def isPlain (c : Char) : Bool :=
  c == '\t' || (0x20 ≤ c.toNat && c.toNat ≠ 0x7F)

/-- The character that a letter behind a backslash stands for. -/
def unescape? : Char → Option Char
  | 'b' => some '\x08'
  | 't' => some '\t'
  | 'n' => some '\n'
  | 'f' => some '\x0c'
  | 'r' => some '\r'
  | '"' => some '"'
  | '\\' => some '\\'
  | _ => none

/-- The character with a hexadecimal number, if the number is one of a character. -/
def ofHex? (digits : List Char) : Option Char := do
  let values ← digits.mapM Hex.digit?
  let n := values.foldl (fun n d ↦ 16 * n + d) 0
  if n.isValidChar then some (Char.ofNat n) else none

/-- Put a character in front of the text that a reader found. -/
def addChar (c : Char) (found : Option (List Char × List Char)) : Option (List Char × List Char) :=
  found.map fun (text, rest) ↦ (c :: text, rest)

/-- Read up to a closing double quote on the same line. -/
def readBasic : List Char → Option (List Char × List Char)
  | '"' :: rest => some ([], rest)
  | '\\' :: 'u' :: a :: b :: c :: d :: rest => do
    addChar (← ofHex? [a, b, c, d]) (readBasic rest)
  | '\\' :: 'U' :: a :: b :: c :: d :: e :: f :: g :: h :: rest => do
    addChar (← ofHex? [a, b, c, d, e, f, g, h]) (readBasic rest)
  | '\\' :: c :: rest => do addChar (← unescape? c) (readBasic rest)
  | c :: rest => if isPlain c then addChar c (readBasic rest) else none
  | [] => none

/-- Read up to a closing single quote on the same line. -/
def readLiteral : List Char → Option (List Char × List Char)
  | '\'' :: rest => some ([], rest)
  | c :: rest => if isPlain c then addChar c (readLiteral rest) else none
  | [] => none

/-- Where a backslash joins two lines, what is left of the first and the blanks at the start of the
next lines are dropped. -/
inductive Joint
  /-- Not at a joint. -/
  | absent
  /-- Behind the backslash, where the line has to end. -/
  | before
  /-- Behind the end of the line. -/
  | behind

/-- Read up to three closing double quotes. Up to two more quotes in front of them belong to the
text. -/
def readBasicLines : Joint → List Char → Option (List Char × List Char)
  | .before, c :: rest =>
    if isBlank c then readBasicLines .before rest
    else if c = '\n' then readBasicLines .behind rest
    else none
  | .behind, ' ' :: rest => readBasicLines .behind rest
  | .behind, '\t' :: rest => readBasicLines .behind rest
  | .behind, '\n' :: rest => readBasicLines .behind rest
  | _, '"' :: '"' :: '"' :: '"' :: '"' :: rest => some (['"', '"'], rest)
  | _, '"' :: '"' :: '"' :: '"' :: rest => some (['"'], rest)
  | _, '"' :: '"' :: '"' :: rest => some ([], rest)
  | _, '\\' :: 'u' :: a :: b :: c :: d :: rest => do
    addChar (← ofHex? [a, b, c, d]) (readBasicLines .absent rest)
  | _, '\\' :: 'U' :: a :: b :: c :: d :: e :: f :: g :: h :: rest => do
    addChar (← ofHex? [a, b, c, d, e, f, g, h]) (readBasicLines .absent rest)
  | _, '\\' :: c :: rest =>
    if isBlank c then readBasicLines .before rest
    else if c = '\n' then readBasicLines .behind rest
    else do addChar (← unescape? c) (readBasicLines .absent rest)
  | _, c :: rest =>
    if isPlain c || c == '\n' then addChar c (readBasicLines .absent rest) else none
  | _, [] => none

/-- Read up to three closing single quotes. Up to two more quotes in front of them belong to the
text. -/
def readLiteralLines : List Char → Option (List Char × List Char)
  | '\'' :: '\'' :: '\'' :: '\'' :: '\'' :: rest => some (['\'', '\''], rest)
  | '\'' :: '\'' :: '\'' :: '\'' :: rest => some (['\''], rest)
  | '\'' :: '\'' :: '\'' :: rest => some ([], rest)
  | c :: rest => if isPlain c || c == '\n' then addChar c (readLiteralLines rest) else none
  | [] => none

/-- Drop a line end that follows the opening quotes. -/
def dropLineEnd : List Char → List Char
  | '\n' :: rest => rest
  | cs => cs

/-- Read a quoted text quoted on one line. -/
def readQuoted? : List Char → Option (List Char × List Char)
  | '"' :: rest => readBasic rest
  | '\'' :: rest => readLiteral rest
  | _ => none

/-- Read a text quoted in any way. -/
def readText? : List Char → Option (List Char × List Char)
  | '"' :: '"' :: '"' :: rest => readBasicLines .absent (dropLineEnd rest)
  | '\'' :: '\'' :: '\'' :: rest => readLiteralLines (dropLineEnd rest)
  | cs => readQuoted? cs

/-! ### Writing -/

/-- A way of quoting. -/
inductive Quoting
  | basic
  | literal
  | basicLines
  | literalLines
  deriving DecidableEq, Repr

/-- The length of the longest row of a character. -/
def longestRow (c : Char) : Nat → List Char → Nat
  | _, [] => 0
  | row, d :: rest =>
    if d = c then max (row + 1) (longestRow c (row + 1) rest) else longestRow c 0 rest

/-- A control character other than a tab or a line feed. -/
def isControl (c : Char) : Bool :=
  !isPlain c && c ≠ '\n'

namespace Quoting

/-- A text can be quoted in this way without an escape, a tab apart. -/
def fits (cs : List Char) : Quoting → Bool
  | basic => !cs.any isControl && !cs.contains '\\' && !cs.contains '"' && !cs.contains '\n'
  | literal => !cs.any isControl && !cs.contains '\'' && !cs.contains '\n'
  | basicLines => !cs.any isControl && !cs.contains '\\' && longestRow '"' 0 cs ≤ 2
  | literalLines => !cs.any isControl && longestRow '\'' 0 cs ≤ 2

/-- The way in which a text is quoted. -/
def best (cs : List Char) : Quoting :=
  match [basic, literal, basicLines, literalLines].find? fun n ↦ n.fits cs with
  | some n => n
  | none => if cs.contains '\n' then basicLines else basic

/-- The quotes around a text. -/
def quotes : Quoting → List Char
  | basic => ['"']
  | literal => ['\'']
  | basicLines => ['"', '"', '"']
  | literalLines => ['\'', '\'', '\'']

end Quoting

/-- A character between double quotes, where it cannot stand for itself. -/
def escape (c : Char) : List Char :=
  match c with
  | '\x08' => ['\\', 'b']
  | '\t' => ['\\', 't']
  | '\n' => ['\\', 'n']
  | '\x0c' => ['\\', 'f']
  | '\r' => ['\\', 'r']
  | '"' => ['\\', '"']
  | '\\' => ['\\', '\\']
  | c =>
    if isPlain c then [c]
    else '\\' :: 'u' :: '0' :: '0' ::
      [(Hex.digit (c.toNat / 16)).toUpper, (Hex.digit (c.toNat % 16)).toUpper]

/-- A text between double quotes on several lines, `row` quotes behind an earlier character. Line
ends stand for themselves, and so do two quotes in a row. -/
def escapeLines : Nat → List Char → List Char
  | _, [] => []
  | _, '\n' :: rest => '\n' :: escapeLines 0 rest
  | row, '"' :: rest =>
    if row < 2 then '"' :: escapeLines (row + 1) rest else escape '"' ++ escapeLines 0 rest
  | _, c :: rest => escape c ++ escapeLines 0 rest

/-- Quote a text. A text of several lines starts on a line of its own. -/
def writeIn (n : Quoting) (cs : List Char) : List Char :=
  let body :=
    match n with
    | .basic => cs.flatMap escape
    | .literal => cs
    | .basicLines => if cs.contains '\n' then '\n' :: escapeLines 0 cs else escapeLines 0 cs
    | .literalLines => if cs.contains '\n' then '\n' :: cs else cs
  n.quotes ++ body ++ n.quotes

/-- A text as TOML. -/
def writeText (s : String) : String :=
  String.ofList (writeIn (.best s.toList) s.toList)

end Toml

end ContractHost
