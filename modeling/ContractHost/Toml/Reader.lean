import ContractHost.Toml.Literal
import ContractHost.Toml.Quoted
import ContractHost.Toml.Table

/-!
# Reading TOML

A document is a list of **statements**, one to a line: a header that declares a table, a header that
starts the next table of a list, or a key with a value. `Statement.readAll?` finds the statements of
a text, and `Toml.ofStatements?` builds the table that they describe.

Lists and tables in braces may be nested at most `maxNesting` deep, and a dotted key has at most as
many parts. The readers of values and of lines have an argument that bounds their steps; the length
of the text is enough, because each step takes at least one character.
-/

namespace ContractHost

namespace Toml

/-- The bound on nested lists and braces, and on the parts of a key. -/
def maxNesting : Nat := 79

/-! ### Lines -/

/-- End every line with a line feed alone. A carriage return has no other use. -/
def unifyLineEnds? : List Char → Option (List Char)
  | [] => some []
  | '\r' :: '\n' :: rest => (unifyLineEnds? rest).map ('\n' :: ·)
  | '\r' :: _ => none
  | c :: rest => (unifyLineEnds? rest).map (c :: ·)

/-- Drop the blanks at the front. -/
def skipBlanks (cs : List Char) : List Char :=
  cs.dropWhile isBlank

/-- Drop a comment at the front. -/
def skipComment : List Char → List Char
  | '#' :: rest => rest.dropWhile isPlain
  | cs => cs

/-- Drop blanks, line ends and comments at the front. -/
def skipSpace : Bool → List Char → List Char
  | _, [] => []
  | inComment, c :: rest =>
    if c = '\n' then skipSpace false rest
    else if inComment then if isPlain c then skipSpace true rest else c :: rest
    else if isBlank c then skipSpace false rest
    else if c = '#' then skipSpace true rest
    else c :: rest

/-- What follows the line, of which only blanks and a comment are left. -/
def finishLine? (cs : List Char) : Option (List Char) :=
  match skipComment (skipBlanks cs) with
  | [] => some []
  | '\n' :: rest => some rest
  | _ => none

/-! ### Keys -/

/-- A character of a key without quotes. -/
def isKeyChar (c : Char) : Bool :=
  c.isAlphanum || c == '_' || c == '-'

/-- Read one part of a key. -/
def readName? (cs : List Char) : Option (String × List Char) :=
  match readQuoted? cs with
  | some (text, rest) => some (String.ofList text, rest)
  | none =>
    match cs.span isKeyChar with
    | ([], _) => none
    | (name, rest) => some (String.ofList name, rest)

/-- Read a key of at most so many parts, and the blanks around it. -/
def readKey? : Nat → List Char → Option (KeyPath × List Char)
  | 0, _ => none
  | parts + 1, cs =>
    match readName? (skipBlanks cs) with
    | none => none
    | some (name, rest) =>
      match skipBlanks rest with
      | '.' :: more => (readKey? parts more).map fun (k, rest) ↦ (⟨name :: k.tables, k.name⟩, rest)
      | rest => some (⟨[], name⟩, rest)

/-! ### Values -/

mutual

/-- Read a value, in which lists and braces may be nested so deep. -/
def readValue? : Nat → Nat → List Char → Option (Toml × List Char)
  | 0, _, _ => none
  | fuel + 1, depth, cs =>
    match cs, depth with
    | '[' :: rest, depth + 1 =>
      (readItems? fuel depth rest).map fun (items, rest) ↦ (.list items, rest)
    | '\x7b' :: rest, depth + 1 =>
      match skipBlanks rest with
      | '\x7d' :: rest => some (.table [], rest)
      | rest => (readPairs? fuel depth rest []).map fun (d, rest) ↦ (d.finish, rest)
    | '"' :: _, _ | '\'' :: _, _ =>
      (readText? cs).map fun (text, rest) ↦ (.string (String.ofList text), rest)
    | _, _ =>
      let (front, rest) := takeLiteral cs
      (ofLiteral? front).map fun v ↦ (v, rest)

/-- Read the items of a list and its closing bracket. The last item may have a comma behind it. -/
def readItems? : Nat → Nat → List Char → Option (List Toml × List Char)
  | 0, _, _ => none
  | fuel + 1, depth, cs =>
    match skipSpace false cs with
    | ']' :: rest => some ([], rest)
    | cs =>
      match readValue? fuel depth cs with
      | none => none
      | some (v, rest) =>
        match skipSpace false rest with
        | ',' :: rest => (readItems? fuel depth rest).map fun (vs, rest) ↦ (v :: vs, rest)
        | ']' :: rest => some ([v], rest)
        | _ => none

/-- Read the pairs between braces and the closing brace. They stand on one line. -/
def readPairs? : Nat → Nat → List Char → Draft → Option (Draft × List Char)
  | 0, _, _, _ => none
  | fuel + 1, depth, cs, d =>
    match readKey? maxNesting cs with
    | some (key, '=' :: rest) =>
      match readValue? fuel depth (skipBlanks rest) with
      | none => none
      | some (v, rest) =>
        match d.assign key.name v key.tables, skipBlanks rest with
        | some d, ',' :: rest => readPairs? fuel depth rest d
        | some d, '\x7d' :: rest => some (d, rest)
        | _, _ => none
    | _ => none

end

/-! ### Statements -/

/-- A line of a document that is not blank. -/
inductive Statement
  | table (key : KeyPath)
  | element (key : KeyPath)
  | pair (key : KeyPath) (v : Toml)

/-- Read one statement, up to the end of its line or of the value. -/
def Statement.read? (cs : List Char) : Option (Statement × List Char) :=
  match cs with
  | '[' :: '[' :: rest =>
    match readKey? maxNesting rest with
    | some (key, ']' :: ']' :: rest) => some (.element key, rest)
    | _ => none
  | '[' :: rest =>
    match readKey? maxNesting rest with
    | some (key, ']' :: rest) => some (.table key, rest)
    | _ => none
  | cs =>
    match readKey? maxNesting cs with
    | some (key, '=' :: rest) =>
      let rest := skipBlanks rest
      (readValue? (2 * rest.length + 2) maxNesting rest).map fun (v, rest) ↦ (.pair key v, rest)
    | _ => none

/-- Read every statement of a text. -/
def Statement.readLines? : Nat → List Char → Option (List Statement)
  | 0, _ => none
  | fuel + 1, cs =>
    match skipSpace false cs with
    | [] => some []
    | cs =>
      match Statement.read? cs with
      | none => none
      | some (statement, rest) =>
        match finishLine? rest with
        | none => none
        | some rest => (Statement.readLines? fuel rest).map (statement :: ·)

/-- Drop a byte order mark. -/
def dropMark : List Char → List Char
  | '\ufeff' :: rest => rest
  | cs => cs

/-- The statements of a text. -/
def Statement.readAll? (cs : List Char) : Option (List Statement) := do
  let cs ← unifyLineEnds? (dropMark cs)
  Statement.readLines? (cs.length + 1) cs

/-! ### Documents -/

/-- Follow statements, of which the pairs belong to the table that the last header names. -/
def follow : List String → List Statement → Draft → Option Draft
  | _, [], d => some d
  | _, .table key :: rest, d => do
    follow (key.tables ++ [key.name]) rest (← d.within (Draft.declare key.name) key.tables)
  | _, .element key :: rest, d => do
    follow (key.tables ++ [key.name]) rest (← d.within (Draft.extend key.name) key.tables)
  | path, .pair key v :: rest, d => do
    follow path rest (← d.within (Draft.assign key.name v key.tables) path)

/-- The document that statements describe. -/
def ofStatements? (statements : List Statement) : Option Toml :=
  (follow [] statements []).map Draft.finish

/-- Read a document. -/
def read? (cs : List Char) : Option Toml := do
  ofStatements? (← Statement.readAll? cs)

end Toml

end ContractHost
