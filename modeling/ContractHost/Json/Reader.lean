import ContractHost.Json.Tree

/-!
# Reading JSON documents

From a tree to a document. Integers that fit the 64-bit ranges stay integers, any other number is
rounded to the 64-bit floating-point format and refused when it is too large for that. A repeated
field keeps its first place and takes its last value. At most `Json.maxDepth` lists and objects may
be open at once; `Json.excessColumn?` finds the bracket at which a reader of a single line gives up.
-/

namespace ContractHost

namespace Json

/-- How many lists and objects may be open at once. -/
def maxDepth : Nat := 127

/-- The document of a number. -/
def ofNumeral? (n : Numeral) : Option Json :=
  match n.int? with
  | some i => if IntegerRange i then some (.int i) else ofDecimal n.value
  | none => ofDecimal n.value
where
  /-- The number in the 64-bit floating-point format, if it is not too large. -/
  ofDecimal (d : Decimal) : Option Json :=
    match d.toBinary .double with
    | .finite x => some (.float x)
    | _ => none

/-- The fields of an object whose names may repeat. -/
def collect (fields : List (String × Json)) : List (String × Json) :=
  fields.foldl (fun acc (k, v) ↦ setField k v acc) []

namespace Tree

mutual

/-- The document that a tree spells, when `room` more lists and objects may be opened. -/
def toJson? : Nat → Tree → Option Json
  | _, .null => some .null
  | _, .bool b => some (.bool b)
  | _, .number n => ofNumeral? n
  | _, .string s => (Piece.text? s).map Json.string
  | 0, .list _ => none
  | room + 1, .list items => (toItems? room items).map Json.list
  | 0, .object _ => none
  | room + 1, .object fields => (toFields? room fields).map fun fs ↦ Json.object (collect fs)

/-- The documents of a list. -/
def toItems? : Nat → List Tree → Option (List Json)
  | _, [] => some []
  | room, t :: rest =>
    match toJson? room t with
    | none => none
    | some j => (toItems? room rest).map (j :: ·)

/-- The fields of an object, as often as they are written. -/
def toFields? : Nat → List (List Piece × Tree) → Option (List (String × Json))
  | _, [] => some []
  | room, (name, t) :: rest =>
    match Piece.text? name, toJson? room t with
    | some k, some j => (toFields? room rest).map ((k, j) :: ·)
    | _, _ => none

end

end Tree

/-- The document of a source. -/
def read? (s : Source) : Option Json := do
  (← Tree.parse? s).toJson? maxDepth

/-- The document of a string. -/
def ofString? (s : String) : Option Json :=
  read? (Utf8.source s)

/-! ### Texts that are nested too deeply -/

/-- The number of bytes of a text. -/
def byteLength : List Char → Nat
  | [] => 0
  | c :: rest => c.utf8Size + byteLength rest

/-- The column of the first bracket in a text that opens a list or an object for which there is no
room, if `room` more of them may be open. Columns count bytes, and `column` is that of the first
character. The brackets inside a string open nothing; `quoted` says that the text starts in one. -/
def excess? : Bool → Nat → Nat → List Char → Option Nat
  | _, _, _, [] => none
  | true, room, column, '\\' :: c :: rest =>
    excess? true room (column + byteLength ['\\', c]) rest
  | true, room, column, c :: rest => excess? (c != '"') room (column + c.utf8Size) rest
  | false, room, column, c :: rest =>
    let next := column + c.utf8Size
    if c = '"' then excess? true room next rest
    else if c = '[' ∨ c = '\x7b' then
      if room = 0 then some column else excess? false (room - 1) next rest
    else if c = ']' ∨ c = '\x7d' then excess? false (room + 1) next rest
    else excess? false room next rest

/-- The column at which a reader stops because a text is nested too deeply. -/
def excessColumn? (text : List Char) : Option Nat :=
  excess? false maxDepth 1 text

end Json

end ContractHost
