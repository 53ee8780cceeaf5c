import ContractHost.Json.Token

/-!
# Syntax trees of JSON texts

A **tree** is what a JSON text spells before anyone asks what it means: strings are still in pieces
and numbers still decimal numerals. The reader of plain documents and the reader of typed values
both start from a tree, and a part that nobody looks at is never decoded.

`Tree.ofTokens?` runs over the tokens once, with a stack of the lists and objects that are open. It
goes by the structure of the token list, so a text may be nested as deeply as it likes.
-/

namespace ContractHost

namespace Json

/-- The syntax tree of a JSON text. -/
inductive Tree
  | null
  | bool (b : Bool)
  | number (n : Numeral)
  | string (pieces : List Piece)
  | list (items : List Tree)
  | object (fields : List (List Piece × Tree))
  deriving Repr, Inhabited

namespace Tree

/-- A list or an object that is open: what stands before the element being read, last first, and in
an object the name of that element. -/
inductive Frame
  | items (before : List Tree)
  | fields (before : List (List Piece × Tree)) (name : List Piece)

mutual

/-- A value has to start here. -/
def expect (stack : List Frame) : List Token → Option Tree
  | .null :: rest => accept .null stack rest
  | .bool b :: rest => accept (.bool b) stack rest
  | .number n :: rest => accept (.number n) stack rest
  | .string s :: rest => accept (.string s) stack rest
  | .openList :: .closeList :: rest => accept (.list []) stack rest
  | .openList :: rest => expect (.items [] :: stack) rest
  | .openObject :: .closeObject :: rest => accept (.object []) stack rest
  | .openObject :: .string name :: .colon :: rest => expect (.fields [] name :: stack) rest
  | _ => none

/-- A value has just ended. -/
def accept (value : Tree) : List Frame → List Token → Option Tree
  | [], [] => some value
  | .items before :: stack, .comma :: rest => expect (.items (value :: before) :: stack) rest
  | .items before :: stack, .closeList :: rest =>
    accept (.list (value :: before).reverse) stack rest
  | .fields before name :: stack, .comma :: .string next :: .colon :: rest =>
    expect (.fields ((name, value) :: before) next :: stack) rest
  | .fields before name :: stack, .closeObject :: rest =>
    accept (.object ((name, value) :: before).reverse) stack rest
  | _, _ => none

end

/-- The tree of a token list that spells one value and nothing else. -/
def ofTokens? (ts : List Token) : Option Tree :=
  expect [] ts

/-- The tree of a text. -/
def parse? (s : Source) : Option Tree := do
  ofTokens? (← tokens? s)

end Tree

end Json

end ContractHost
