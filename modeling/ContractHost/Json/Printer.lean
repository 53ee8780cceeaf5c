import ContractHost.Json.Basic
import ContractHost.Text.Hex

/-!
# Writing JSON documents

The compact form: no white space, fields in their order, and in a string only what has to be
escaped. Floating-point numbers are written with the fewest digits that read back.
-/

namespace ContractHost

namespace Json

/-- A character inside a string. -/
def writeChar (c : Char) : List Char :=
  if c = '"' then ['\\', '"']
  else if c = '\\' then ['\\', '\\']
  else if c = '\x08' then ['\\', 'b']
  else if c = '\t' then ['\\', 't']
  else if c = '\n' then ['\\', 'n']
  else if c = '\x0c' then ['\\', 'f']
  else if c = '\r' then ['\\', 'r']
  else if c.toNat < 0x20 then
    ['\\', 'u', '0', '0', Hex.digit (c.toNat / 16), Hex.digit (c.toNat % 16)]
  else [c]

/-- A string with its quotes. -/
def writeString (s : String) : List Char :=
  '"' :: s.toList.flatMap writeChar ++ ['"']

/-- An integer. -/
def writeInt (n : Int) : List Char :=
  if n < 0 then '-' :: Nat.toDigits 10 n.natAbs else Nat.toDigits 10 n.natAbs

/-- A floating-point number of the 64-bit format. -/
def writeDouble (x : BinaryNumber) : List Char :=
  FloatLayout.jsonDouble.writeNumber .double x

mutual

/-- The compact text of a document. -/
def write : Json → List Char
  | .null => ['n', 'u', 'l', 'l']
  | .bool true => ['t', 'r', 'u', 'e']
  | .bool false => ['f', 'a', 'l', 's', 'e']
  | .int n => writeInt n
  | .float x => writeDouble x
  | .string s => writeString s
  | .list items => '[' :: writeItems items ++ [']']
  | .object fields => '\x7b' :: writeFields fields ++ ['\x7d']

/-- The items of a list, with a comma between two. -/
def writeItems : List Json → List Char
  | [] => []
  | [j] => write j
  | j :: rest => write j ++ ',' :: writeItems rest

/-- The fields of an object, with a comma between two. -/
def writeFields : List (String × Json) → List Char
  | [] => []
  | [(k, j)] => writeString k ++ ':' :: write j
  | (k, j) :: rest => writeString k ++ ':' :: write j ++ ',' :: writeFields rest

end

/-- The compact text of a document as a string. -/
def toText (j : Json) : String :=
  String.ofList j.write

end Json

end ContractHost
