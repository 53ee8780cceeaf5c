import ContractHost.Data.DataType

/-!
# A catalogue of data types

Data types by name, for contracts that are put together at run time. A name is written as the type
is displayed: scalars and a handful of records by their names, and the composite types around the
names of their parts.
-/

namespace ContractHost

namespace Samples

/-! ### Records -/

/-- A record of a string and a small number. -/
def car : DataType :=
  .recordOf "Car" [("make", .string), ("doors", .integer .u8)]

/-- A record of two numbers. -/
def point : DataType :=
  .recordOf "Point" [("x", .integer .i32), ("y", .integer .i32)]

/-- A record of three kinds of scalar. -/
def vehicle : DataType :=
  .recordOf "Vehicle" [("wheels", .integer .u8), ("brand", .string), ("active", .bool)]

/-- A record with one field. -/
def owner : DataType :=
  .recordOf "Owner" [("name", .string)]

/-- A record with an optional record in it. -/
def asset : DataType :=
  .recordOf "Asset" [("id", .string), ("owner", .option owner)]

/-- A record that holds one record type twice. -/
def transfer : DataType :=
  .recordOf "Transfer" [("from", owner), ("to", owner)]

/-- A record with a record, a list and a map of records in it. -/
def nested : DataType :=
  .recordOf "Nested" [("inner", point), ("many", .list point),
    ("lookup", .map .ordered .string (.option point))]

/-- A record with one field for each way of writing a scalar. -/
def scalars : DataType :=
  .recordOf "Scalars" [("b", .bool), ("s", .string), ("i", .integer .i64), ("u", .integer .u64),
    ("f", .single), ("d", .double)]

/-- A record with a dynamic value in it. -/
def tagged : DataType :=
  .recordOf "Dynamic" [("tag", .string), ("data", .dynamic)]

/-- A record with a hidden field of a valid type. -/
def hidden : DataType :=
  .record "Hidden" [(⟨"shown", false⟩, .string), (⟨"secret", true⟩, .integer .i32)]

/-- A record with a hidden field of a type that no schema describes. -/
def hiddenBad : DataType :=
  .record "HiddenBad" [(⟨"shown", false⟩, .string), (⟨"secret", true⟩, .signed128)]

/-- A record with a field of a type that is not valid. -/
def bad : DataType :=
  .recordOf "Bad" [("prop1", .string), ("prop2", .signed128)]

/-- A record with nested arrays of fixed lengths. -/
def matrix : DataType :=
  .recordOf "Matrix" [("cells", .array (.array (.integer .i32) 2) 2), ("names", .array .string 1)]

/-- The record without fields. -/
def empty : DataType :=
  .recordOf "Empty" []

/-- The types with a name of their own that are no scalars. -/
def named : List (String × DataType) :=
  [("i128", .signed128), ("u128", .unsigned128), ("char", .char), ("Value", .dynamic),
    ("Json", .json), ("Car", car), ("Point", point), ("Vehicle", vehicle), ("Owner", owner),
    ("Asset", asset), ("Transfer", transfer), ("Nested", nested), ("Scalars", scalars),
    ("Dynamic", tagged), ("Hidden", hidden), ("HiddenBad", hiddenBad), ("Bad", bad),
    ("Matrix", matrix), ("Empty", empty)]

/-! ### Names -/

/-- The type that a plain name means. -/
def ofPlainName? (name : String) : Option DataType :=
  match Scalar.ofName? name with
  | some s => some (.scalar s)
  | none => named.lookup name

/-- The type of keys that a plain name means. -/
def keyOfName? (name : String) : Option KeyType :=
  match ofPlainName? name with
  | some (.scalar .string) => some .string
  | some (.scalar .bool) => some .bool
  | some (.scalar (.integer k)) => some (.integer k)
  | some .signed128 => some .signed128
  | some .unsigned128 => some .unsigned128
  | some .char => some .char
  | _ => none

/-- What follows the given characters. -/
def after? (expected : List Char) (cs : List Char) : Option (List Char) :=
  if expected.isPrefixOf cs then some (cs.drop expected.length) else none

/-- Read the name of a type, in which types may be nested so deep. -/
def readType? : Nat → List Char → Option (DataType × List Char)
  | 0, _ => none
  | depth + 1, '[' :: rest => do
    let (elem, rest) ← readType? depth rest
    let rest ← after? [';', ' '] rest
    let digits := rest.takeWhile Char.isDigit
    let rest ← after? [']'] (rest.dropWhile Char.isDigit)
    return (.array elem (Nat.ofDigitChars 10 digits 0), rest)
  | depth + 1, cs => do
    let name := String.ofList (cs.takeWhile Char.isAlphanum)
    match cs.dropWhile Char.isAlphanum with
    | '<' :: rest =>
      if name = "Vec" ∨ name = "Option" then
        let (inner, rest) ← readType? depth rest
        let rest ← after? ['>'] rest
        return (if name = "Vec" then .list inner else .option inner, rest)
      else
        let flavor ← [("HashMap", MapFlavor.hashed), ("BTreeMap", MapFlavor.ordered)].lookup name
        let key ← keyOfName? (String.ofList (rest.takeWhile Char.isAlphanum))
        let rest ← after? [',', ' '] (rest.dropWhile Char.isAlphanum)
        let (value, rest) ← readType? depth rest
        let rest ← after? ['>'] rest
        return (.map flavor key value, rest)
    | rest => return (← ofPlainName? name, rest)

/-- The type that a name means. -/
def ofName? (name : String) : Option DataType :=
  match readType? name.length name.toList with
  | some (t, []) => some t
  | _ => none

end Samples

end ContractHost
