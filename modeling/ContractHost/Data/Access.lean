import ContractHost.Data.Value

/-!
# Data by position

The body of a typed handler gets its arguments as a list of data whose types are known. These
functions take one of them out at a known type; what is not there reads as the zero of the type.
-/

namespace ContractHost

namespace Datum

/-- A string, or the empty one. -/
def asString : Datum → String
  | .string s => s
  | _ => ""

/-- An integer, or zero. -/
def asInt : Datum → Int
  | .int n => n
  | _ => 0

/-- A truth value, or false. -/
def asBool : Datum → Bool
  | .bool b => b
  | _ => false

/-- The items of a list or an array, or none. -/
def asItems : Datum → List Datum
  | .list items => items
  | _ => []

/-- The entries of a map, or none. -/
def asEntries : Datum → List (MapKey × Datum)
  | .map entries => entries
  | _ => []

/-- A dynamic datum as a value. -/
def asValue : Datum → Value
  | .dynamic v => v
  | d => .typed .json d

/-- A field of a record. -/
def field : Datum → String → Datum
  | .record fields, name => (fields.lookup name).getD .nil
  | _, _ => .nil

end Datum

/-- The datum at a position. -/
def datumAt (data : List Datum) (i : Nat) : Datum :=
  data[i]?.getD .nil

/-- The string at a position. -/
def stringAt (data : List Datum) (i : Nat) : String :=
  (datumAt data i).asString

/-- The integer at a position. -/
def intAt (data : List Datum) (i : Nat) : Int :=
  (datumAt data i).asInt

/-- The truth value at a position. -/
def boolAt (data : List Datum) (i : Nat) : Bool :=
  (datumAt data i).asBool

/-- The items of the list at a position. -/
def itemsAt (data : List Datum) (i : Nat) : List Datum :=
  (datumAt data i).asItems

/-- The dynamic value at a position. -/
def valueAt (data : List Datum) (i : Nat) : Value :=
  (datumAt data i).asValue

end ContractHost
