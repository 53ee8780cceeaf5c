import ContractHost.Number.Binary

/-!
# TOML documents

A TOML document is a table: a list of named values, in which names do not repeat. Values are
strings, numbers, truth values, moments in time, lists and further tables. How a table came about,
by a header, by a dotted key or in braces, matters while a document is read (`Toml.Table`) and not
afterwards.
-/

namespace ContractHost

/-- A value of a TOML document; the document itself is a table. -/
inductive Toml
  | string (s : String)
  | integer (n : Int)
  | float (x : FloatValue)
  | bool (b : Bool)
  /-- A date, a time of day or both, as it is written. -/
  | moment (text : String)
  | list (items : List Toml)
  | table (entries : List (String × Toml))
  deriving Repr, Inhabited

namespace Toml

/-- The value of a name in a table. -/
def get? : Toml → String → Option Toml
  | .table entries, name => entries.lookup name
  | _, _ => none

/-- The text of a string. -/
def asString? : Toml → Option String
  | .string s => some s
  | _ => none

end Toml

end ContractHost
