import ContractHost.Json.Printer
import ContractHost.KeyMap

/-!
# Schemas

A schema is a JSON document that says which other documents it accepts. An object states constraints
by keywords, `true` accepts everything and `false` nothing. A schema may refer to a **component**, a
schema that is registered under a name; a reference stands for its target and nothing beside it
counts.

This module holds what both halves of the theory share: the registry of components, the errors a
schema can have, and what a violated constraint looks like. `Schema.Compile` decides which schemas
can be used, `Schema.Validate` checks documents against them.
-/

namespace ContractHost

/-- Components by name. -/
abbrev Components := KeyMap Json

/-- Why a schema cannot be used. -/
inductive SchemaError
  /-- A reference to no component. -/
  | unresolved (reference : String)
  /-- A keyword that holds the wrong kind of document. -/
  | malformed (keyword : String) (expected : String)
  /-- A type name that JSON does not have. -/
  | unknownType (name : String)
  /-- A reference that leads back to itself without a step into the instance. -/
  | cycle (reference : String)
  /-- Neither an object nor a truth value. -/
  | notASchema (found : Json)

namespace SchemaError

/-- The text of the error. -/
def message : SchemaError → String
  | unresolved r => "unresolvable reference " ++ r
  | malformed keyword expected => "keyword " ++ keyword ++ " must be " ++ expected
  | unknownType name => "unknown type " ++ name
  | cycle r => "circular reference " ++ r ++ " never reaches a constraint"
  | notASchema found => "schema must be an object or a boolean, got " ++ found.toText

end SchemaError

/-- A constraint that fails, and where in the instance. -/
structure Violation where
  path : String
  description : String
  deriving DecidableEq, Repr

namespace Violation

/-- One violation on a line of its own. -/
def line (v : Violation) : String :=
  v.path ++ ": " ++ v.description

/-- A numbered list of violations. -/
def report (vs : List Violation) : String :=
  "\n".intercalate (vs.mapIdx fun i v ↦ toString (i + 1) ++ ". " ++ v.line)

end Violation

namespace Schema

/-- What a reference to a component starts with. -/
def referencePrefix : String := "#/components/schemas/"

/-- The name of the component that a reference means. -/
def componentName? (reference : String) : Option String :=
  let head := referencePrefix.toList
  let chars := reference.toList
  if head.isPrefixOf chars then some (String.ofList (chars.drop head.length)) else none

/-- The target of a reference. -/
def resolve? (components : Components) (reference : String) : Option Json := do
  components.get? (← componentName? reference)

/-- The names of the JSON types. -/
def typeNames : List String :=
  ["null", "boolean", "object", "array", "number", "string", "integer"]

/-- The reference an object makes, if it makes one. -/
def reference? (fields : List (String × Json)) : Option String :=
  match Json.field? "$ref" fields with
  | some (.string r) => some r
  | _ => none

end Schema

end ContractHost
