import ContractHost.Document.Basic
import ContractHost.Types.Ty

/-!
# Describing types by schemas

`Ty.schema` gives a schema for a type description and registers a component for each record it
meets. A record that is already registered is not looked at again, so records are told apart by
their names alone; a record is registered after its fields have been described, so a component only
refers to components that are there before it.

`Transaction.describe` puts the schemas of a function's parameters and of its success value
together, and `ContractOutline.describe` those of all functions of a contract.
-/

namespace ContractHost

namespace Scalar

/-- An integer schema with both bounds. -/
def boundedSchema (head : List (String × Json)) (least greatest : Int) : Json :=
  .object (("type", .string "integer") :: head ++
    [("minimum", .int least), ("maximum", .int greatest)])

/-- The schema of a scalar type. Integers of 64 bits have no upper bound. -/
def schema : Scalar → Json
  | bool => .object [("type", .string "boolean")]
  | string => .object [("type", .string "string")]
  | integer .i64 | integer .isize =>
    .object [("type", .string "integer"), ("format", .string "int64")]
  | integer .u64 | integer .usize => .object [("type", .string "integer"), ("minimum", .int 0)]
  | integer k =>
    boundedSchema (if k.isSigned then [("format", .string "int32")] else []) k.least k.greatest
  | single => .object [("type", .string "number"), ("format", .string "float")]
  | double => .object [("type", .string "number"), ("format", .string "double")]

end Scalar

/-- The component of a record. -/
def recordSchema (name : String) (properties : List (String × Json)) (required : List String) :
    Json :=
  .object [("$id", .string name), ("type", .string "object"), ("properties", .object properties),
    ("required", .list (required.map .string)), ("additionalProperties", .bool false)]

/-- A reference to a component. -/
def referenceSchema (name : String) : Json :=
  .object [("$ref", .string (Schema.referencePrefix ++ name))]

namespace Ty

/-- A field of this type may be missing from a record. -/
def isOptional : Ty → Bool
  | .optional _ => true
  | _ => false

/-- The names of the fields that a record has to have. -/
def requiredNames (fields : List (String × Ty)) : List String :=
  (fields.filter fun f ↦ !f.2.isOptional).map Prod.fst

mutual

/-- The schema of a type, and the components after it has been described. -/
def schema : Ty → Components → Json × Components
  | .scalar s, comps => (s.schema, comps)
  | .array elem n, comps =>
    let (items, comps) := schema elem comps
    (.object [("type", .string "array"), ("items", items), ("minItems", .int n),
      ("maxItems", .int n)], comps)
  | .list elem, comps =>
    let (items, comps) := schema elem comps
    (.object [("type", .string "array"), ("items", items)], comps)
  | .map _ _ value, comps =>
    let (values, comps) := schema value comps
    (.object [("type", .string "object"), ("additionalProperties", values)], comps)
  | .optional inner, comps =>
    let (some_, comps) := schema inner comps
    (.object [("anyOf", .list [some_, .object [("type", .string "null")]])], comps)
  | .record name fields, comps =>
    if comps.contains name then (referenceSchema name, comps)
    else
      let (properties, comps) := properties fields [] comps
      (referenceSchema name,
        comps.insert name (recordSchema name properties (requiredNames fields)))
  | .any, comps | .error, comps | .named _, comps => (.object [], comps)

/-- The properties of a record's fields, put behind those already there. -/
def properties : List (String × Ty) → List (String × Json) → Components →
    List (String × Json) × Components
  | [], done, comps => (done, comps)
  | (name, t) :: rest, done, comps =>
    let (s, comps) := schema t comps
    properties rest (Json.setField name s done) comps

end

/-- The schemas of several types in order, sharing their components. -/
def schemas : List Ty → Components → List Json × Components
  | [], comps => ([], comps)
  | t :: rest, comps =>
    let (s, comps) := t.schema comps
    let (ss, comps) := schemas rest comps
    (s :: ss, comps)

end Ty

namespace Transaction

/-- Describe a function by the types of its parameters and of its success value. -/
def describe (name : String) (params : List Ty) (success : Option Ty) (comps : Components) :
    Transaction × Components :=
  let (schemas, comps) := Ty.schemas params comps
  let parameters := schemas.mapIdx fun i s ↦ (⟨"param" ++ toString i, s⟩ : Parameter)
  match success with
  | none => (⟨parameters, none, [], name⟩, comps)
  | some t =>
    let (s, comps) := t.schema comps
    (⟨parameters, some ⟨s⟩, [], name⟩, comps)

end Transaction

/-! ### Contracts -/

/-- What a document says about a function. -/
structure FunctionOutline where
  params : List Ty
  success : Option Ty
  deriving DecidableEq, Repr

/-- What a document says about a contract. -/
structure ContractOutline where
  name : String
  info : Option Info
  isDefault : Bool
  functions : KeyMap FunctionOutline

namespace ContractOutline

/-- The transactions of functions, in order, sharing their components. -/
def describeAll : List (String × FunctionOutline) → Components → List Transaction × Components
  | [], comps => ([], comps)
  | (name, f) :: rest, comps =>
    let (tx, comps) := Transaction.describe name f.params f.success comps
    let (txs, comps) := describeAll rest comps
    (tx :: txs, comps)

/-- The entry of a contract in a metadata document, with one transaction for each function in the
order of names. -/
def describe (c : ContractOutline) (comps : Components) : ContractEntry × Components :=
  let (txs, comps) := describeAll c.functions.entries comps
  (⟨c.info, c.name, txs, c.isDefault⟩, comps)

end ContractOutline

end ContractHost
