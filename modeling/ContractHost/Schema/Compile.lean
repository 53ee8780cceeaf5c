import ContractHost.Schema.Basic

/-!
# Usable schemas

`Schema.compile` accepts a schema when everything it reaches is well formed and no chain of
references comes back to where it started without a step into the instance.

The first part walks the schema in reading order, keyword by keyword. `Schema.obligations` lists
what the walk meets, faults and references, without following any reference; `Schema.walk` follows
each reference once, at the place where it is first met, so that the first fault in reading order is
the one reported.

The second part looks at the references that apply to the same place of an instance
(`Schema.inPlace`). `Schema.settle` walks over them depth first. It keeps the references on its way
apart from those that are **settled**, from which no cycle can be reached; a reference that is met
again on the way closes a cycle.
-/

namespace ContractHost

namespace Schema

/-! ### What a schema asks for -/

/-- Something the walk over a schema meets. -/
inductive Obligation
  | fault (e : SchemaError)
  | reference (r : String)

/-- The obligation of a condition: none if it holds. -/
def demand (ok : Bool) (e : SchemaError) : List Obligation :=
  if ok then [] else [.fault e]

/-- The obligations of the keyword `$ref`. -/
def referenceObligations (fields : List (String × Json)) : List Obligation :=
  match Json.field? "$ref" fields with
  | none => []
  | some (.string r) => [.reference r]
  | some _ => [.fault (.malformed "$ref" "a string")]

/-- The obligations of the names in the keyword `type`. -/
def typeNameObligations : Json → List Obligation
  | .string name => demand (typeNames.contains name) (.unknownType name)
  | _ => [.fault (.malformed "type" "a string or list of strings")]

/-- The obligations of the keyword `type`. -/
def typeObligations (fields : List (String × Json)) : List Obligation :=
  match Json.field? "type" fields with
  | none => []
  | some (.list names) => names.flatMap typeNameObligations
  | some j => typeNameObligations j

/-- The obligations of the keywords `required` and `enum`. -/
def listObligations (fields : List (String × Json)) : List Obligation :=
  (match Json.field? "required" fields with
    | none => []
    | some (.list names) =>
      demand (names.all Json.isString) (.malformed "required" "a list of strings")
    | some _ => [.fault (.malformed "required" "a list of strings")]) ++
  match Json.field? "enum" fields with
  | none => []
  | some (.list _) => []
  | some _ => [.fault (.malformed "enum" "a list")]

/-- The keywords that hold a number. -/
def boundKeywords : List String :=
  ["minimum", "maximum", "exclusiveMinimum", "exclusiveMaximum"]

/-- The keywords that hold a count. -/
def countKeywords : List String :=
  ["minLength", "maxLength", "minItems", "maxItems"]

/-- The obligations of the keywords that hold a number or a count. -/
def numberObligations (fields : List (String × Json)) : List Obligation :=
  (boundKeywords.flatMap fun k ↦
    match Json.field? k fields with
    | none => []
    | some j => demand j.isNumber (.malformed k "a number")) ++
  countKeywords.flatMap fun k ↦
    match Json.field? k fields with
    | none => []
    | some j => demand j.asNat?.isSome (.malformed k "a non-negative integer")

mutual

/-- What the walk over a schema meets, in reading order and without following a reference. -/
def obligations : Json → List Obligation
  | .bool _ => []
  | .object fields =>
    referenceObligations fields ++ typeObligations fields ++
      obligationsOfProperties fields ++ listObligations fields ++
      obligationsUnder "items" fields ++ obligationsUnder "not" fields ++
      obligationsUnder "additionalProperties" fields ++
      obligationsInList "allOf" fields ++ obligationsInList "anyOf" fields ++
      obligationsInList "oneOf" fields ++ numberObligations fields
  | j => [.fault (.notASchema j)]

/-- The obligations of the schema under a keyword. -/
def obligationsUnder (keyword : String) : List (String × Json) → List Obligation
  | [] => []
  | (k, j) :: rest => if k = keyword then obligations j else obligationsUnder keyword rest

/-- The obligations of the list of schemas under a keyword. -/
def obligationsInList (keyword : String) : List (String × Json) → List Obligation
  | [] => []
  | (k, j) :: rest =>
    if k = keyword then obligationsOfList keyword j else obligationsInList keyword rest

/-- The obligations of a document that has to be a list of schemas. -/
def obligationsOfList (keyword : String) : Json → List Obligation
  | .list (s :: rest) => obligations s ++ obligationsOfItems rest
  | _ => [.fault (.malformed keyword "a non-empty list of schemas")]

/-- The obligations of the schemas of a list. -/
def obligationsOfItems : List Json → List Obligation
  | [] => []
  | s :: rest => obligations s ++ obligationsOfItems rest

/-- The obligations of the keyword `properties`. -/
def obligationsOfProperties : List (String × Json) → List Obligation
  | [] => []
  | (k, j) :: rest =>
    if k = "properties" then obligationsOfObject j else obligationsOfProperties rest

/-- The obligations of a document that has to be an object of schemas. -/
def obligationsOfObject : Json → List Obligation
  | .object fields => obligationsOfFields fields
  | _ => [.fault (.malformed "properties" "an object")]

/-- The obligations of the schemas in the fields of an object. -/
def obligationsOfFields : List (String × Json) → List Obligation
  | [] => []
  | (_, s) :: rest => obligations s ++ obligationsOfFields rest

end

/-! ### Following references -/

/-- Go through the obligations from left to right; a reference met for the first time is handed to
`deeper`, together with what its target asks for and what is still to be done. -/
def walkWith (components : Components)
    (deeper : List String → List Obligation → Except SchemaError (List String)) :
    List String → List Obligation → Except SchemaError (List String)
  | seen, [] => .ok seen
  | _, .fault e :: _ => .error e
  | seen, .reference r :: rest =>
    match resolve? components r with
    | none => .error (.unresolved r)
    | some target =>
      if r ∈ seen then walkWith components deeper seen rest
      else deeper (r :: seen) (obligations target ++ rest)

/-- The references reached by obligations, in the order in which they are first met, last first.
Each new reference costs one of `fresh`; there are no more new ones than components. -/
def walk (components : Components) :
    Nat → List String → List Obligation → Except SchemaError (List String)
  | 0 => walkWith components fun seen _ ↦ .ok seen
  | fresh + 1 => walkWith components (walk components fresh)

/-- The references that a schema reaches, if everything it reaches is well formed. -/
def reached (components : Components) (root : Json) : Except SchemaError (List String) :=
  walk components components.entries.length [] (obligations root)

/-! ### References that stay in place -/

mutual

/-- The references of a schema that apply where the schema itself applies. -/
def inPlace : Json → List String
  | .object fields =>
    (reference? fields).toList ++ inPlaceUnder "not" fields ++
      inPlaceInList "allOf" fields ++ inPlaceInList "anyOf" fields ++ inPlaceInList "oneOf" fields
  | _ => []

/-- Those of the schema under a keyword. -/
def inPlaceUnder (keyword : String) : List (String × Json) → List String
  | [] => []
  | (k, j) :: rest => if k = keyword then inPlace j else inPlaceUnder keyword rest

/-- Those of the list of schemas under a keyword. -/
def inPlaceInList (keyword : String) : List (String × Json) → List String
  | [] => []
  | (k, j) :: rest => if k = keyword then inPlaceOfList j else inPlaceInList keyword rest

/-- Those of a list of schemas. -/
def inPlaceOfList : Json → List String
  | .list items => inPlaceOfItems items
  | _ => []

/-- Those of the schemas of a list. -/
def inPlaceOfItems : List Json → List String
  | [] => []
  | s :: rest => inPlace s ++ inPlaceOfItems rest

end

/-! ### Cycles of references -/

/-- Settle references one after the other; each finds settled what those before it have settled. -/
def settleEach (settle : List String → String → Except SchemaError (List String)) :
    List String → List String → Except SchemaError (List String)
  | settled, [] => .ok settled
  | settled, r :: rest =>
    match settle settled r with
    | .error e => .error e
    | .ok settled => settleEach settle settled rest

/-- Settle one reference by handing each reference that follows it in place to `deeper`. It is
settled when all of those are. `active` are the references on the way to this one: meeting one of
them again closes a cycle. -/
def settleWith (components : Components)
    (deeper : List String → List String → String → Except SchemaError (List String))
    (active settled : List String) (r : String) : Except SchemaError (List String) :=
  if r ∈ settled then .ok settled
  else if r ∈ active then .error (.cycle r)
  else
    match resolve? components r with
    | none => .error (.unresolved r)
    | some target =>
      match settleEach (deeper (r :: active)) settled (inPlace target) with
      | .error e => .error e
      | .ok settled => .ok (r :: settled)

/-- Walk depth first over the references that follow a reference in place. Each active reference
costs one of `room`; no more of them can be active than there are components. -/
def settle (components : Components) :
    Nat → List String → List String → String → Except SchemaError (List String)
  | 0 => settleWith components fun _ _ r ↦ .error (.cycle r)
  | room + 1 => settleWith components (settle components room)

/-- The references from which no cycle can be reached in place, in the order in which they are
settled, last first. -/
def settleAll (components : Components) (references : List String) :
    Except SchemaError (List String) :=
  settleEach (settle components components.entries.length []) [] references

end Schema

/-- A schema that has been found usable, with the components it may refer to. -/
structure Schema where
  root : Json
  components : Components

namespace Schema

/-- Find out whether a schema can be used. Without components no reference resolves. -/
def compile (root : Json) (components : Components) : Except SchemaError Schema :=
  match reached components root with
  | .error e => .error e
  | .ok references =>
    match settleAll components references.reverse with
    | .error e => .error e
    | .ok _ => .ok ⟨root, components⟩

end Schema

end ContractHost
