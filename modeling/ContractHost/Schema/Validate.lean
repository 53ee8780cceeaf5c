import ContractHost.Schema.Compile

/-!
# Checking documents against schemas

`Schema.validate` lists every violated constraint. It is built in three layers, one for each kind of
step a check can take:

- `Schema.here` stays at one **location** of the instance and goes by the structure of the schema,
- `Schema.follow` stays at the location too and goes from a reference to its target; at one location
  no component is entered twice, so there are at most as many such steps as components,
- `Schema.check` goes into the items and fields of the instance, by the structure of the instance.

The order of the violations is that of the keywords below, whatever their order in the schema, and
the fields of an object are visited in the order of their names.
-/

namespace ContractHost

namespace Schema

/-! ### Constraints that look at one value -/

/-- A document has the type of that name. A number without a fraction is an integer. -/
def hasType (name : String) : Json → Bool
  | .null => name == "null"
  | .bool _ => name == "boolean"
  | .int _ => name == "number" || name == "integer"
  | .float x => name == "number" || (name == "integer" && x.isWhole)
  | .string _ => name == "string"
  | .list _ => name == "array"
  | .object _ => name == "object"

/-- The name by which a document's type is reported. -/
def typeName : Json → String
  | .null => "null"
  | .bool _ => "boolean"
  | .int _ => "integer"
  | .float _ => "number"
  | .string _ => "string"
  | .list _ => "array"
  | .object _ => "object"

/-- The type names that a schema allows, if it restricts them. -/
def allowedTypes? (fields : List (String × Json)) : Option (List String) :=
  match Json.field? "type" fields with
  | none => none
  | some (.string name) => some [name]
  | some (.list names) => some (names.filterMap Json.asString?)
  | some _ => some []

/-- The violated type restriction. -/
def typeFault? (fields : List (String × Json)) (j : Json) : Option String :=
  match allowedTypes? fields with
  | none => none
  | some names =>
    if names.any (hasType · j) then none
    else some ("Invalid type. Expected: " ++ "/".intercalate names ++ ", given: " ++ typeName j)

/-- The violated `enum` and `const`. -/
def choiceFaults (fields : List (String × Json)) (j : Json) : List String :=
  (match Json.field? "enum" fields with
    | some (.list options) =>
      if options.any fun o ↦ o.same j then []
      else ["must be one of the following: " ++ ", ".intercalate (options.map Json.toText)]
    | _ => []) ++
  match Json.field? "const" fields with
  | some expected => if expected.same j then [] else ["Does not match: " ++ expected.toText]
  | none => []

/-- A violated bound on a number, compared in the 64-bit floating-point format. -/
def boundFault (fields : List (String × Json)) (x : BinaryNumber) (keyword text : String)
    (holds : BinaryNumber → BinaryNumber → Bool) : List String :=
  match Json.field? keyword fields with
  | none => []
  | some bound =>
    match bound.toDouble? with
    | none => []
    | some b => if holds x b then [] else [text ++ " " ++ bound.toText]

/-- The violated bounds of a number. -/
def boundFaults (fields : List (String × Json)) (j : Json) : List String :=
  match j.toDouble? with
  | none => []
  | some x =>
    boundFault fields x "minimum" "Must be greater than or equal to" (fun x b ↦ b.le x) ++
    boundFault fields x "maximum" "Must be less than or equal to" (fun x b ↦ x.le b) ++
    boundFault fields x "exclusiveMinimum" "Must be greater than" (fun x b ↦ b.lt x) ++
    boundFault fields x "exclusiveMaximum" "Must be less than" (fun x b ↦ x.lt b)

/-- The count under a keyword. -/
def count? (keyword : String) (fields : List (String × Json)) : Option Nat := do
  (← Json.field? keyword fields).asNat?

/-- A violated lower and upper limit on a count. -/
def countFaults (fields : List (String × Json)) (n : Nat) (low high : String)
    (tooFew tooMany : Nat → String) : List String :=
  (match count? low fields with
    | some least => if n < least then [tooFew least] else []
    | none => []) ++
  match count? high fields with
  | some greatest => if greatest < n then [tooMany greatest] else []
  | none => []

/-- The violated limits on the length of a string or of a list. -/
def lengthFaults (fields : List (String × Json)) : Json → List String
  | .string s =>
    countFaults fields s.length "minLength" "maxLength"
      (fun n ↦ "String length must be greater than or equal to " ++ toString n)
      (fun n ↦ "String length must be less than or equal to " ++ toString n)
  | .list items =>
    countFaults fields items.length "minItems" "maxItems"
      (fun n ↦ "Array must have at least " ++ toString n ++ " items")
      (fun n ↦ "Array must have at most " ++ toString n ++ " items")
  | _ => []

/-- The required fields that are missing. -/
def requiredFaults (fields : List (String × Json)) : Json → List String
  | .object present =>
    match Json.field? "required" fields with
    | some (.list names) =>
      (names.filterMap Json.asString?).filterMap fun name ↦
        if (Json.field? name present).isSome then none else some (name ++ " is required")
    | _ => []
  | _ => []

/-- The violated constraints that look neither at a child nor through another schema. -/
def localFaults (fields : List (String × Json)) (j : Json) : List String :=
  choiceFaults fields j ++ boundFaults fields j ++ lengthFaults fields j ++ requiredFaults fields j

/-! ### One location -/

/-- A place in an instance: what stands there, how it is called, and how its children are checked
against a schema. -/
structure Location where
  value : Json
  path : String
  items : List (Json → List Violation)
  fields : List (String × (Json → List Violation))

/-- A violation at a location. -/
def Location.violation (loc : Location) (text : String) : Violation :=
  ⟨loc.path, text⟩

/-- The violations in the items of a list. -/
def itemViolations (loc : Location) (fields : List (String × Json)) : List Violation :=
  match Json.field? "items" fields with
  | none => []
  | some schema => loc.items.flatMap fun checkItem ↦ checkItem schema

/-- The violations in one field of an object. A field that no property describes is checked against
`additionalProperties`; where that is `false` the object itself is at fault. -/
def fieldViolations (loc : Location) (fields : List (String × Json)) (name : String)
    (checkField : Json → List Violation) : List Violation :=
  match (Json.field? "properties" fields).bind (·.get? name) with
  | some schema => checkField schema
  | none =>
    match Json.field? "additionalProperties" fields with
    | some (.bool false) => [loc.violation ("Additional property " ++ name ++ " is not allowed")]
    | some schema => checkField schema
    | none => []

/-- The violations in the children of a location. -/
def childViolations (loc : Location) (fields : List (String × Json)) : List Violation :=
  itemViolations loc fields ++
    loc.fields.flatMap fun (name, checkField) ↦ fieldViolations loc fields name checkField

/-- The violations of `allOf`, `anyOf`, `oneOf` and `not` at a path, from the violations of each
schema that they hold. -/
def combine (path : String) (allOf anyOf oneOf : Option (List (List Violation)))
    (negated : Option (List Violation)) : List Violation :=
  (allOf.getD []).flatten ++
  (match anyOf with
    | some results =>
      if results.any List.isEmpty then []
      else [⟨path, "Must validate at least one schema (anyOf)"⟩]
    | none => []) ++
  (match oneOf with
    | some results =>
      if results.countP List.isEmpty = 1 then []
      else [⟨path, "Must validate one and only one schema (oneOf)"⟩]
    | none => []) ++
  match negated with
  | some result =>
    if result.isEmpty then [⟨path, "Must not validate the schema (not)"⟩] else []
  | none => []

mutual

/-- The violations of a schema at one location, where `target` gives those of a reference. -/
def here (loc : Location) (target : String → List Violation) : Json → List Violation
  | .bool true => []
  | .bool false => [loc.violation "False always fails validation"]
  | .object fields =>
    match reference? fields with
    | some r => target r
    | none =>
      match typeFault? fields loc.value with
      | some text => [loc.violation text]
      | none =>
        (localFaults fields loc.value).map loc.violation ++ childViolations loc fields ++
          combine loc.path (hereInList loc target "allOf" fields)
            (hereInList loc target "anyOf" fields) (hereInList loc target "oneOf" fields)
            (hereUnder loc target "not" fields)
  | _ => []

/-- The violations of the schema under a keyword. -/
def hereUnder (loc : Location) (target : String → List Violation) (keyword : String) :
    List (String × Json) → Option (List Violation)
  | [] => none
  | (k, j) :: rest =>
    if k = keyword then some (here loc target j) else hereUnder loc target keyword rest

/-- The violations of each schema in the list under a keyword. -/
def hereInList (loc : Location) (target : String → List Violation) (keyword : String) :
    List (String × Json) → Option (List (List Violation))
  | [] => none
  | (k, j) :: rest =>
    if k = keyword then hereOfList loc target j else hereInList loc target keyword rest

/-- The violations of each schema of a document, if it is a list. -/
def hereOfList (loc : Location) (target : String → List Violation) :
    Json → Option (List (List Violation))
  | .list items => some (hereOfItems loc target items)
  | _ => none

/-- The violations of each schema of a list. -/
def hereOfItems (loc : Location) (target : String → List Violation) :
    List Json → List (List Violation)
  | [] => []
  | s :: rest => here loc target s :: hereOfItems loc target rest

end

/-! ### References -/

/-- The violations of a schema at one location, when `steps` more references may be followed. -/
def follow (components : Components) (loc : Location) : Nat → Json → List Violation
  | 0 => here loc fun _ ↦ []
  | steps + 1 =>
    here loc fun r ↦
      match resolve? components r with
      | none => []
      | some target => follow components loc steps target

/-! ### The whole instance -/

/-- The name of the location of a whole instance. -/
def rootPath : String := "(root)"

/-- The name of a child of a location. -/
def childPath (path name : String) : String :=
  if path = rootPath then name else path ++ "." ++ name

/-- The fields of an object in the order of their names. -/
def inNameOrder {α : Type} (fields : List (String × α)) : List (String × α) :=
  fields.mergeSort fun a b ↦ decide (a.1 ≤ b.1)

mutual

/-- How an instance at a path is checked against a schema. -/
def check (components : Components) : Json → String → Json → List Violation
  | .list items, path =>
    follow components ⟨.list items, path, checkItems components items path 0, []⟩
      components.entries.length
  | .object fields, path =>
    follow components ⟨.object fields, path, [], inNameOrder (checkFields components fields path)⟩
      components.entries.length
  | j, path => follow components ⟨j, path, [], []⟩ components.entries.length

/-- How the items of a list are checked, from index `i` on. -/
def checkItems (components : Components) :
    List Json → String → Nat → List (Json → List Violation)
  | [], _, _ => []
  | j :: rest, path, i =>
    check components j (childPath path (toString i)) :: checkItems components rest path (i + 1)

/-- How the fields of an object are checked. -/
def checkFields (components : Components) :
    List (String × Json) → String → List (String × (Json → List Violation))
  | [], _ => []
  | (name, j) :: rest, path =>
    (name, check components j (childPath path name)) :: checkFields components rest path

end

/-- The violations of a document. -/
def validate (schema : Schema) (document : Json) : List Violation :=
  check schema.components document rootPath schema.root

end Schema

end ContractHost
