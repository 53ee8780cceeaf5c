import ContractHost.Schema.Basic

/-!
# Metadata documents

A metadata document describes every contract of a chaincode: its transactions, a schema for each
parameter and for the success value, and the components that these schemas share. It is either
generated from the registered functions or supplied from outside; only a supplied one is enforced.

Everything in a document is written through `toJson`, in a fixed order of fields. A field that holds
nothing is left out where leaving it out means the same to a reader.
-/

namespace ContractHost

/-- Title and version of a chaincode or a contract. -/
structure Info where
  title : String
  version : String
  description : Option String
  deriving DecidableEq, Repr

/-- A parameter: the name used in error messages, and its schema. -/
structure Parameter where
  name : String
  schema : Json

/-- The success value of a transaction. -/
structure Returns where
  schema : Json

/-- A transaction of a contract. -/
structure Transaction where
  parameters : List Parameter
  returns : Option Returns
  tag : List String
  name : String

/-- A contract of a chaincode. -/
structure ContractEntry where
  info : Option Info
  name : String
  transactions : List Transaction
  isDefault : Bool

/-- A metadata document. -/
structure Document where
  info : Option Info
  contracts : KeyMap ContractEntry
  components : Components

namespace Document

/-- The document that describes nothing. -/
def empty : Document :=
  ⟨none, ∅, ∅⟩

/-- The first transaction of that name in the contract of that name. -/
def transaction? (d : Document) (contract function : String) : Option Transaction := do
  (← d.contracts.get? contract).transactions.find? fun tx ↦ tx.name == function

end Document

/-! ### Writing -/

/-- A field that is written only if it holds something. -/
def optionalField {α : Type} (name : String) (write : α → Json) :
    Option α → List (String × Json)
  | none => []
  | some a => [(name, write a)]

/-- An info block as an object. -/
def Info.toJson (i : Info) : Json :=
  .object ([("title", .string i.title), ("version", .string i.version)] ++
    optionalField "description" .string i.description)

/-- A parameter as an object. -/
def Parameter.toJson (p : Parameter) : Json :=
  .object [("name", .string p.name), ("schema", p.schema)]

/-- The success value of a transaction as an object. -/
def Returns.toJson (r : Returns) : Json :=
  .object [("schema", r.schema)]

/-- A transaction as an object; an empty list of tags is left out. -/
def Transaction.toJson (tx : Transaction) : Json :=
  .object ([("parameters", .list (tx.parameters.map Parameter.toJson))] ++
    optionalField "returns" Returns.toJson tx.returns ++
    (if tx.tag = [] then [] else [("tag", .list (tx.tag.map .string))]) ++
    [("name", .string tx.name)])

/-- A contract as an object. -/
def ContractEntry.toJson (c : ContractEntry) : Json :=
  .object (optionalField "info" Info.toJson c.info ++
    [("name", .string c.name), ("transactions", .list (c.transactions.map Transaction.toJson)),
      ("default", .bool c.isDefault)])

/-- A map as an object. -/
def KeyMap.toJson {α : Type} (write : α → Json) (m : KeyMap α) : Json :=
  .object (m.entries.map fun e ↦ (e.1, write e.2))

/-- The components under a name of their own, in the order of their names. -/
def Components.toJson (c : Components) : Json :=
  .object [("schemas", KeyMap.toJson id c)]

/-- A document as an object, with its contracts in the order of their names. -/
def Document.toJson (d : Document) : Json :=
  .object (optionalField "info" Info.toJson d.info ++
    [("contracts", KeyMap.toJson ContractEntry.toJson d.contracts),
      ("components", Components.toJson d.components)])

/-- The text of a document. -/
def Document.toText (d : Document) : String :=
  d.toJson.toText

end ContractHost
