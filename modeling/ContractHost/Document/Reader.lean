import ContractHost.Document.Basic
import ContractHost.Json.Record

/-!
# Reading metadata documents

Each part of a document is a record, so it may be written as an object or as the list of its fields
(`Json.Tree.record?`). Names of contracts, transactions and parameters and the schemas themselves
are required; everything else has a default. Objects that map names to contracts or to components
take the last of several entries of one name.
-/

namespace ContractHost

namespace Json

/-- A field that has to be there. -/
def Slot.required? {α : Type} (read : Tree → Option α) : Slot → Option α
  | .given t => read t
  | _ => none

/-- A field that may be missing. -/
def Slot.orDefault? {α : Type} (read : Tree → Option α) (default : α) : Slot → Option α
  | .given t => read t
  | _ => some default

namespace Tree

/-- A string without gaps and lone surrogates. -/
def string? : Tree → Option String
  | .string pieces => Piece.text? pieces
  | _ => none

/-- A truth value. -/
def bool? : Tree → Option Bool
  | .bool b => some b
  | _ => none

/-- Nothing for `null`, and otherwise something. -/
def nullable? {α : Type} (read : Tree → Option α) : Tree → Option (Option α)
  | .null => some none
  | t => (read t).map some

/-- A list, read item by item. -/
def listOf? {α : Type} (read : Nat → Tree → Option α) : Nat → Tree → Option (List α)
  | room + 1, .list items => items.mapM (read room)
  | _, _ => none

/-- An object that maps names to what is read from their values. -/
def mapOf? {α : Type} (read : Nat → Tree → Option α) : Nat → Tree → Option (KeyMap α)
  | room + 1, .object fields => do
    let named ← named? fields
    let entries ← named.mapM fun (k, t) ↦ (read room t).map (k, ·)
    return KeyMap.ofList entries
  | _, _ => none

end Tree

end Json

open Json

namespace Info

/-- A title, a version and perhaps a description; all of them may be missing. -/
def ofTree? : Nat → Tree → Option Info
  | _ + 1, t => do
    match ← t.record? ["title", "version", "description"] with
    | [title, version, description] =>
      return ⟨← title.orDefault? Tree.string? "", ← version.orDefault? Tree.string? "",
        ← description.orDefault? (Tree.nullable? Tree.string?) none⟩
    | _ => none
  | 0, _ => none

end Info

namespace Parameter

/-- A parameter has a name and a schema. -/
def ofTree? : Nat → Tree → Option Parameter
  | room + 1, t => do
    match ← t.record? ["name", "schema"] with
    | [name, schema] =>
      return ⟨← name.required? Tree.string?, ← schema.required? (Tree.toJson? room)⟩
    | _ => none
  | 0, _ => none

end Parameter

namespace Returns

/-- A success value has a schema. -/
def ofTree? : Nat → Tree → Option Returns
  | room + 1, t => do
    match ← t.record? ["schema"] with
    | [schema] => return ⟨← schema.required? (Tree.toJson? room)⟩
    | _ => none
  | 0, _ => none

end Returns

namespace Transaction

/-- A transaction has a name; everything else may be missing. -/
def ofTree? : Nat → Tree → Option Transaction
  | room + 1, t => do
    match ← t.record? ["parameters", "returns", "tag", "name"] with
    | [parameters, returns, tag, name] =>
      return ⟨← parameters.orDefault? (Tree.listOf? Parameter.ofTree? room) [],
        ← returns.orDefault? (Tree.nullable? (Returns.ofTree? room)) none,
        ← tag.orDefault? (Tree.listOf? (fun _ ↦ Tree.string?) room) [],
        ← name.required? Tree.string?⟩
    | _ => none
  | 0, _ => none

end Transaction

namespace ContractEntry

/-- A contract has a name; everything else may be missing. -/
def ofTree? : Nat → Tree → Option ContractEntry
  | room + 1, t => do
    match ← t.record? ["info", "name", "transactions", "default"] with
    | [info, name, transactions, isDefault] =>
      return ⟨← info.orDefault? (Tree.nullable? (Info.ofTree? room)) none,
        ← name.required? Tree.string?,
        ← transactions.orDefault? (Tree.listOf? Transaction.ofTree? room) [],
        ← isDefault.orDefault? Tree.bool? false⟩
    | _ => none
  | 0, _ => none

end ContractEntry

namespace Components

/-- Components stand in a record of their own. -/
def ofTree? : Nat → Tree → Option Components
  | room + 1, t => do
    match ← t.record? ["schemas"] with
    | [schemas] => schemas.orDefault? (Tree.mapOf? Tree.toJson? room) ∅
    | _ => none
  | 0, _ => none

/-- Read components from a text. -/
def read? (s : Source) : Option Components := do
  ofTree? maxDepth (← Tree.parse? s)

end Components

/-- Read a transaction from a text. -/
def Transaction.read? (s : Source) : Option Transaction := do
  ofTree? maxDepth (← Tree.parse? s)

namespace Document

/-- Every part of a document may be missing. -/
def ofTree? : Nat → Tree → Option Document
  | room + 1, t => do
    match ← t.record? ["info", "contracts", "components"] with
    | [info, contracts, components] =>
      return ⟨← info.orDefault? (Tree.nullable? (Info.ofTree? room)) none,
        ← contracts.orDefault? (Tree.mapOf? ContractEntry.ofTree? room) ∅,
        ← components.orDefault? (Components.ofTree? room) ∅⟩
    | _ => none
  | 0, _ => none

/-- Read a document from a text. -/
def read? (s : Source) : Option Document := do
  ofTree? maxDepth (← Tree.parse? s)

end Document

end ContractHost
