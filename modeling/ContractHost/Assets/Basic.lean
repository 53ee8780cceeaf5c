import ContractHost.Data.Decode
import ContractHost.Ledger.Basic

/-!
# Assets on a ledger

An **asset** has an identifier, an owner and a value. It is kept as a JSON record under its
identifier. The operations of this module work on a ledger and either give the new ledger or an
error; an error leaves the ledger as it was.

`Assets.store` writes an asset under the identifier inside its record, which need not be the key
that the record was read from.
-/

namespace ContractHost

/-- A thing with an owner and a value. -/
structure Asset where
  id : String
  owner : String
  value : UInt64
  deriving DecidableEq, Repr

/-- Why an asset operation fails. -/
inductive AssetError
  | notFound (id : String)
  | alreadyExists (id : String)
  | ledger (e : LedgerError)
  /-- The bytes under the key are not a record of an asset. -/
  | corrupt
  deriving DecidableEq, Repr

namespace AssetError

/-- The text of the error. -/
def message : AssetError → String
  | notFound id => "the asset " ++ id ++ " does not exist"
  | alreadyExists id => "the asset " ++ id ++ " already exists"
  | ledger e => e.message
  | corrupt => "corrupt asset record: not a record of an asset"

end AssetError

namespace Asset

/-- The type of the records of assets. -/
def dataType : DataType :=
  .recordOf "Asset" [("id", .string), ("owner", .string), ("value", .integer .u64)]

/-- The record of an asset. -/
def toDatum (a : Asset) : Datum :=
  .record [("id", .string a.id), ("owner", .string a.owner), ("value", .int a.value.toNat)]

/-- The asset of a record. -/
def ofDatum? : Datum → Option Asset
  | .record [(_, .string id), (_, .string owner), (_, .int value)] =>
    some ⟨id, owner, UInt64.ofNat value.toNat⟩
  | _ => none

/-- The document of an asset. -/
def toJson (a : Asset) : Json :=
  .object [("id", .string a.id), ("owner", .string a.owner), ("value", .int a.value.toNat)]

/-- An asset as it is kept on a ledger. -/
def toBytes (a : Asset) : List UInt8 :=
  Utf8.encode a.toJson.write

/-- The asset that bytes on a ledger spell. -/
def ofBytes? (bytes : List UInt8) : Option Asset := do
  ofDatum? (← dataType.read? (Utf8.decode bytes))

end Asset

namespace Assets

/-- The bytes under an identifier. -/
def lookup (ledger : Ledger) (id : String) : Except AssetError (Option (List UInt8)) :=
  match ledger.read id with
  | .error e => .error (.ledger e)
  | .ok found => .ok found

/-- There is something under an identifier. -/
def isPresent (ledger : Ledger) (id : String) : Except AssetError Bool :=
  (lookup ledger id).map Option.isSome

/-- Read the asset under an identifier. -/
def fetch (ledger : Ledger) (id : String) : Except AssetError Asset :=
  match lookup ledger id with
  | .error e => .error e
  | .ok none => .error (.notFound id)
  | .ok (some bytes) =>
    match Asset.ofBytes? bytes with
    | none => .error .corrupt
    | some a => .ok a

/-- Write an asset. -/
def store (ledger : Ledger) (a : Asset) : Except AssetError Ledger :=
  match ledger.write a.id a.toBytes with
  | .error e => .error (.ledger e)
  | .ok ledger => .ok ledger

/-- Add a new asset. -/
def create (ledger : Ledger) (a : Asset) : Except AssetError Ledger :=
  match isPresent ledger a.id with
  | .error e => .error e
  | .ok true => .error (.alreadyExists a.id)
  | .ok false => store ledger a

/-- Give an asset to a new owner, and say who had it before. -/
def transfer (ledger : Ledger) (id owner : String) : Except AssetError (String × Ledger) :=
  match fetch ledger id with
  | .error e => .error e
  | .ok a => (store ledger { a with owner := owner }).map (a.owner, ·)

/-- Remove an asset. -/
def remove (ledger : Ledger) (id : String) : Except AssetError Ledger :=
  match fetch ledger id with
  | .error e => .error e
  | .ok _ =>
    match ledger.delete id with
    | .error e => .error (.ledger e)
    | .ok ledger => .ok ledger

end Assets

end ContractHost
