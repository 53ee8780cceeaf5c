import ContractHost.Assets.Basic
import ContractHost.Contract.Basic
import ContractHost.Contract.Context
import ContractHost.Data.Access

/-!
# The asset contract

The operations on assets as functions of a contract. Each of them leaves the ledger alone when it
fails.
-/

namespace ContractHost

/-- The version of this library. -/
def version : String := "0.1.0"

namespace Assets

/-- The name of the asset contract. -/
def contractName : String := "assets"

/-- The outcome of an operation that only changes the ledger. -/
def settle (s : Session TransactionContext) (outcome : Except AssetError Ledger) :
    Except String Unit × Session TransactionContext :=
  match outcome with
  | .error e => (.error e.message, s)
  | .ok ledger => (.ok (), { s with ledger := ledger })

/-- The outcome of an operation that only answers. -/
def answer (s : Session TransactionContext) (outcome : Except AssetError Datum) :
    Except String Datum × Session TransactionContext :=
  match outcome with
  | .error e => (.error e.message, s)
  | .ok d => (.ok d, s)

/-- Create an asset with an identifier that nothing is kept under. -/
def createAsset : TypedHandler TransactionContext where
  takesContext := true
  usesInvocation := true
  params := [.string, .string, .integer .u64]
  returns := .errorOnly
  body data s :=
    settle s (create s.ledger
      ⟨stringAt data 0, stringAt data 1, UInt64.ofNat (intAt data 2).toNat⟩)

/-- Answer with the asset of an identifier. -/
def readAsset : TypedHandler TransactionContext where
  takesContext := true
  usesInvocation := true
  params := [.string]
  returns := .valueOrError Asset.dataType
  body data s := answer s ((fetch s.ledger (stringAt data 0)).map Asset.toDatum)

/-- Answer whether anything is kept under an identifier. -/
def assetExists : TypedHandler TransactionContext where
  takesContext := true
  usesInvocation := true
  params := [.string]
  returns := .valueOrError .bool
  body data s := answer s ((isPresent s.ledger (stringAt data 0)).map Datum.bool)

/-- Give an asset to a new owner and answer with the previous one. -/
def transferAsset : TypedHandler TransactionContext where
  takesContext := true
  usesInvocation := true
  params := [.string, .string]
  returns := .valueOrError .string
  body data s :=
    match transfer s.ledger (stringAt data 0) (stringAt data 1) with
    | .error e => (.error e.message, s)
    | .ok (previous, ledger) => (.ok (.string previous), { s with ledger := ledger })

/-- Remove an asset; what is no asset is not removed. -/
def deleteAsset : TypedHandler TransactionContext where
  takesContext := true
  usesInvocation := true
  params := [.string]
  returns := .errorOnly
  body data s := settle s (remove s.ledger (stringAt data 0))

/-- The hook before every operation does nothing. -/
def beforeAsset : TypedHandler TransactionContext where
  takesContext := true
  usesInvocation := true
  params := []
  returns := .nothing
  body _ s := ((), s)

/-- The hook after every operation does nothing. -/
def afterAsset : TypedHandler TransactionContext where
  takesContext := true
  usesInvocation := true
  params := [.dynamic]
  returns := .nothing
  body _ s := ((), s)

/-- The hook for names that the contract does not have refuses every call. -/
def unknownAsset : TypedHandler TransactionContext where
  takesContext := false
  usesInvocation := false
  params := []
  returns := .errorOnly
  body _ s := (.error "unknown asset transaction", s)

/-- What the contract says about itself. -/
def contractInfo : Info :=
  ⟨"Asset transfer", version, some "Create, read, transfer and delete assets"⟩

/-- The asset contract. -/
def contract : Except RegistrationError (Contract TransactionContext) :=
  Contract.build contractName
    [.info contractInfo, .makeDefault,
      .hook .before beforeAsset.toHandler,
      .hook .after afterAsset.toHandler,
      .hook .unknown unknownAsset.toHandler,
      .function "CreateAsset" createAsset.toHandler,
      .function "ReadAsset" readAsset.toHandler,
      .function "AssetExists" assetExists.toHandler,
      .function "TransferAsset" transferAsset.toHandler,
      .function "DeleteAsset" deleteAsset.toHandler]

/-- The assets that a demonstration starts from. -/
def seedAssets : List Asset :=
  [⟨"asset1", "Tomoko", 300⟩, ⟨"asset2", "Brad", 400⟩]

/-- The ledger that a demonstration starts from. -/
def seedLedger : Ledger :=
  KeyMap.ofList (seedAssets.map fun a ↦ (a.id, a.toBytes))

end Assets

end ContractHost
