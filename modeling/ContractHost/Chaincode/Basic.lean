import ContractHost.Chaincode.Service
import ContractHost.Contract.Context
import ContractHost.Config
import ContractHost.Document.Load

/-!
# Chaincodes

A **chaincode** serves a set of contracts together with the system contract, which answers with the
metadata document. `Chaincode.assemble` puts one together:

- the contracts have distinct names, and none of them has the name of the system contract,
- the default contract is the configured one, else the first that asks for it, else the first,
- the document is the supplied one, else the one in the configured file, else it is generated. Only
  a document from outside is enforced.

Of several faults the first one in this order is reported: no contracts, a repeated name, a default
that is not among the contracts, a metadata file that cannot be used.
-/

namespace ContractHost

/-- A set of contracts that is ready to serve. -/
structure Chaincode where
  /-- The contracts by name, the system contract included. -/
  services : KeyMap Service
  defaultName : String
  /-- The document that the system contract serves. -/
  document : Document
  /-- The document that is enforced. -/
  enforced : Option Document

/-! ### The system contract -/

/-- The name of the system contract. -/
def systemName : String := "org.hyperledger.fabric"

/-- The only function of the system contract. -/
def metadataFunction : String := "GetMetadata"

/-- What a document says about the system contract. -/
def systemOutline : ContractOutline :=
  ⟨systemName, none, false, KeyMap.empty.insert metadataFunction ⟨[], some (.scalar .string)⟩⟩

/-- A function that answers with a fixed text. -/
def constantText (text : String) : TypedHandler TransactionContext where
  takesContext := false
  usesInvocation := false
  params := []
  returns := .value .string
  body _ s := (.string text, s)

/-- The system contract over the text of a document. -/
def systemContract (text : String) : Except RegistrationError (Contract TransactionContext) :=
  Contract.build systemName [.function metadataFunction (constantText text).toHandler]

/-! ### Assembly -/

namespace Chaincode

/-- The contracts that have been taken in, their entries, and the components that the entries
share. -/
structure Roll where
  services : KeyMap Service
  entries : KeyMap ContractEntry
  components : Components

/-- The roll without contracts. -/
def Roll.empty : Roll :=
  ⟨∅, ∅, ∅⟩

/-- Take in one contract under the name it has. -/
def enroll (defaultName : String) (s : Service) (roll : Roll) : Except RegistrationError Roll :=
  if s.name = systemName ∨ roll.services.contains s.name then .error (.duplicateContract s.name)
  else
    let (entry, components) := s.outline.describe roll.components
    .ok ⟨roll.services.insert s.name s,
      roll.entries.insert s.name { entry with isDefault := s.name == defaultName }, components⟩

/-- Take in contracts in order. -/
def enrollAll (defaultName : String) : List Service → Roll → Except RegistrationError Roll
  | [], roll => .ok roll
  | s :: rest, roll =>
    match enroll defaultName s roll with
    | .error e => .error e
    | .ok roll => enrollAll defaultName rest roll

/-- The name of the contract that unqualified names mean, if there is any contract. -/
def chooseDefault (config : Config) (contracts : List Service) : Option String :=
  match contracts with
  | [] => none
  | first :: _ =>
    match config.defaultContract with
    | some name => some name
    | none => some ((contracts.find? fun s ↦ s.outline.isDefault).getD first).name

/-- The document that describes the contracts of a roll and the system contract. -/
def Roll.document (roll : Roll) (info : Option Info) : Document :=
  ⟨info, roll.entries.insert systemName (systemOutline.describe ∅).1, roll.components⟩

/-- The document from outside, if there is one. -/
def supplement (config : Config) (supplied : Option Document) (files : FileView) :
    Except RegistrationError (Option Document) :=
  match supplied, config.metadataPath with
  | some d, _ => .ok (some d)
  | none, none => .ok none
  | none, some path =>
    match Document.load (files path) with
    | .error e => .error (.metadata e.message)
    | .ok d => .ok (some d)

/-- Add the system contract to the contracts of a roll. -/
def complete (roll : Roll) (defaultName : String) (info : Option Info)
    (enforced : Option Document) : Except RegistrationError Chaincode :=
  let document := enforced.getD (roll.document info)
  match systemContract document.toText with
  | .error e => .error e
  | .ok system =>
    .ok ⟨roll.services.insert systemName system.toService, defaultName, document, enforced⟩

/-- Put a chaincode together. -/
def assemble (config : Config) (supplied : Option Document) (files : FileView)
    (contracts : List Service) : Except RegistrationError Chaincode :=
  match chooseDefault config contracts with
  | none => .error .noContracts
  | some defaultName =>
    match enrollAll defaultName contracts .empty with
    | .error e => .error e
    | .ok roll =>
      if !roll.services.contains defaultName then .error (.unknownDefault defaultName)
      else
        match supplement config supplied files with
        | .error e => .error e
        | .ok enforced => complete roll defaultName config.info enforced

end Chaincode

end ContractHost
