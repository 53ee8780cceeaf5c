import ContractHost.Chaincode.Basic
import ContractHost.Text.Quoted

/-!
# Routing

The name in an invocation is a **qualified name**: the name of a contract, a colon, and the name of
a function; the first colon counts. Without a colon the name belongs to the default contract.

A call that fails is answered with the text of its error. A breach is no answer at all, and is
passed on.
-/

namespace ContractHost

/-- What separates a contract from a function. -/
def separator : Char := ':'

/-- Split a name into a contract and a function. -/
def splitName (defaultName name : String) : String × String :=
  match name.toList.span (· ≠ separator) with
  | (_, []) => (defaultName, name)
  | (contract, _ :: function) => (String.ofList contract, String.ofList function)

namespace Chaincode

/-- Find the contract and the function of a name and run it. -/
def route (c : Chaincode) (invocation : Invocation) (name : String) (args : List String)
    (world : World) : Except Failure String × World :=
  let (contract, function) := splitName c.defaultName name
  match c.services.get? contract with
  | none => (.error (.error (.contractNotFound contract)), world)
  | some s =>
    if function = "" then (.error (.error .blankFunctionName), world)
    else s.invoke c.enforced invocation function args world

/-- Answer an invocation. -/
def invoke (c : Chaincode) (invocation : Invocation) (world : World) :
    Except Breach Response × World :=
  match c.route invocation invocation.function invocation.args world with
  | (.ok payload, world) => (.ok (.success (Utf8.bytes payload)), world)
  | (.error (.error e), world) => (.ok (.failure e.message), world)
  | (.error (.breach b), world) => (.error b, world)

/-- Answer the invocation by which the chaincode is set up. One without a function succeeds. -/
def init (c : Chaincode) (invocation : Invocation) (world : World) :
    Except Breach Response × World :=
  if Text.isBlank invocation.function then (.ok (.success []), world)
  else c.invoke invocation world

/-- The names of the contracts in ascending order. -/
def names (c : Chaincode) : List String :=
  c.services.keys

/-- A document from outside is enforced. -/
def validates (c : Chaincode) : Bool :=
  c.enforced.isSome

/-- The text by which a chaincode is shown to a developer. -/
def inspect (c : Chaincode) : String :=
  "ContractChaincode \x7b contracts: " ++ Ty.bracketed (c.names.map Text.quote) ++
    ", default_contract: " ++ Text.quote c.defaultName ++
    ", validates_schemas: " ++ (if c.validates then "true" else "false") ++ ", .. \x7d"

end Chaincode

end ContractHost
