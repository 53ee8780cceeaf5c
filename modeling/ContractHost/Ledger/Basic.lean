import ContractHost.KeyMap
import ContractHost.Text.Utf8

/-!
# The ledger and the invocation

The **world state** maps keys to bytes. Its three operations refuse the empty key and do nothing
else that could fail. An **invocation** is what the transport says about one call: the function that
is asked for, its arguments, and where the call comes from. A **response** is what goes back.
-/

namespace ContractHost

/-- World state: bytes under keys. -/
abbrev Ledger := KeyMap (List UInt8)

/-- A ledger operation that is refused. -/
inductive LedgerError
  /-- A key that cannot be used. -/
  | invalidKey (detail : String)
  /-- The operation failed on the other side. -/
  | refused (detail : String)
  deriving DecidableEq, Repr

namespace LedgerError

/-- The text of the error. -/
def message : LedgerError → String
  | invalidKey detail => "invalid key: " ++ detail
  | refused detail => "ledger operation failed: " ++ detail

end LedgerError

namespace Ledger

/-- The empty string is no key. -/
def checkKey (key : String) : Except LedgerError Unit :=
  if key = "" then .error (.invalidKey "key must not be empty") else .ok ()

/-- Read the bytes under a key. -/
def read (ledger : Ledger) (key : String) : Except LedgerError (Option (List UInt8)) :=
  (checkKey key).map fun () ↦ ledger.get? key

/-- Write bytes under a key. -/
def write (ledger : Ledger) (key : String) (bytes : List UInt8) : Except LedgerError Ledger :=
  (checkKey key).map fun () ↦ ledger.insert key bytes

/-- Remove a key. -/
def delete (ledger : Ledger) (key : String) : Except LedgerError Ledger :=
  (checkKey key).map fun () ↦ ledger.erase key

end Ledger

/-- One call as the transport sees it. -/
structure Invocation where
  function : String
  args : List String
  channel : String
  creator : List UInt8
  transactionId : String
  deriving DecidableEq, Repr

namespace Invocation

/-- A call made on this machine. Its identifier has the form of a transaction identifier, 64
hexadecimal digits. -/
def ofCall (function : String) (args : List String) : Invocation :=
  ⟨function, args, "mockchannel", Utf8.bytes "mock-creator",
    String.ofList (List.replicate 64 '0')⟩

end Invocation

/-- The answer to one call. -/
structure Response where
  status : Nat
  message : String
  payload : List UInt8
  deriving DecidableEq, Repr

namespace Response

/-- A call that succeeded. -/
def success (payload : List UInt8) : Response :=
  ⟨200, "", payload⟩

/-- A call that failed. -/
def failure (message : String) : Response :=
  ⟨500, message, []⟩

/-- The call succeeded. -/
def isOk (r : Response) : Bool :=
  r.status == 200

/-- The payload as text. -/
def payloadText (r : Response) : String :=
  String.ofList (Utf8.lossy (Utf8.decode r.payload))

end Response

end ContractHost
