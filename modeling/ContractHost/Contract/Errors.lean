import ContractHost.Data.Conversion
import ContractHost.Schema.Basic
import ContractHost.Types.Validity

/-!
# What can go wrong

Three kinds of trouble are kept apart:

- a `RegistrationError` says that a contract is malformed and must not be served,
- a `CallError` says that one call failed; its message is the answer to the caller,
- a `Breach` says that a function did something else than its signature promised. It is never the
  caller's doing.

A `Failure` is what a call can end in besides success: one of the latter two.
-/

namespace ContractHost

/-- The part a hook plays in an invocation. -/
inductive HookKind
  | before
  | unknown
  | after
  deriving DecidableEq, Repr

namespace HookKind

/-- The name of the part. -/
def display : HookKind → String
  | before => "Before"
  | unknown => "Unknown"
  | after => "After"

/-- The name of the function that a hook is. -/
def functionName (k : HookKind) : String :=
  k.display ++ "Transaction"

end HookKind

/-- Why a contract or a chaincode cannot be served. -/
inductive RegistrationError
  | contextPosition (function : String) (position : Nat)
  | invalidParameter (function : String) (source : TypeError)
  | invalidSingleReturn (function : String) (source : TypeError)
  | invalidFirstReturn (function : String) (source : TypeError)
  | invalidSecondReturn (function : String) (found : Ty)
  | tooManyReturns (function : String) (count : Nat)
  | hookTakesParams (kind : HookKind)
  | afterTooManyParams
  | afterParamType
  | duplicateHook (kind : HookKind) (contract : String)
  | duplicateFunction (function contract : String)
  | blankFunctionName (contract : String)
  | blankContractName
  | duplicateContract (name : String)
  | noContracts
  | unknownDefault (name : String)
  | metadata (detail : String)
  | decoderMismatch (function : String) (declared expected : Nat)
  deriving DecidableEq, Repr

namespace RegistrationError

/-- The text of the error. -/
def message : RegistrationError → String
  | contextPosition f n =>
    "Functions requiring the TransactionContext must require it as the first parameter. " ++ f ++
      " takes it in as parameter " ++ toString n
  | invalidParameter f e => f ++ " contains invalid parameter type. " ++ e.message
  | invalidSingleReturn f e => f ++ " contains invalid single return type. " ++ e.message
  | invalidFirstReturn f e => f ++ " contains invalid first return type. " ++ e.message
  | invalidSecondReturn f t =>
    f ++ " contains invalid second return type. Type " ++ t.display ++
      " is not valid. Expected error"
  | tooManyReturns f n =>
    "Functions may only return a maximum of two values. " ++ f ++ " returns " ++ toString n
  | hookTakesParams k =>
    k.display ++ " transactions may not take any params other than the transaction context"
  | afterTooManyParams => "After transactions must take at most one non-context param"
  | afterParamType => "After transaction must take type Value as their only non-context param"
  | duplicateHook k c => k.display ++ " transaction already registered in contract " ++ c
  | duplicateFunction f c => "Function " ++ f ++ " already registered in contract " ++ c
  | blankFunctionName c => "Function names must not be blank in contract " ++ c
  | blankContractName => "Contract names must not be blank"
  | duplicateContract c => "Multiple contracts being merged into chaincode with name " ++ c
  | noContracts => "Chaincode must contain at least one contract"
  | unknownDefault c => "Default contract " ++ c ++ " is not registered"
  | metadata detail => "Failed to prepare metadata: " ++ detail
  | decoderMismatch f declared expected =>
    f ++ " declares " ++ toString declared ++ " parameter decoders for " ++ toString expected ++
      " parameters"

end RegistrationError

/-- Why one call failed. -/
inductive CallError
  | contractNotFound (name : String)
  | blankFunctionName
  | functionNotFound (function contract : String)
  | metadataParamCount (expected received : Nat)
  | paramCount (expected received : Nat)
  | conversion (e : ConversionError)
  | format (raw typeName : String)
  | type (e : TypeError)
  | invalidSchema (param : String) (source : SchemaError)
  | paramSchema (param : String) (violations : List Violation)
  /-- The success value cannot be written, or not be read again. -/
  | unwritableReturn {reason : String}
  | invalidReturnSchema (source : SchemaError)
  | returnSchema (violations : List Violation)
  /-- The error that the function itself returned. -/
  | transaction (error : String)

namespace CallError

/-- The text of the error. -/
def message : CallError → String
  | contractNotFound c => "Contract not found with name " ++ c
  | blankFunctionName => "Blank function name passed"
  | functionNotFound f c => "Function " ++ f ++ " not found in contract " ++ c
  | metadataParamCount expected received =>
    "Incorrect number of params in supplementary metadata. Expected " ++ toString expected ++
      ", received " ++ toString received
  | paramCount expected received =>
    "Incorrect number of params. Expected " ++ toString expected ++ ", received " ++
      toString received
  | conversion e => e.message
  | format raw typeName => "Value " ++ raw ++ " was not passed in expected format " ++ typeName
  | type e => e.message
  | invalidSchema param source =>
    "Invalid schema for parameter \"" ++ param ++ "\": " ++ source.message
  | paramSchema param violations =>
    "Value passed for parameter \"" ++ param ++ "\" did not match schema:\n" ++
      Violation.report violations
  | @unwritableReturn reason => "Error handling success response. " ++ reason
  | invalidReturnSchema source =>
    "Error handling success response. Invalid schema: " ++ source.message
  | returnSchema violations =>
    "Error handling success response. Value did not match schema:\n" ++ Violation.report violations
  | transaction error => error

end CallError

/-- How a function can break the promise of its signature. -/
inductive Breach
  | missingArgument
  | argumentType (given : Ty) (wanted : Ty)
  | missingContext
  | missingInvocation
  | outputCount (function : String) (declared produced : Nat)
  | noSuccessValue (function : String)
  | noErrorSlot (function : String)
  deriving DecidableEq, Repr

namespace Breach

/-- The text of the breach. -/
def message (b : Breach) : String :=
  "internal invariant violated: " ++
    match b with
    | missingArgument => "argument list shorter than the declared parameters"
    | argumentType given wanted =>
      "argument of type " ++ given.display ++ " passed for parameter of type " ++ wanted.display
    | missingContext => "context-consuming function called without a context"
    | missingInvocation => "transaction context used before its stub was set"
    | outputCount f declared produced =>
      f ++ " declared " ++ toString declared ++ " return values but produced " ++ toString produced
    | noSuccessValue f => f ++ " produced no value in its success slot"
    | noErrorSlot f => f ++ " produced no value in its error slot"

end Breach

/-- What a call can end in besides success. -/
inductive Failure
  | error (e : CallError)
  | breach (b : Breach)

end ContractHost
