import ContractHost.Contract.Errors
import ContractHost.Ledger.Basic

/-!
# Handlers

A **handler** is the code behind a function. It declares a signature and says how each of its
parameters is read; when it runs, it gets arguments and a session, and produces outputs and the
session it leaves behind. The **session** is all a handler can see and change: the context of the
invocation, the invocation itself, the world state, and a journal of notes.

A handler is not bound to keep to its signature. A `TypedHandler` is: its body takes data of the
parameter types and returns a result of the return type, and `TypedHandler.toHandler` derives the
rest.
-/

namespace ContractHost

/-- A type of contexts: its name, the context every invocation starts from, and how signatures
describe it, which is by its name unless a type of contexts says otherwise. -/
class ContextType (κ : Type) where
  name : String
  initial : κ
  ty : Ty := .named name

/-- How a type of contexts is described. -/
def contextTy (κ : Type) [ContextType κ] : Ty :=
  ContextType.ty κ

/-- What a handler sees and changes. The invocation is missing until the context has received it. -/
structure Session (κ : Type) where
  context : κ
  invocation : Option Invocation
  ledger : Ledger
  journal : List String

namespace Session

variable {κ : Type}

/-- A fresh context that has been handed an invocation. -/
def start [ContextType κ] (invocation : Invocation) (ledger : Ledger) (journal : List String) :
    Session κ :=
  ⟨ContextType.initial, some invocation, ledger, journal⟩

/-- Add a note to the journal. -/
def note (s : Session κ) (text : String) : Session κ :=
  { s with journal := s.journal ++ [text] }

end Session

/-- The declared types of parameters and return values, the context and the error slot included. -/
structure Signature where
  inputs : List Ty
  outputs : List Ty
  deriving DecidableEq, Repr

/-- What a handler is called with. -/
structure Arguments where
  hasContext : Bool
  values : List Value

/-- One thing a handler produces: a value, or an error slot that may be empty. -/
inductive Output
  | value (v : Value)
  | error (e : Option String)

/-- Code that turns arguments and a session into outputs and a session. -/
abbrev Body (κ : Type) := Arguments → Session κ → Except Breach (List Output) × Session κ

/-- The code behind a function. -/
structure Handler (κ : Type) where
  signature : Signature
  /-- The data types that the parameters are read as, the context left out. -/
  decoders : List DataType
  run : Body κ

/-! ### Typed handlers -/

/-- What a typed handler returns. -/
inductive ReturnType
  | nothing
  | value (t : DataType)
  | errorOnly
  | valueOrError (t : DataType)
  | pair (s t : DataType)
  | triple (s t u : DataType)
  deriving DecidableEq, Repr

namespace ReturnType

/-- The declared outputs. -/
def outputs : ReturnType → List Ty
  | nothing => []
  | value t => [t.ty]
  | errorOnly => [.error]
  | valueOrError t => [t.ty, .error]
  | pair s t => [s.ty, t.ty]
  | triple s t u => [s.ty, t.ty, u.ty]

/-- The results of a body of this return type. -/
abbrev Result : ReturnType → Type
  | nothing => Unit
  | value _ => Datum
  | errorOnly => Except String Unit
  | valueOrError _ => Except String Datum
  | pair _ _ => Datum × Datum
  | triple _ _ _ => Datum × Datum × Datum

/-- What a result is as outputs. Where an error takes the place of a value, the value slot is there
and holds nothing. -/
def produce : (r : ReturnType) → r.Result → List Output
  | nothing, () => []
  | value t, d => [.value (.ofDatum t d)]
  | errorOnly, .ok () => [.error none]
  | errorOnly, .error e => [.error (some e)]
  | valueOrError t, .ok d => [.value (.ofDatum t d), .error none]
  | valueOrError t, .error e => [.value (.absent t.ty), .error (some e)]
  | pair s t, (a, b) => [.value (.ofDatum s a), .value (.ofDatum t b)]
  | triple s t u, (a, b, c) =>
    [.value (.ofDatum s a), .value (.ofDatum t b), .value (.ofDatum u c)]

end ReturnType

/-- A handler whose body works on data of its parameter types. -/
structure TypedHandler (κ : Type) where
  takesContext : Bool
  /-- The body looks at the invocation or at the ledger, so the session must have an invocation. -/
  usesInvocation : Bool
  params : List DataType
  returns : ReturnType
  body : List Datum → Session κ → returns.Result × Session κ

/-- Take the data of the parameter types out of the first arguments. -/
def takeParams : List DataType → List Value → Except Breach (List Datum)
  | [], _ => .ok []
  | _ :: _, [] => .error .missingArgument
  | t :: ts, v :: vs =>
    match v.toDatum? t with
    | none => .error (.argumentType v.declared t.ty)
    | some d => (takeParams ts vs).map (d :: ·)

namespace TypedHandler

variable {κ : Type}

/-- The declared types of a typed handler. -/
def signature [ContextType κ] (h : TypedHandler κ) : Signature :=
  ⟨(if h.takesContext then [contextTy κ] else []) ++ h.params.map DataType.ty, h.returns.outputs⟩

/-- Run a typed handler. Arguments beyond its parameters are not looked at. -/
def run (h : TypedHandler κ) : Body κ := fun args s ↦
  if h.takesContext && !args.hasContext then (.error .missingContext, s)
  else
    match takeParams h.params args.values with
    | .error b => (.error b, s)
    | .ok data =>
      if h.usesInvocation && s.invocation.isNone then (.error .missingInvocation, s)
      else (.ok (h.returns.produce (h.body data s).1), (h.body data s).2)

/-- The handler that a typed handler is. -/
def toHandler [ContextType κ] (h : TypedHandler κ) : Handler κ :=
  ⟨h.signature, h.params, h.run⟩

end TypedHandler

end ContractHost
