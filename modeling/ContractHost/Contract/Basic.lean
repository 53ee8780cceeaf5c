import ContractHost.Contract.Hook
import ContractHost.Text.Blank

/-!
# Contracts

A **contract** is a named table of functions with up to three hooks. It is built from a list of
registrations, taken in order: the first one that is refused decides the outcome, and only then is
the name of the contract looked at.
-/

namespace ContractHost

/-- A named group of functions with their hooks. -/
structure Contract (κ : Type) where
  name : String
  info : Option Info
  isDefault : Bool
  functions : KeyMap (Function κ)
  before : Option (Hook κ)
  unknown : Option (Hook κ)
  after : Option (Hook κ)

/-- One step in building a contract. -/
inductive Registration (κ : Type)
  | function (name : String) (handler : Handler κ)
  | hook (kind : HookKind) (handler : Handler κ)
  | info (info : Info)
  | makeDefault

namespace Contract

variable {κ : Type}

/-- A contract without functions and hooks. -/
def empty (name : String) : Contract κ :=
  ⟨name, none, false, ∅, none, none, none⟩

/-- The hook of a kind. -/
def hook? (c : Contract κ) : HookKind → Option (Hook κ)
  | .before => c.before
  | .unknown => c.unknown
  | .after => c.after

/-- Put a hook into its place. -/
def setHook (c : Contract κ) (kind : HookKind) (h : Hook κ) : Contract κ :=
  match kind with
  | .before => { c with before := some h }
  | .unknown => { c with unknown := some h }
  | .after => { c with after := some h }

/-- Register a function under a name that is neither blank nor taken. -/
def addFunction [ContextType κ] (c : Contract κ) (name : String) (h : Handler κ) :
    Except RegistrationError (Contract κ) :=
  if Text.isBlank name then .error (.blankFunctionName c.name)
  else if c.functions.contains name then .error (.duplicateFunction name c.name)
  else
    match Function.ofHandler name h with
    | .error e => .error e
    | .ok f => .ok { c with functions := c.functions.insert name f }

/-- Register a hook in a place that is not taken. -/
def addHook [ContextType κ] (c : Contract κ) (kind : HookKind) (h : Handler κ) :
    Except RegistrationError (Contract κ) :=
  if (c.hook? kind).isSome then .error (.duplicateHook kind c.name)
  else
    match Hook.ofHandler kind h with
    | .error e => .error e
    | .ok hook => .ok (c.setHook kind hook)

/-- Take one step in building a contract. -/
def register [ContextType κ] (c : Contract κ) :
    Registration κ → Except RegistrationError (Contract κ)
  | .function name h => c.addFunction name h
  | .hook kind h => c.addHook kind h
  | .info i => .ok { c with info := some i }
  | .makeDefault => .ok { c with isDefault := true }

/-- Take the steps in order, up to the first one that is refused. -/
def registerAll [ContextType κ] (c : Contract κ) :
    List (Registration κ) → Except RegistrationError (Contract κ)
  | [] => .ok c
  | r :: rest =>
    match c.register r with
    | .error e => .error e
    | .ok c => c.registerAll rest

/-- Build a contract. -/
def build [ContextType κ] (name : String) (steps : List (Registration κ)) :
    Except RegistrationError (Contract κ) :=
  match (empty name : Contract κ).registerAll steps with
  | .error e => .error e
  | .ok c => if Text.isBlank c.name then .error .blankContractName else .ok c

end Contract

end ContractHost
