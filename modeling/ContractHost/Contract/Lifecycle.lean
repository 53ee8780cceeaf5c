import ContractHost.Contract.Basic
import ContractHost.Document.Describe

/-!
# The lifecycle of an invocation

An invocation runs the before hook, then the function of the given name or, when there is none, the
unknown hook, and then the after hook, all in one session. The first failure is the outcome and
nothing runs after it. The answer is the text that the middle phase produced; its raw value is what
the after hook gets to see.
-/

namespace ContractHost

namespace Contract

variable {κ : Type}

/-- Run a hook, if there is one, for its effects. -/
def runHook (hook : Option (Hook κ)) (data : Option Value) (s : Session κ) :
    Except Failure Unit × Session κ :=
  match hook with
  | none => (.ok (), s)
  | some h =>
    match h.call data s with
    | (.error e, s) => (.error e, s)
    | (.ok _, s) => (.ok (), s)

/-- Run the function of a name, or the unknown hook. A document, if there is one, gives the metadata
of the function and the components they refer to. -/
def dispatch (c : Contract κ) (document : Option Document) (function : String) (args : List String)
    (s : Session κ) : Except Failure (String × Value) × Session κ :=
  match c.functions.get? function with
  | some f =>
    f.call (document.bind fun d ↦ d.transaction? c.name function)
      ((document.map Document.components).getD ∅) args s
  | none =>
    match c.unknown with
    | some h => h.call none s
    | none => (.error (.error (.functionNotFound function c.name)), s)

/-- Run one invocation in a session. -/
def invoke (c : Contract κ) (document : Option Document) (function : String) (args : List String)
    (s : Session κ) : Except Failure String × Session κ :=
  match runHook c.before none s with
  | (.error e, s) => (.error e, s)
  | (.ok (), s) =>
    match c.dispatch document function args s with
    | (.error e, s) => (.error e, s)
    | (.ok (text, value), s) =>
      match runHook c.after (some value) s with
      | (.error e, s) => (.error e, s)
      | (.ok (), s) => (.ok text, s)

/-- What a metadata document says about the contract. -/
def outline (c : Contract κ) : ContractOutline :=
  ⟨c.name, c.info, c.isDefault, c.functions.map fun f ↦ ⟨f.paramTypes, f.returns.success⟩⟩

end Contract

end ContractHost
