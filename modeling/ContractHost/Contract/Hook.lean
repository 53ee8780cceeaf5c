import ContractHost.Contract.Function

/-!
# Hooks

A **hook** is a function in one of three parts of an invocation. Before and unknown hooks take the
context at most. An after hook may also take one dynamic parameter, which receives the raw success
value of what ran before it.
-/

namespace ContractHost

/-- A function in the part of a hook. -/
structure Hook (κ : Type) where
  function : Function κ
  kind : HookKind

namespace Hook

variable {κ : Type}

/-- Check that a function can play its part. -/
def ofFunction (f : Function κ) (kind : HookKind) : Except RegistrationError (Hook κ) :=
  match kind, f.paramTypes with
  | _, [] => .ok ⟨f, kind⟩
  | .after, [.any] => .ok ⟨f, kind⟩
  | .after, [_] => .error .afterParamType
  | .after, _ => .error .afterTooManyParams
  | kind, _ => .error (.hookTakesParams kind)

/-- Register a handler as a hook. -/
def ofHandler [ContextType κ] (kind : HookKind) (h : Handler κ) :
    Except RegistrationError (Hook κ) :=
  match Function.ofHandler kind.functionName h with
  | .error e => .error e
  | .ok f => ofFunction f kind

/-- Run the hook. Data are passed on only to a hook that has a parameter for them. -/
def call (h : Hook κ) (data : Option Value) (s : Session κ) :
    Except Failure (String × Value) × Session κ :=
  h.function.callValues (if h.function.params = [] then [] else [data.getD .undefined]) s

end Hook

end ContractHost
