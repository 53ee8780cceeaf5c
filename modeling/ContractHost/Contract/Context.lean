import ContractHost.Contract.Handler

/-!
# The plain context

A context that carries nothing of its own. Contracts that need no more than the invocation and the
ledger use it.
-/

namespace ContractHost

/-- The context without content. -/
structure TransactionContext where
  deriving DecidableEq, Repr

instance : ContextType TransactionContext where
  name := "TransactionContext"
  initial := ⟨⟩

end ContractHost
