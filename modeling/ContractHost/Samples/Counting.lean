import ContractHost.Contract.Context

/-!
# A context that counts

A context with a counter, which shows that the phases of an invocation share one context and that no
two invocations do.
-/

namespace ContractHost

/-- A context with a counter. -/
structure Counting where
  seen : UInt64
  deriving DecidableEq, Repr

instance : ContextType Counting where
  name := "Counting"
  initial := ⟨0⟩

/-- Contexts in which something can be counted. -/
class Counter (κ : Type) where
  add : UInt64 → κ → κ
  count : κ → UInt64

instance : Counter Counting where
  add n c := ⟨c.seen + n⟩
  count c := c.seen

/-- The plain context does not count. -/
instance : Counter TransactionContext where
  add _ c := c
  count _ := 0

namespace Session

variable {κ : Type} [Counter κ]

/-- Count further. -/
def count (s : Session κ) (n : UInt64) : Session κ :=
  { s with context := Counter.add n s.context }

/-- What has been counted. -/
def counted (s : Session κ) : UInt64 :=
  Counter.count s.context

end Session

end ContractHost
