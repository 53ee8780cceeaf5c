import ContractHost.Contract.Lifecycle

/-!
# Services

A chaincode serves contracts over different types of contexts side by side. A **service** is a
contract without its context type: what a document says about it, and how it takes an invocation.
`Contract.toService` forgets the type; every invocation of a service starts from a fresh context.

What outlives an invocation is the **world**: the ledger, and the journal of what handlers noted.
-/

namespace ContractHost

/-- What an invocation changes and the next one finds. -/
structure World where
  ledger : Ledger
  journal : List String

namespace World

/-- A world with a ledger and an empty journal. -/
def ofLedger (ledger : Ledger) : World :=
  ⟨ledger, []⟩

end World

/-- The world that a session leaves. -/
def Session.world {κ : Type} (s : Session κ) : World :=
  ⟨s.ledger, s.journal⟩

/-- A contract as a chaincode sees it. -/
structure Service where
  outline : ContractOutline
  /-- Run one invocation: the document that is enforced, the invocation, and the name and the
  arguments of the function. -/
  invoke : Option Document → Invocation → String → List String → World →
    Except Failure String × World

namespace Service

/-- The name under which the service is routed to. -/
def name (s : Service) : String :=
  s.outline.name

end Service

/-- The service that a contract offers. -/
def Contract.toService {κ : Type} [ContextType κ] (c : Contract κ) : Service where
  outline := c.outline
  invoke document invocation function args world :=
    let (answer, session) :=
      c.invoke document function args (.start invocation world.ledger world.journal)
    (answer, session.world)

end ContractHost
