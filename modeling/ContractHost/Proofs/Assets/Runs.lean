import ContractHost.Proofs.Assets.Operations
import ContractHost.Proofs.Chaincode.Metadata

/-!
# Runs of the asset chaincode

A chaincode over the asset contract, with no document from outside in force, is asked by name: an
`Operation` is asked for under the name of its function, alone or after the name of the contract,
the metadata document under its own name, and nothing under any other name (`Operation.ofCall`).

**Every run of invocations does to the ledger what the operations do to its store**
(`serve_simulates`): from a well-formed ledger on, the ledger stays well formed, what is kept on it
is what the operations make of the store, and each invocation is answered as the store answers. One
invocation does what it asks of the ledger, well formed or not (`invoke_attempts`), and so what it
asks of the store (`invoke_simulates`); the run is an induction over the invocations.
-/

namespace ContractHost

/-- Answer invocations one after the other. -/
def Chaincode.serve (c : Chaincode) :
    List Invocation → World → List (Except Breach Response) × World
  | [], world => ([], world)
  | invocation :: rest, world =>
    let answered := c.invoke invocation world
    let later := c.serve rest answered.2
    (answered.1 :: later.1, later.2)

namespace Assets

/-- What a call by name asks of a store. -/
def Operation.ofCall (name : String) (args : List String) : Operation :=
  if name = "org.hyperledger.fabric:GetMetadata" then .document
  else
    match functionNames.find? fun f ↦ name = f ∨ name = "assets:" ++ f with
    | some f => .ofFunction f args
    | none => .unknown

/-- What an invocation asks of a store. -/
def asked (invocation : Invocation) : Operation :=
  .ofCall invocation.function invocation.args

/-- Apply operations one after the other. -/
def Store.run (text : String) (store : Store) : List Operation → List (Option String) × Store
  | [] => ([], store)
  | operation :: rest =>
    let applied := store.apply text operation
    let later := Store.run text applied.2 rest
    (applied.1 :: later.1, later.2)

/-- A response to an invocation says what a store answers: a success with that text, or a
failure. -/
inductive Answers : Except Breach Response → Option String → Prop
  | success (text : String) : Answers (.ok (.success (Utf8.bytes text))) (some text)
  | failure (message : String) : Answers (.ok (.failure message)) none

variable {config : Config} {supplied : Option Document} {files : FileView} {c : Chaincode}
  {store : Store} {world : World} {name function contract' : String} {args : List String}

/-! ### Names -/

/-- A function is meant by exactly the names that are routed to it. -/
theorem means_iff {f : String} (hf : f ∈ functionNames) :
    name = f ∨ name = "assets:" ++ f ↔ splitName contractName name = (contractName, f) := by
  have hplain : separator ∉ f.toList := by
    revert f
    decide
  rw [splitName_eq_iff]
  constructor
  · rintro (rfl | rfl)
    · exact .inl ⟨hplain, rfl, rfl⟩
    · exact .inr ⟨by decide, rfl⟩
  · rintro (⟨-, -, rfl⟩ | ⟨-, rfl⟩)
    · exact .inl rfl
    · exact .inr rfl

/-- A name that is routed to the contract asks for what its function is asked to do. All others ask
for nothing, but for that of the metadata document. -/
theorem ofCall_of_splitName (args : List String)
    (hname : name ≠ "org.hyperledger.fabric:GetMetadata")
    (hsplit : splitName contractName name = (contract', function)) :
    Operation.ofCall name args =
      if contract' = contractName then .ofFunction function args else .unknown := by
  unfold Operation.ofCall
  rw [if_neg hname]
  cases hfind : functionNames.find? fun f ↦ name = f ∨ name = "assets:" ++ f with
  | some f =>
    have hmeans : name = f ∨ name = "assets:" ++ f := by
      have := List.find?_some hfind
      exact of_decide_eq_true this
    rw [means_iff (List.mem_of_find?_eq_some hfind), hsplit, Prod.mk.injEq] at hmeans
    rw [if_pos hmeans.1, hmeans.2]
  | none =>
    by_cases hmine : contract' = contractName
    · have hother : function ∉ functionNames := fun hf ↦
        List.find?_eq_none.1 hfind function hf (decide_eq_true ((means_iff hf).2 (hmine ▸ hsplit)))
      rw [if_pos hmine, Operation.ofFunction_of_not_mem hother]
    · rw [if_neg hmine]

/-! ### Routing -/

theorem route_of_splitName {s : Service} (invocation : Invocation) (args : List String)
    (world : World) (hsplit : splitName c.defaultName name = (contract', function))
    (hget : c.services.get? contract' = some s) :
    c.route invocation name args world =
      if function = "" then (.error (.error .blankFunctionName), world)
      else s.invoke c.enforced invocation function args world := by
  rw [Chaincode.route, hsplit]
  dsimp only
  rw [hget]

/-- What the chaincode over the asset contract routes to. -/
theorem services_of_assemble
    (h : Chaincode.assemble config supplied files [built.toService] = .ok c) :
    c.defaultName = contractName ∧ c.services.get? contractName = some built.toService ∧
      ∀ name, name ≠ contractName → name ≠ systemName → c.services.get? name = none := by
  rcases Chaincode.assemble_cases config supplied files [built.toService] with
    ⟨e, hassemble, -⟩ |
      ⟨defaultName, roll, enforced, hassemble, hsound, -, hdefault, hlists, -⟩
  · cases hassemble.symm.trans h
  · cases hassemble.symm.trans h
    have hname : built.toService.name = contractName := rfl
    refine ⟨List.mem_singleton.1 hdefault, ?_, fun name hne hordinary ↦ ?_⟩
    · show (roll.services.insert systemName _).get? contractName = _
      rw [KeyMap.get?_insert_of_ne _ _ (by decide), hlists.bound]
      rfl
    · show (roll.services.insert systemName _).get? name = _
      rw [KeyMap.get?_insert_of_ne _ _ (Ne.symm hordinary), hlists.bound,
        Service.find?_eq_none_iff, List.map_singleton, List.mem_singleton]
      exact hne

/-- The system contract has one function. -/
theorem invoke_metadataContract_of_ne (text : String) (invocation : Invocation)
    (hne : function ≠ metadataFunction) :
    (metadataContract text).toService.invoke none invocation function args world =
      (.error (.error (.functionNotFound function systemName)), world) := by
  have hnone : (metadataContract text).functions.get? function = none :=
    KeyMap.get?_insert_of_ne _ _ (Ne.symm hne)
  have hdispatch : ∀ s, (metadataContract text).dispatch none function args s =
      (.error (.error (.functionNotFound function systemName)), s) := fun s ↦ by
    rw [Contract.dispatch, hnone]
    rfl
  have hbefore : ∀ s, Contract.runHook (metadataContract text).before none s = (.ok (), s) :=
    fun _ ↦ rfl
  rw [Contract.toService]
  dsimp only
  rw [Contract.invoke, hbefore]
  dsimp only
  rw [hdispatch]
  rfl

/-- A call in a world comes to what an operation comes to, and changes nothing but the ledger. -/
def Executes (world : World) (outcome : Except Failure String × World)
    (expected : Option (String × Ledger)) : Prop :=
  ∃ answer, outcome = (answer, { world with ledger := ledgerAfter world.ledger expected }) ∧
    Told answer (expected.map Prod.fst)

/-- **A call by name does what it asks of the ledger**, whatever is kept on it. -/
theorem route_attempts
    (h : Chaincode.assemble config supplied files [built.toService] = .ok c)
    (hplain : c.enforced = none) (invocation : Invocation) (name : String) (args : List String)
    (world : World) :
    Executes world (c.route invocation name args world)
      (attempt c.document.toText world.ledger (.ofCall name args)) := by
  obtain ⟨hdefault, hcontract, hother⟩ := services_of_assemble h
  obtain ⟨-, hsystem⟩ := Chaincode.system_of_assemble h
  by_cases hname : name = "org.hyperledger.fabric:GetMetadata"
  · subst hname
    rcases Chaincode.route_metadata h invocation args world with ⟨-, hroute⟩ | ⟨hrefuses, -⟩
    · exact ⟨_, hroute, .ok _⟩
    · refine absurd (fun d hd ↦ ?_) hrefuses
      cases hplain.symm.trans hd
  -- A call that asks for nothing is refused, on the way to a contract or by the contract.
  have hrefused : ∀ e : CallError, Operation.ofCall name args = .unknown →
      c.route invocation name args world = (.error (.error e), world) →
      Executes world (c.route invocation name args world)
        (attempt c.document.toText world.ledger (.ofCall name args)) := by
    intro e hcall hroute
    rw [hcall, hroute]
    exact ⟨_, rfl, .error e⟩
  obtain ⟨contract', function, hsplit⟩ :
      ∃ contract' function, splitName contractName name = (contract', function) := ⟨_, _, rfl⟩
  have hsplit' : splitName c.defaultName name = (contract', function) := by
    rw [hdefault]
    exact hsplit
  have hcall := ofCall_of_splitName args hname hsplit
  by_cases hmine : contract' = contractName
  · subst hmine
    rw [if_pos rfl] at hcall
    have hroute := route_of_splitName invocation args world hsplit' hcontract
    by_cases hblank : function = ""
    · subst hblank
      rw [Operation.ofFunction_of_not_mem (by decide)] at hcall
      exact hrefused .blankFunctionName hcall hroute
    · rw [if_neg hblank, hplain] at hroute
      obtain ⟨answer, hinvoke, htold⟩ :=
        invoke_spec (s := .start invocation world.ledger world.journal)
          (Option.some_ne_none _) c.document.toText function args
      refine ⟨answer, hroute.trans ?_, hcall ▸ htold⟩
      rw [Contract.toService, hcall]
      dsimp only
      rw [hinvoke]
      rfl
  · rw [if_neg hmine] at hcall
    by_cases hordinary : contract' = systemName
    · subst hordinary
      have hroute := route_of_splitName invocation args world hsplit' hsystem
      by_cases hblank : function = ""
      · rw [if_pos hblank] at hroute
        exact hrefused .blankFunctionName hcall hroute
      · have hne : function ≠ metadataFunction := by
          rintro rfl
          rcases splitName_eq_iff.1 hsplit with ⟨-, hsystem, -⟩ | ⟨-, hqualify⟩
          · exact hmine hsystem
          · exact hname hqualify
        rw [if_neg hblank, hplain, invoke_metadataContract_of_ne _ _ hne] at hroute
        exact hrefused (.functionNotFound function systemName) hcall hroute
    · refine hrefused (.contractNotFound contract') hcall ?_
      rw [Chaincode.route, hsplit']
      dsimp only
      rw [hother contract' hmine hordinary]

/-- **An invocation does what it asks of the ledger**, whatever is kept on it, and is answered with
what that comes to. -/
theorem invoke_attempts
    (h : Chaincode.assemble config supplied files [built.toService] = .ok c)
    (hplain : c.enforced = none) (invocation : Invocation) (world : World) :
    ∃ response, c.invoke invocation world =
        (response, { world with
          ledger := ledgerAfter world.ledger
            (attempt c.document.toText world.ledger (asked invocation)) }) ∧
      Answers response
        ((attempt c.document.toText world.ledger (asked invocation)).map Prod.fst) := by
  obtain ⟨answer, hroute, htold⟩ :=
    route_attempts h hplain invocation invocation.function invocation.args world
  rw [Chaincode.invoke, hroute]
  rw [← asked] at htold ⊢
  generalize Option.map Prod.fst (attempt _ _ _) = expected at htold ⊢
  cases htold with
  | ok text => exact ⟨_, rfl, .success text⟩
  | error e => exact ⟨_, rfl, .failure e.message⟩

/-! ### Runs -/

/-- **An invocation does what it asks of the store**, and is answered as the store answers. -/
theorem invoke_simulates
    (h : Chaincode.assemble config supplied files [built.toService] = .ok c)
    (hplain : c.enforced = none) (hworld : Represents world.ledger store)
    (invocation : Invocation) :
    ∃ response ledger, c.invoke invocation world = (response, { world with ledger := ledger }) ∧
      Answers response (store.apply c.document.toText (asked invocation)).1 ∧
      Represents ledger (store.apply c.document.toText (asked invocation)).2 := by
  obtain ⟨response, hinvoke, hanswers⟩ := invoke_attempts h hplain invocation world
  obtain ⟨htext, hkept⟩ := hworld.attempt c.document.toText (asked invocation)
  exact ⟨response, _, hinvoke, htext ▸ hanswers, hkept⟩

/-- **Every run of invocations simulates the run of its operations on a store.** From a well-formed
ledger on, the ledger stays well formed, what is kept on it is what the operations make of what was
kept on it, and every invocation is answered as the store answers. -/
theorem serve_simulates {contract' : Contract TransactionContext} (hcontract : contract = .ok contract')
    (h : Chaincode.assemble config supplied files [contract'.toService] = .ok c)
    (hplain : c.enforced = none) (invocations : List Invocation) (hworld : WellFormed world.ledger) :
    WellFormed (c.serve invocations world).2.ledger ∧
      contents (c.serve invocations world).2.ledger =
        (Store.run c.document.toText (contents world.ledger) (invocations.map asked)).2 ∧
      List.Forall₂ Answers (c.serve invocations world).1
        (Store.run c.document.toText (contents world.ledger) (invocations.map asked)).1 := by
  obtain rfl : built = contract' := Except.ok.inj (contract_eq.symm.trans hcontract)
  suffices hrun : ∀ store world, Represents world.ledger store →
      Represents (c.serve invocations world).2.ledger
          (Store.run c.document.toText store (invocations.map asked)).2 ∧
        List.Forall₂ Answers (c.serve invocations world).1
          (Store.run c.document.toText store (invocations.map asked)).1 by
    obtain ⟨hkept, hanswers⟩ := hrun _ _ ⟨hworld, rfl⟩
    exact ⟨hkept.wellFormed, hkept.contents, hanswers⟩
  induction invocations with
  | nil => exact fun _ _ hkept ↦ ⟨hkept, .nil⟩
  | cons invocation rest ih =>
    intro store world hworld
    obtain ⟨response, ledger, hinvoke, hanswer, hkept⟩ := invoke_simulates h hplain hworld invocation
    obtain ⟨hfinal, hanswers⟩ := ih _ { world with ledger := ledger } hkept
    rw [Chaincode.serve, hinvoke]
    exact ⟨hfinal, .cons hanswer hanswers⟩

/-! ### The demonstration -/

/-- The store that a demonstration starts from. -/
def seedStore : Store :=
  KeyMap.ofList (seedAssets.map fun a ↦ (a.id, a.holding))

/-- **A demonstration starts from a well-formed ledger.** -/
theorem represents_seed : Represents seedLedger seedStore := by
  have hempty : Represents ∅ ∅ := ⟨fun _ _ hget ↦ (Option.some_ne_none _ hget.symm).elim, rfl⟩
  have hfirst := hempty.insert (a := ⟨"asset1", "Tomoko", 300⟩) (by decide)
  exact hfirst.insert (a := ⟨"asset2", "Brad", 400⟩) (by decide)

/-- One asset is transferred, and the other one is deleted. -/
theorem serve_simulates_seed :
    ∃ c, Chaincode.assemble .default none (.ofFiles []) [built.toService] = .ok c ∧
      contents (c.serve [.ofCall "TransferAsset" ["asset2", "Max"],
          .ofCall "assets:DeleteAsset" ["asset1"]] (.ofLedger seedLedger)).2.ledger =
        KeyMap.ofList [("asset2", ⟨"Max", 400⟩)] := by
  obtain ⟨c, hassemble, hplain⟩ : ∃ c, Chaincode.assemble .default none (.ofFiles [])
      [built.toService] = .ok c ∧ c.enforced = none := ⟨_, rfl, rfl⟩
  refine ⟨c, hassemble, ?_⟩
  rw [(serve_simulates contract_eq hassemble hplain _ represents_seed.wellFormed).2.1]
  rw [show contents (World.ofLedger seedLedger).ledger = seedStore from represents_seed.contents]
  rfl

/-- **Whether there is an asset is not answered for the empty identifier**, under which there is
none. -/
theorem assetExists_empty :
    ∃ c, Chaincode.assemble .default none (.ofFiles []) [built.toService] = .ok c ∧
      c.enforced = none ∧ WellFormed seedLedger ∧ (contents seedLedger).contains "" = false ∧
      (c.invoke (.ofCall "AssetExists" [""]) (.ofLedger seedLedger)).1 =
        .ok (.failure "invalid key: key must not be empty") := by
  refine ⟨_, rfl, rfl, represents_seed.wellFormed, ?_, rfl⟩
  rw [represents_seed.contents]
  rfl

end Assets

end ContractHost
