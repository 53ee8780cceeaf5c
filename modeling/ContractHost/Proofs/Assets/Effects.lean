import ContractHost.Proofs.Assets.Runs

/-!
# What an invocation of the asset chaincode changes

A ledger may hold anything under any key, also what no operation on assets has written. Every
operation reads what it needs before its only write (`Assets.attempt`), and what follows the write
cannot fail: the answer is rendered and the hooks do nothing. So there is nothing to take back:
**an invocation that fails leaves the ledger as it was** (`failure_leaves_no_trace`).
-/

namespace ContractHost

namespace Assets

variable {config : Config} {supplied : Option Document} {files : FileView} {c : Chaincode}

/-- **A failed invocation leaves no trace.** Whatever is on the ledger, every invocation of the
chaincode over the asset contract, with no document from outside in force, is answered with success
or with failure, and one that fails changes nothing. -/
theorem failure_leaves_no_trace {contract' : Contract TransactionContext}
    (hcontract : contract = .ok contract')
    (h : Chaincode.assemble config supplied files [contract'.toService] = .ok c)
    (hplain : c.enforced = none) (invocation : Invocation) (world : World) :
    ∃ response, (c.invoke invocation world).1 = .ok response ∧
      (response.status = 200 ∨ response.status = 500) ∧
      (response.status = 500 → (c.invoke invocation world).2 = world) := by
  obtain rfl : built = contract' := Except.ok.inj (contract_eq.symm.trans hcontract)
  obtain ⟨response, hinvoke, hanswers⟩ := invoke_attempts h hplain invocation world
  rw [hinvoke]
  cases hattempt : attempt c.document.toText world.ledger (asked invocation) with
  | none =>
    rw [hattempt] at hanswers
    cases hanswers with
    | failure message => exact ⟨_, rfl, .inr rfl, fun _ ↦ rfl⟩
  | some found =>
    rw [hattempt] at hanswers
    cases hanswers with
    | success text => exact ⟨_, rfl, .inl rfl, nofun⟩

/-- A ledger with the record of an asset without an identifier, under a key that is not empty. -/
def strayLedger : Ledger :=
  KeyMap.ofList [("a", (Asset.mk "" "Tomoko" 300).toBytes)]

theorem fetch_strayLedger : fetch strayLedger "a" = .ok ⟨"", "Tomoko", 300⟩ :=
  fetch_of_get? (by decide) rfl

/-- The record is read, but cannot be written again under its own identifier. -/
theorem failure_leaves_no_trace_stray :
    ∃ c message, Chaincode.assemble .default none (.ofFiles []) [built.toService] = .ok c ∧
      c.invoke (.ofCall "TransferAsset" ["a", "Max"]) (.ofLedger strayLedger) =
        (.ok (.failure message), .ofLedger strayLedger) := by
  obtain ⟨c, hassemble, hplain⟩ : ∃ c, Chaincode.assemble .default none (.ofFiles [])
      [built.toService] = .ok c ∧ c.enforced = none := ⟨_, rfl, rfl⟩
  have hnone : attempt c.document.toText strayLedger
      (asked (.ofCall "TransferAsset" ["a", "Max"])) = none := by
    show (transfer strayLedger "a" "Max").toOption = none
    rw [transfer, fetch_strayLedger]
    rfl
  obtain ⟨response, hinvoke, hanswers⟩ := invoke_attempts hassemble hplain
    (.ofCall "TransferAsset" ["a", "Max"]) (.ofLedger strayLedger)
  have hfailure : ∃ message, response = .ok (.failure message) := by
    rw [show (World.ofLedger strayLedger).ledger = strayLedger from rfl, hnone] at hanswers
    cases hanswers with
    | failure message => exact ⟨message, rfl⟩
  obtain ⟨message, rfl⟩ := hfailure
  obtain ⟨response, hresponse, -, hkept⟩ := failure_leaves_no_trace contract_eq hassemble hplain
    (.ofCall "TransferAsset" ["a", "Max"]) (.ofLedger strayLedger)
  have hanswer := congrArg Prod.fst hinvoke
  cases hanswer.symm.trans hresponse
  exact ⟨c, message, hassemble, Prod.ext hanswer (hkept rfl)⟩

end Assets

end ContractHost
