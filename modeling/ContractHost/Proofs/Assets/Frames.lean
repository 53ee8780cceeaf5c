import ContractHost.Proofs.Assets.Runs
import ContractHost.Proofs.Contract.Vetting

/-!
# Which entries an operation on assets changes

An operation on assets writes at most once, under one key (`Operation.key?`), and **leaves what is
kept under other keys as it is** (`attempt_frame`). What has to be known of a ledger for that is only
where the write goes. An asset is created and deleted under the identifier in the call, but a
transfer reads under the identifier in the call and writes under the one inside the record that it
found. On a well-formed ledger these are the same; a ledger in general may have the record of one
asset under the identifier of another one.

A document from outside that is enforced may refuse a call, also one that has written already
(`Leaves`), but it does not move the write. So **a transfer and a deletion leave everything alone
that is kept neither under the identifier they are called with nor, for a transfer, under the
identifier of the asset that is recorded there** (`transfer_and_delete_frame`), with or without a
document, whether they succeed or fail, and beside whatever other contracts. A transfer of a
misfiled asset does overwrite what is kept under its identifier (`transfer_overwrites_another`).
-/

namespace ContractHost

namespace Assets

variable {ledger ledger' : Ledger} {id owner previous key text : String} {a : Asset}

/-! ### What the operations write -/

theorem store_eq_ok_iff : store ledger a = .ok ledger' ↔
    a.id ≠ "" ∧ ledger' = ledger.insert a.id a.toBytes := by
  by_cases hid : a.id = ""
  · have hrefused : store ledger a = .error (.ledger (.invalidKey "key must not be empty")) := by
      rw [store, Ledger.write, Ledger.checkKey, if_pos hid]
      rfl
    rw [hrefused]
    refine iff_of_false ?_ fun h ↦ h.1 hid
    rintro ⟨⟩
  · rw [store_of_ne hid, Except.ok.injEq, eq_comm]
    exact (and_iff_right hid).symm

theorem write_of_create (h : create ledger a = .ok ledger') :
    ledger' = ledger.insert a.id a.toBytes := by
  unfold create at h
  split at h
  · cases h
  · cases h
  · exact (store_eq_ok_iff.1 h).2

/-- **A transfer writes the asset that it finds, under the identifier of that asset.** -/
theorem transfer_eq_ok_iff : transfer ledger id owner = .ok (previous, ledger') ↔
    ∃ a, fetch ledger id = .ok a ∧ a.id ≠ "" ∧ previous = a.owner ∧
      ledger' = ledger.insert a.id { a with owner := owner }.toBytes := by
  unfold transfer
  cases fetch ledger id with
  | error e =>
    refine iff_of_false ?_ ?_
    · rintro ⟨⟩
    · rintro ⟨_, ⟨⟩, -⟩
  | ok a =>
    dsimp only
    rw [Except.map_eq_ok]
    simp only [store_eq_ok_iff, Except.ok.injEq, exists_eq_left', Prod.mk.injEq]
    constructor
    · rintro ⟨_, ⟨hid, rfl⟩, rfl, rfl⟩
      exact ⟨hid, rfl, rfl⟩
    · rintro ⟨hid, rfl, rfl⟩
      exact ⟨_, ⟨hid, rfl⟩, rfl, rfl⟩

theorem ne_of_fetch (h : fetch ledger id = .ok a) : id ≠ "" := by
  rintro rfl
  cases h

/-- A deletion takes out the entry under its own identifier. -/
theorem remove_eq_ok_iff : remove ledger id = .ok ledger' ↔
    (∃ a, fetch ledger id = .ok a) ∧ ledger' = ledger.erase id := by
  unfold remove
  cases hfetch : fetch ledger id with
  | error e =>
    refine iff_of_false ?_ ?_
    · rintro ⟨⟩
    · rintro ⟨⟨_, ⟨⟩⟩, -⟩
  | ok a =>
    dsimp only
    rw [Ledger.delete, Ledger.checkKey, if_neg (ne_of_fetch hfetch)]
    exact ⟨fun h ↦ ⟨⟨a, rfl⟩, (Except.ok.inj h).symm⟩, fun h ↦ congrArg _ h.2.symm⟩

/-! ### Where the operations write -/

/-- The key that an operation would write under. -/
def Operation.key? (ledger : Ledger) : Operation → Option String
  | .create id _ _ => some id
  | .transfer id _ => (fetch ledger id).toOption.map Asset.id
  | .delete id => some id
  | .read _ | .has _ | .document | .unknown => none

theorem eq_ok_of_toOption {ε α : Type} {x : Except ε α} {v : α} (h : x.toOption = some v) :
    x = .ok v := by
  cases x <;> cases h
  rfl

/-- **An operation changes no entry but the one under its key.** -/
theorem attempt_frame {answer : String} {operation : Operation}
    (h : attempt text ledger operation = some (answer, ledger'))
    (hkey : operation.key? ledger ≠ some key) : ledger'.get? key = ledger.get? key := by
  cases operation with
  | create id owner value =>
    rw [attempt] at h
    split at h
    · cases h
    · obtain ⟨created, hcreate, heq⟩ := Option.map_eq_some_iff.1 h
      cases heq
      rw [write_of_create (eq_ok_of_toOption hcreate)]
      exact KeyMap.get?_insert_of_ne _ _ (hkey <| congrArg some ·)
  | read id =>
    obtain ⟨a, -, heq⟩ := Option.map_eq_some_iff.1 h
    cases heq
    rfl
  | has id =>
    obtain ⟨found, -, heq⟩ := Option.map_eq_some_iff.1 h
    cases heq
    rfl
  | transfer id owner =>
    -- The write goes where the record says, and so does the key of the operation.
    obtain ⟨a, hfetch, -, -, rfl⟩ := transfer_eq_ok_iff.1 (eq_ok_of_toOption h)
    have hkeys : (Operation.transfer id owner).key? ledger = some a.id := by
      rw [Operation.key?, hfetch]
      rfl
    exact KeyMap.get?_insert_of_ne _ _ fun heq ↦ hkey (hkeys.trans (congrArg some heq))
  | delete id =>
    obtain ⟨removed, hremove, heq⟩ := Option.map_eq_some_iff.1 h
    cases heq
    obtain ⟨-, rfl⟩ := remove_eq_ok_iff.1 (eq_ok_of_toOption hremove)
    exact KeyMap.get?_erase_of_ne _ (hkey <| congrArg some ·)
  | document =>
    cases h
    rfl
  | unknown => cases h

/-! ### Calls that may be refused -/

/-- What a call leaves of a ledger where a document may refuse it, and `expected` is what the
operation comes to. The operation is done, or it fails and nothing changes, or it is done and its
answer is withheld. -/
inductive Leaves (ledger : Ledger) (expected : Option (String × Ledger)) :
    Except Failure String → Ledger → Prop
  | done {text : String} {ledger' : Ledger} (h : expected = some (text, ledger')) :
      Leaves ledger expected (.ok text) ledger'
  | failed (e : CallError) : Leaves ledger expected (.error (.error e)) ledger
  | withheld (e : CallError) {text : String} {ledger' : Ledger}
      (h : expected = some (text, ledger')) :
      Leaves ledger expected (.error (.error e)) ledger'

namespace Leaves

variable {expected : Option (String × Ledger)} {answer : Except Failure String}

/-- A call that nothing refuses leaves what the operation leaves. -/
theorem of_told (h : Told answer (expected.map Prod.fst)) :
    Leaves ledger expected answer (ledgerAfter ledger expected) := by
  rcases expected with _ | ⟨text, ledger'⟩
  · cases h with
    | error e => exact .failed e
  · cases h with
    | ok text => exact .done rfl

theorem of_withheld (e : CallError) :
    Leaves ledger expected (.error (.error e)) (ledgerAfter ledger expected) := by
  rcases expected with _ | ⟨text, ledger'⟩
  · exact .failed e
  · exact .withheld e rfl

/-- Whether it is refused or not, a call changes no entry but the one under the key of its
operation. -/
theorem frame {operation : Operation}
    (h : Leaves ledger (attempt text ledger operation) answer ledger') (key : String)
    (hkey : operation.key? ledger ≠ some key) : ledger'.get? key = ledger.get? key := by
  cases h with
  | done h => exact attempt_frame h hkey
  | failed e => rfl
  | withheld e h => exact attempt_frame h hkey

end Leaves

/-- **Under any document, the contract does what is asked of its ledger, or refuses to answer.** -/
theorem invoke_leaves {s : Session TransactionContext} (hs : s.invocation ≠ none)
    (document : Option Document) (text function : String) (args : List String) :
    ∃ answer ledger', built.invoke document function args s = (answer, { s with ledger := ledger' }) ∧
      Leaves s.ledger (attempt text s.ledger (.ofFunction function args)) answer ledger' := by
  obtain ⟨answer, hinvoke, htold⟩ := invoke_spec hs text function args
  rcases built.invoke_vetted document function args s with hsame | ⟨s', e, hbefore, hrefused⟩
  · exact ⟨answer, _, hsame.trans hinvoke, .of_told htold⟩
  -- The before hook does nothing, so the dispatch that is refused starts from `s`.
  · obtain rfl : s = s' := congrArg Prod.snd ((runHook_before hs).symm.trans hbefore)
    rcases hrefused with hrefused | hwithheld
    · exact ⟨_, s.ledger, hrefused, .failed e⟩
    · obtain ⟨result, hdispatch, -⟩ := Yields.dispatch text hs function args
      rw [hdispatch] at hwithheld
      exact ⟨_, _, hwithheld, .of_withheld e⟩

variable {config : Config} {supplied : Option Document} {files : FileView} {services : List Service}
  {c : Chaincode} {world : World} {function : String}

/-- A call that is routed to the asset contract is run by it. The contract may be one of several,
and a document may be enforced. -/
theorem route_leaves (h : Chaincode.assemble config supplied files services = .ok c)
    (hserved : built.toService ∈ services) (invocation : Invocation) {name : String}
    (hcalled : splitName c.defaultName name = (contractName, function)) (args : List String)
    (world : World) :
    ∃ answer ledger', c.route invocation name args world =
        (answer, { world with ledger := ledger' }) ∧
      Leaves world.ledger (attempt "" world.ledger (.ofFunction function args)) answer ledger' := by
  obtain ⟨roll, system, hassembled⟩ := Chaincode.assemble_eq_ok h
  have hget : c.services.get? contractName = some built.toService :=
    hassembled.get?_services _ (List.mem_cons_of_mem _ hserved)
  rw [route_of_splitName invocation args world hcalled hget]
  by_cases hblank : function = ""
  · rw [if_pos hblank]
    exact ⟨_, world.ledger, rfl, .failed .blankFunctionName⟩
  · rw [if_neg hblank]
    obtain ⟨answer, ledger', hinvoke, hleaves⟩ :=
      invoke_leaves (s := .start invocation world.ledger world.journal) (Option.some_ne_none _)
        c.enforced "" function args
    refine ⟨answer, ledger', ?_, hleaves⟩
    rw [Contract.toService]
    dsimp only
    rw [hinvoke]
    rfl

/-- **An invocation that is routed to the asset contract changes no entry but the one under the key
of its operation.** If it succeeds, the operation is done. -/
theorem invocation_frame (h : Chaincode.assemble config supplied files services = .ok c)
    (hserved : built.toService ∈ services) (invocation : Invocation)
    (hcalled : splitName c.defaultName invocation.function = (contractName, function))
    (world : World) :
    ∃ response ledger', c.invoke invocation world =
        (.ok response, { world with ledger := ledger' }) ∧
      (∀ key, (Operation.ofFunction function invocation.args).key? world.ledger ≠ some key →
        ledger'.get? key = world.ledger.get? key) ∧
      (response.status = 200 → ∃ text,
        attempt "" world.ledger (.ofFunction function invocation.args) = some (text, ledger')) := by
  obtain ⟨answer, ledger', hroute, hleaves⟩ :=
    route_leaves h hserved invocation hcalled invocation.args world
  rw [Chaincode.invoke, hroute]
  have hframe := hleaves.frame
  have hfailure : ∀ e : CallError, (Response.failure e.message).status ≠ 200 := fun e ↦
    show 500 ≠ 200 by decide
  cases hleaves with
  | done hdone => exact ⟨_, ledger', rfl, hframe, fun _ ↦ ⟨_, hdone⟩⟩
  | failed e => exact ⟨.failure e.message, _, rfl, hframe, fun h ↦ absurd h (hfailure e)⟩
  | withheld e _ => exact ⟨.failure e.message, ledger', rfl, hframe, fun h ↦ absurd h (hfailure e)⟩

/-! ### Transfers and deletions -/

/-- A transfer writes under the identifier of an asset that is recorded under its own. -/
theorem exists_of_key?_transfer {rest : List String}
    (h : (Operation.ofFunction "TransferAsset" (id :: rest)).key? ledger = some key) :
    ∃ a, fetch ledger id = .ok a ∧ a.id = key := by
  rcases rest with _ | ⟨owner, rest⟩
  · cases h
  · obtain ⟨a, hfetch, hid⟩ := Option.map_eq_some_iff.1 h
    exact ⟨a, eq_ok_of_toOption hfetch, hid⟩

/-- **A transfer and a deletion leave all other entries alone.** Whatever is on the ledger, a call
of either with an identifier is answered, and every entry under another key is as before, whether
the call succeeds or fails; but for one: a transfer may change the entry under the identifier of the
asset that is recorded under the identifier of the call. It does so whenever it succeeds, and then
changes nothing else; a deletion that succeeds takes out the entry under its own identifier. -/
theorem transfer_and_delete_frame {contract' : Contract TransactionContext}
    (hcontract : contract = .ok contract')
    (h : Chaincode.assemble config supplied files services = .ok c)
    (hserved : contract'.toService ∈ services) (invocation : Invocation) (world : World)
    (hfunction : function = "TransferAsset" ∨ function = "DeleteAsset")
    (hcalled : splitName c.defaultName invocation.function = (contractName, function))
    {rest : List String} (hargs : invocation.args = id :: rest) :
    ∃ response ledger', c.invoke invocation world =
        (.ok response, { world with ledger := ledger' }) ∧
      (∀ key, key ≠ id →
        (function = "TransferAsset" → ∀ a, fetch world.ledger id = .ok a → a.id ≠ key) →
          ledger'.get? key = world.ledger.get? key) ∧
      (function = "TransferAsset" → response.status = 200 →
        ∃ a owner more, fetch world.ledger id = .ok a ∧ rest = owner :: more ∧
          ledger' = world.ledger.insert a.id { a with owner := owner }.toBytes) ∧
      (function = "DeleteAsset" → response.status = 200 → ledger' = world.ledger.erase id) := by
  obtain rfl : built = contract' := Except.ok.inj (contract_eq.symm.trans hcontract)
  obtain ⟨response, ledger', hinvoke, hframe, hdone⟩ :=
    invocation_frame h hserved invocation hcalled world
  rw [hargs] at hframe hdone
  refine ⟨response, ledger', hinvoke, ?_, ?_, ?_⟩
  · intro key hne hother
    refine hframe key fun hkey ↦ ?_
    rcases hfunction with rfl | rfl
    · obtain ⟨a, hfetch, hid⟩ := exists_of_key?_transfer hkey
      exact hother rfl a hfetch hid
    · exact hne (Option.some.inj hkey).symm
  · rintro rfl hstatus
    obtain ⟨text, hattempt⟩ := hdone hstatus
    rcases rest with _ | ⟨owner, more⟩
    · cases hattempt
    · obtain ⟨a, hfetch, -, -, hledger⟩ := transfer_eq_ok_iff.1 (eq_ok_of_toOption hattempt)
      exact ⟨a, owner, more, hfetch, rfl, hledger⟩
  · rintro rfl hstatus
    obtain ⟨text, hattempt⟩ := hdone hstatus
    obtain ⟨removed, hremove, heq⟩ := Option.map_eq_some_iff.1 hattempt
    cases heq
    exact (remove_eq_ok_iff.1 (eq_ok_of_toOption hremove)).2

/-! ### A misfiled asset -/

/-- A ledger with an asset in its place, and another record of the same asset under an identifier
that is not its own. -/
def misfiledLedger : Ledger :=
  KeyMap.ofList [("a", (Asset.mk "b" "Tomoko" 300).toBytes),
    ("b", (Asset.mk "b" "Brad" 400).toBytes)]

theorem fetch_misfiledLedger : fetch misfiledLedger "a" = .ok ⟨"b", "Tomoko", 300⟩ :=
  fetch_of_get? (by decide) rfl

/-- A transfer may change the entries under "a" and "b", a deletion the one under "a" only. -/
theorem transfer_and_delete_frame_misfiled :
    ∃ c, Chaincode.assemble .default none (.ofFiles []) [built.toService] = .ok c ∧
      (∀ key, key ≠ "a" → key ≠ "b" →
        (c.invoke (.ofCall "TransferAsset" ["a", "Max"]) (.ofLedger misfiledLedger)).2.ledger.get?
          key = misfiledLedger.get? key) ∧
      ∀ key, key ≠ "a" →
        (c.invoke (.ofCall "DeleteAsset" ["a"]) (.ofLedger misfiledLedger)).2.ledger.get? key =
          misfiledLedger.get? key := by
  obtain ⟨c, hassemble, hdefault⟩ : ∃ c, Chaincode.assemble .default none (.ofFiles [])
      [built.toService] = .ok c ∧ c.defaultName = contractName := ⟨_, rfl, rfl⟩
  have htransfer : splitName c.defaultName "TransferAsset" = (contractName, "TransferAsset") := by
    rw [hdefault]
    rfl
  have hdelete : splitName c.defaultName "DeleteAsset" = (contractName, "DeleteAsset") := by
    rw [hdefault]
    rfl
  refine ⟨c, hassemble, fun key hne hother ↦ ?_, fun key hne ↦ ?_⟩
  · obtain ⟨response, ledger', hinvoke, hframe, -⟩ := transfer_and_delete_frame contract_eq
      hassemble (List.mem_singleton_self _) (.ofCall "TransferAsset" ["a", "Max"])
      (.ofLedger misfiledLedger) (.inl rfl) htransfer rfl
    rw [hinvoke]
    refine hframe key hne fun _ a hfetch ↦ ?_
    cases fetch_misfiledLedger.symm.trans hfetch
    exact Ne.symm hother
  · obtain ⟨response, ledger', hinvoke, hframe, -⟩ := transfer_and_delete_frame contract_eq
      hassemble (List.mem_singleton_self _) (.ofCall "DeleteAsset" ["a"])
      (.ofLedger misfiledLedger) (.inr rfl) hdelete rfl
    rw [hinvoke]
    exact hframe key hne fun heq ↦ absurd heq (by decide)

/-- **A transfer may overwrite another asset.** The transfer of "a" succeeds, and it is the entry
under "b" that changes, owner and value. -/
theorem transfer_overwrites_another :
    ∃ c ledger', Chaincode.assemble .default none (.ofFiles []) [built.toService] = .ok c ∧
      c.invoke (.ofCall "TransferAsset" ["a", "Max"]) (.ofLedger misfiledLedger) =
        (.ok (.success (Utf8.bytes "Tomoko")), .ofLedger ledger') ∧
      misfiledLedger.get? "b" = some (Asset.mk "b" "Brad" 400).toBytes ∧
      ledger'.get? "b" = some (Asset.mk "b" "Max" 300).toBytes ∧
      ledger'.get? "b" ≠ misfiledLedger.get? "b" := by
  obtain ⟨c, hassemble, hplain⟩ : ∃ c, Chaincode.assemble .default none (.ofFiles [])
      [built.toService] = .ok c ∧ c.enforced = none := ⟨_, rfl, rfl⟩
  have hattempt : attempt c.document.toText (World.ofLedger misfiledLedger).ledger
      (asked (.ofCall "TransferAsset" ["a", "Max"])) =
        some ("Tomoko", misfiledLedger.insert "b" (Asset.mk "b" "Max" 300).toBytes) := by
    show (transfer misfiledLedger "a" "Max").toOption = _
    rw [transfer_eq_ok_iff.2 ⟨_, fetch_misfiledLedger, by decide, rfl, rfl⟩]
    rfl
  obtain ⟨response, hinvoke, hanswers⟩ := invoke_attempts hassemble hplain
    (.ofCall "TransferAsset" ["a", "Max"]) (.ofLedger misfiledLedger)
  rw [hattempt] at hinvoke hanswers
  have hbefore : misfiledLedger.get? "b" = some (Asset.mk "b" "Brad" 400).toBytes := rfl
  have hafter : (misfiledLedger.insert "b" (Asset.mk "b" "Max" 300).toBytes).get? "b" =
      some (Asset.mk "b" "Max" 300).toBytes := KeyMap.get?_insert_self _ _ _
  have hdiffer : (Asset.mk "b" "Max" 300).toBytes ≠ (Asset.mk "b" "Brad" 400).toBytes :=
    fun heq ↦ absurd (Asset.eq_of_toBytes_eq heq) (by decide)
  cases hanswers with
  | success text =>
    exact ⟨c, _, hassemble, hinvoke, hbefore, hafter,
      fun heq ↦ hdiffer (Option.some.inj (hafter.symm.trans (heq.trans hbefore)))⟩

end Assets

end ContractHost
