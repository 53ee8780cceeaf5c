import ContractHost.Proofs.Chaincode.Addresses
import ContractHost.Proofs.Contract.Refusals
import ContractHost.Proofs.Document.Sharing
import Mathlib.Data.List.Nodup

/-!
# Putting a chaincode together

One pass over the contracts fills the routing table, the entries of the document and the table of
components, and marks the default. What the pass keeps is said once, about the contracts that have
been taken in so far (`Chaincode.Roll.Lists`): **the roll lists exactly them**. A step either adds a
contract to that (`enroll_of_lists`) or meets a name that is taken (`enroll_of_clashes`), so the
whole pass is decided by the names alone (`Service.Distinct`, `Service.Clashes`).

The default is decided before the pass, from three sources (`Chaincode.DefaultOf`), and the metadata
file is read after it. `Chaincode.assemble_outcome` puts this together: **when assembly succeeds,
what it then serves and describes, and which fault is reported when it fails.**

Nothing is asked of the contracts themselves. Where they were built, the transactions of an entry
are told by the registrations, and no contract answers that a contract was not found, which is for
routing alone to say.
-/

namespace ContractHost

/-! ### Names -/

namespace Service

/-- No two contracts have one name, and none has that of the system contract. -/
def Distinct (services : List Service) : Prop :=
  (services.map name).Nodup ∧ systemName ∉ services.map name

/-- The name of a contract is taken: by the system contract, or by a contract before it. -/
def Clashes (before : List Service) (s : Service) : Prop :=
  s.name = systemName ∨ s.name ∈ before.map name

variable {before : List Service} {s : Service}

theorem distinct_concat : Distinct (before ++ [s]) ↔ Distinct before ∧ ¬Clashes before s := by
  have hnodup : ((before ++ [s]).map name).Nodup ↔
      (before.map name).Nodup ∧ s.name ∉ before.map name := by
    rw [List.map_append, List.map_singleton, ← List.concat_eq_append, List.nodup_concat]
    exact and_comm
  have hsystem : systemName ∉ (before ++ [s]).map name ↔
      systemName ∉ before.map name ∧ s.name ≠ systemName := by
    rw [List.map_append, List.map_singleton, List.mem_append, not_or, List.mem_singleton, eq_comm]
  rw [Distinct, hnodup, hsystem, Distinct, Clashes, not_or]
  tauto

theorem Distinct.of_append {after : List Service} (h : Distinct (before ++ after)) :
    Distinct before := by
  rw [Distinct, List.map_append] at h
  exact ⟨h.1.of_append_left, fun hmem ↦ h.2 (List.mem_append_left _ hmem)⟩

/-- A contract is found under its name among contracts with distinct names. -/
theorem Distinct.find? {services : List Service} (h : Distinct services) (hs : s ∈ services) :
    services.find? (·.name == s.name) = some s := by
  induction services with
  | nil => cases hs
  | cons t rest ih =>
    obtain ⟨hnew, hnodup⟩ := List.nodup_cons.1 h.1
    rcases List.mem_cons.1 hs with rfl | hs
    · exact List.find?_cons_of_pos (beq_self_eq_true _)
    · have hne : t.name ≠ s.name := fun heq ↦ hnew (heq ▸ List.mem_map_of_mem hs)
      rw [List.find?_cons_of_neg (by rw [beq_iff_eq]; exact hne)]
      exact ih ⟨hnodup, fun hmem ↦ h.2 (.tail _ hmem)⟩ hs

theorem find?_eq_none_iff {services : List Service} {name : String} :
    services.find? (·.name == name) = none ↔ name ∉ services.map Service.name := by
  rw [List.find?_eq_none, List.mem_map, not_exists]
  exact forall_congr' fun s ↦ by rw [beq_iff_eq, not_and]

theorem find?_isSome_iff {services : List Service} {name : String} :
    (services.find? (·.name == name)).isSome = true ↔ name ∈ services.map Service.name := by
  rw [← not_iff_not, Option.not_isSome_iff_eq_none, find?_eq_none_iff]

/-- The entry of a contract in a document with a default. -/
def entry (defaultName : String) (s : Service) : ContractEntry :=
  { (s.outline.describe ∅).1 with isDefault := s.name == defaultName }

theorem describedTypes_append (services later : List Service) :
    describedTypes (services ++ later) = describedTypes services ++ describedTypes later :=
  List.flatMap_append

end Service

/-! ### The system contract -/

/-- The function of the system contract over a text, once it is registered. -/
def metadataAnswer (text : String) : Function TransactionContext :=
  ⟨metadataFunction, false, [], ⟨some (.scalar .string), false⟩, (constantText text).run⟩

/-- The system contract over a text, once it is built. -/
def metadataContract (text : String) : Contract TransactionContext :=
  { Contract.empty systemName with
    functions := KeyMap.empty.insert metadataFunction (metadataAnswer text) }

/-- **The system contract can always be built**, whatever the text that it answers with. -/
theorem systemContract_eq (text : String) : systemContract text = .ok (metadataContract text) := by
  have hblank : Text.isBlank systemName = false := rfl
  show (if Text.isBlank systemName = true then Except.error RegistrationError.blankContractName
    else .ok (metadataContract text)) = _
  rw [hblank]
  rfl

/-- A document says of the system contract what the contract itself says. -/
theorem outline_metadataContract (text : String) :
    (metadataContract text).toService.outline = systemOutline :=
  rfl

namespace Chaincode

variable {defaultName : String} {before rest : List Service} {s : Service} {roll : Roll}

/-! ### Taking in contracts -/

/-- A roll lists some contracts: it has a service and an entry for each of them and for no others,
and the components of their types. -/
structure Roll.Lists (defaultName : String) (services : List Service) (roll : Roll) : Prop where
  bound : ∀ name, roll.services.get? name = services.find? (·.name == name)
  described : ∀ name, roll.entries.get? name =
    (services.find? (·.name == name)).map (Service.entry defaultName)
  components : roll.components = Ty.registry (Service.describedTypes services)

theorem Roll.lists_empty (defaultName : String) : Roll.empty.Lists defaultName [] :=
  ⟨fun _ ↦ rfl, fun _ ↦ rfl, rfl⟩

theorem Roll.Lists.contains_iff (h : roll.Lists defaultName before) {name : String} :
    roll.services.contains name = true ↔ name ∈ before.map Service.name := by
  rw [KeyMap.contains, h.bound, Service.find?_isSome_iff]

/-- **A contract whose name is free is added** to those that a roll lists. -/
theorem enroll_of_lists (h : roll.Lists defaultName before) (hs : ¬Service.Clashes before s) :
    ∃ roll', enroll defaultName s roll = .ok roll' ∧ roll'.Lists defaultName (before ++ [s]) := by
  have hfree : ¬(s.name = systemName ∨ roll.services.contains s.name = true) := by
    rw [h.contains_iff]
    exact hs
  have hdescribe : s.outline.describe roll.components =
      ((s.outline.describe ∅).1, (Ty.schemas s.outline.types roll.components).2) := by
    refine Prod.ext ?_ (ContractOutline.describe_snd _ _)
    rw [ContractOutline.describe_fst, ContractOutline.describe_fst]
  have hstep : enroll defaultName s roll = .ok ⟨roll.services.insert s.name s,
      roll.entries.insert s.name (s.entry defaultName),
      (Ty.schemas s.outline.types roll.components).2⟩ := by
    rw [enroll, if_neg hfree, hdescribe]
    rfl
  -- The contract is found under its own name, where nothing was found before.
  have hfind : ∀ name, (before ++ [s]).find? (·.name == name) =
      if s.name = name then some s else before.find? (·.name == name) := by
    intro name
    rw [List.find?_append]
    by_cases heq : s.name = name
    · have hnone : before.find? (·.name == name) = none :=
        Service.find?_eq_none_iff.2 fun hmem ↦ hs (.inr (heq ▸ hmem))
      rw [if_pos heq, hnone, Option.none_or, List.find?_cons_of_pos (by rw [beq_iff_eq]; exact heq)]
    · rw [if_neg heq, List.find?_cons_of_neg (by rw [beq_iff_eq]; exact heq)]
      exact Option.or_none
  refine ⟨_, hstep, fun name ↦ ?_, fun name ↦ ?_, ?_⟩
  · rw [KeyMap.get?_insert, hfind, h.bound]
  · rw [KeyMap.get?_insert, hfind, h.described, apply_ite (Option.map (Service.entry defaultName))]
    rfl
  · have htypes : Service.describedTypes (before ++ [s]) =
        Service.describedTypes before ++ s.outline.types := by
      rw [Service.describedTypes_append]
      exact congrArg _ (List.flatMap_singleton _ _)
    rw [htypes, Ty.registry, Ty.schemas_append, h.components]
    rfl

/-- A contract whose name is taken is refused. -/
theorem enroll_of_clashes (h : roll.Lists defaultName before) (hs : Service.Clashes before s) :
    enroll defaultName s roll = .error (.duplicateContract s.name) := by
  have htaken : s.name = systemName ∨ roll.services.contains s.name = true := by
    rw [h.contains_iff]
    exact hs
  rw [enroll, if_pos htaken]

/-- **Contracts with distinct names are all taken in.** -/
theorem enrollAll_of_distinct (h : roll.Lists defaultName before)
    (hdistinct : Service.Distinct (before ++ rest)) :
    ∃ roll', enrollAll defaultName rest roll = .ok roll' ∧
      roll'.Lists defaultName (before ++ rest) := by
  induction rest generalizing before roll with
  | nil => exact ⟨roll, rfl, by rwa [List.append_nil]⟩
  | cons s rest ih =>
    rw [← List.singleton_append, ← List.append_assoc] at hdistinct ⊢
    obtain ⟨middle, hmiddle, hlists⟩ :=
      enroll_of_lists h (Service.distinct_concat.1 hdistinct.of_append).2
    obtain ⟨roll', hroll, hlists'⟩ := ih hlists hdistinct
    refine ⟨roll', ?_, hlists'⟩
    rw [List.singleton_append, enrollAll, hmiddle]
    exact hroll

/-- **The first name that is taken is reported**, whatever comes after it. -/
theorem enrollAll_of_clash (h : roll.Lists defaultName before) {middle : List Service}
    (hdistinct : Service.Distinct (before ++ middle)) (hs : Service.Clashes (before ++ middle) s)
    (after : List Service) :
    enrollAll defaultName (middle ++ s :: after) roll = .error (.duplicateContract s.name) := by
  induction middle generalizing before roll with
  | nil =>
    rw [List.append_nil] at hs
    rw [List.nil_append, enrollAll, enroll_of_clashes h hs]
  | cons t middle ih =>
    rw [← List.singleton_append, ← List.append_assoc] at hdistinct hs
    obtain ⟨next, hnext, hlists⟩ :=
      enroll_of_lists h (Service.distinct_concat.1 hdistinct.of_append).2
    rw [List.cons_append, enrollAll, hnext]
    exact ih hlists hdistinct hs

/-- Either all names are distinct, or there is a first one that is taken. -/
theorem distinct_or_clash (services : List Service) : Service.Distinct services ∨
    ∃ before s after, services = before ++ s :: after ∧ Service.Distinct before ∧
      Service.Clashes before s := by
  induction services using List.reverseRecOn with
  | nil => exact .inl ⟨List.nodup_nil, List.not_mem_nil⟩
  | append_singleton before s ih =>
    rcases ih with hbefore | ⟨first, t, after, rfl, hfirst, ht⟩
    · by_cases hs : Service.Clashes before s
      · exact .inr ⟨before, s, [], rfl, hbefore, hs⟩
      · exact .inl (Service.distinct_concat.2 ⟨hbefore, hs⟩)
    · exact .inr ⟨first, t, after ++ [s], by rw [List.append_assoc, List.cons_append], hfirst, ht⟩

/-! ### The default -/

/-- The name that stands for the default contract: the configured one, else that of the first
contract that asks for it, else that of the first contract. -/
inductive DefaultOf (config : Config) : List Service → String → Prop
  | configured {first : Service} {rest : List Service} {name : String}
      (h : config.defaultContract = some name) : DefaultOf config (first :: rest) name
  | flagged {before after : List Service} {s : Service} (h : config.defaultContract = none)
      (hbefore : ∀ t ∈ before, t.outline.isDefault = false) (hs : s.outline.isDefault = true) :
      DefaultOf config (before ++ s :: after) s.name
  | first {first : Service} {rest : List Service} (h : config.defaultContract = none)
      (hnone : ∀ t ∈ first :: rest, t.outline.isDefault = false) :
      DefaultOf config (first :: rest) first.name

theorem chooseDefault_eq_some_iff {config : Config} {services : List Service} {name : String} :
    chooseDefault config services = some name ↔ DefaultOf config services name := by
  constructor
  · intro h
    cases services with
    | nil => cases h
    | cons first rest =>
      rw [chooseDefault] at h
      split at h
      · next name' hconfigured =>
        cases h
        exact .configured hconfigured
      · next hnone =>
        cases h
        cases hfind : (first :: rest).find? fun s ↦ s.outline.isDefault with
        | some s =>
          obtain ⟨hs, before, after, heq, hbefore⟩ := List.find?_eq_some_iff_append.1 hfind
          rw [heq]
          exact .flagged hnone (fun t ht ↦ by simpa using hbefore t ht) hs
        | none =>
          have hall := List.find?_eq_none.1 hfind
          exact .first hnone fun t ht ↦ Bool.eq_false_iff.2 (hall t ht)
  · rintro (h | ⟨h, hbefore, hs⟩ | ⟨h, hnone⟩)
    · rw [chooseDefault, h]
    · next before after s =>
      have hfind : (before ++ s :: after).find? (fun s ↦ s.outline.isDefault) = some s := by
        refine List.find?_eq_some_iff_append.2 ⟨hs, before, after, rfl, fun t ht ↦ ?_⟩
        rw [hbefore t ht]
        rfl
      obtain ⟨first, rest, hcons⟩ : ∃ first rest, before ++ s :: after = first :: rest :=
        List.exists_cons_of_ne_nil (List.append_ne_nil_of_right_ne_nil _ (List.cons_ne_nil _ _))
      rw [hcons] at hfind ⊢
      rw [chooseDefault, h]
      dsimp only
      rw [hfind]
      rfl
    · next first rest =>
      have hfind : (first :: rest).find? (fun s ↦ s.outline.isDefault) = none :=
        List.find?_eq_none.2 fun t ht ↦ by rw [hnone t ht]; decide
      rw [chooseDefault, h]
      dsimp only
      rw [hfind]
      rfl

/-! ### What a completed chaincode routes to -/

/-- What a chaincode over some contracts and the system contract routes to. -/
structure Routes (c : Chaincode) (services : List Service) (system : Service) : Prop where
  names : ∀ name, name ∈ c.names ↔ name = systemName ∨ name ∈ services.map Service.name
  bound : ∀ s ∈ system :: services, c.services.get? s.name = some s
  /-- A name without a separator goes to the default contract, or is blank. -/
  unqualified : ∃ s ∈ services, s.name = c.defaultName ∧
    ∀ invocation name args world, separator ∉ name.toList →
      c.route invocation name args world =
        if name = "" then (.error (.error .blankFunctionName), world)
        else s.invoke c.enforced invocation name args world

variable {services : List Service}

/-- The chaincode that a roll is completed to. -/
def Roll.completed (roll : Roll) (defaultName : String) (info : Option Info)
    (enforced : Option Document) : Chaincode :=
  let document := enforced.getD (roll.document info)
  ⟨roll.services.insert systemName (metadataContract document.toText).toService, defaultName,
    document, enforced⟩

theorem complete_eq (roll : Roll) (defaultName : String) (info : Option Info)
    (enforced : Option Document) : complete roll defaultName info enforced =
      .ok (roll.completed defaultName info enforced) := by
  unfold complete
  dsimp only
  rw [systemContract_eq]
  rfl

/-- **A completed chaincode routes to the contracts of its roll and to the system contract.** -/
theorem Roll.Lists.routes (h : roll.Lists defaultName services)
    (hdistinct : Service.Distinct services) (hdefault : defaultName ∈ services.map Service.name)
    (info : Option Info) (enforced : Option Document) :
    (roll.completed defaultName info enforced).Routes services
      (metadataContract (roll.completed defaultName info enforced).document.toText).toService := by
  have hbound : ∀ s ∈ services,
      (roll.completed defaultName info enforced).services.get? s.name = some s := by
    intro s hs
    have hordinary : systemName ≠ s.name :=
      fun heq ↦ hdistinct.2 (heq ▸ List.mem_map_of_mem hs)
    show (roll.services.insert systemName _).get? s.name = some s
    rw [KeyMap.get?_insert_of_ne _ _ hordinary, h.bound, hdistinct.find? hs]
  refine ⟨fun name ↦ ?_, List.forall_mem_cons.2 ⟨KeyMap.get?_insert_self _ _ _, hbound⟩, ?_⟩
  · show name ∈ (roll.services.insert systemName _).keys ↔ _
    rw [KeyMap.mem_keys_insert, ← KeyMap.contains_iff, h.contains_iff, eq_comm]
  · obtain ⟨s, hs, hname⟩ := List.mem_map.1 hdefault
    refine ⟨s, hs, hname, fun invocation name args world hplain ↦ ?_⟩
    rw [route, splitName_unqualified hplain]
    dsimp only
    rw [show (roll.completed defaultName info enforced).defaultName = s.name from hname.symm,
      hbound s hs]

/-- An unqualified name never names a contract that is not there. -/
theorem Routes.not_fromRouting {c : Chaincode} {system : Service} (h : c.Routes services system)
    (hbuilt : ∀ s ∈ services, s.Built) {invocation : Invocation} {name : String}
    {args : List String} {world : World} (hplain : separator ∉ name.toList) {e : Failure}
    (he : (c.route invocation name args world).1 = .error e) : ¬e.FromRouting := by
  obtain ⟨s, hs, -, hroute⟩ := h.unqualified
  rw [hroute invocation name args world hplain] at he
  split at he
  · cases he
    exact id
  · obtain ⟨κ, _, name', steps, contract, -, rfl⟩ := hbuilt s hs
    exact (Contract.invoke_arises he).not_fromRouting

/-! ### What a completed chaincode describes -/

end Chaincode

namespace Service

variable {defaultName : String} {s : Service}

theorem name_transactions (s : Service) (defaultName : String) :
    (s.entry defaultName).transactions.map Transaction.name = s.outline.functions.keys := by
  rw [entry, ContractOutline.describe_fst]
  dsimp only
  rw [List.map_map]
  exact List.map_congr_left fun e _ ↦ Transaction.name_describe e.1 e.2 ∅

/-- An entry has one transaction for each function, with one parameter for each of its. -/
theorem transactions_entry (s : Service) (defaultName : String) :
    (s.entry defaultName).transactions.map (fun tx ↦ (tx.name, tx.parameters.length)) =
      s.outline.functions.entries.map fun e ↦ (e.1, e.2.params.length) := by
  rw [entry, ContractOutline.describe_fst]
  dsimp only
  rw [List.map_map]
  refine List.map_congr_left fun e _ ↦ Prod.ext ?_ ?_
  · exact Transaction.name_describe e.1 e.2 ∅
  · exact Transaction.length_parameters_describe e.1 e.2 ∅

end Service

namespace Chaincode

/-- A document describes some contracts: there is an entry for each, with one transaction for each
function in ascending order of names, and the default is marked and nothing else. -/
structure Describes (c : Chaincode) (services : List Service) : Prop where
  names : c.document.contracts.keys = c.names
  default : ∀ name, (∃ entry, c.document.contracts.get? name = some entry ∧
    entry.isDefault = true) ↔ name = c.defaultName
  entry : ∀ s ∈ services, ∃ entry, c.document.contracts.get? s.name = some entry ∧
    entry.name = s.name ∧ (entry.transactions.map Transaction.name).Pairwise (· < ·) ∧
      entry.transactions.map (fun tx ↦ (tx.name, tx.parameters.length)) =
        s.outline.functions.entries.map fun e ↦ (e.1, e.2.params.length)
  /-- Where a contract was built, its functions are those that were registered, and the context is
  no parameter. -/
  registered : ∀ (κ : Type) [ContextType κ] (name : String) (steps : List (Registration κ))
    (contract : Contract κ), Contract.build name steps = .ok contract →
    contract.toService ∈ services → ∃ entry, c.document.contracts.get? name = some entry ∧
      (∀ function, function ∈ entry.transactions.map Transaction.name ↔
        ∃ handler, .function function handler ∈ steps) ∧
      ∀ function handler, .function function handler ∈ steps → ∀ tx ∈ entry.transactions,
        tx.name = function → tx.parameters.length =
          (handler.signature.inputs.filter (· ≠ contextTy κ)).length

variable {defaultName : String} {services : List Service} {roll : Roll}

/-- The entries of a generated document. -/
theorem Roll.Lists.get?_contracts (h : roll.Lists defaultName services)
    (hdistinct : Service.Distinct services) (hdefault : defaultName ∈ services.map Service.name)
    (info : Option Info) (text : String) {s : Service}
    (hs : s ∈ (metadataContract text).toService :: services) :
    (roll.document info).contracts.get? s.name = some (s.entry defaultName) := by
  show (roll.entries.insert systemName _).get? s.name = _
  rcases List.mem_cons.1 hs with rfl | hs
  · -- The system contract is never the default.
    have hne : (systemName == defaultName) = false :=
      beq_eq_false_iff_ne.2 fun heq ↦ hdistinct.2 (heq ▸ hdefault)
    have hentry : (metadataContract text).toService.entry defaultName =
        (systemOutline.describe ∅).1 := by
      have hname : ((metadataContract text).toService.name == defaultName) = false := hne
      rw [Service.entry, outline_metadataContract, hname]
      rfl
    rw [hentry]
    exact KeyMap.get?_insert_self _ _ _
  · have hordinary : systemName ≠ s.name :=
      fun heq ↦ hdistinct.2 (heq ▸ List.mem_map_of_mem hs)
    rw [KeyMap.get?_insert_of_ne _ _ hordinary, h.described, hdistinct.find? hs]
    rfl

/-- **A generated document describes the contracts of the roll and the system contract.** -/
theorem Roll.Lists.describes (h : roll.Lists defaultName services)
    (hdistinct : Service.Distinct services) (hdefault : defaultName ∈ services.map Service.name)
    (info : Option Info) :
    (roll.completed defaultName info none).Describes
      ((metadataContract (roll.completed defaultName info none).document.toText).toService ::
        services) := by
  generalize (roll.completed defaultName info none).document.toText = text
  have hget : ∀ {s : Service}, s ∈ (metadataContract text).toService :: services →
      (roll.document info).contracts.get? s.name = some (s.entry defaultName) :=
    fun hs ↦ h.get?_contracts hdistinct hdefault info text hs
  have hkeys : ∀ name, name ∈ (roll.document info).contracts.keys ↔
      name = systemName ∨ name ∈ services.map Service.name := by
    intro name
    show name ∈ (roll.entries.insert systemName _).keys ↔ _
    rw [KeyMap.mem_keys_insert, ← KeyMap.contains_iff, KeyMap.contains, h.described,
      Option.isSome_map, Service.find?_isSome_iff, eq_comm]
  have hascending : ∀ s : Service,
      ((s.entry defaultName).transactions.map Transaction.name).Pairwise (· < ·) := by
    intro s
    rw [Service.name_transactions]
    exact List.pairwise_map.2 s.outline.functions.sorted
  refine ⟨KeyMap.keys_ext fun name ↦ ?_, fun name ↦ ⟨?_, ?_⟩,
    fun s hs ↦ ⟨_, hget hs, rfl, hascending s, s.transactions_entry defaultName⟩, ?_⟩
  · exact (hkeys name).trans ((h.routes hdistinct hdefault info none).names name).symm
  · rintro ⟨entry, hentry, hmarked⟩
    -- Every name of the document is that of one of the contracts.
    obtain ⟨s, hs, rfl⟩ : ∃ s ∈ (metadataContract text).toService :: services, s.name = name := by
      rcases (hkeys name).1 (KeyMap.exists_get?_iff.1 ⟨entry, hentry⟩) with rfl | hmem
      · exact ⟨_, List.mem_cons_self, rfl⟩
      · obtain ⟨s, hs, hname⟩ := List.mem_map.1 hmem
        exact ⟨s, .tail _ hs, hname⟩
    obtain rfl : s.entry defaultName = entry := Option.some.inj ((hget hs).symm.trans hentry)
    exact beq_iff_eq.1 hmarked
  · intro hname
    obtain ⟨s, hs, hdefaultName⟩ := List.mem_map.1 hdefault
    have hmarked : (s.entry defaultName).isDefault = true := beq_iff_eq.2 hdefaultName
    have heq : s.name = name := hdefaultName.trans hname.symm
    exact ⟨s.entry defaultName, heq ▸ hget (.tail _ hs), hmarked⟩
  · intro κ _ name steps contract hbuild hs
    obtain ⟨hadds, hfrom⟩ := Contract.functions_of_build hbuild
    have hname : contract.toService.name = name := Contract.name_of_build hbuild
    refine ⟨_, hname ▸ hget hs, fun function ↦ ?_, fun function handler hmem tx htx htxname ↦ ?_⟩
    · rw [Service.name_transactions]
      show function ∈ (contract.functions.map _).keys ↔ _
      rw [KeyMap.keys_map, ← KeyMap.exists_get?_iff]
      constructor
      · rintro ⟨f, hf⟩
        obtain ⟨handler, hmem, -⟩ := hfrom hf
        exact ⟨handler, hmem⟩
      · rintro ⟨handler, hmem⟩
        obtain ⟨f, -, hf⟩ := hadds hmem
        exact ⟨f, hf⟩
    · obtain ⟨f, hinspect, hf⟩ := hadds hmem
      have hpair : (tx.name, tx.parameters.length) ∈
          contract.toService.outline.functions.entries.map fun e ↦ (e.1, e.2.params.length) := by
        rw [← Service.transactions_entry _ defaultName]
        exact List.mem_map_of_mem htx
      obtain ⟨_, he, heq⟩ := List.mem_map.1 hpair
      obtain ⟨⟨function', f'⟩, hmem', rfl⟩ := List.mem_map.1 he
      obtain ⟨hfunction, hlength⟩ := Prod.mk.inj heq
      -- The function of that name is the one that the handler was inspected to.
      obtain rfl : function' = function := hfunction.trans htxname
      obtain rfl : f' = f :=
        Option.some.inj ((KeyMap.get?_eq_some_iff.2 hmem').symm.trans hf)
      rw [← hlength, ← Function.paramTypes_of_ofHandler hinspect]

/-! ### The outcome -/

/-- The metadata file, if one is to be read, loads. -/
def Loads (config : Config) (supplied : Option Document) (files : FileView) : Prop :=
  supplied = none → ∀ path, config.metadataPath = some path →
    ∃ d, Document.load (files path) = .ok d

variable {config : Config} {supplied : Option Document} {files : FileView}

/-- The document from outside is found exactly if the metadata file loads. -/
theorem supplement_cases (config : Config) (supplied : Option Document) (files : FileView) :
    (∃ enforced, supplement config supplied files = .ok enforced ∧ Loads config supplied files) ∨
      ∃ path e, supplied = none ∧ config.metadataPath = some path ∧
        Document.load (files path) = .error e ∧
          supplement config supplied files = .error (.metadata e.message) := by
  unfold supplement Loads
  cases supplied with
  | some d => exact .inl ⟨_, rfl, nofun⟩
  | none =>
    cases hpath : config.metadataPath with
    | none => exact .inl ⟨_, rfl, fun _ _ h ↦ nomatch h⟩
    | some path =>
      dsimp only
      rcases hload : Document.load (files path) with e | d
      · exact .inr ⟨path, e, rfl, rfl, hload, rfl⟩
      · refine .inl ⟨some d, rfl, ?_⟩
        rintro - _ ⟨⟩
        exact ⟨d, hload⟩

theorem assemble_nil : assemble config supplied files [] = .error .noContracts :=
  rfl

theorem exists_defaultOf (config : Config) (hne : services ≠ []) :
    ∃ name, DefaultOf config services name := by
  obtain ⟨first, rest, rfl⟩ := List.exists_cons_of_ne_nil hne
  obtain ⟨name, hname⟩ : ∃ name, chooseDefault config (first :: rest) = some name := by
    unfold chooseDefault
    dsimp only
    split <;> exact ⟨_, rfl⟩
  exact ⟨name, chooseDefault_eq_some_iff.1 hname⟩

theorem assemble_of_clash {after : List Service} (hbefore : Service.Distinct before)
    (hs : Service.Clashes before s) : assemble config supplied files (before ++ s :: after) =
      .error (.duplicateContract s.name) := by
  obtain ⟨name, hname⟩ := exists_defaultOf config
    (List.append_ne_nil_of_right_ne_nil before (List.cons_ne_nil s after))
  have hroll : enrollAll name (before ++ s :: after) .empty = .error (.duplicateContract s.name) :=
    enrollAll_of_clash (Roll.lists_empty name) hbefore hs after
  rw [assemble, chooseDefault_eq_some_iff.2 hname]
  dsimp only
  rw [hroll]

/-- Contracts with distinct names are in the roll from which the chaincode is completed. -/
theorem assemble_of_distinct (supplied : Option Document) (files : FileView)
    (hdistinct : Service.Distinct services) (hdefault : DefaultOf config services defaultName) :
    ∃ roll : Roll, roll.Lists defaultName services ∧ assemble config supplied files services =
      if defaultName ∈ services.map Service.name then
        match supplement config supplied files with
        | .error e => .error e
        | .ok enforced => complete roll defaultName config.info enforced
      else .error (.unknownDefault defaultName) := by
  obtain ⟨roll, hroll, hlists⟩ : ∃ roll : Roll,
      enrollAll defaultName services .empty = .ok roll ∧ roll.Lists defaultName services :=
    enrollAll_of_distinct (Roll.lists_empty defaultName) hdistinct
  refine ⟨roll, hlists, ?_⟩
  rw [assemble, chooseDefault_eq_some_iff.2 hdefault]
  dsimp only
  rw [hroll]
  dsimp only
  by_cases hmem : defaultName ∈ services.map Service.name
  · rw [if_pos hmem, hlists.contains_iff.2 hmem]
    rfl
  · have hnot : roll.services.contains defaultName = false :=
      Bool.eq_false_iff.2 fun h ↦ hmem (hlists.contains_iff.1 h)
    rw [if_neg hmem, hnot]
    rfl

/-- Why contracts cannot be put together. The conditions of each fault rule out those before it. -/
inductive Fault (config : Config) (supplied : Option Document) (files : FileView) :
    List Service → RegistrationError → Prop
  | noContracts : Fault config supplied files [] .noContracts
  | duplicate {before after : List Service} {s : Service} (hbefore : Service.Distinct before)
      (hs : Service.Clashes before s) :
      Fault config supplied files (before ++ s :: after) (.duplicateContract s.name)
  | unknownDefault {services : List Service} {name : String}
      (hdistinct : Service.Distinct services) (hdefault : DefaultOf config services name)
      (hunknown : name ∉ services.map Service.name) :
      Fault config supplied files services (.unknownDefault name)
  | metadata {services : List Service} {name path : String} {e : MetadataError}
      (hdistinct : Service.Distinct services) (hdefault : DefaultOf config services name)
      (hknown : name ∈ services.map Service.name) (hsupplied : supplied = none)
      (hpath : config.metadataPath = some path) (hload : Document.load (files path) = .error e) :
      Fault config supplied files services (.metadata e.message)

/-- The contracts can be put together. -/
structure Sound (config : Config) (supplied : Option Document) (files : FileView)
    (services : List Service) : Prop where
  nonempty : services ≠ []
  distinct : Service.Distinct services
  default : ∀ name, DefaultOf config services name → name ∈ services.map Service.name
  loads : Loads config supplied files

/-- **Every assembly ends in a fault or in the chaincode of a roll that lists the contracts.** -/
theorem assemble_cases (config : Config) (supplied : Option Document) (files : FileView)
    (services : List Service) :
    (∃ e, assemble config supplied files services = .error e ∧
        Fault config supplied files services e ∧ ¬Sound config supplied files services) ∨
      ∃ (defaultName : String) (roll : Roll) (enforced : Option Document),
        assemble config supplied files services =
          .ok (roll.completed defaultName config.info enforced) ∧
        Sound config supplied files services ∧ DefaultOf config services defaultName ∧
        defaultName ∈ services.map Service.name ∧ roll.Lists defaultName services ∧
        supplement config supplied files = .ok enforced := by
  by_cases hne : services = []
  · subst hne
    exact .inl ⟨_, assemble_nil, .noContracts, fun h ↦ h.nonempty rfl⟩
  rcases distinct_or_clash services with hdistinct | ⟨before, s, after, rfl, hbefore, hs⟩
  · obtain ⟨name, hdefault⟩ := exists_defaultOf config hne
    obtain ⟨roll, hlists, hassemble⟩ := assemble_of_distinct supplied files hdistinct hdefault
    by_cases hknown : name ∈ services.map Service.name
    · rw [if_pos hknown] at hassemble
      rcases supplement_cases config supplied files with
        ⟨enforced, henforced, hloads⟩ | ⟨path, e, hsupplied, hpath, hload, herror⟩
      · rw [henforced] at hassemble
        refine .inr ⟨name, roll, enforced, hassemble.trans (complete_eq _ _ _ _),
          ⟨hne, hdistinct, fun name' hname' ↦ ?_, hloads⟩, hdefault, hknown, hlists, henforced⟩
        -- There is one default only.
        have hsame : some name' = some name := (chooseDefault_eq_some_iff.2 hname').symm.trans
          (chooseDefault_eq_some_iff.2 hdefault)
        exact Option.some.inj hsame ▸ hknown
      · rw [herror] at hassemble
        refine .inl ⟨_, hassemble, .metadata hdistinct hdefault hknown hsupplied hpath hload,
          fun h ↦ ?_⟩
        obtain ⟨d, hd⟩ := h.loads hsupplied path hpath
        cases hload.symm.trans hd
    · rw [if_neg hknown] at hassemble
      exact .inl ⟨_, hassemble, .unknownDefault hdistinct hdefault hknown,
        fun h ↦ hknown (h.default name hdefault)⟩
  · refine .inl ⟨_, assemble_of_clash hbefore hs, .duplicate hbefore hs, fun h ↦ ?_⟩
    have hdistinct := h.distinct
    rw [← List.singleton_append, ← List.append_assoc] at hdistinct
    exact (Service.distinct_concat.1 hdistinct.of_append).2 hs

/-- **Assembly.** Contracts are put together exactly if they are sound. The chaincode then routes to
them and to the system contract, and to the default contract wherever a name is unqualified, which
is never refused for want of a contract; without a document from outside, what it serves describes
them. Otherwise the first fault is reported, in the order of `Fault`. -/
theorem assemble_outcome (config : Config) (supplied : Option Document) (files : FileView)
    (services : List Service) :
    ((∃ c, assemble config supplied files services = .ok c) ↔
        Sound config supplied files services) ∧
      (∀ c, assemble config supplied files services = .ok c →
        DefaultOf config services c.defaultName ∧
          ∃ system, systemContract c.document.toText = .ok system ∧
            c.Routes services system.toService ∧
            ((∀ s ∈ services, s.Built) → ∀ invocation name args world e,
              separator ∉ name.toList → (c.route invocation name args world).1 = .error e →
                ¬e.FromRouting) ∧
            (supplied = none → config.metadataPath = none →
              c.Describes (system.toService :: services))) ∧
      ∀ e, assemble config supplied files services = .error e ↔
        Fault config supplied files services e := by
  have hfault : ∀ {e}, Fault config supplied files services e →
      assemble config supplied files services = .error e := by
    rintro _ (_ | ⟨hbefore, hs⟩ | ⟨hdistinct, hdefault, hunknown⟩ |
      ⟨hdistinct, hdefault, hknown, rfl, hpath, hload⟩)
    · exact assemble_nil
    · exact assemble_of_clash hbefore hs
    · obtain ⟨roll, -, hassemble⟩ := assemble_of_distinct supplied files hdistinct hdefault
      rw [hassemble, if_neg hunknown]
    · obtain ⟨roll, -, hassemble⟩ := assemble_of_distinct none files hdistinct hdefault
      rw [hassemble, if_pos hknown]
      unfold supplement
      rw [hpath]
      dsimp only
      rw [hload]
  rcases assemble_cases config supplied files services with
    ⟨e, hassemble, he, hunsound⟩ |
      ⟨name, roll, enforced, hassemble, hsound, hdefault, hknown, hlists, henforced⟩
  · refine ⟨⟨?_, fun h ↦ absurd h hunsound⟩, fun c hc ↦ ?_, fun e' ↦ ⟨fun h ↦ ?_, hfault⟩⟩
    · rintro ⟨c, hc⟩
      cases hassemble.symm.trans hc
    · cases hassemble.symm.trans hc
    · cases hassemble.symm.trans h
      exact he
  · refine ⟨⟨fun _ ↦ hsound, fun _ ↦ ⟨_, hassemble⟩⟩, fun c hc ↦ ?_,
      fun e ↦ ⟨fun h ↦ ?_, hfault⟩⟩
    · cases hassemble.symm.trans hc
      have hroutes := hlists.routes hsound.distinct hknown config.info enforced
      refine ⟨hdefault, _, systemContract_eq _, hroutes, ?_, fun hsupplied hpath ↦ ?_⟩
      · exact fun hbuilt invocation name args world e hplain he ↦
          hroutes.not_fromRouting hbuilt hplain he
      · have hnone : enforced = none := by
          unfold supplement at henforced
          rw [hsupplied, hpath] at henforced
          exact (Except.ok.inj henforced).symm
        subst hnone
        exact hlists.describes hsound.distinct hknown config.info
    · cases hassemble.symm.trans h

end Chaincode

end ContractHost
