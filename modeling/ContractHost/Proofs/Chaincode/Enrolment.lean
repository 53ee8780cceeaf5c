import ContractHost.Chaincode.Basic
import ContractHost.Proofs.Contract.Registration
import ContractHost.Proofs.Document.Generation

/-!
# The document of a set of contracts

Contracts are taken in one after the other, and all of them add to one table of components. For a
set of contracts whose records are consistent, what one step preserves (`Chaincode.enroll_spec`) is
that the table is sound and that each contract taken in so far has an entry that describes it
(`Chaincode.Roll.Holds`); `Chaincode.enrollAll_spec` is the same for all steps. Nothing is asked of
the records for a contract to be found under its name (`Chaincode.get?_of_enrollAll`).

**The document of a roll gives the metadata of every function of its contracts**
(`Chaincode.Roll.Holds.transaction?`). A chaincode is a roll with the system contract added to it
(`Chaincode.Assembled`).
-/

namespace ContractHost

/-- The types that a document describes for a set of contracts. -/
def Service.describedTypes (services : List Service) : List Ty :=
  services.flatMap fun s ↦ s.outline.types

namespace Chaincode

/-- A contract was taken into a roll, under its own name and with an entry that describes it. -/
structure Roll.Holds (roll : Roll) (s : Service) : Prop where
  ordinary : s.name ≠ systemName
  taken : roll.services.contains s.name = true
  entry : ∃ entry, roll.entries.get? s.name = some entry ∧
    ContractEntry.Describes roll.components s.outline entry

variable {known : List RecordType} {defaultName : String} {s : Service} {roll roll' : Roll}

/-- What taking in a contract does, if it is not refused: the contract has a new name, and there is
a service and an entry of that name. -/
theorem enroll_eq_ok (h : enroll defaultName s roll = .ok roll') :
    s.name ≠ systemName ∧ ¬ roll.services.contains s.name = true ∧
      roll' = ⟨roll.services.insert s.name s,
        roll.entries.insert s.name
          { (s.outline.describe roll.components).1 with isDefault := s.name == defaultName },
        (s.outline.describe roll.components).2⟩ := by
  unfold enroll at h
  split at h
  · cases h
  · next hnew =>
    obtain ⟨hordinary, hfresh⟩ := not_or.1 hnew
    exact ⟨hordinary, hfresh, (Except.ok.inj h).symm⟩

/-- **Taking in one contract** keeps the table sound and the contracts that were taken in before. -/
theorem enroll_spec (hknown : Consistent known) (hsub : recordsOf s.outline.types ⊆ known)
    (hsound : roll.components.Sound known) (h : enroll defaultName s roll = .ok roll') :
    roll'.components.Sound known ∧ roll'.Holds s ∧ ∀ s', roll.Holds s' → roll'.Holds s' := by
  obtain ⟨hordinary, hfresh, rfl⟩ := enroll_eq_ok h
  obtain ⟨hext, hentry⟩ :=
    ContractOutline.describe_spec hknown s.outline roll.components hsub hsound
  refine ⟨hext.sound, ⟨hordinary, ?_, _, KeyMap.get?_insert_self _ _ _, hentry⟩, fun s' hs' ↦ ?_⟩
  · rw [KeyMap.contains, KeyMap.get?_insert_self]
    rfl
  · -- A contract that was taken in before has another name, so its entry is not replaced.
    obtain ⟨entry, hget, hdescribes⟩ := hs'.entry
    have hne : s.name ≠ s'.name := fun heq ↦ hfresh (heq ▸ hs'.taken)
    refine ⟨hs'.ordinary, ?_, entry, ?_, hdescribes.mono hext.grows.keeps⟩
    · rw [KeyMap.contains, KeyMap.get?_insert_of_ne _ _ hne]
      exact hs'.taken
    · exact (KeyMap.get?_insert_of_ne _ _ hne).trans hget

/-- **Taking in contracts in order.** -/
theorem enrollAll_spec (hknown : Consistent known) :
    ∀ {services : List Service} {roll : Roll},
      recordsOf (Service.describedTypes services) ⊆ known → roll.components.Sound known →
      enrollAll defaultName services roll = .ok roll' →
      roll'.components.Sound known ∧ (∀ s ∈ services, roll'.Holds s) ∧
        ∀ s, roll.Holds s → roll'.Holds s
  | [], roll, _, hsound, h => by
    cases h
    exact ⟨hsound, fun _ hs ↦ absurd hs List.not_mem_nil, fun _ hs ↦ hs⟩
  | s :: rest, roll, hsub, hsound, h => by
    have hsplit : recordsOf (Service.describedTypes (s :: rest)) =
        recordsOf s.outline.types ++ recordsOf (Service.describedTypes rest) := by
      rw [Service.describedTypes, List.flatMap_cons, recordsOf, List.flatMap_append]
      rfl
    rw [hsplit, List.append_subset] at hsub
    rw [enrollAll] at h
    split at h
    · cases h
    · next middle hmiddle =>
      obtain ⟨hsound', hs, hkeeps⟩ := enroll_spec hknown hsub.1 hsound hmiddle
      obtain ⟨hfinal, hrest, hkeeps'⟩ := enrollAll_spec hknown hsub.2 hsound' h
      exact ⟨hfinal, List.forall_mem_cons.2 ⟨hkeeps' s hs, hrest⟩,
        fun s' hs' ↦ hkeeps' s' (hkeeps s' hs')⟩

/-- Contracts that are taken in are found under their names, and none has that of the system
contract. -/
theorem get?_of_enrollAll {services : List Service}
    (h : enrollAll defaultName services roll = .ok roll') :
    (∀ s ∈ services, s.name ≠ systemName ∧ roll'.services.get? s.name = some s) ∧
      ∀ name s, roll.services.get? name = some s → roll'.services.get? name = some s := by
  induction services generalizing roll with
  | nil =>
    cases h
    exact ⟨fun _ hs ↦ absurd hs List.not_mem_nil, fun _ _ hs ↦ hs⟩
  | cons s rest ih =>
    rw [enrollAll] at h
    split at h
    · cases h
    · next middle hmiddle =>
      obtain ⟨hordinary, hfresh, rfl⟩ := enroll_eq_ok hmiddle
      obtain ⟨hrest, hkeeps⟩ := ih h
      have hs : roll'.services.get? s.name = some s :=
        hkeeps s.name s (KeyMap.get?_insert_self _ _ _)
      refine ⟨List.forall_mem_cons.2 ⟨⟨hordinary, hs⟩, hrest⟩, fun name t ht ↦ hkeeps name t ?_⟩
      have hne : s.name ≠ name := by
        rintro rfl
        rw [KeyMap.contains, ht] at hfresh
        exact hfresh rfl
      exact (KeyMap.get?_insert_of_ne _ _ hne).trans ht

/-- **The document gives the metadata of a function** under the names of its contract and its
own. -/
theorem Roll.Holds.transaction? (h : roll.Holds s) (info : Option Info) {name : String}
    {f : FunctionOutline} (hf : s.outline.functions.get? name = some f) :
    ∃ tx, (roll.document info).transaction? s.name name = some tx ∧
      Transaction.Describes roll.components name f tx := by
  obtain ⟨entry, hget, hdescribes⟩ := h.entry
  obtain ⟨tx, htx, hdescribed⟩ := hdescribes.find? hf
  -- The entry of the system contract is added last, under a name that no other contract has.
  have hentry : (roll.document info).contracts.get? s.name = some entry :=
    (KeyMap.get?_insert_of_ne _ _ (Ne.symm h.ordinary)).trans hget
  refine ⟨tx, ?_, hdescribed⟩
  rw [Document.transaction?, hentry]
  exact htx

/-! ### Assembly -/

/-- What a chaincode is put together from: a roll of the contracts that has the default contract,
the document that is enforced, and the system contract over the document that is served. -/
structure Assembled (config : Config) (supplied : Option Document) (files : FileView)
    (services : List Service) (c : Chaincode) (roll : Roll)
    (system : Contract TransactionContext) : Prop where
  default : chooseDefault config services = some c.defaultName
  enrolled : enrollAll c.defaultName services .empty = .ok roll
  served : roll.services.contains c.defaultName = true
  enforced : supplement config supplied files = .ok c.enforced
  document : c.document = c.enforced.getD (roll.document config.info)
  built : systemContract c.document.toText = .ok system
  services : c.services = roll.services.insert systemName system.toService

theorem assemble_eq_ok {config : Config} {supplied : Option Document} {files : FileView}
    {services : List Service} {c : Chaincode}
    (h : assemble config supplied files services = .ok c) :
    ∃ roll system, Assembled config supplied files services c roll system := by
  unfold assemble at h
  split at h
  · cases h
  · next defaultName hdefault =>
    split at h
    · cases h
    · next roll hroll =>
      split at h
      · cases h
      · next hserved =>
        split at h
        · cases h
        · next enforced henforced =>
          unfold complete at h
          dsimp only at h
          split at h
          · cases h
          · next system hsystem =>
            cases h
            have hserved : roll.services.contains defaultName = true := by simpa using hserved
            exact ⟨roll, system, hdefault, hroll, hserved, henforced, rfl, hsystem, rfl⟩

/-- The contracts of a chaincode that has been put together, and the system contract, are found
under their names. -/
theorem Assembled.get?_services {config : Config} {supplied : Option Document} {files : FileView}
    {services : List Service} {c : Chaincode} {system : Contract TransactionContext}
    (h : Assembled config supplied files services c roll system) :
    ∀ s ∈ system.toService :: services, c.services.get? s.name = some s := by
  have hname : system.toService.name = systemName := Contract.name_of_build h.built
  rw [h.services]
  refine List.forall_mem_cons.2 ⟨?_, fun s hs ↦ ?_⟩
  · rw [hname]
    exact KeyMap.get?_insert_self _ _ _
  · obtain ⟨hordinary, hget⟩ := (get?_of_enrollAll h.enrolled).1 s hs
    exact (KeyMap.get?_insert_of_ne _ _ (Ne.symm hordinary)).trans hget

end Chaincode

end ContractHost
