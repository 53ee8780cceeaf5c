import ContractHost.Proofs.Chaincode.Assembly
import ContractHost.Types.Validity

/-!
# Functions do not depend on each other's descriptions

All functions of a chaincode are described into one table of components, contract by contract and
function by function. What a function is given in the document — its transaction — does not depend
on the table at all: **it is the transaction of the function described alone**
(`Chaincode.generated_document`). What its schemas mean does depend on the table, through the names
of records: a component is that of the record of its name that came in first.

So the schemas that are served for a function mean what they would mean if the function were
described alone, **as long as each record name that the function shares with another function stands
for one record in both** (`Chaincode.described_alone`). No order of contracts and functions, and no
other function, can then make a difference.
-/

namespace ContractHost

open Schema

/-- A function described on its own: its transaction, and the components that it puts into an empty
table. -/
def FunctionOutline.alone (f : FunctionOutline) (name : String) : Transaction × Components :=
  Transaction.describe name f.params f.success ∅

namespace Service

/-- The types of some contracts, with those of one function in their place. -/
theorem describedTypes_split {services : List Service} {s : Service} (hs : s ∈ services)
    {name : String} {f : FunctionOutline} (hf : s.outline.functions.get? name = some f)
    (hdistinct : Distinct services) :
    ∃ before after, describedTypes services = before ++ f.types ++ after ∧
      ∀ t ∈ before, ∃ s' ∈ services, ∃ name' f', s'.outline.functions.get? name' = some f' ∧
        (s'.name, name') ≠ (s.name, name) ∧ t ∈ f'.types := by
  obtain ⟨first, last, rfl⟩ := List.append_of_mem hs
  have hentry : (name, f) ∈ s.outline.functions.entries := KeyMap.get?_eq_some_iff.1 hf
  obtain ⟨front, back, hentries⟩ := List.append_of_mem hentry
  have htypes : s.outline.types = front.flatMap (fun e ↦ e.2.types) ++ f.types ++
      back.flatMap fun e ↦ e.2.types := by
    rw [ContractOutline.types, hentries, List.flatMap_append, List.flatMap_cons,
      List.append_assoc]
  refine ⟨describedTypes first ++ front.flatMap fun e ↦ e.2.types,
    back.flatMap (fun e ↦ e.2.types) ++ describedTypes last, ?_, fun t ht ↦ ?_⟩
  · rw [describedTypes_append, describedTypes, describedTypes, List.flatMap_cons, htypes]
    simp only [describedTypes, List.append_assoc]
  · rcases List.mem_append.1 ht with ht | ht
    · -- A type of a contract that comes before: its name is another one.
      obtain ⟨s', hs', ht⟩ := List.mem_flatMap.1 ht
      obtain ⟨⟨name', f'⟩, hmem, ht⟩ := List.mem_flatMap.1 ht
      have hne : s'.name ≠ s.name := by
        have hnodup := hdistinct.1
        rw [List.map_append, List.map_cons] at hnodup
        have hdisjoint := List.disjoint_of_nodup_append hnodup
        exact fun heq ↦ hdisjoint (List.mem_map_of_mem hs') (heq ▸ List.mem_cons_self)
      exact ⟨s', List.mem_append_left _ hs', name', f', KeyMap.get?_eq_some_iff.2 hmem,
        fun heq ↦ hne (congrArg Prod.fst heq), ht⟩
    · -- A type of a function of the same contract that comes before.
      obtain ⟨⟨name', f'⟩, hmem, ht⟩ := List.mem_flatMap.1 ht
      have hmem' : (name', f') ∈ s.outline.functions.entries :=
        hentries ▸ List.mem_append_left _ hmem
      have hne : name' ≠ name := by
        have hsorted := s.outline.functions.sorted
        rw [hentries, List.pairwise_append] at hsorted
        have hlt : name' < name := hsorted.2.2 _ hmem _ List.mem_cons_self
        rintro rfl
        exact String.lt_irrefl _ hlt
      exact ⟨s, List.mem_append_right _ List.mem_cons_self, name', f',
        KeyMap.get?_eq_some_iff.2 hmem', fun heq ↦ hne (congrArg Prod.snd heq), ht⟩

end Service

namespace Chaincode

variable {config : Config} {supplied : Option Document} {files : FileView}
  {services : List Service} {c : Chaincode}

/-- The generated document of a chaincode has the components of all types of its contracts, and for
each function of a contract the transaction that describes it. -/
theorem generated_document (h : assemble config supplied files services = .ok c)
    (hgenerated : c.enforced = none) : Service.Distinct services ∧
      c.document.components = Ty.registry (Service.describedTypes services) ∧
      ∀ s ∈ services, ∀ name, c.document.transaction? s.name name =
        (s.outline.functions.get? name).map fun f ↦ (f.alone name).1 := by
  rcases assemble_cases config supplied files services with
    ⟨e, hassemble, -⟩ | ⟨defaultName, roll, enforced, hassemble, hsound, -, hknown, hlists, -⟩
  · cases hassemble.symm.trans h
  · cases hassemble.symm.trans h
    obtain rfl : enforced = none := hgenerated
    refine ⟨hsound.distinct, hlists.components, fun s hs name ↦ ?_⟩
    have hentry : (roll.document config.info).contracts.get? s.name = some (s.entry defaultName) :=
      hlists.get?_contracts hsound.distinct hknown config.info "" (.tail _ hs)
    show (roll.document config.info).transaction? s.name name = _
    rw [Document.transaction?, hentry]
    show (s.entry defaultName).transactions.find? _ = _
    rw [Service.entry, ContractOutline.describe_fst]
    exact ContractOutline.find?_transactions s.outline.functions name

/-- **The schemas of a function mean what they mean alone**, if its record names stand for the same
records in every other function of the chaincode that has them. -/
theorem described_alone (h : assemble config supplied files services = .ok c)
    (hgenerated : c.enforced = none) {s : Service} (hs : s ∈ services) {name : String}
    {f : FunctionOutline} (hf : s.outline.functions.get? name = some f)
    (hagree : ∀ s' ∈ services, ∀ name' f', s'.outline.functions.get? name' = some f' →
      (s'.name, name') ≠ (s.name, name) → Agree (recordsOf f'.types) (recordsOf f.types)) :
    ∀ schema ∈ (f.alone name).1.schemas,
      SameMeaning schema c.document.components (f.alone name).2 := by
  intro schema hschema
  obtain ⟨hdistinct, hcomponents, -⟩ := generated_document h hgenerated
  obtain ⟨before, after, htypes, hbefore⟩ := Service.describedTypes_split hs hf hdistinct
  -- What agrees with every other function agrees with all types that come before.
  have hagree' : Agree (recordsOf before) (recordsOf f.types) := by
    intro r hr r' hr' hname
    obtain ⟨t, ht, hrt⟩ := List.mem_flatMap.1 hr
    obtain ⟨s', hs', name', f', hf', hne, ht'⟩ := hbefore t ht
    exact hagree s' hs' name' f' hf' hne r (List.mem_flatMap.2 ⟨t, ht', hrt⟩) r' hr' hname
  rw [FunctionOutline.alone, Transaction.schemas_describe] at hschema
  rw [hcomponents, htypes, FunctionOutline.alone, Transaction.describe_snd]
  exact Ty.means_schemas hagree' after schema hschema

end Chaincode

/-- **Sharing the table of components keeps meanings where names are shared rightly.** A type that
is described behind another one has the schema that it has alone, and the schema means the same, if
the record names that the types have in common stand for the same records in both. Hence the
transaction that a chaincode serves for a function is the one that describes it alone, whatever
other functions there are and in whatever order; and its schemas mean the same, if the record names
are shared so by the function and each of the others. -/
theorem sharing_keeps_meaning :
    (∀ t₁ t₂ : Ty, (t₂.schema (t₁.schema ∅).2).1 = (t₂.schema ∅).1 ∧
      (Agree t₁.records t₂.records →
        SameMeaning (t₂.schema ∅).1 (t₂.schema (t₁.schema ∅).2).2 (t₂.schema ∅).2)) ∧
      ∀ config supplied files services c,
        Chaincode.assemble config supplied files services = .ok c → c.enforced = none →
        ∀ s ∈ services, ∀ name f, s.outline.functions.get? name = some f →
          c.document.transaction? s.name name = some (f.alone name).1 ∧
          ((∀ s' ∈ services, ∀ name' f', s'.outline.functions.get? name' = some f' →
              (s'.name, name') ≠ (s.name, name) →
                Agree (recordsOf f'.types) (recordsOf f.types)) →
            ∀ schema ∈ (f.alone name).1.schemas,
              SameMeaning schema c.document.components (f.alone name).2) := by
  refine ⟨fun t₁ t₂ ↦ ⟨Ty.schema_fst _ _ _, fun hagree ↦ ?_⟩,
    fun config supplied files services c h hgenerated s hs name f hf ↦ ⟨?_, fun hagree ↦ ?_⟩⟩
  · have hrecords : ∀ t : Ty, recordsOf [t] = t.records := fun t ↦ List.flatMap_singleton _ _
    have hagree' : Agree (recordsOf [t₁]) (recordsOf [t₂]) := by
      rw [hrecords, hrecords]
      exact hagree
    exact Ty.means_schemas hagree' [] _ List.mem_cons_self
  · obtain ⟨-, -, htransaction⟩ := Chaincode.generated_document h hgenerated
    rw [htransaction s hs, hf]
    rfl
  · exact Chaincode.described_alone h hgenerated hs hf hagree

/-! ### Two stores of assets -/

/-- A record of one field. -/
def assetType : Ty :=
  .record "Asset" [("id", .scalar .string)]

/-- A contract whose only function takes a value of a type. -/
def store (name : String) (t : Ty) : Service :=
  ⟨⟨name, none, false, KeyMap.empty.insert "Put" ⟨[t], none⟩⟩, fun _ _ _ _ world ↦ (.ok "", world)⟩

theorem get?_store {name function : String} {t : Ty} {f : FunctionOutline}
    (h : (store name t).outline.functions.get? function = some f) :
    function = "Put" ∧ f = ⟨[t], none⟩ := by
  have hget : (if "Put" = function then some (⟨[t], none⟩ : FunctionOutline) else none) = some f :=
    h
  split at hget
  · next heq => exact ⟨heq.symm, (Option.some.inj hget).symm⟩
  · cases hget

/-- An asset that two stores share is described in the archive as alone, and means the same. -/
theorem sharing_keeps_meaning_stores :
    SameMeaning (assetType.schema ∅).1 (assetType.schema ((Ty.list assetType).schema ∅).2).2
        (assetType.schema ∅).2 ∧
      ∃ c, Chaincode.assemble .default none (.ofFiles [])
            [store "Store" (.list assetType), store "Archive" assetType] = .ok c ∧
        c.document.transaction? "Archive" "Put" =
          some ((⟨[assetType], none⟩ : FunctionOutline).alone "Put").1 ∧
        ∀ schema ∈ ((⟨[assetType], none⟩ : FunctionOutline).alone "Put").1.schemas,
          SameMeaning schema c.document.components
            ((⟨[assetType], none⟩ : FunctionOutline).alone "Put").2 := by
  refine ⟨(sharing_keeps_meaning.1 (.list assetType) assetType).2 (by decide), ?_⟩
  obtain ⟨c, hassemble, hgenerated⟩ : ∃ c, Chaincode.assemble .default none (.ofFiles [])
      [store "Store" (.list assetType), store "Archive" assetType] = .ok c ∧ c.enforced = none :=
    ⟨_, rfl, rfl⟩
  have hagree : ∀ s' ∈ [store "Store" (.list assetType), store "Archive" assetType],
      ∀ name' f', s'.outline.functions.get? name' = some f' →
        (s'.name, name') ≠ ("Archive", "Put") →
          Agree (recordsOf f'.types) (recordsOf [assetType]) := by
    intro s' hs' name' f' hf' hne
    rcases List.mem_pair.1 hs' with rfl | rfl
    · obtain ⟨-, rfl⟩ := get?_store hf'
      decide
    · obtain ⟨rfl, -⟩ := get?_store hf'
      exact absurd rfl hne
  obtain ⟨htransaction, hmeaning⟩ := sharing_keeps_meaning.2 _ _ _ _ c hassemble hgenerated
    (store "Archive" assetType) (.tail _ (.head _)) "Put" ⟨[assetType], none⟩ rfl
  exact ⟨c, hassemble, htransaction, hmeaning hagree⟩

/-- **A name is all that the table knows of a record.** Behind another record of its name, the
schema of a record is about that one: what the record itself admits is refused. -/
theorem sharing_changes_meaning :
    ∃ (t₁ t₂ : Ty) (shared alone : Schema) (j : Json),
      t₁.validate [] = .ok () ∧ t₂.validate [] = .ok () ∧
        compile (t₂.schema (t₁.schema ∅).2).1 (t₂.schema (t₁.schema ∅).2).2 = .ok shared ∧
        compile (t₂.schema ∅).1 (t₂.schema ∅).2 = .ok alone ∧
        Schema.validate alone j = [] ∧ Schema.validate shared j ≠ [] :=
  ⟨.record "P" [("a", .scalar (.integer .i32))], .record "P" [("b", .scalar .string)], _, _,
    .object [("b", .string "x")], rfl, rfl, rfl, rfl, by decide +kernel, by decide +kernel⟩

end ContractHost
