import ContractHost.Document.Reader
import ContractHost.Proofs.Document.Sharing
import ContractHost.Proofs.Json.RoundTrip

/-!
# Metadata documents read back

A metadata document that is written is read as it was (`Document.ofTree?_tree`). A part that holds
nothing is left out of the text only where leaving it out says the same: a missing list of tags is
read as the empty one, a missing block as its absence. A block that is there stands in the text as
an object, whatever it holds, so a success value whose schema is `null` is not taken for none
(`Json.orDefault?_slot_optional`).

Each record of a document is read back from its tree by what a reader finds in the slot of each of
its fields. The schemas inside have to be well formed, and there has to be room.
-/

namespace ContractHost

open Json

variable {α β : Type} {room : ℕ}

/-! ### Maps -/

namespace KeyMap

theorem insertEntry_of_forall_lt {k : String} {v : α} {l : List (String × α)}
    (h : ∀ e ∈ l, e.1 < k) : insertEntry k v l = l ++ [(k, v)] := by
  induction l with
  | nil => rfl
  | cons e rest ih =>
    obtain ⟨k', v'⟩ := e
    obtain ⟨hlt, hrest⟩ := List.forall_mem_cons.1 h
    have hne : k ≠ k' := by
      rintro rfl
      exact String.lt_irrefl _ hlt
    rw [insertEntry, if_neg (String.lt_asymm hlt), if_neg hne, ih hrest, List.cons_append]

theorem entries_ofList_concat (l : List (String × α)) (e : String × α) :
    (ofList (l ++ [e])).entries = insertEntry e.1 e.2 (ofList l).entries := by
  rw [ofList, List.foldl_append]
  rfl

/-- **A map is made up again from its entries.** -/
theorem ofList_entries (m : KeyMap α) : ofList m.entries = m := by
  have hentries : ∀ {l : List (String × α)}, l.Pairwise (fun a b ↦ a.1 < b.1) →
      (ofList l).entries = l := by
    intro l
    induction l using List.reverseRecOn with
    | nil => exact fun _ ↦ rfl
    | append_singleton rest e ih =>
      intro hsorted
      obtain ⟨hrest, -, hlast⟩ := List.pairwise_append.1 hsorted
      rw [entries_ofList_concat, ih hrest]
      exact insertEntry_of_forall_lt fun a ha ↦ hlast a ha e List.mem_cons_self
  have hext : ∀ {m m' : KeyMap α}, m.entries = m'.entries → m = m' := by
    rintro ⟨l, _⟩ ⟨l', _⟩ ⟨⟩
    rfl
  exact hext (hentries m.sorted)

end KeyMap

/-! ### What a reader finds in a slot -/

namespace Json

variable {fields : List (String × Json)} {name : String} {j : Json} {read : Tree → Option α}
  {a default : α}

@[simp] theorem field?_optionalField (name k : String) (write : α → Json) (o : Option α) :
    field? name (optionalField k write o) = if k = name then o.map write else none := by
  cases o with
  | none => simp [optionalField, field?]
  | some a => simp [optionalField, field?]

theorem depth_le_of_field? (h : field? name fields = some j)
    (hdepth : (object fields).depth ≤ room + 1) : j.depth ≤ room := by
  have hle : j.depth ≤ depthFields fields := by
    clear hdepth
    induction fields with
    | nil => cases h
    | cons f rest ih =>
      obtain ⟨k, v⟩ := f
      rw [field?] at h
      rw [depthFields]
      split at h
      · cases h
        exact le_max_left _ _
      · exact (ih h).trans (le_max_right _ _)
  exact hle.trans (Nat.le_of_succ_le_succ hdepth)

theorem required?_slot (h : field? name fields = some j) (hread : read (tree j) = some a) :
    (slot fields name).required? read = some a := by
  rw [slot, h]
  exact hread

theorem orDefault?_slot (h : field? name fields = some j) (hread : read (tree j) = some a) :
    (slot fields name).orDefault? read default = some a := by
  rw [slot, h]
  exact hread

theorem nullable?_of_ne (read : Tree → Option α) {t : Tree} (ht : t ≠ .null) :
    Tree.nullable? read t = (read t).map some := by
  cases t with
  | null => exact absurd rfl ht
  | _ => rfl

/-- A block that may be missing is found if it was written, and not taken for a missing one. -/
theorem orDefault?_slot_optional {write : α → Json} {o : Option α} (read : Tree → Option α)
    (h : field? name fields = o.map write) (hne : ∀ a, tree (write a) ≠ .null)
    (hread : ∀ a, o = some a → read (tree (write a)) = some a) :
    (slot fields name).orDefault? (Tree.nullable? read) none = some o := by
  cases o with
  | none =>
    rw [slot, h]
    rfl
  | some a =>
    rw [slot, h]
    show Tree.nullable? read (tree (write a)) = some (some a)
    rw [nullable?_of_ne read (hne a), hread a rfl]
    rfl

theorem string?_tree (s : String) : Tree.string? (tree (.string s)) = some s := by
  rw [tree_string]
  exact text?_pieces s

theorem bool?_tree (b : Bool) : Tree.bool? (tree (.bool b)) = some b := by
  rw [tree_bool]
  rfl

/-- A list is read back item by item. -/
theorem listOf?_tree {read : ℕ → Tree → Option α} {write : α → Json} {items : List α}
    (hdepth : (list (items.map write)).depth ≤ room)
    (h : ∀ room, ∀ a ∈ items, (write a).depth ≤ room → read room (tree (write a)) = some a) :
    Tree.listOf? read room (tree (.list (items.map write))) = some items := by
  cases room with
  | zero => exact absurd hdepth (Nat.not_succ_le_zero _)
  | succ room =>
    rw [tree_list, Tree.listOf?, List.map_map]
    have hall : ∀ a ∈ items, read room (tree (write a)) = some a := fun a ha ↦
      h room a ha ((depth_le_of_mem (List.mem_map_of_mem ha)).trans
        (Nat.le_of_succ_le_succ hdepth))
    clear h hdepth
    induction items with
    | nil => rfl
    | cons a rest ih =>
      obtain ⟨ha, hrest⟩ := List.forall_mem_cons.1 hall
      simp [ih hrest, ha]

/-- A map is read back entry by entry. -/
theorem mapOf?_tree {read : ℕ → Tree → Option α} {write : α → Json} {m : KeyMap α}
    (hdepth : (m.toJson write).depth ≤ room)
    (h : ∀ room, ∀ e ∈ m.entries, (write e.2).depth ≤ room →
      read room (tree (write e.2)) = some e.2) :
    Tree.mapOf? read room (tree (m.toJson write)) = some m := by
  cases room with
  | zero => exact absurd hdepth (Nat.not_succ_le_zero _)
  | succ room =>
    have hall : ∀ e ∈ m.entries, read room (tree (write e.2)) = some e.2 := fun e he ↦
      h room e he ((depth_le_of_mem_fields (List.mem_map_of_mem he)).trans
        (Nat.le_of_succ_le_succ hdepth))
    have hentries : ∀ {l : List (String × α)}, (∀ e ∈ l, read room (tree (write e.2)) = some e.2) →
        (l.map fun e ↦ (e.1, tree (write e.2))).mapM
          (fun e ↦ (read room e.2).map (e.1, ·)) = some l := by
      intro l hl
      induction l with
      | nil => rfl
      | cons e rest ih =>
        obtain ⟨he, hrest⟩ := List.forall_mem_cons.1 hl
        simp [ih hrest, he]
    rw [KeyMap.toJson, tree_object, Tree.mapOf?, treeMembers, Tree.named?_membersOf, List.map_map]
    have hmap := hentries hall
    simp only [Function.comp_def, Option.bind_eq_bind, Option.bind_some, hmap,
      KeyMap.ofList_entries]
    rfl

end Json

/-! ### Schemas inside a document -/

/-- The schemas of all transactions. -/
def ContractEntry.schemas (c : ContractEntry) : List Json :=
  c.transactions.flatMap Transaction.schemas

/-- The schemas of all contracts, and the components. -/
def Document.schemas (d : Document) : List Json :=
  d.contracts.values.flatMap ContractEntry.schemas ++ d.components.values

/-- Every schema inside a document is well formed. The rest of a document is well formed by its
type. -/
def Document.WellFormed (d : Document) : Prop :=
  ∀ s ∈ d.schemas, s.WellFormed

/-! ### Each record is read back -/

theorem Info.ofTree?_tree {i : Info} (h : i.toJson.depth ≤ room) :
    ofTree? room (tree i.toJson) = some i := by
  cases room with
  | zero => exact absurd h (Nat.not_succ_le_zero _)
  | succ room =>
    obtain ⟨title, version, description⟩ := i
    rw [toJson]
    generalize hfields : [("title", Json.string title), ("version", .string version)] ++
      optionalField "description" .string description = fields
    have htitle : field? "title" fields = some (.string title) := by rw [← hfields]; rfl
    have hversion : field? "version" fields = some (.string version) := by rw [← hfields]; rfl
    have hdescription : field? "description" fields = description.map .string := by
      rw [← hfields]
      simp [field?]
    have hnodup : (fields.map Prod.fst).Nodup := by
      rw [← hfields]
      cases description <;> simp [optionalField]
    have hread := orDefault?_slot_optional Tree.string? hdescription (by simp)
      fun s _ ↦ string?_tree s
    rw [ofTree?, record?_tree hnodup]
    simp [orDefault?_slot htitle (string?_tree title),
      orDefault?_slot hversion (string?_tree version), hread]

theorem Parameter.ofTree?_tree {p : Parameter} (hp : p.schema.WellFormed)
    (h : p.toJson.depth ≤ room) : ofTree? room (tree p.toJson) = some p := by
  cases room with
  | zero => exact absurd h (Nat.not_succ_le_zero _)
  | succ room =>
    obtain ⟨name, schema⟩ := p
    rw [toJson] at h ⊢
    generalize hfields : [("name", Json.string name), ("schema", schema)] = fields at h ⊢
    have hname : field? "name" fields = some (.string name) := by rw [← hfields]; rfl
    have hschema : field? "schema" fields = some schema := by rw [← hfields]; rfl
    have hnodup : (fields.map Prod.fst).Nodup := by
      rw [← hfields]
      simp
    have hread := toJson?_tree hp (depth_le_of_field? hschema h)
    rw [ofTree?, record?_tree hnodup]
    simp [required?_slot hname (string?_tree name), required?_slot hschema hread]

theorem Returns.ofTree?_tree {r : Returns} (hr : r.schema.WellFormed)
    (h : r.toJson.depth ≤ room) : ofTree? room (tree r.toJson) = some r := by
  cases room with
  | zero => exact absurd h (Nat.not_succ_le_zero _)
  | succ room =>
    obtain ⟨schema⟩ := r
    rw [toJson] at h ⊢
    generalize hfields : [("schema", schema)] = fields at h ⊢
    have hschema : field? "schema" fields = some schema := by rw [← hfields]; rfl
    have hnodup : (fields.map Prod.fst).Nodup := by
      rw [← hfields]
      simp
    have hread := toJson?_tree hr (depth_le_of_field? hschema h)
    rw [ofTree?, record?_tree hnodup]
    simp [required?_slot hschema hread]

theorem Transaction.ofTree?_tree {tx : Transaction} (htx : ∀ s ∈ tx.schemas, s.WellFormed)
    (h : tx.toJson.depth ≤ room) : ofTree? room (tree tx.toJson) = some tx := by
  cases room with
  | zero => exact absurd h (Nat.not_succ_le_zero _)
  | succ room =>
    obtain ⟨parameters, returns, tag, name⟩ := tx
    rw [schemas, List.forall_mem_append] at htx
    rw [toJson] at h ⊢
    generalize hfields : [("parameters", Json.list (parameters.map Parameter.toJson))] ++
      optionalField "returns" Returns.toJson returns ++
      (if tag = [] then [] else [("tag", .list (tag.map .string))]) ++
      [("name", .string name)] = fields at h ⊢
    have hparameters : field? "parameters" fields =
        some (.list (parameters.map Parameter.toJson)) := by rw [← hfields]; rfl
    have hreturns : field? "returns" fields = returns.map Returns.toJson := by
      rw [← hfields]
      split <;> simp [field?]
    have htag : field? "tag" fields =
        if tag = [] then none else some (.list (tag.map .string)) := by
      rw [← hfields]
      split <;> simp [field?]
    have hname : field? "name" fields = some (.string name) := by
      rw [← hfields]
      split <;> simp [field?]
    have hnodup : (fields.map Prod.fst).Nodup := by
      rw [← hfields]
      cases returns <;> split <;> simp [optionalField]
    have hreadParameters := listOf?_tree (depth_le_of_field? hparameters h)
      fun room p hp hdepth ↦ Parameter.ofTree?_tree
        (htx.1 p.schema (List.mem_map_of_mem hp)) hdepth
    have hreadReturns := orDefault?_slot_optional (Returns.ofTree? room) hreturns
      (fun r ↦ by simp [Returns.toJson]) fun r hr ↦ Returns.ofTree?_tree
        (htx.2 r.schema (by simp [hr])) (depth_le_of_field? (by rw [hreturns, hr]; rfl) h)
    have hreadTag : (slot fields "tag").orDefault?
        (Tree.listOf? (fun _ ↦ Tree.string?) room) [] = some tag := by
      by_cases hnil : tag = []
      · rw [if_pos hnil] at htag
        rw [slot, htag, hnil]
        rfl
      · rw [if_neg hnil] at htag
        exact orDefault?_slot htag (listOf?_tree (depth_le_of_field? htag h)
          fun _ s _ _ ↦ string?_tree s)
    rw [ofTree?, record?_tree hnodup]
    simp [orDefault?_slot hparameters hreadParameters, hreadReturns, hreadTag,
      required?_slot hname (string?_tree name)]

theorem ContractEntry.ofTree?_tree {c : ContractEntry} (hc : ∀ s ∈ c.schemas, s.WellFormed)
    (h : c.toJson.depth ≤ room) : ofTree? room (tree c.toJson) = some c := by
  cases room with
  | zero => exact absurd h (Nat.not_succ_le_zero _)
  | succ room =>
    obtain ⟨info, name, transactions, isDefault⟩ := c
    rw [toJson] at h ⊢
    generalize hfields : optionalField "info" Info.toJson info ++
      [("name", Json.string name), ("transactions", .list (transactions.map Transaction.toJson)),
        ("default", .bool isDefault)] = fields at h ⊢
    have hinfo : field? "info" fields = info.map Info.toJson := by
      rw [← hfields]
      simp [field?]
    have hname : field? "name" fields = some (.string name) := by
      rw [← hfields]
      simp [field?]
    have htransactions : field? "transactions" fields =
        some (.list (transactions.map Transaction.toJson)) := by
      rw [← hfields]
      simp [field?]
    have hdefault : field? "default" fields = some (.bool isDefault) := by
      rw [← hfields]
      simp [field?]
    have hnodup : (fields.map Prod.fst).Nodup := by
      rw [← hfields]
      cases info <;> simp [optionalField]
    have hreadInfo := orDefault?_slot_optional (Info.ofTree? room) hinfo
      (fun i ↦ by simp [Info.toJson]) fun i hi ↦ Info.ofTree?_tree
        (depth_le_of_field? (by rw [hinfo, hi]; rfl) h)
    have hreadTransactions := listOf?_tree (depth_le_of_field? htransactions h)
      fun room tx htx hdepth ↦ Transaction.ofTree?_tree
        (fun s hs ↦ hc s (List.mem_flatMap.2 ⟨tx, htx, hs⟩)) hdepth
    rw [ofTree?, record?_tree hnodup]
    simp [hreadInfo, required?_slot hname (string?_tree name),
      orDefault?_slot htransactions hreadTransactions,
      orDefault?_slot hdefault (bool?_tree isDefault)]

theorem Components.ofTree?_tree {c : Components} (hc : ∀ s ∈ c.values, s.WellFormed)
    (h : (Components.toJson c).depth ≤ room) :
    Components.ofTree? room (tree (Components.toJson c)) = some c := by
  cases room with
  | zero => exact absurd h (Nat.not_succ_le_zero _)
  | succ room =>
    rw [toJson] at h ⊢
    generalize hfields : [("schemas", KeyMap.toJson id c)] = fields at h ⊢
    have hschemas : field? "schemas" fields = some (KeyMap.toJson id c) := by rw [← hfields]; rfl
    have hnodup : (fields.map Prod.fst).Nodup := by
      rw [← hfields]
      simp
    have hread := mapOf?_tree (depth_le_of_field? hschemas h)
      fun room e he hdepth ↦ toJson?_tree (hc e.2 (List.mem_map_of_mem he)) hdepth
    rw [ofTree?, record?_tree hnodup]
    simp [orDefault?_slot hschemas hread]

/-- **A document is read back from its tree**, where there is room for it. -/
theorem Document.ofTree?_tree {d : Document} (hd : d.WellFormed) (h : d.toJson.depth ≤ room) :
    ofTree? room (tree d.toJson) = some d := by
  cases room with
  | zero => exact absurd h (Nat.not_succ_le_zero _)
  | succ room =>
    obtain ⟨info, contracts, components⟩ := d
    rw [WellFormed, schemas, List.forall_mem_append] at hd
    rw [toJson] at h ⊢
    generalize hfields : optionalField "info" Info.toJson info ++
      [("contracts", KeyMap.toJson ContractEntry.toJson contracts),
        ("components", Components.toJson components)] = fields at h ⊢
    have hinfo : field? "info" fields = info.map Info.toJson := by
      rw [← hfields]
      simp [field?]
    have hcontracts : field? "contracts" fields =
        some (KeyMap.toJson ContractEntry.toJson contracts) := by
      rw [← hfields]
      simp [field?]
    have hcomponents : field? "components" fields = some (Components.toJson components) := by
      rw [← hfields]
      simp [field?]
    have hnodup : (fields.map Prod.fst).Nodup := by
      rw [← hfields]
      cases info <;> simp [optionalField]
    have hreadInfo := orDefault?_slot_optional (Info.ofTree? room) hinfo
      (fun i ↦ by simp [Info.toJson]) fun i hi ↦ Info.ofTree?_tree
        (depth_le_of_field? (by rw [hinfo, hi]; rfl) h)
    have hreadContracts := mapOf?_tree (depth_le_of_field? hcontracts h)
      fun room e he hdepth ↦ ContractEntry.ofTree?_tree
        (fun s hs ↦ hd.1 s (List.mem_flatMap.2 ⟨e.2, List.mem_map_of_mem he, hs⟩)) hdepth
    have hreadComponents := Components.ofTree?_tree hd.2 (depth_le_of_field? hcomponents h)
    rw [ofTree?, record?_tree hnodup]
    simp [hreadInfo, orDefault?_slot hcontracts hreadContracts,
      orDefault?_slot hcomponents hreadComponents]

end ContractHost
