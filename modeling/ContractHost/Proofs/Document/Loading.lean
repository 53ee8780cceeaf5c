import ContractHost.Document.Load
import ContractHost.Proofs.Document.RoundTrip
import ContractHost.Proofs.Text.Utf8

/-!
# Loading documents that were written

A document that is written is loaded as it was, and so is every document that has been loaded before
(`Document.load_toText`). For the latter, what has been read has to be fit to be read again: its
schemas are well formed, and it is not nested too deeply (`spec_of_ofTree?`). A record may have been
read without some of its fields, and these are written with their defaults, so the bound on its
depth is never less than the depth of the record without contents.
-/

namespace ContractHost

open Json

variable {α β : Type} {room : ℕ}

theorem KeyMap.mem_of_mem_ofList {l : List (String × α)} {e : String × α}
    (h : e ∈ (ofList l).entries) : e ∈ l := by
  induction l using List.reverseRecOn with
  | nil => cases h
  | append_singleton rest f ih =>
    rw [entries_ofList_concat] at h
    rw [List.mem_append, List.mem_singleton]
    exact (mem_insertEntry h).symm.imp ih id

/-! ### What a reader may have found in a slot -/

namespace Json

variable {read : Tree → Option α} {a default : α} {t : Tree} {s : Slot}

theorem required?_eq_some (h : s.required? read = some a) : ∃ t, read t = some a := by
  cases s with
  | given t => exact ⟨t, h⟩
  | _ => cases h

theorem orDefault?_eq_some (h : s.orDefault? read default = some a) :
    a = default ∨ ∃ t, read t = some a := by
  cases s with
  | given t => exact .inr ⟨t, h⟩
  | _ => exact .inl (Option.some.inj h).symm

theorem nullable?_eq_some {o : Option α} (h : Tree.nullable? read t = some o) :
    o = none ∨ ∃ a, o = some a ∧ read t = some a := by
  unfold Tree.nullable? at h
  split at h
  · exact .inl (Option.some.inj h).symm
  · obtain ⟨a, ha, rfl⟩ := Option.map_eq_some_iff.1 h
    exact .inr ⟨a, rfl, ha⟩

/-- A block that may be missing is nothing, or was read. -/
theorem orDefault?_nullable_eq_some {o : Option α}
    (h : s.orDefault? (Tree.nullable? read) none = some o) :
    ∀ a, o = some a → ∃ t, read t = some a := by
  rintro a rfl
  obtain h | ⟨t, ht⟩ := orDefault?_eq_some h
  · cases h
  · obtain h | ⟨a', heq, ht⟩ := nullable?_eq_some ht
    · cases h
    · cases heq
      exact ⟨t, ht⟩

theorem mem_of_mapM_eq_some {f : β → Option α} : ∀ {l : List β} {as : List α},
    l.mapM f = some as → ∀ a ∈ as, ∃ b, f b = some a
  | [], as, h, a, ha => by
    cases h
    cases ha
  | b :: rest, as, h, a, ha => by
    simp only [List.mapM_cons, Option.bind_eq_bind, Option.bind_eq_some_iff, Option.pure_def] at h
    obtain ⟨a', ha', as', has', heq⟩ := h
    cases heq
    rcases List.mem_cons.1 ha with rfl | ha
    · exact ⟨b, ha'⟩
    · exact mem_of_mapM_eq_some has' a ha

/-- The items of a list were read with one less room. -/
theorem listOf?_eq_some {read : ℕ → Tree → Option α} {as : List α}
    (h : Tree.listOf? read room t = some as) :
    ∃ inner, room = inner + 1 ∧ ∀ a ∈ as, ∃ t, read inner t = some a := by
  unfold Tree.listOf? at h
  split at h
  · next inner items => exact ⟨inner, rfl, mem_of_mapM_eq_some h⟩
  · cases h

/-- The entries of a map were read with one less room. -/
theorem mapOf?_eq_some {read : ℕ → Tree → Option α} {m : KeyMap α}
    (h : Tree.mapOf? read room t = some m) :
    ∃ inner, room = inner + 1 ∧ ∀ e ∈ m.entries, ∃ t, read inner t = some e.2 := by
  unfold Tree.mapOf? at h
  split at h
  · next inner members =>
    simp only [Option.bind_eq_bind, Option.bind_eq_some_iff, Option.pure_def,
      Option.some.injEq] at h
    obtain ⟨named, -, entries, hentries, rfl⟩ := h
    refine ⟨inner, rfl, fun e he ↦ ?_⟩
    obtain ⟨⟨k, t⟩, hread⟩ := mem_of_mapM_eq_some hentries e (KeyMap.mem_of_mem_ofList he)
    obtain ⟨a, ha, rfl⟩ := Option.map_eq_some_iff.1 hread
    exact ⟨t, ha⟩
  · cases h

/-- The items of a list that may be missing were read with one less room. -/
theorem mem_of_orDefault?_listOf? {read : ℕ → Tree → Option α} {as : List α}
    (h : s.orDefault? (Tree.listOf? read room) [] = some as) :
    ∀ a ∈ as, ∃ inner, room = inner + 1 ∧ ∃ t, read inner t = some a := by
  intro a ha
  obtain rfl | ⟨t, ht⟩ := orDefault?_eq_some h
  · cases ha
  · obtain ⟨inner, hroom, hall⟩ := listOf?_eq_some ht
    exact ⟨inner, hroom, hall a ha⟩

/-- The entries of a map that may be missing were read with one less room. -/
theorem mem_of_orDefault?_mapOf? {read : ℕ → Tree → Option α} {m : KeyMap α}
    (h : s.orDefault? (Tree.mapOf? read room) ∅ = some m) :
    ∀ e ∈ m.entries, ∃ inner, room = inner + 1 ∧ ∃ t, read inner t = some e.2 := by
  intro e he
  obtain rfl | ⟨t, ht⟩ := orDefault?_eq_some h
  · cases he
  · obtain ⟨inner, hroom, hall⟩ := mapOf?_eq_some ht
    exact ⟨inner, hroom, hall e he⟩

theorem mem_optionalField {name : String} {write : α → Json} {o : Option α} {f : String × Json}
    (h : f ∈ optionalField name write o) : ∃ a, o = some a ∧ f = (name, write a) := by
  cases o with
  | none => cases h
  | some a => exact ⟨a, rfl, List.mem_singleton.1 h⟩

/-- The depth of an object, from that of its fields. -/
theorem depth_object_le {fields : List (String × Json)} {n : ℕ}
    (h : ∀ f ∈ fields, f.2.depth ≤ max room n) : (object fields).depth ≤ max (room + 1) (n + 1) := by
  rw [max_add_add_right]
  exact Nat.succ_le_succ (depthFields_le h)

/-- The depth of a list, from that of what was read with one less room. -/
theorem depth_list_le {write : α → Json} {as : List α} {n : ℕ}
    (h : ∀ a ∈ as, ∃ inner, room = inner + 1 ∧ (write a).depth ≤ max inner n) :
    (list (as.map write)).depth ≤ max room (n + 1) := by
  rw [depth]
  have hitems : depthItems (as.map write) ≤ max room (n + 1) - 1 := by
    refine depthItems_le fun i hi ↦ ?_
    obtain ⟨a, ha, rfl⟩ := List.mem_map.1 hi
    obtain ⟨inner, rfl, hdepth⟩ := h a ha
    omega
  omega

/-- The depth of a map, from that of what was read with one less room. -/
theorem depth_map_le {write : α → Json} {m : KeyMap α} {n : ℕ}
    (h : ∀ e ∈ m.entries, ∃ inner, room = inner + 1 ∧ (write e.2).depth ≤ max inner n) :
    (m.toJson write).depth ≤ max room (n + 1) := by
  rw [KeyMap.toJson, depth]
  have hfields : depthFields (m.entries.map fun e ↦ (e.1, write e.2)) ≤
      max room (n + 1) - 1 := by
    refine depthFields_le fun f hf ↦ ?_
    obtain ⟨e, he, rfl⟩ := List.mem_map.1 hf
    obtain ⟨inner, rfl, hdepth⟩ := h e he
    show (write e.2).depth ≤ _
    omega
  omega

end Json

/-! ### Each record that is read -/

theorem Info.depth_le (i : Info) : i.toJson.depth ≤ 1 := by
  obtain ⟨title, version, description⟩ := i
  cases description <;> simp [toJson, optionalField, depth, depthFields]

theorem Parameter.spec_of_ofTree? {t : Tree} {p : Parameter} (h : ofTree? room t = some p) :
    p.schema.WellFormed ∧ p.toJson.depth ≤ room := by
  cases room with
  | zero => cases h
  | succ room =>
    simp only [ofTree?, Option.bind_eq_bind, Option.bind_eq_some_iff] at h
    obtain ⟨slots, -, h⟩ := h
    split at h
    · simp only [Option.bind_eq_some_iff, Option.pure_def, Option.some.injEq] at h
      obtain ⟨name, -, schema, hschema, rfl⟩ := h
      obtain ⟨t, ht⟩ := required?_eq_some hschema
      obtain ⟨hwf, hdepth⟩ := wellFormed_of_toJson? ht
      refine ⟨hwf, Nat.succ_le_succ (depthFields_le ?_)⟩
      simpa [depth] using hdepth
    · cases h

theorem Returns.spec_of_ofTree? {t : Tree} {r : Returns} (h : ofTree? room t = some r) :
    r.schema.WellFormed ∧ r.toJson.depth ≤ room := by
  cases room with
  | zero => cases h
  | succ room =>
    simp only [ofTree?, Option.bind_eq_bind, Option.bind_eq_some_iff] at h
    obtain ⟨slots, -, h⟩ := h
    split at h
    · simp only [Option.bind_eq_some_iff, Option.pure_def, Option.some.injEq] at h
      obtain ⟨schema, hschema, rfl⟩ := h
      obtain ⟨t, ht⟩ := required?_eq_some hschema
      obtain ⟨hwf, hdepth⟩ := wellFormed_of_toJson? ht
      refine ⟨hwf, Nat.succ_le_succ (depthFields_le ?_)⟩
      simpa using hdepth
    · cases h

theorem Transaction.spec_of_ofTree? {t : Tree} {tx : Transaction}
    (h : ofTree? room t = some tx) :
    (∀ s ∈ tx.schemas, s.WellFormed) ∧ tx.toJson.depth ≤ max room 2 := by
  cases room with
  | zero => cases h
  | succ room =>
    simp only [ofTree?, Option.bind_eq_bind, Option.bind_eq_some_iff] at h
    obtain ⟨slots, -, h⟩ := h
    split at h
    · simp only [Option.bind_eq_some_iff, Option.pure_def, Option.some.injEq] at h
      obtain ⟨parameters, hparameters, returns, hreturns, tag, htag, name, -, rfl⟩ := h
      have hparameters := mem_of_orDefault?_listOf? hparameters
      have hreturns := orDefault?_nullable_eq_some hreturns
      have htag := mem_of_orDefault?_listOf? htag
      constructor
      · refine List.forall_mem_append.2 ⟨fun s hs ↦ ?_, fun s hs ↦ ?_⟩
        · obtain ⟨p, hp, rfl⟩ := List.mem_map.1 hs
          obtain ⟨inner, -, t, ht⟩ := hparameters p hp
          exact (Parameter.spec_of_ofTree? ht).1
        · obtain ⟨r, hr, rfl⟩ := List.mem_map.1 hs
          obtain ⟨t, ht⟩ := hreturns r (Option.mem_toList.1 hr)
          exact (Returns.spec_of_ofTree? ht).1
      · have hlist : (list (parameters.map Parameter.toJson)).depth ≤ max room 1 :=
          depth_list_le fun p hp ↦ by
            obtain ⟨inner, hroom, t, ht⟩ := hparameters p hp
            exact ⟨inner, hroom, (Parameter.spec_of_ofTree? ht).2.trans (le_max_left _ _)⟩
        have htags : (list (tag.map string)).depth ≤ max room 1 :=
          depth_list_le fun s hs ↦ by
            obtain ⟨inner, hroom, -⟩ := htag s hs
            exact ⟨inner, hroom, Nat.zero_le _⟩
        refine depth_object_le fun f hf ↦ ?_
        simp only [List.mem_append] at hf
        rcases hf with ((hf | hf) | hf) | hf
        · obtain rfl := List.mem_singleton.1 hf
          exact hlist
        · obtain ⟨r, hr, rfl⟩ := mem_optionalField hf
          obtain ⟨t, ht⟩ := hreturns r hr
          exact (Returns.spec_of_ofTree? ht).2.trans (le_max_left _ _)
        · split at hf
          · cases hf
          · obtain rfl := List.mem_singleton.1 hf
            exact htags
        · obtain rfl := List.mem_singleton.1 hf
          exact Nat.zero_le _
    · cases h

theorem ContractEntry.spec_of_ofTree? {t : Tree} {c : ContractEntry}
    (h : ofTree? room t = some c) :
    (∀ s ∈ c.schemas, s.WellFormed) ∧ c.toJson.depth ≤ max room 4 := by
  cases room with
  | zero => cases h
  | succ room =>
    simp only [ofTree?, Option.bind_eq_bind, Option.bind_eq_some_iff] at h
    obtain ⟨slots, -, h⟩ := h
    split at h
    · simp only [Option.bind_eq_some_iff, Option.pure_def, Option.some.injEq] at h
      obtain ⟨info, -, name, -, transactions, htransactions, isDefault, -, rfl⟩ := h
      have htransactions := mem_of_orDefault?_listOf? htransactions
      constructor
      · intro s hs
        obtain ⟨tx, htx, hs⟩ := List.mem_flatMap.1 hs
        obtain ⟨inner, -, t, ht⟩ := htransactions tx htx
        exact (Transaction.spec_of_ofTree? ht).1 s hs
      · have hlist : (list (transactions.map Transaction.toJson)).depth ≤ max room 3 :=
          depth_list_le fun tx htx ↦ by
            obtain ⟨inner, hroom, t, ht⟩ := htransactions tx htx
            exact ⟨inner, hroom, (Transaction.spec_of_ofTree? ht).2⟩
        refine depth_object_le fun f hf ↦ ?_
        rcases List.mem_append.1 hf with hf | hf
        · obtain ⟨i, -, rfl⟩ := mem_optionalField hf
          exact i.depth_le.trans (le_max_of_le_right (by decide))
        · simp only [List.mem_cons, List.not_mem_nil, or_false] at hf
          rcases hf with rfl | rfl | rfl
          · exact Nat.zero_le _
          · exact hlist
          · exact Nat.zero_le _
    · cases h

theorem Components.spec_of_ofTree? {t : Tree} {c : Components}
    (h : Components.ofTree? room t = some c) :
    (∀ s ∈ c.values, s.WellFormed) ∧ (Components.toJson c).depth ≤ max room 2 := by
  cases room with
  | zero => cases h
  | succ room =>
    simp only [Components.ofTree?, Option.bind_eq_bind, Option.bind_eq_some_iff] at h
    obtain ⟨slots, -, h⟩ := h
    split at h
    · have hschemas := mem_of_orDefault?_mapOf? h
      constructor
      · intro s hs
        obtain ⟨e, he, rfl⟩ := List.mem_map.1 hs
        obtain ⟨inner, -, t, ht⟩ := hschemas e he
        exact (wellFormed_of_toJson? ht).1
      · have hmap : (KeyMap.toJson id c).depth ≤ max room 1 :=
          depth_map_le fun e he ↦ by
            obtain ⟨inner, hroom, t, ht⟩ := hschemas e he
            exact ⟨inner, hroom, (wellFormed_of_toJson? ht).2.trans (le_max_left _ _)⟩
        refine depth_object_le fun f hf ↦ ?_
        obtain rfl := List.mem_singleton.1 hf
        exact hmap
    · cases h

/-- **A document that is read is fit to be written and read again.** -/
theorem Document.spec_of_ofTree? {t : Tree} {d : Document} (h : ofTree? room t = some d) :
    d.WellFormed ∧ d.toJson.depth ≤ max room 6 := by
  cases room with
  | zero => cases h
  | succ room =>
    simp only [ofTree?, Option.bind_eq_bind, Option.bind_eq_some_iff] at h
    obtain ⟨slots, -, h⟩ := h
    split at h
    · simp only [Option.bind_eq_some_iff, Option.pure_def, Option.some.injEq] at h
      obtain ⟨info, -, contracts, hcontracts, components, hcomponents, rfl⟩ := h
      have hcontracts := mem_of_orDefault?_mapOf? hcontracts
      have hcomponents : (∀ s ∈ components.values, s.WellFormed) ∧
          (Components.toJson components).depth ≤ max room 2 := by
        obtain rfl | ⟨t, ht⟩ := orDefault?_eq_some hcomponents
        · exact ⟨fun _ hs ↦ absurd hs List.not_mem_nil, le_max_right _ _⟩
        · exact Components.spec_of_ofTree? ht
      constructor
      · refine List.forall_mem_append.2 ⟨fun s hs ↦ ?_, hcomponents.1⟩
        obtain ⟨c, hc, hs⟩ := List.mem_flatMap.1 hs
        obtain ⟨e, he, rfl⟩ := List.mem_map.1 hc
        obtain ⟨inner, -, t, ht⟩ := hcontracts e he
        exact (ContractEntry.spec_of_ofTree? ht).1 s hs
      · have hmap : (contracts.toJson ContractEntry.toJson).depth ≤ max room 5 :=
          depth_map_le fun e he ↦ by
            obtain ⟨inner, hroom, t, ht⟩ := hcontracts e he
            exact ⟨inner, hroom, (ContractEntry.spec_of_ofTree? ht).2⟩
        refine depth_object_le fun f hf ↦ ?_
        rcases List.mem_append.1 hf with hf | hf
        · obtain ⟨i, -, rfl⟩ := mem_optionalField hf
          exact i.depth_le.trans (le_max_of_le_right (by decide))
        · simp only [List.mem_cons, List.not_mem_nil, or_false] at hf
          rcases hf with rfl | rfl
          · exact hmap
          · exact hcomponents.2.trans (max_le_max le_rfl (by decide))
    · cases h

/-! ### Loading -/

theorem Utf8.strict?_map_some (cs : List Char) : strict? (cs.map some) = some cs := by
  unfold strict?
  induction cs with
  | nil => rfl
  | cons c cs ih => simp [ih]

namespace Document

/-- A document that is fit to be read again is loaded from its text. -/
theorem load_encode {d : Document} (hd : d.WellFormed) (hdepth : d.toJson.depth ≤ maxDepth) :
    load (.ok (Utf8.encode d.toText.toList)) = .ok d := by
  have hread : read? ((write d.toJson).map some) = some d := by
    rw [read?, (spells_tree d.toJson).parse?]
    exact ofTree?_tree hd hdepth
  have htext : d.toText.toList = write d.toJson := by
    rw [toText, Json.toText, String.toList_ofList]
  have hfile : FileView.text (.ok (Utf8.encode d.toText.toList)) = .ok (write d.toJson) := by
    rw [htext, FileView.text, Utf8.decode_encode, Utf8.strict?_map_some]
  rw [load, hfile]
  dsimp only
  rw [hread]

/-- A document that was loaded is fit to be read again. -/
theorem wellFormed_of_load {content : Except FileError (List UInt8)} {d : Document}
    (h : load content = .ok d) : d.WellFormed ∧ d.toJson.depth ≤ maxDepth := by
  unfold load at h
  split at h
  · cases h
  · split at h
    · cases h
    · next d' hd' =>
      cases h
      obtain ⟨t, -, ht⟩ := Option.bind_eq_some_iff.1 hd'
      exact spec_of_ofTree? ht

/-- **Documents survive being written and loaded.** A document whose schemas are well formed, and
which is not nested more deeply than a reader goes, is loaded from its text as it was; and so is
every document that has been loaded from anywhere. -/
theorem load_toText :
    (∀ d : Document, d.WellFormed → d.toJson.depth ≤ maxDepth →
      load (.ok (Utf8.encode d.toText.toList)) = .ok d) ∧
    ∀ content d, load content = .ok d → load (.ok (Utf8.encode d.toText.toList)) = .ok d :=
  ⟨fun _ hd hdepth ↦ load_encode hd hdepth, fun _ _ h ↦
    let ⟨hd, hdepth⟩ := wellFormed_of_load h
    load_encode hd hdepth⟩

/-- A document with a success value whose schema is `null`. -/
def nullSchema : Document :=
  ⟨none, KeyMap.empty.insert "Shop" ⟨none, "Shop", [⟨[], some ⟨.null⟩, [], "Open"⟩], false⟩, ∅⟩

theorem load_toText_nullSchema :
    nullSchema.WellFormed ∧ nullSchema.toJson.depth ≤ maxDepth ∧
      load (.ok (Utf8.encode nullSchema.toText.toList)) = .ok nullSchema := by
  have hwf : nullSchema.WellFormed := by
    intro s hs
    obtain rfl := List.mem_singleton.1 (show s ∈ [Json.null] from hs)
    trivial
  have hdepth : nullSchema.toJson.depth ≤ maxDepth := by decide
  exact ⟨hwf, hdepth, load_toText.2 _ nullSchema (load_toText.1 nullSchema hwf hdepth)⟩

end Document

end ContractHost
