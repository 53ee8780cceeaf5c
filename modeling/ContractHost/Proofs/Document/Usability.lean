import ContractHost.Proofs.Document.Generation
import ContractHost.Proofs.Json.Fields
import ContractHost.Proofs.Schema.Cycles

/-!
# Generated schemas can be used

A table of components is **self-contained** (`Components.SelfContained`) when all that its
components refer to is in the table, and none of them refers to another one in place. Such a table
ranks its components in any order, so a schema that asks only for what is in the table can be used
with it (`Components.SelfContained.compile`).

Tables that are generated are self-contained, in two ways:

* Where records of one name are the same everywhere, a generated schema describes its type, and what
  describes a type asks only for components that are there (`Ty.DescribedBy.compile`).
* Nothing has to be known of the types at all. Describing a type puts a component in only after the
  schemas of its fields are there, and never takes one out, so a self-contained table stays
  self-contained (`Ty.registers_schema`). From the empty table on, **every schema and every
  component can be used from then on**, and describing a type again changes nothing
  (`Ty.registry_usable`).

In the second case a component may be of another record of the same name than the one described: a
record that is inside a record of its own name is put in first and then replaced. What is asked of
the table depends on its names alone, so this does no harm.
-/

namespace ContractHost

open Schema

variable {components components' : Components}

/-! ### References to components -/

theorem componentName?_reference (name : String) :
    componentName? (referencePrefix ++ name) = some name := by
  unfold componentName?
  dsimp only
  rw [String.toList_append, if_pos (List.isPrefixOf_iff_prefix.2 (List.prefix_append _ _)),
    List.drop_left, String.ofList_toList]

theorem resolve?_reference (name : String) :
    resolve? components (referencePrefix ++ name) = components.get? name := by
  rw [resolve?, componentName?_reference]
  rfl

theorem reference_injective : Function.Injective (referencePrefix ++ ·) := fun name name' h ↦ by
  have hsome : some name = some name' := by
    rw [← componentName?_reference name, ← componentName?_reference name']
    exact congrArg componentName? h
  exact Option.some.inj hsome

namespace Components

/-- The references to the components of a table. -/
def references (components : Components) : List String :=
  components.keys.map (referencePrefix ++ ·)

/-- All that a schema refers to is in the table, and the schema is not at fault. -/
def Meets (components : Components) (s : Json) : Prop :=
  ∀ o ∈ obligations s, Met components.references o

/-- What a schema asks of a table depends on the names in the table alone. -/
theorem Meets.mono {s : Json} (hkeys : components.keys ⊆ components'.keys)
    (h : components.Meets s) : components'.Meets s :=
  fun o ho ↦ (h o ho).mono (List.map_subset _ hkeys)

/-- A schema that asks for what another one asks for. -/
theorem Meets.of_eq {s s' : Json} (hs : obligations s' = obligations s) (h : components.Meets s) :
    components.Meets s' :=
  fun o ho ↦ h o (hs ▸ ho)

theorem meets_of_nil {s : Json} (hs : obligations s = []) : components.Meets s :=
  fun _ ho ↦ absurd (hs ▸ ho) List.not_mem_nil

theorem meets_referenceSchema {name : String} (h : name ∈ components.keys) :
    components.Meets (referenceSchema name) := by
  intro o ho
  obtain rfl := List.mem_singleton.1 (show o ∈ [.reference (referencePrefix ++ name)] from ho)
  exact List.mem_map_of_mem h

/-! ### Self-contained tables -/

/-- All that the components of a table refer to is in the table, and nothing is referred to in
place. -/
structure SelfContained (components : Components) : Prop where
  meets : ∀ {name c}, components.get? name = some c → components.Meets c
  inPlace : ∀ {name c}, components.get? name = some c → inPlace c = []

namespace SelfContained

theorem empty : SelfContained ∅ :=
  ⟨(nomatch ·), (nomatch ·)⟩

/-- Everything that a component asks for is met. -/
theorem closed (h : components.SelfContained) : Closed components components.references := by
  intro r hr
  obtain ⟨name, hname, rfl⟩ := List.mem_map.1 hr
  obtain ⟨c, hget⟩ := KeyMap.exists_get?_iff.2 hname
  exact ⟨c, (resolve?_reference name).trans hget, h.meets hget⟩

/-- No component refers to another one in place, so the components are ranked in any order. -/
theorem ranked (h : components.SelfContained) : Ranked components components.references := by
  have hsome : ∀ names : List String, names.Nodup → names ⊆ components.keys →
      Ranked components (names.map (referencePrefix ++ ·)) := by
    intro names
    induction names with
    | nil => exact fun _ _ ↦ .nil
    | cons name rest ih =>
      intro hnodup hkeys
      obtain ⟨hnew, hnodup⟩ := List.nodup_cons.1 hnodup
      obtain ⟨hname, hkeys⟩ := List.cons_subset.1 hkeys
      obtain ⟨c, hget⟩ := KeyMap.exists_get?_iff.2 hname
      refine .cons (ih hnodup hkeys) ((resolve?_reference name).trans hget) (fun hmem ↦ ?_) ?_
      · exact hnew ((List.mem_map_of_injective reference_injective).1 hmem)
      · rw [h.inPlace hget]
        exact List.nil_subset _
  exact hsome _ components.nodup_keys (List.Subset.refl _)

/-- **A schema can be used** with a self-contained table that has what the schema asks for. -/
theorem compile (h : components.SelfContained) {s : Json} (hs : components.Meets s) :
    Schema.compile s components = .ok ⟨s, components⟩ :=
  compile_of_ranked h.closed h.ranked hs

end SelfContained

end Components

/-! ### What the schemas of types ask for -/

theorem Scalar.obligations_schema (s : Scalar) : obligations s.schema = [] := by
  cases s with
  | integer k => cases k <;> rfl
  | _ => rfl

/-- A schema with one schema inside asks for what that one asks for. -/
theorem obligations_of_parts {fields : List (String × Json)} {s : Json}
    (h : parts fields = [.schema s]) : obligations (.object fields) = obligations s := by
  rw [obligations_object, h, List.flatMap_singleton]
  rfl

theorem obligations_listSchema (items : Json) :
    obligations (.object [("type", .string "array"), ("items", items)]) = obligations items :=
  obligations_of_parts rfl

theorem obligations_arraySchema (items : Json) (n : ℕ) :
    obligations (.object [("type", .string "array"), ("items", items), ("minItems", .int n),
      ("maxItems", .int n)]) = obligations items :=
  obligations_of_parts rfl

theorem obligations_mapSchema (values : Json) :
    obligations (.object [("type", .string "object"), ("additionalProperties", values)]) =
      obligations values :=
  obligations_of_parts rfl

theorem obligations_optionalSchema (s : Json) :
    obligations (.object [("anyOf", .list [s, .object [("type", .string "null")]])]) =
      obligations s := by
  have hparts : parts [("anyOf", .list [s, .object [("type", .string "null")]])] =
      [.schema s, .schema (.object [("type", .string "null")])] := rfl
  rw [obligations_object, hparts, List.flatMap_cons, List.flatMap_singleton]
  exact List.append_nil (obligations s)

/-- The schema of a record asks for nothing but what the schemas of its fields ask for. -/
theorem obligations_recordSchema (name : String) (described : List (String × Json))
    (required : List String) :
    obligations (recordSchema name described required) =
      described.flatMap fun p ↦ obligations p.2 := by
  have hrequired : (required.map Json.string).all Json.isString = true := by
    rw [List.all_eq_true]
    intro j hj
    obtain ⟨k, -, rfl⟩ := List.mem_map.1 hj
    rfl
  have hparts : parts [("$id", .string name), ("type", .string "object"),
      ("properties", .object described), ("required", .list (required.map .string)),
      ("additionalProperties", .bool false)] =
    (described.map fun p ↦ Part.schema p.2) ++
      (demand ((required.map Json.string).all Json.isString)
        (.malformed "required" "a list of strings") ++ []).map .obligation ++ [] ++ [] ++
      [.schema (.bool false)] ++ [] ++ [] ++ [] ++ [] := rfl
  rw [recordSchema, obligations_object, hparts, hrequired, ← obligationsOfFields_eq]
  simp [demand, obligationsOfFields_eq, Part.obligations, obligations, List.flatMap_map]

theorem Components.meets_recordSchema {name : String} {described : List (String × Json)}
    {required : List String} (h : ∀ p ∈ described, components.Meets p.2) :
    components.Meets (recordSchema name described required) := by
  intro o ho
  rw [obligations_recordSchema] at ho
  obtain ⟨p, hp, ho⟩ := List.mem_flatMap.1 ho
  exact h p hp o ho

/-! ### Schemas that describe their types -/

namespace Ty

mutual

/-- A generated schema refers to components that are there, and is not at fault. -/
theorem DescribedBy.meets : ∀ {t : Ty} {s : Json}, t.DescribedBy components s → components.Meets s
  | .scalar t, s, h => by
    rw [DescribedBy] at h
    exact h ▸ Components.meets_of_nil t.obligations_schema
  | .array elem n, s, h => by
    rw [DescribedBy] at h
    obtain ⟨items, hitems, rfl⟩ := h
    exact hitems.meets.of_eq (obligations_arraySchema items n)
  | .list elem, s, h => by
    rw [DescribedBy] at h
    obtain ⟨items, hitems, rfl⟩ := h
    exact hitems.meets.of_eq (obligations_listSchema items)
  | .map _ _ value, s, h => by
    rw [DescribedBy] at h
    obtain ⟨values, hvalues, rfl⟩ := h
    exact hvalues.meets.of_eq (obligations_mapSchema values)
  | .optional inner, s, h => by
    rw [DescribedBy] at h
    obtain ⟨inside, hinside, rfl⟩ := h
    exact hinside.meets.of_eq (obligations_optionalSchema inside)
  | .record name fields, s, h => by
    rw [DescribedBy] at h
    obtain ⟨rfl, described, -, hget⟩ := h
    exact Components.meets_referenceSchema (KeyMap.exists_get?_iff.1 ⟨_, hget⟩)
  | .any, s, h => by
    rw [DescribedBy] at h
    exact h ▸ Components.meets_of_nil rfl
  | .error, s, h => by
    rw [DescribedBy] at h
    exact h ▸ Components.meets_of_nil rfl
  | .named _, s, h => by
    rw [DescribedBy] at h
    exact h ▸ Components.meets_of_nil rfl

theorem FieldsDescribedBy.meets :
    ∀ {fields : List (String × Ty)} {described : List (String × Json)},
      FieldsDescribedBy components fields described → ∀ p ∈ described, components.Meets p.2
  | [], [], _ => fun _ hp ↦ absurd hp List.not_mem_nil
  | (_, _) :: _, (_, _) :: _, h => by
    rw [FieldsDescribedBy] at h
    exact List.forall_mem_cons.2 ⟨h.2.1.meets, h.2.2.meets⟩

end

end Ty

variable {known : List RecordType}

/-- Components that describe known records are self-contained. -/
theorem Components.Sound.selfContained (h : components.Sound known) :
    components.SelfContained := by
  refine ⟨fun {name c} hget ↦ ?_, fun {name c} hget ↦ ?_⟩
  · obtain ⟨fields, described, -, hdescribed, rfl⟩ := h name c hget
    exact meets_recordSchema fun p hp ↦ hdescribed.meets p (Json.mem_of_mem_collect hp)
  · obtain ⟨fields, described, -, -, rfl⟩ := h name c hget
    rfl

/-- **A generated schema can be used** with the components that were generated. -/
theorem Ty.DescribedBy.compile {t : Ty} {s : Json} (h : t.DescribedBy components s)
    (hsound : components.Sound known) : Schema.compile s components = .ok ⟨s, components⟩ :=
  hsound.selfContained.compile h.meets

/-! ### Describing any types -/

namespace Components

/-- A table has grown into a self-contained one that has what some schemas ask for. -/
structure Serves (components components' : Components) (schemas : List Json) : Prop where
  keeps : ∀ {name c}, components.get? name = some c → components'.get? name = some c
  selfContained : components'.SelfContained
  meets : ∀ s ∈ schemas, components'.Meets s

namespace Serves

variable {schemas : List Json} {components'' : Components}

theorem keys_subset (h : components.Serves components' schemas) :
    components.keys ⊆ components'.keys := by
  intro name hname
  obtain ⟨c, hget⟩ := KeyMap.exists_get?_iff.2 hname
  exact KeyMap.exists_get?_iff.1 ⟨c, h.keeps hget⟩

theorem refl (h : components.SelfContained) (hmeets : ∀ s ∈ schemas, components.Meets s) :
    components.Serves components schemas :=
  ⟨id, h, hmeets⟩

/-- What a table has for some schemas, it still has after it has grown. -/
theorem trans {schemas' : List Json} (h : components.Serves components' schemas)
    (h' : components'.Serves components'' schemas') :
    components.Serves components'' (schemas ++ schemas') := by
  refine ⟨fun hget ↦ h'.keeps (h.keeps hget), h'.selfContained, fun s hs ↦ ?_⟩
  rcases List.mem_append.1 hs with hs | hs
  · exact (h.meets s hs).mono h'.keys_subset
  · exact h'.meets s hs

end Serves

/-- A component may be put in once the table has what it asks for. A component of that name that has
come into the table meanwhile is replaced, which nothing that is asked for can tell. -/
theorem Serves.insert {described : List (String × Json)}
    (h : components.Serves components' (described.map Prod.snd)) {name : String}
    (required : List String) (hnew : components.get? name = none) :
    components.Serves (components'.insert name (recordSchema name described required))
      [referenceSchema name] := by
  have hkeys : components'.keys ⊆
      (components'.insert name (recordSchema name described required)).keys := by
    intro name' hname'
    obtain ⟨c, hget⟩ := KeyMap.exists_get?_iff.2 hname'
    refine KeyMap.exists_get?_iff.1 ?_
    rw [KeyMap.get?_insert]
    by_cases heq : name = name'
    · exact ⟨_, if_pos heq⟩
    · exact ⟨c, (if_neg heq).trans hget⟩
  -- A component of the new table is the new one, or one of the old table.
  have hcases : ∀ {name' c}, (components'.insert name
      (recordSchema name described required)).get? name' = some c →
        c = recordSchema name described required ∨ components'.get? name' = some c := by
    intro name' c hget
    rw [KeyMap.get?_insert] at hget
    split at hget
    · exact .inl (Option.some.inj hget).symm
    · exact .inr hget
  have hrecord : components'.Meets (recordSchema name described required) :=
    meets_recordSchema fun p hp ↦ h.meets p.2 (List.mem_map_of_mem hp)
  refine ⟨fun {name' c} hget ↦ ?_, ⟨fun hget ↦ ?_, fun hget ↦ ?_⟩, fun s hs ↦ ?_⟩
  · have hne : name ≠ name' := by
      rintro rfl
      cases hnew.symm.trans hget
    rw [KeyMap.get?_insert_of_ne _ _ hne]
    exact h.keeps hget
  · rcases hcases hget with rfl | hget
    · exact hrecord.mono hkeys
    · exact (h.selfContained.meets hget).mono hkeys
  · rcases hcases hget with rfl | hget
    · rfl
    · exact h.selfContained.inPlace hget
  · obtain rfl := List.mem_singleton.1 hs
    exact meets_referenceSchema (KeyMap.exists_get?_iff.1 ⟨_, KeyMap.get?_insert_self _ _ _⟩)

end Components

namespace Ty

/-- What describing a type does to a self-contained table. Describing the type again gives the same
schema, and changes no table that has at least the names that were there then. -/
structure Registers (t : Ty) (components : Components) (s : Json) (components' : Components) :
    Prop where
  serves : components.Serves components' [s]
  again : ∀ {later : Components}, components'.keys ⊆ later.keys → t.schema later = (s, later)

namespace Registers

variable {t elem : Ty} {s wrapped : Json}

/-- A type without records inside leaves the table as it is. -/
theorem of_const (hcomponents : components.SelfContained)
    (ht : ∀ later, t.schema later = (s, later)) (hs : obligations s = []) :
    t.Registers components s components := by
  refine ⟨.refl hcomponents fun s' hs' ↦ ?_, fun _ ↦ ht _⟩
  obtain rfl := List.mem_singleton.1 hs'
  exact Components.meets_of_nil hs

/-- A type that wraps another one does to the table what the other one does. -/
theorem wrap (h : elem.Registers components s components')
    (ht : ∀ {later}, elem.schema later = (s, later) → t.schema later = (wrapped, later))
    (hwrapped : obligations wrapped = obligations s) :
    t.Registers components wrapped components' := by
  refine ⟨⟨h.serves.keeps, h.serves.selfContained, fun s' hs' ↦ ?_⟩, fun hkeys ↦ ht (h.again hkeys)⟩
  obtain rfl := List.mem_singleton.1 hs'
  exact (h.serves.meets s List.mem_cons_self).of_eq hwrapped

end Registers

mutual

/-- **Describing a type**, whatever it is, leaves a self-contained table self-contained, and the
schema asks only for what is there. -/
theorem registers_schema : ∀ (t : Ty) (components : Components), components.SelfContained →
    t.Registers components (t.schema components).1 (t.schema components).2
  | .scalar s, components, hcomponents => by
    have ht : ∀ later, (Ty.scalar s).schema later = (s.schema, later) := fun _ ↦ by rw [schema]
    rw [ht]
    exact .of_const hcomponents ht s.obligations_schema
  | .array elem n, components, hcomponents => by
    rw [schema]
    exact (registers_schema elem components hcomponents).wrap
      (fun helem ↦ by rw [schema, helem]) (obligations_arraySchema _ n)
  | .list elem, components, hcomponents => by
    rw [schema]
    exact (registers_schema elem components hcomponents).wrap
      (fun helem ↦ by rw [schema, helem]) (obligations_listSchema _)
  | .map _ _ value, components, hcomponents => by
    rw [schema]
    exact (registers_schema value components hcomponents).wrap
      (fun hvalue ↦ by rw [schema, hvalue]) (obligations_mapSchema _)
  | .optional inner, components, hcomponents => by
    rw [schema]
    exact (registers_schema inner components hcomponents).wrap
      (fun hinner ↦ by rw [schema, hinner]) (obligations_optionalSchema _)
  | .record name fields, components, hcomponents => by
    -- Once its name is in the table, a record is described by a reference.
    have hagain : ∀ {later : Components}, name ∈ later.keys →
        (Ty.record name fields).schema later = (referenceSchema name, later) := by
      intro later hname
      obtain ⟨c, hget⟩ := KeyMap.exists_get?_iff.2 hname
      rw [schema, if_pos (by rw [KeyMap.contains, hget]; rfl)]
    by_cases hname : name ∈ components.keys
    · rw [hagain hname]
      refine ⟨.refl hcomponents fun s hs ↦ ?_, fun hkeys ↦ hagain (hkeys hname)⟩
      obtain rfl := List.mem_singleton.1 hs
      exact Components.meets_referenceSchema hname
    · have hnew : components.get? name = none := by
        rw [Option.eq_none_iff_forall_ne_some]
        exact fun c hget ↦ hname (KeyMap.exists_get?_iff.1 ⟨c, hget⟩)
      have hfields := serves_properties fields [] components hcomponents nofun
      rw [schema, if_neg (by rw [KeyMap.contains, hnew]; decide)]
      exact ⟨hfields.insert _ hnew, fun hkeys ↦
        hagain (hkeys (KeyMap.exists_get?_iff.1 ⟨_, KeyMap.get?_insert_self _ _ _⟩))⟩
  | .any, components, hcomponents => by
    have ht : ∀ later, Ty.any.schema later = (.object [], later) := fun _ ↦ by rw [schema]
    rw [ht]
    exact .of_const hcomponents ht rfl
  | .error, components, hcomponents => by
    have ht : ∀ later, Ty.error.schema later = (.object [], later) := fun _ ↦ by rw [schema]
    rw [ht]
    exact .of_const hcomponents ht rfl
  | .named name, components, hcomponents => by
    have ht : ∀ later, (Ty.named name).schema later = (.object [], later) :=
      fun _ ↦ by rw [schema]
    rw [ht]
    exact .of_const hcomponents ht rfl

/-- Describing the fields of a record, behind properties that are there already. -/
theorem serves_properties : ∀ (fields : List (String × Ty)) (done : List (String × Json))
    (components : Components), components.SelfContained →
      (∀ s ∈ done.map Prod.snd, components.Meets s) →
      components.Serves (properties fields done components).2
        ((properties fields done components).1.map Prod.snd)
  | [], done, components, hcomponents, hdone => by
    rw [properties]
    exact .refl hcomponents hdone
  | (name, t) :: rest, done, components, hcomponents, hdone => by
    have ht := (registers_schema t components hcomponents).serves
    have hdone' : ∀ s ∈ (Json.setField name (t.schema components).1 done).map Prod.snd,
        (t.schema components).2.Meets s := by
      intro s hs
      obtain ⟨p, hp, rfl⟩ := List.mem_map.1 hs
      rcases Json.mem_of_mem_setField hp with rfl | hp
      · exact ht.meets _ List.mem_cons_self
      · exact (hdone p.2 (List.mem_map_of_mem hp)).mono ht.keys_subset
    have hrest := serves_properties rest _ _ ht.selfContained hdone'
    rw [properties]
    exact ⟨fun hget ↦ hrest.keeps (ht.keeps hget), hrest.selfContained, hrest.meets⟩

end

/-- Describing types one after the other. -/
theorem registers_schemas (types : List Ty) (components : Components)
    (hcomponents : components.SelfContained) :
    components.Serves (schemas types components).2 (schemas types components).1 ∧
      List.Forall₂ (fun t s ↦ ∀ {later : Components},
        (schemas types components).2.keys ⊆ later.keys → t.schema later = (s, later)) types
          (schemas types components).1 := by
  induction types generalizing components with
  | nil =>
    rw [schemas]
    exact ⟨.refl hcomponents fun _ hs ↦ absurd hs List.not_mem_nil, .nil⟩
  | cons t rest ih =>
    have ht := registers_schema t components hcomponents
    obtain ⟨hrest, hagain⟩ := ih _ ht.serves.selfContained
    rw [schemas]
    exact ⟨ht.serves.trans hrest,
      .cons (fun hkeys ↦ ht.again fun _ hname ↦ hkeys (hrest.keys_subset hname)) hagain⟩

/-- The table after types have been described one after the other, from the empty table on. -/
def registry (types : List Ty) : Components :=
  (schemas types ∅).2

theorem schemas_append (types later : List Ty) (components : Components) :
    schemas (types ++ later) components =
      ((schemas types components).1 ++ (schemas later (schemas types components).2).1,
        (schemas later (schemas types components).2).2) := by
  induction types generalizing components with
  | nil => rfl
  | cons t rest ih =>
    rw [List.cons_append, schemas, schemas]
    dsimp only
    rw [ih]
    rfl

/-- A registry grows while more types are described. -/
theorem registry_serves (types later : List Ty) :
    (registry types).Serves (registry (types ++ later)) (schemas types ∅).1 := by
  obtain ⟨htypes, -⟩ := registers_schemas types ∅ .empty
  obtain ⟨hlater, -⟩ := registers_schemas later (registry types) htypes.selfContained
  rw [registry, registry, schemas_append]
  exact ⟨hlater.keeps, hlater.selfContained, fun s hs ↦ (htypes.meets s hs).mono hlater.keys_subset⟩

/-- **Generated schemas and components can be used from then on.** While more types are described, a
component is not changed and can be used; and so can the schema of each type, which describing the
type again gives back without a change to the registry. -/
theorem registry_usable (types later : List Ty) :
    (∀ name c, (registry types).get? name = some c →
      (registry (types ++ later)).get? name = some c ∧
        Schema.compile c (registry (types ++ later)) = .ok ⟨c, registry (types ++ later)⟩) ∧
      List.Forall₂ (fun t s ↦
        Schema.compile s (registry (types ++ later)) = .ok ⟨s, registry (types ++ later)⟩ ∧
          t.schema (registry (types ++ later)) = (s, registry (types ++ later)))
        types (schemas types ∅).1 := by
  have hserves := registry_serves types later
  obtain ⟨-, hagain⟩ := registers_schemas types ∅ .empty
  refine ⟨fun name c hget ↦ ?_, ?_⟩
  · have hkept := hserves.keeps hget
    exact ⟨hkept, hserves.selfContained.compile (hserves.selfContained.meets hkept)⟩
  · have hmeets := hserves.meets
    rw [List.forall₂_iff_get] at hagain ⊢
    refine ⟨hagain.1, fun i hi hi' ↦ ⟨?_, hagain.2 i hi hi' hserves.keys_subset⟩⟩
    exact hserves.selfContained.compile (hmeets _ (List.get_mem _ _))

/-- A record inside a record of its own name gives way to the outer one. -/
theorem registry_usable_nested :
    ∃ c, (registry [.record "Node" [("next", .record "Node" [])]]).get? "Node" = some c ∧
      (registry [.record "Node" [("next", .record "Node" [])], .list (.record "Node" [])]).get?
          "Node" = some c ∧
        Schema.compile c
            (registry [.record "Node" [("next", .record "Node" [])], .list (.record "Node" [])]) =
          .ok ⟨c,
            registry [.record "Node" [("next", .record "Node" [])], .list (.record "Node" [])]⟩ :=
  ⟨recordSchema "Node" [("next", referenceSchema "Node")] ["next"], rfl,
    (registry_usable [.record "Node" [("next", .record "Node" [])]]
      [.list (.record "Node" [])]).1 "Node" _ rfl⟩

end Ty

end ContractHost
