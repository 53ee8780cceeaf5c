import ContractHost.Proofs.Schema.Semantics

/-!
# Keywords of the right kind

What the walk over a schema demands of it is said here without the walk. The keywords of an object
are **of the right kind** (`Schema.KeywordsTyped`) if each keyword that is read holds the kind of
document it is read as, the names under `type` are those of JSON types, and a reference names a
component (`Schema.Names`). A schema is of the right kind (`Schema.WellKinded`) if it is a truth
value or such an object; nothing is said of the schemas under its keywords.

Those are its **subschemas** (`Schema.Subschema`), and what a schema **covers** (`Schema.Covers`) is
what it reaches through subschemas and references. Both are read off the keywords, and agree with
the parts of a schema and with what it reaches (`schema_mem_parts_iff`, `covers_iff_reached`).

**A schema meets its demands exactly if everything it covers is of the right kind**: one lemma for
each keyword says when it demands something that is not met, `keywordsTyped_iff` puts them together
for one object, and `obligation_of_wellKinded` goes down into the subschemas.
-/

namespace ContractHost

namespace Schema

variable {components : Components} {fields : List (String × Json)} {root s : Json}

/-! ### Kinds of documents -/

/-- A reference names a component, and this is its schema. -/
def Names (components : Components) (r : String) (t : Json) : Prop :=
  ∃ name, r = referencePrefix ++ name ∧ components.get? name = some t

/-- A document is the name of a JSON type. -/
def IsTypeName (j : Json) : Prop :=
  ∃ name ∈ typeNames, j = .string name

/-- The keywords that hold the schemas an instance is combined from. -/
def combinators : List String :=
  ["allOf", "anyOf", "oneOf"]

/-- The keywords of a schema hold what they are read as. -/
structure KeywordsTyped (components : Components) (fields : List (String × Json)) : Prop where
  reference : ∀ j, Json.field? "$ref" fields = some j → ∃ r t, j = .string r ∧ Names components r t
  type : ∀ j, Json.field? "type" fields = some j →
    IsTypeName j ∨ ∃ names, j = .list names ∧ ∀ name ∈ names, IsTypeName name
  properties : ∀ j, Json.field? "properties" fields = some j → ∃ described, j = .object described
  required : ∀ j, Json.field? "required" fields = some j →
    ∃ names, j = .list names ∧ ∀ name ∈ names, ∃ text, name = .string text
  enum : ∀ j, Json.field? "enum" fields = some j → ∃ options, j = .list options
  combined : ∀ keyword ∈ combinators, ∀ j, Json.field? keyword fields = some j →
    ∃ schemas, j = .list schemas ∧ schemas ≠ []
  bounds : ∀ keyword ∈ boundKeywords, ∀ j, Json.field? keyword fields = some j →
    (∃ n, j = .int n) ∨ ∃ x, j = .float x
  counts : ∀ keyword ∈ countKeywords, ∀ j, Json.field? keyword fields = some j →
    ∃ n : ℕ, j = .int n

/-- A schema is a truth value, or an object whose keywords hold what they are read as. -/
inductive WellKinded (components : Components) : Json → Prop
  | bool (b : Bool) : WellKinded components (.bool b)
  | object {fields : List (String × Json)} (h : KeywordsTyped components fields) :
      WellKinded components (.object fields)

/-! ### Subschemas -/

/-- A schema stands under a keyword of another. -/
inductive Subschema (fields : List (String × Json)) : Json → Prop
  | property {described : List (String × Json)} {name : String} {s : Json}
      (h : Json.field? "properties" fields = some (.object described))
      (hs : (name, s) ∈ described) : Subschema fields s
  | under {keyword : String} {s : Json} (hk : keyword ∈ ["items", "not", "additionalProperties"])
      (h : Json.field? keyword fields = some s) : Subschema fields s
  | among {keyword : String} {schemas : List Json} {s : Json} (hk : keyword ∈ combinators)
      (h : Json.field? keyword fields = some (.list schemas)) (hs : s ∈ schemas) :
      Subschema fields s

/-- What a schema reaches through subschemas and references. -/
inductive Covers (components : Components) (root : Json) : Json → Prop
  | root : Covers components root root
  | subschema {fields : List (String × Json)} {s : Json}
      (h : Covers components root (.object fields)) (hs : Subschema fields s) :
      Covers components root s
  | target {fields : List (String × Json)} {r : String} {t : Json}
      (h : Covers components root (.object fields))
      (hr : Json.field? "$ref" fields = some (.string r)) (ht : Names components r t) :
      Covers components root t

/-! ### References -/

theorem componentName?_eq_some_iff {r name : String} :
    componentName? r = some name ↔ r = referencePrefix ++ name := by
  rw [← String.toList_inj, String.toList_append]
  unfold componentName?
  dsimp only
  constructor
  · intro h
    split at h
    · next hpre =>
      obtain ⟨rest, hrest⟩ := List.isPrefixOf_iff_prefix.1 hpre
      cases h
      rw [← hrest, List.drop_left, String.toList_ofList]
    · cases h
  · intro h
    have hpre : referencePrefix.toList.isPrefixOf r.toList = true :=
      List.isPrefixOf_iff_prefix.2 ⟨name.toList, h.symm⟩
    rw [if_pos hpre, h, List.drop_left, String.ofList_toList]

theorem resolve?_eq_some_iff {r : String} {t : Json} :
    resolve? components r = some t ↔ Names components r t := by
  unfold resolve? Names
  simp only [Option.bind_eq_bind, Option.bind_eq_some_iff, componentName?_eq_some_iff]

theorem reference?_eq_some_iff {r : String} :
    reference? fields = some r ↔ Json.field? "$ref" fields = some (.string r) := by
  unfold reference?
  split
  · next r' h => simp [h]
  · next h => exact iff_of_false nofun (h r)

theorem schema_mem_parts_iff : .schema s ∈ parts fields ↔ Subschema fields s := by
  have hdemand : ∀ {os : List Obligation}, .schema s ∉ os.map Part.obligation := by simp
  constructor
  · intro h
    simp only [parts, List.mem_append, hdemand, false_or, or_false] at h
    have hunder : ∀ {keyword}, keyword ∈ ["items", "not", "additionalProperties"] →
        .schema s ∈ partsUnder keyword fields → Subschema fields s := by
      intro keyword hk hmem
      obtain ⟨s', hs', heq⟩ := List.mem_map.1 hmem
      cases heq
      exact .under hk (Option.mem_toList.1 hs')
    have hamong : ∀ {keyword}, keyword ∈ combinators →
        .schema s ∈ partsInList keyword fields → Subschema fields s := by
      intro keyword hk hmem
      unfold partsInList at hmem
      split at hmem
      · cases hmem
      · next s' rest hf =>
        obtain ⟨item, hitem, heq⟩ := List.mem_map.1 hmem
        cases heq
        exact .among hk hf hitem
      · simp at hmem
    rcases h with ((((((h | h) | h) | h) | h) | h) | h)
    · unfold partsOfProperties at h
      split at h
      · cases h
      · next described hf =>
        obtain ⟨⟨name, s'⟩, hmem, heq⟩ := List.mem_map.1 h
        cases heq
        exact .property hf hmem
      · simp at h
    · exact hunder (by simp) h
    · exact hunder (by simp) h
    · exact hunder (by simp) h
    · exact hamong (by simp [combinators]) h
    · exact hamong (by simp [combinators]) h
    · exact hamong (by simp [combinators]) h
  · rintro (⟨hf, hs⟩ | ⟨hk, hf⟩ | ⟨hk, hf, hs⟩)
    · have hmem : Part.schema s ∈ partsOfProperties fields := by
        rw [partsOfProperties, hf]
        exact List.mem_map.2 ⟨_, hs, rfl⟩
      simp only [parts, List.mem_append, hmem, true_or, or_true]
    · exact part_of_field? (by simpa using hk) hf
    · exact part_of_mem_schemasIn (by simpa [combinators] using hk) (mem_schemasIn.2 ⟨_, hf, hs⟩)

/-- What a schema covers is what it reaches. -/
theorem covers_iff_reached : Covers components root s ↔ Reached components root s := by
  constructor
  · intro h
    induction h with
    | root => exact .root
    | subschema _ hs ih => exact .part ih (schema_mem_parts_iff.2 hs)
    | target _ hr ht ih =>
      exact .target ih (reference?_eq_some_iff.2 hr) (resolve?_eq_some_iff.2 ht)
  · intro h
    induction h with
    | root => exact .root
    | part _ hs ih => exact .subschema ih (schema_mem_parts_iff.1 hs)
    | target _ hr ht ih =>
      exact .target ih (reference?_eq_some_iff.1 hr) (resolve?_eq_some_iff.1 ht)

/-! ### The demands of one schema -/

/-- An obligation that can be met: no fault, and no reference to nothing. -/
def Meetable (components : Components) : Obligation → Prop
  | .fault _ => False
  | .reference r => ∃ t, Names components r t

theorem not_meetable_fault {e : SchemaError} : ¬Meetable components (.fault e) := id

theorem forall_mem_demand_iff {ok : Bool} {e : SchemaError} :
    (∀ o ∈ demand ok e, Meetable components o) ↔ ok = true := by
  cases ok <;> simp [demand, Meetable]

theorem referenceObligations_meetable_iff :
    (∀ o ∈ referenceObligations fields, Meetable components o) ↔
      ∀ j, Json.field? "$ref" fields = some j → ∃ r t, j = .string r ∧ Names components r t := by
  unfold referenceObligations
  split
  · next h => simp [h]
  · next r h => simp [h, Meetable]
  · next j hne h =>
    refine iff_of_false (fun hmet ↦ hmet _ List.mem_cons_self) fun hkind ↦ ?_
    obtain ⟨r, -, rfl, -⟩ := hkind j h
    exact hne r rfl

theorem typeNameObligations_meetable_iff {j : Json} :
    (∀ o ∈ typeNameObligations j, Meetable components o) ↔ IsTypeName j := by
  cases j with
  | string name => simp [typeNameObligations, forall_mem_demand_iff, IsTypeName]
  | _ => simp [typeNameObligations, Meetable, IsTypeName]

theorem typeObligations_meetable_iff :
    (∀ o ∈ typeObligations fields, Meetable components o) ↔
      ∀ j, Json.field? "type" fields = some j →
        IsTypeName j ∨ ∃ names, j = .list names ∧ ∀ name ∈ names, IsTypeName name := by
  unfold typeObligations
  split
  · next h => simp [h]
  · next names h =>
    have hlist : ¬IsTypeName (.list names) := fun ⟨_, _, heq⟩ ↦ nomatch heq
    simp only [h, Option.some.injEq, forall_eq', List.forall_mem_flatMap,
      typeNameObligations_meetable_iff, hlist, false_or, Json.list.injEq, exists_eq_left']
  · next j hne h =>
    simp only [h, Option.some.injEq, forall_eq', typeNameObligations_meetable_iff]
    refine (or_iff_left ?_).symm
    rintro ⟨names, rfl, -⟩
    exact hne names rfl

theorem listObligations_meetable_iff :
    (∀ o ∈ listObligations fields, Meetable components o) ↔
      (∀ j, Json.field? "required" fields = some j →
        ∃ names, j = .list names ∧ ∀ name ∈ names, ∃ text, name = .string text) ∧
      ∀ j, Json.field? "enum" fields = some j → ∃ options, j = .list options := by
  have hstring : ∀ {j : Json}, j.isString = true ↔ ∃ text, j = .string text := by
    intro j
    cases j <;> simp [Json.isString]
  unfold listObligations
  rw [List.forall_mem_append]
  refine and_congr ?_ ?_
  · split
    · next h => simp [h]
    · next names h => simp [h, forall_mem_demand_iff, hstring]
    · next j hne h =>
      refine iff_of_false (fun hmet ↦ hmet _ List.mem_cons_self) fun hkind ↦ ?_
      obtain ⟨names, rfl, -⟩ := hkind j h
      exact hne names rfl
  · split
    · next h => simp [h]
    · next options h => simp [h]
    · next j hne h =>
      refine iff_of_false (fun hmet ↦ hmet _ List.mem_cons_self) fun hkind ↦ ?_
      obtain ⟨options, rfl⟩ := hkind j h
      exact hne options rfl

theorem numberObligations_meetable_iff :
    (∀ o ∈ numberObligations fields, Meetable components o) ↔
      (∀ keyword ∈ boundKeywords, ∀ j, Json.field? keyword fields = some j →
        (∃ n, j = .int n) ∨ ∃ x, j = .float x) ∧
      ∀ keyword ∈ countKeywords, ∀ j, Json.field? keyword fields = some j →
        ∃ n : ℕ, j = .int n := by
  have hnumber : ∀ {j : Json}, j.isNumber = true ↔ (∃ n, j = .int n) ∨ ∃ x, j = .float x := by
    intro j
    cases j <;> simp [Json.isNumber]
  have hcount : ∀ {j : Json}, j.asNat?.isSome = true ↔ ∃ n : ℕ, j = .int n :=
    Option.isSome_iff_exists.trans (exists_congr fun n ↦ asNat?_eq_some_iff)
  unfold numberObligations
  rw [List.forall_mem_append]
  simp only [List.forall_mem_flatMap]
  refine and_congr (forall₂_congr fun keyword _ ↦ ?_) (forall₂_congr fun keyword _ ↦ ?_)
  · cases h : Json.field? keyword fields with
    | none => simp
    | some j => simp only [forall_mem_demand_iff, hnumber, Option.some.injEq, forall_eq']
  · cases h : Json.field? keyword fields with
    | none => simp
    | some j => simp only [forall_mem_demand_iff, hcount, Option.some.injEq, forall_eq']

/-- The demands that a list of parts makes of the schema itself can be met. -/
def DemandsMet (components : Components) (ps : List Part) : Prop :=
  ∀ o, .obligation o ∈ ps → Meetable components o

theorem partsOfProperties_meetable_iff :
    DemandsMet components (partsOfProperties fields) ↔
      ∀ j, Json.field? "properties" fields = some j → ∃ described, j = .object described := by
  unfold partsOfProperties DemandsMet
  split
  · next h => simp [h]
  · next described h => simp [h]
  · next j hne h =>
    refine iff_of_false (fun hmet ↦ hmet _ List.mem_cons_self) fun hkind ↦ ?_
    obtain ⟨described, rfl⟩ := hkind j h
    exact hne described rfl

theorem partsInList_meetable_iff {keyword : String} :
    DemandsMet components (partsInList keyword fields) ↔
      ∀ j, Json.field? keyword fields = some j → ∃ schemas, j = .list schemas ∧ schemas ≠ [] := by
  unfold partsInList DemandsMet
  split
  · next h => simp [h]
  · next s rest h => simp [h]
  · next j hne h =>
    refine iff_of_false (fun hmet ↦ hmet _ List.mem_cons_self) fun hkind ↦ ?_
    obtain ⟨schemas, rfl, hempty⟩ := hkind j h
    obtain ⟨s, rest, rfl⟩ := List.exists_cons_of_ne_nil hempty
    exact hne s rest rfl

/-- **The keywords of an object are of the right kind exactly if what they demand can be met.** -/
theorem keywordsTyped_iff :
    KeywordsTyped components fields ↔ DemandsMet components (parts fields) := by
  have hunder : ∀ {keyword o}, Part.obligation o ∉ partsUnder keyword fields := by
    simp [partsUnder]
  have hdemands : ∀ {os : List Obligation}, DemandsMet components (os.map Part.obligation) ↔
      ∀ o ∈ os, Meetable components o := by simp [DemandsMet]
  have hparts : DemandsMet components (parts fields) ↔
      (∀ o ∈ referenceObligations fields, Meetable components o) ∧
      (∀ o ∈ typeObligations fields, Meetable components o) ∧
      DemandsMet components (partsOfProperties fields) ∧
      (∀ o ∈ listObligations fields, Meetable components o) ∧
      (∀ keyword ∈ combinators, DemandsMet components (partsInList keyword fields)) ∧
      ∀ o ∈ numberObligations fields, Meetable components o := by
    simp only [← hdemands]
    simp only [DemandsMet, parts, combinators, List.mem_append, hunder, or_false,
      List.forall_mem_cons, or_imp, forall_and]
    grind
  rw [hparts, referenceObligations_meetable_iff, typeObligations_meetable_iff,
    partsOfProperties_meetable_iff, listObligations_meetable_iff, numberObligations_meetable_iff]
  simp only [partsInList_meetable_iff]
  constructor
  · rintro ⟨hreference, htype, hproperties, hrequired, henum, hcombined, hbounds, hcounts⟩
    exact ⟨hreference, htype, hproperties, ⟨hrequired, henum⟩, hcombined, hbounds, hcounts⟩
  · rintro ⟨hreference, htype, hproperties, ⟨hrequired, henum⟩, hcombined, hbounds, hcounts⟩
    exact ⟨hreference, htype, hproperties, hrequired, henum, hcombined, hbounds, hcounts⟩

/-! ### The demands of everything that is covered -/

/-- A reference is made by something that a schema covers. -/
def Refers (components : Components) (root : Json) (r : String) : Prop :=
  ∃ fields, Covers components root (.object fields) ∧
    Json.field? "$ref" fields = some (.string r)

/-- A schema whose obligations can be met is of the right kind. -/
theorem wellKinded_of_obligations (h : ∀ o ∈ obligations s, Meetable components o) :
    WellKinded components s := by
  cases s with
  | bool b => exact .bool b
  | object fields =>
    refine .object (keywordsTyped_iff.2 fun o ho ↦ h o ?_)
    exact obligation_mem_of_part ho List.mem_cons_self
  | _ => exact absurd (h _ (notASchema_mem_obligations nofun nofun)) not_meetable_fault

/-- What is found by a walk that ends well can be met. -/
theorem wellKinded_of_met {found : List String} (hvisited : Visited components found)
    (h : ∀ o ∈ obligations s, Met found o) : WellKinded components s := by
  refine wellKinded_of_obligations fun o ho ↦ ?_
  have hmet := h o ho
  cases o with
  | fault e => exact absurd hmet not_met_fault
  | reference r =>
    obtain ⟨t, ht⟩ := hvisited.resolves r hmet
    exact ⟨t, resolve?_eq_some_iff.1 ht⟩

/-- How an obligation comes up in an object: a reference is the object's own, and a fault is not
that of a cycle, which no schema shows by itself. -/
def ComesUp (fields : List (String × Json)) : Obligation → Prop
  | .fault e => ∀ r, e ≠ .cycle r
  | .reference r => Json.field? "$ref" fields = some (.string r)

theorem comesUp_of_mem_parts {o : Obligation} (h : .obligation o ∈ parts fields) :
    ComesUp fields o := by
  have hdemand : ∀ {ok e}, (∀ r, e ≠ .cycle r) → ∀ o ∈ demand ok e, ComesUp fields o := by
    intro ok e he
    cases ok <;> simp [demand, ComesUp, he]
  have hreference : ∀ o ∈ referenceObligations fields, ComesUp fields o := by
    unfold referenceObligations
    split <;> simp_all [ComesUp]
  have hname : ∀ j, ∀ o ∈ typeNameObligations j, ComesUp fields o := by
    intro j
    cases j with
    | string name => exact hdemand nofun
    | _ => simp [typeNameObligations, ComesUp]
  have htype : ∀ o ∈ typeObligations fields, ComesUp fields o := by
    unfold typeObligations
    split
    · exact nofun
    · exact List.forall_mem_flatMap.2 fun j _ ↦ hname j
    · exact hname _
  have hlist : ∀ o ∈ listObligations fields, ComesUp fields o := by
    unfold listObligations
    refine List.forall_mem_append.2 ⟨?_, ?_⟩
    · split
      · exact nofun
      · exact hdemand nofun
      · simp [ComesUp]
    · split <;> simp [ComesUp]
  have hnumber : ∀ o ∈ numberObligations fields, ComesUp fields o := by
    unfold numberObligations
    refine List.forall_mem_append.2
      ⟨List.forall_mem_flatMap.2 fun k _ ↦ ?_, List.forall_mem_flatMap.2 fun k _ ↦ ?_⟩
    all_goals
      cases Json.field? k fields with
      | none => exact nofun
      | some j => exact hdemand nofun
  have hproperties : .obligation o ∈ partsOfProperties fields → ComesUp fields o := by
    unfold partsOfProperties
    split <;> simp +contextual [ComesUp]
  have hamong : ∀ keyword, .obligation o ∈ partsInList keyword fields → ComesUp fields o := by
    intro keyword
    unfold partsInList
    split <;> simp +contextual [ComesUp]
  have hunder : ∀ {keyword}, .obligation o ∉ partsUnder keyword fields := by simp [partsUnder]
  have hmem : ∀ {os : List Obligation}, .obligation o ∈ os.map Part.obligation ↔ o ∈ os := by simp
  simp only [parts, List.mem_append, hmem, hunder, or_false] at h
  rcases h with (((((((h | h) | h) | h) | h) | h) | h) | h)
  · exact hreference o h
  · exact htype o h
  · exact hproperties h
  · exact hlist o h
  · exact hamong _ h
  · exact hamong _ h
  · exact hamong _ h
  · exact hnumber o h

/-- No schema shows a cycle by itself. -/
theorem ne_cycle_of_fault_mem {e : SchemaError} (h : .fault e ∈ obligations s) (r : String) :
    e ≠ .cycle r := by
  induction hsize : sizeOf s using Nat.strongRecOn generalizing s with
  | ind n ih =>
  cases s with
  | object fields =>
    rw [obligations_object] at h
    obtain ⟨p, hp, h⟩ := List.mem_flatMap.1 h
    cases p with
    | schema s' => exact ih _ (hsize ▸ sizeOf_lt_of_part hp) h rfl
    | obligation o =>
      obtain rfl := List.mem_singleton.1 h
      exact comesUp_of_mem_parts hp r
  | bool b => simp [obligations] at h
  | _ =>
    simp only [obligations, List.mem_singleton, Obligation.fault.injEq] at h
    simp [h]

/-- **Where everything covered is of the right kind, only references are left to follow**, and they
name components. -/
theorem obligation_of_wellKinded (hkind : ∀ s, Covers components root s → WellKinded components s)
    (hs : Covers components root s) {o : Obligation} (ho : o ∈ obligations s) :
    ∃ r t, o = .reference r ∧ Names components r t ∧ Refers components root r := by
  induction hsize : sizeOf s using Nat.strongRecOn generalizing s with
  | ind n ih =>
  cases hkind s hs with
  | bool b => simp [obligations] at ho
  | @object fields hfields =>
    rw [obligations_object] at ho
    obtain ⟨p, hp, ho⟩ := List.mem_flatMap.1 ho
    cases p with
    | schema s' =>
      exact ih _ (hsize ▸ sizeOf_lt_of_part hp) (.subschema hs (schema_mem_parts_iff.1 hp)) ho rfl
    | obligation o' =>
      obtain rfl : o = o' := List.mem_singleton.1 ho
      have hmeet := keywordsTyped_iff.1 hfields o hp
      cases o with
      | fault e => exact absurd hmeet not_meetable_fault
      | reference r =>
        obtain ⟨t, ht⟩ := hmeet
        exact ⟨r, t, rfl, ht, fields, hs, comesUp_of_mem_parts hp⟩

end Schema

end ContractHost
