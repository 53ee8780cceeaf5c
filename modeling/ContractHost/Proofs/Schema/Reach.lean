import ContractHost.Proofs.Json.Fields
import ContractHost.Schema.Validate
import Mathlib.Data.List.Nodup
import Mathlib.Data.List.Perm.Subperm

/-!
# What a schema reaches

The walk over a schema, the search for cycles and the checking of an instance all take a schema
apart into its **parts** (`Schema.parts`): the schemas under its keywords, and the demands of the
keywords themselves, in reading order. The mutual recursions of the library look for a keyword and
go on with what is under it; here they are rewritten as one step on the parts (`obligations_object`,
`inPlace_object`, `here_object`).

A schema **reaches** its parts and the targets of its references (`Schema.Reached`). References are
told apart by the component they name, so there are no more of them than components
(`length_le_of_resolvable`).
-/

namespace ContractHost

namespace Schema

variable {components : Components} {fields : List (String × Json)}

/-! ### Parts -/

/-- What a keyword of a schema holds: something demanded of the schema itself, or a schema. -/
inductive Part
  | obligation (o : Obligation)
  | schema (s : Json)

/-- The schema directly under a keyword. -/
def partsUnder (keyword : String) (fields : List (String × Json)) : List Part :=
  (Json.field? keyword fields).toList.map .schema

/-- The schemas in the list under a keyword. -/
def partsInList (keyword : String) (fields : List (String × Json)) : List Part :=
  match Json.field? keyword fields with
  | none => []
  | some (.list (s :: rest)) => (s :: rest).map .schema
  | some _ => [.obligation (.fault (.malformed keyword "a non-empty list of schemas"))]

/-- The schemas of the keyword `properties`. -/
def partsOfProperties (fields : List (String × Json)) : List Part :=
  match Json.field? "properties" fields with
  | none => []
  | some (.object described) => described.map fun p ↦ .schema p.2
  | some _ => [.obligation (.fault (.malformed "properties" "an object"))]

/-- What a schema holds, in reading order. -/
def parts (fields : List (String × Json)) : List Part :=
  (referenceObligations fields).map .obligation ++ (typeObligations fields).map .obligation ++
    partsOfProperties fields ++ (listObligations fields).map .obligation ++
    partsUnder "items" fields ++ partsUnder "not" fields ++
    partsUnder "additionalProperties" fields ++
    partsInList "allOf" fields ++ partsInList "anyOf" fields ++ partsInList "oneOf" fields ++
    (numberObligations fields).map .obligation

/-- The obligations of a part. -/
def Part.obligations : Part → List Obligation
  | .obligation o => [o]
  | .schema s => Schema.obligations s

/-- The schemas in the list under a keyword, if there is such a list. -/
def schemasIn (keyword : String) (fields : List (String × Json)) : List Json :=
  match Json.field? keyword fields with
  | some (.list schemas) => schemas
  | _ => []

/-- The schema for a field of an instance: that of its property, else that of all the others. -/
def fieldSchema? (fields : List (String × Json)) (name : String) : Option Json :=
  match (Json.field? "properties" fields).bind (·.get? name) with
  | some s => some s
  | none => Json.field? "additionalProperties" fields

/-! ### The recursions of the library, part by part -/

theorem obligationsOfItems_eq (schemas : List Json) :
    obligationsOfItems schemas = schemas.flatMap obligations := by
  induction schemas with
  | nil => rfl
  | cons s rest ih => rw [obligationsOfItems, ih, List.flatMap_cons]

theorem obligationsOfFields_eq (described : List (String × Json)) :
    obligationsOfFields described = described.flatMap fun p ↦ obligations p.2 := by
  induction described with
  | nil => rfl
  | cons p rest ih => rw [obligationsOfFields, ih, List.flatMap_cons]

theorem obligationsUnder_eq (keyword : String) (fields : List (String × Json)) :
    obligationsUnder keyword fields = (partsUnder keyword fields).flatMap Part.obligations := by
  induction fields with
  | nil => rfl
  | cons f rest ih =>
    obtain ⟨k, j⟩ := f
    by_cases hk : k = keyword
    · simp [obligationsUnder, partsUnder, Json.field?, hk, Part.obligations]
    · simpa only [obligationsUnder, partsUnder, Json.field?, hk, if_false] using ih

theorem flatMap_obligations_schemas (schemas : List Json) :
    (schemas.map Part.schema).flatMap Part.obligations = schemas.flatMap obligations := by
  rw [List.flatMap_map]
  rfl

theorem flatMap_obligations_demands (os : List Obligation) :
    (os.map Part.obligation).flatMap Part.obligations = os := by
  rw [List.flatMap_map]
  exact List.flatMap_singleton' os

theorem obligationsInList_eq (keyword : String) (fields : List (String × Json)) :
    obligationsInList keyword fields = (partsInList keyword fields).flatMap Part.obligations := by
  induction fields with
  | nil => rfl
  | cons f rest ih =>
    obtain ⟨k, j⟩ := f
    by_cases hk : k = keyword
    · simp only [obligationsInList, partsInList, Json.field?, hk, if_true]
      rcases j with _ | _ | _ | _ | _ | (_ | ⟨s, schemas⟩) | _
      case list.cons =>
        rw [obligationsOfList, obligationsOfItems_eq]
        exact (flatMap_obligations_schemas (s :: schemas)).symm
      all_goals rfl
    · simpa only [obligationsInList, partsInList, Json.field?, hk, if_false] using ih

theorem obligationsOfProperties_eq (fields : List (String × Json)) :
    obligationsOfProperties fields = (partsOfProperties fields).flatMap Part.obligations := by
  induction fields with
  | nil => rfl
  | cons f rest ih =>
    obtain ⟨k, j⟩ := f
    by_cases hk : k = "properties"
    · simp only [obligationsOfProperties, partsOfProperties, Json.field?, hk, if_true]
      cases j with
      | object described =>
        rw [obligationsOfObject, obligationsOfFields_eq, List.flatMap_map]
        rfl
      | _ => rfl
    · simpa only [obligationsOfProperties, partsOfProperties, Json.field?, hk, if_false] using ih

/-- **The obligations of a schema are those of its parts**, in reading order. -/
theorem obligations_object (fields : List (String × Json)) :
    obligations (.object fields) = (parts fields).flatMap Part.obligations := by
  rw [obligations, obligationsOfProperties_eq]
  simp only [obligationsUnder_eq, obligationsInList_eq, parts, List.flatMap_append,
    flatMap_obligations_demands]

/-- Anything but an object and a truth value is at fault. -/
theorem notASchema_mem_obligations {s : Json} (hobject : ∀ fields, s ≠ .object fields)
    (hbool : ∀ b, s ≠ .bool b) : .fault (.notASchema s) ∈ obligations s := by
  cases s with
  | object fields => exact absurd rfl (hobject fields)
  | bool b => exact absurd rfl (hbool b)
  | _ => simp [obligations]

theorem inPlaceOfItems_eq (schemas : List Json) :
    inPlaceOfItems schemas = schemas.flatMap inPlace := by
  induction schemas with
  | nil => rfl
  | cons s rest ih => rw [inPlaceOfItems, ih, List.flatMap_cons]

theorem inPlaceUnder_eq (keyword : String) (fields : List (String × Json)) :
    inPlaceUnder keyword fields = (Json.field? keyword fields).toList.flatMap inPlace := by
  induction fields with
  | nil => rfl
  | cons f rest ih =>
    obtain ⟨k, j⟩ := f
    by_cases hk : k = keyword
    · simp [inPlaceUnder, Json.field?, hk]
    · simpa only [inPlaceUnder, Json.field?, hk, if_false] using ih

theorem inPlaceInList_eq (keyword : String) (fields : List (String × Json)) :
    inPlaceInList keyword fields = (schemasIn keyword fields).flatMap inPlace := by
  induction fields with
  | nil => rfl
  | cons f rest ih =>
    obtain ⟨k, j⟩ := f
    by_cases hk : k = keyword
    · simp only [inPlaceInList, schemasIn, Json.field?, hk, if_true]
      cases j with
      | list schemas => exact inPlaceOfItems_eq schemas
      | _ => rfl
    · simpa only [inPlaceInList, schemasIn, Json.field?, hk, if_false] using ih

/-- The schemas of a schema that apply where it applies itself. -/
def schemasInPlace (fields : List (String × Json)) : List Json :=
  (Json.field? "not" fields).toList ++ schemasIn "allOf" fields ++ schemasIn "anyOf" fields ++
    schemasIn "oneOf" fields

/-- **The references in place** are the schema's own and those of the schemas in place. -/
theorem inPlace_object (fields : List (String × Json)) :
    inPlace (.object fields) =
      (reference? fields).toList ++ (schemasInPlace fields).flatMap inPlace := by
  rw [inPlace, inPlaceUnder_eq]
  simp only [inPlaceInList_eq, schemasInPlace, List.flatMap_append, List.append_assoc]

section Here

variable (loc : Location) (target : String → List Violation)

theorem hereOfItems_eq (schemas : List Json) :
    hereOfItems loc target schemas = schemas.map (here loc target) := by
  induction schemas with
  | nil => rfl
  | cons s rest ih => rw [hereOfItems, ih, List.map_cons]

theorem hereUnder_eq (keyword : String) (fields : List (String × Json)) :
    hereUnder loc target keyword fields = (Json.field? keyword fields).map (here loc target) := by
  induction fields with
  | nil => rfl
  | cons f rest ih =>
    obtain ⟨k, j⟩ := f
    by_cases hk : k = keyword
    · simp [hereUnder, Json.field?, hk]
    · simpa only [hereUnder, Json.field?, hk, if_false] using ih

theorem hereInList_eq (keyword : String) (fields : List (String × Json)) :
    hereInList loc target keyword fields =
      ((Json.field? keyword fields).bind Json.asList?).map (List.map (here loc target)) := by
  induction fields with
  | nil => rfl
  | cons f rest ih =>
    obtain ⟨k, j⟩ := f
    by_cases hk : k = keyword
    · simp only [hereInList, Json.field?, hk, if_true]
      cases j with
      | list schemas => exact congrArg some (hereOfItems_eq loc target schemas)
      | _ => rfl
    · simpa only [hereInList, Json.field?, hk, if_false] using ih

/-- A schema that is a reference has the violations of its target. -/
theorem here_reference {r : String} (h : reference? fields = some r) :
    here loc target (.object fields) = target r := by
  rw [here, h]

/-- **One location**: a schema without a reference is checked keyword by keyword. -/
theorem here_object (h : reference? fields = none) :
    here loc target (.object fields) =
      match typeFault? fields loc.value with
      | some text => [loc.violation text]
      | none =>
        (localFaults fields loc.value).map loc.violation ++ childViolations loc fields ++
          combine loc.path
            (((Json.field? "allOf" fields).bind Json.asList?).map (List.map (here loc target)))
            (((Json.field? "anyOf" fields).bind Json.asList?).map (List.map (here loc target)))
            (((Json.field? "oneOf" fields).bind Json.asList?).map (List.map (here loc target)))
            ((Json.field? "not" fields).map (here loc target)) := by
  rw [here, h]
  cases typeFault? fields loc.value with
  | some text => rfl
  | none => simp only [hereInList_eq, hereUnder_eq]

end Here

/-! ### Finding the parts of a schema -/

theorem mem_schemasIn {keyword : String} {s : Json} :
    s ∈ schemasIn keyword fields ↔
      ∃ schemas, Json.field? keyword fields = some (.list schemas) ∧ s ∈ schemas := by
  unfold schemasIn
  split
  · next schemas h => simp [h]
  · next h =>
    refine ⟨fun hs ↦ absurd hs List.not_mem_nil, ?_⟩
    rintro ⟨schemas, hf, -⟩
    exact absurd hf (h schemas)

theorem part_of_field? {keyword : String} {s : Json}
    (hk : keyword = "items" ∨ keyword = "not" ∨ keyword = "additionalProperties")
    (h : Json.field? keyword fields = some s) : .schema s ∈ parts fields := by
  have hmem : Part.schema s ∈ partsUnder keyword fields := by simp [partsUnder, h]
  simp only [parts, List.mem_append]
  rcases hk with rfl | rfl | rfl <;> simp only [hmem, true_or, or_true]

theorem part_of_mem_schemasIn {keyword : String} {s : Json}
    (hk : keyword = "allOf" ∨ keyword = "anyOf" ∨ keyword = "oneOf")
    (h : s ∈ schemasIn keyword fields) : .schema s ∈ parts fields := by
  have hmem : Part.schema s ∈ partsInList keyword fields := by
    obtain ⟨schemas, hf, hs⟩ := mem_schemasIn.1 h
    obtain ⟨s', rest, rfl⟩ := List.exists_cons_of_ne_nil (List.ne_nil_of_mem hs)
    rw [partsInList, hf]
    exact List.mem_map_of_mem hs
  simp only [parts, List.mem_append]
  rcases hk with rfl | rfl | rfl <;> simp only [hmem, true_or, or_true]

theorem sizeOf_lt_of_mem_partsInList {keyword : String} {s : Json}
    (h : .schema s ∈ partsInList keyword fields) : sizeOf s < sizeOf fields := by
  unfold partsInList at h
  split at h
  · cases h
  · next s' rest hf =>
    obtain ⟨item, hitem, heq⟩ := List.mem_map.1 h
    cases heq
    have hlist := Json.sizeOf_lt_of_field? hf
    have hlt := List.sizeOf_lt_of_mem hitem
    rw [Json.list.sizeOf_spec] at hlist
    omega
  · simp at h

theorem sizeOf_lt_of_mem_partsOfProperties {s : Json}
    (h : .schema s ∈ partsOfProperties fields) : sizeOf s < sizeOf fields := by
  unfold partsOfProperties at h
  split at h
  · cases h
  · next described hf =>
    obtain ⟨⟨name, v⟩, hmem, heq⟩ := List.mem_map.1 h
    cases heq
    have hobject := Json.sizeOf_lt_of_field? hf
    have hlt := List.sizeOf_lt_of_mem hmem
    rw [Json.object.sizeOf_spec] at hobject
    rw [Prod.mk.sizeOf_spec] at hlt
    show sizeOf v < sizeOf fields
    omega
  · simp at h

/-- A schema is larger than its parts. -/
theorem sizeOf_lt_of_part {s : Json} (h : .schema s ∈ parts fields) :
    sizeOf s < sizeOf (Json.object fields) := by
  suffices hlt : sizeOf s < sizeOf fields by
    rw [Json.object.sizeOf_spec]
    omega
  have hunder : ∀ {keyword}, .schema s ∈ partsUnder keyword fields → sizeOf s < sizeOf fields := by
    intro keyword hmem
    obtain ⟨s', hs', heq⟩ := List.mem_map.1 hmem
    cases heq
    exact Json.sizeOf_lt_of_field? (Option.mem_toList.1 hs')
  have hdemand : ∀ {os : List Obligation}, .schema s ∉ os.map Part.obligation := by simp
  simp only [parts, List.mem_append, hdemand, false_or, or_false] at h
  rcases h with ((((((h | h) | h) | h) | h) | h) | h)
  · exact sizeOf_lt_of_mem_partsOfProperties h
  · exact hunder h
  · exact hunder h
  · exact hunder h
  · exact sizeOf_lt_of_mem_partsInList h
  · exact sizeOf_lt_of_mem_partsInList h
  · exact sizeOf_lt_of_mem_partsInList h

/-- The schemas in place are parts of the schema. -/
theorem part_of_mem_schemasInPlace {s : Json} (h : s ∈ schemasInPlace fields) :
    .schema s ∈ parts fields := by
  simp only [schemasInPlace, List.mem_append, Option.mem_toList] at h
  rcases h with ((h | h) | h) | h
  · exact part_of_field? (.inr (.inl rfl)) h
  · exact part_of_mem_schemasIn (.inl rfl) h
  · exact part_of_mem_schemasIn (.inr (.inl rfl)) h
  · exact part_of_mem_schemasIn (.inr (.inr rfl)) h

/-- The schema for a field of an instance is a part of the schema. -/
theorem part_of_fieldSchema? {name : String} {s : Json} (h : fieldSchema? fields name = some s) :
    .schema s ∈ parts fields := by
  unfold fieldSchema? at h
  split at h
  · next s' hp =>
    cases h
    obtain ⟨described, hd, hs⟩ := Option.bind_eq_some_iff.1 hp
    have hmem : Part.schema s ∈ partsOfProperties fields := by
      cases described with
      | object described =>
        rw [partsOfProperties, hd]
        exact List.mem_map.2 ⟨(name, s), Json.mem_of_field? hs, rfl⟩
      | _ => cases hs
    simp only [parts, List.mem_append, hmem, true_or, or_true]
  · exact part_of_field? (.inr (.inr rfl)) h

/-! ### Reaching -/

/-- A schema reaches itself, the parts of what it reaches and the targets of their references. -/
inductive Reached (components : Components) (root : Json) : Json → Prop
  | root : Reached components root root
  | part {fields : List (String × Json)} {s : Json} (h : Reached components root (.object fields))
      (hs : .schema s ∈ parts fields) : Reached components root s
  | target {fields : List (String × Json)} {r : String} {t : Json}
      (h : Reached components root (.object fields)) (hr : reference? fields = some r)
      (ht : resolve? components r = some t) : Reached components root t

/-- The schema's own reference is one of its obligations. -/
theorem reference_mem_parts {r : String} (h : reference? fields = some r) :
    .obligation (.reference r) ∈ parts fields := by
  have hmem : Obligation.reference r ∈ referenceObligations fields := by
    unfold reference? at h
    unfold referenceObligations
    split at h
    · next hf =>
      cases h
      rw [hf]
      exact List.mem_cons_self
    · cases h
  simp only [parts, List.mem_append, List.mem_map_of_mem hmem, true_or]

/-- The obligations of a part are obligations of the schema. -/
theorem obligation_mem_of_part {p : Part} {o : Obligation} (hp : p ∈ parts fields)
    (ho : o ∈ p.obligations) : o ∈ obligations (.object fields) := by
  rw [obligations_object]
  exact List.mem_flatMap.2 ⟨p, hp, ho⟩

/-- Every reference in place is among the obligations. -/
theorem reference_mem_of_mem_inPlace : ∀ {s : Json} {r : String}, r ∈ inPlace s →
    .reference r ∈ obligations s
  | .object fields, r, h => by
    rw [inPlace_object, List.mem_append, Option.mem_toList, List.mem_flatMap] at h
    rcases h with h | ⟨s, hs, hr⟩
    · exact obligation_mem_of_part (reference_mem_parts h) List.mem_cons_self
    · exact obligation_mem_of_part (part_of_mem_schemasInPlace hs) (reference_mem_of_mem_inPlace hr)
  | .null, _, h | .bool _, _, h | .int _, _, h | .float _, _, h | .string _, _, h
  | .list _, _, h => by simp [inPlace] at h
termination_by s => sizeOf s
decreasing_by exact sizeOf_lt_of_part (part_of_mem_schemasInPlace hs)

/-! ### How many references there can be -/

theorem componentName?_inj {r r' name : String} (h : componentName? r = some name)
    (h' : componentName? r' = some name) : r = r' := by
  have hsplit : ∀ {q : String}, componentName? q = some name →
      q.toList = referencePrefix.toList ++ name.toList := by
    intro q hq
    simp only [componentName?] at hq
    split at hq
    · next hpre =>
      obtain ⟨rest, hrest⟩ := List.isPrefixOf_iff_prefix.1 hpre
      cases hq
      rw [← hrest, List.drop_left, String.toList_ofList]
    · cases hq
  exact String.toList_inj.1 ((hsplit h).trans (hsplit h').symm)

/-- **Distinct references that resolve are no more than the components**: each names its own. -/
theorem length_le_of_resolvable {references : List String} (hnodup : references.Nodup)
    (h : ∀ r ∈ references, ∃ t, resolve? components r = some t) :
    references.length ≤ components.entries.length := by
  have hname : ∀ r ∈ references, ∃ name, componentName? r = some name ∧ name ∈ components.keys := by
    intro r hr
    obtain ⟨t, ht⟩ := h r hr
    obtain ⟨name, hn, hget⟩ := Option.bind_eq_some_iff.1 ht
    exact ⟨name, hn, KeyMap.exists_get?_iff.1 ⟨t, hget⟩⟩
  have hnames : (references.filterMap componentName?).length = references.length := by
    clear h hnodup
    induction references with
    | nil => rfl
    | cons r rest ih =>
      obtain ⟨name, hn, -⟩ := hname r List.mem_cons_self
      rw [List.filterMap_cons_some hn, List.length_cons, List.length_cons,
        ih fun q hq ↦ hname q (List.mem_cons_of_mem _ hq)]
  have hinj : (references.filterMap componentName?).Nodup :=
    List.Nodup.filterMap
      (fun r r' name hr hr' ↦ componentName?_inj (Option.mem_def.1 hr) (Option.mem_def.1 hr'))
      hnodup
  have hsub : references.filterMap componentName? ⊆ components.keys := by
    intro name hmem
    obtain ⟨r, hr, hn⟩ := List.mem_filterMap.1 hmem
    obtain ⟨name', hn', hk⟩ := hname r hr
    exact (Option.some.inj (hn.symm.trans hn')).symm ▸ hk
  calc references.length = (references.filterMap componentName?).length := hnames.symm
    _ ≤ components.keys.length := (List.subperm_of_subset hinj hsub).length_le
    _ = components.entries.length := List.length_map ..

end Schema

end ContractHost
