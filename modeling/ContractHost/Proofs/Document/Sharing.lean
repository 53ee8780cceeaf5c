import ContractHost.Proofs.Document.Usability
import ContractHost.Proofs.Schema.Growth

/-!
# What sharing a registry changes

Types that are described one after the other share one table of components, and a record that is in
the table is not described again. This module compares describing some types behind others with
describing them on an empty table.

```
schema of a type      does not depend on the table        schema_fst
component of a record does not depend on the table        component
the rest              is which record of a name came in first
```

So the only thing that can go wrong is a name: two records of one name share a component, which is
that of the record that came in first. **Where a name that occurs on both sides stands for one
record there, sharing changes nothing** (`Ty.registry_within`): all that some types put into a table
of their own, they find in the shared one, and so their schemas mean the same with both
(`Ty.means_schemas`).

The proof runs both tables in tandem. The shared table may be ahead — a record that `before` has
brought in is new to the other one — and then its fields are ahead as well, because a record only
comes in after its fields (`Traced`). That is the one case that is not the same step on both sides.
-/

namespace ContractHost

open Schema

variable {components : Components}

namespace Ty

/-! ### The schemas do not depend on the table -/

mutual

theorem schema_fst : ∀ (t : Ty) (components components' : Components),
    (t.schema components).1 = (t.schema components').1
  | .scalar _, _, _ | .any, _, _ | .error, _, _ | .named _, _, _ => by
    rw [schema, schema]
  | .array elem _, components, components' => by
    rw [schema, schema]
    dsimp only
    rw [schema_fst elem components components']
  | .list elem, components, components' => by
    rw [schema, schema]
    dsimp only
    rw [schema_fst elem components components']
  | .map _ _ value, components, components' => by
    rw [schema, schema]
    dsimp only
    rw [schema_fst value components components']
  | .optional inner, components, components' => by
    rw [schema, schema]
    dsimp only
    rw [schema_fst inner components components']
  | .record name fields, components, components' => by
    -- New or not, a record is described by a reference.
    have hreference : ∀ c : Components,
        ((Ty.record name fields).schema c).1 = referenceSchema name := by
      intro c
      rw [schema]
      split <;> rfl
    rw [hreference, hreference]

theorem properties_fst : ∀ (fields : List (String × Ty)) (done : List (String × Json))
    (components components' : Components),
      (properties fields done components).1 = (properties fields done components').1
  | [], _, _, _ => by rw [properties, properties]
  | (name, t) :: rest, done, components, components' => by
    rw [properties, properties]
    dsimp only
    rw [schema_fst t components components']
    exact properties_fst rest _ _ _

end

theorem schemas_fst (types : List Ty) (components components' : Components) :
    (schemas types components).1 = (schemas types components').1 := by
  induction types generalizing components components' with
  | nil => rfl
  | cons t rest ih =>
    rw [schemas, schemas]
    dsimp only
    rw [schema_fst t components components', ih]

/-- The component of a record, whatever the table. -/
def component (r : RecordType) : Json :=
  recordSchema r.1 (properties r.2 [] ∅).1 (requiredNames r.2)

/-! ### What describing a type does to the table -/

/-- The types of the fields of a record. -/
def fieldTypes (r : RecordType) : List Ty :=
  r.2.map Prod.snd

/-- The record that a type is, or that is right inside its outer layers. -/
def head? : Ty → Option RecordType
  | .array elem _ => head? elem
  | .list elem => head? elem
  | .map _ _ value => head? value
  | .optional inner => head? inner
  | .record name fields => some (name, fields)
  | .scalar _ | .any | .error | .named _ => none

theorem properties_snd (fields : List (String × Ty)) (done : List (String × Json))
    (components : Components) : (properties fields done components).2 =
      (schemas (fields.map Prod.snd) components).2 := by
  induction fields generalizing done components with
  | nil => rw [properties]; rfl
  | cons f rest ih => rw [properties, List.map_cons, schemas, ih]

/-- A record whose name is in the table is not looked at. -/
theorem schema_record_of_known {r : RecordType} {c : Json} (h : components.get? r.1 = some c) :
    ((Ty.record r.1 r.2).schema components).2 = components := by
  have hknown : components.contains r.1 = true := by
    rw [KeyMap.contains, h]
    rfl
  rw [schema, if_pos hknown]

/-- A new record comes in after its fields. -/
theorem schema_record_of_new {r : RecordType} (h : components.get? r.1 = none) :
    ((Ty.record r.1 r.2).schema components).2 =
      (schemas (fieldTypes r) components).2.insert r.1 (component r) := by
  have hnew : ¬components.contains r.1 = true := by
    rw [KeyMap.contains, h]
    decide
  rw [schema, if_neg hnew]
  dsimp only
  rw [properties_snd, properties_fst r.2 [] components ∅]
  rfl

/-- **Describing a type puts in its head**, and nothing if there is none. -/
theorem schema_snd : ∀ (t : Ty) (components : Components), (t.schema components).2 =
    match t.head? with
    | none => components
    | some r => ((Ty.record r.1 r.2).schema components).2
  | .array elem _, components => by
    rw [schema, head?]
    exact schema_snd elem components
  | .list elem, components => by
    rw [schema, head?]
    exact schema_snd elem components
  | .map _ _ value, components => by
    rw [schema, head?]
    exact schema_snd value components
  | .optional inner, components => by
    rw [schema, head?]
    exact schema_snd inner components
  | .record _ _, _ => rfl
  | .scalar _, _ | .any, _ | .error, _ | .named _, _ => by
    rw [schema]
    rfl

theorem recordsOfFields_eq (fields : List (String × Ty)) :
    recordsOfFields fields = recordsOf (fields.map Prod.snd) := by
  induction fields with
  | nil => rfl
  | cons f rest ih =>
    rw [recordsOfFields, ih]
    rfl

/-- The records inside a type are its head and those inside the fields of its head. -/
theorem records_eq : ∀ t : Ty, t.records =
    match t.head? with
    | none => []
    | some r => r :: recordsOf (fieldTypes r)
  | .array elem _ => by
    rw [records, head?]
    exact records_eq elem
  | .list elem => by
    rw [records, head?]
    exact records_eq elem
  | .map _ _ value => by
    rw [records, head?]
    exact records_eq value
  | .optional inner => by
    rw [records, head?]
    exact records_eq inner
  | .record name fields => by
    rw [records, recordsOfFields_eq]
    rfl
  | .scalar _ | .any | .error | .named _ => by
    rw [records]
    rfl

/-- **Induction over the fields of heads**: all that the table sees of a type. -/
theorem head_induction {motive : Ty → Prop}
    (step : ∀ t, (∀ r, t.head? = some r → ∀ t' ∈ fieldTypes r, motive t') → motive t) (t : Ty) :
    motive t := by
  induction hsize : sizeOf t using Nat.strongRecOn generalizing t with
  | ind n ih =>
  refine step t fun r hr t' ht' ↦ ?_
  have hmem : r ∈ t.records := by
    rw [records_eq, hr]
    exact List.mem_cons_self
  obtain ⟨⟨name, t'⟩, hf, rfl⟩ := List.mem_map.1 ht'
  have hfields : sizeOf r.2 < sizeOf t := sizeOf_lt_of_mem_records hmem
  have hfield : sizeOf (name, t') < sizeOf r.2 := List.sizeOf_lt_of_mem hf
  rw [Prod.mk.sizeOf_spec] at hfield
  exact ih (sizeOf t') (by omega) t' rfl

/-- What holds after describing each of some types holds after describing all of them. -/
theorem schemas_preserves {p : Components → Prop} {types : List Ty}
    (h : ∀ t ∈ types, ∀ c, p c → p (t.schema c).2) {components : Components} (hp : p components) :
    p (schemas types components).2 := by
  induction types generalizing components with
  | nil => exact hp
  | cons t rest ih =>
    rw [schemas]
    exact ih (fun t' ht' ↦ h t' (.tail _ ht')) (h t List.mem_cons_self components hp)

/-! ### Where components come from -/

/-- From a table on, describing a type puts nothing more in. -/
def Settled (components : Components) (t : Ty) : Prop :=
  ∀ later : Components, components.keys ⊆ later.keys → (t.schema later).2 = later

theorem Settled.mono {components' : Components} (hkeys : components.keys ⊆ components'.keys)
    {t : Ty} (h : Settled components t) : Settled components' t :=
  fun later hlater ↦ h later fun _ hname ↦ hlater (hkeys hname)

/-- Types that have been described are settled. -/
theorem settled_schemas (hself : components.SelfContained) (types : List Ty) :
    ∀ t ∈ types, Settled (schemas types components).2 t := by
  intro t ht later hlater
  obtain ⟨-, hagain⟩ := registers_schemas types components hself
  obtain ⟨hlength, hagain⟩ := List.forall₂_iff_get.1 hagain
  obtain ⟨i, hi, rfl⟩ := List.getElem_of_mem ht
  exact congrArg Prod.snd (hagain i hi (hlength ▸ hi) hlater)

/-- Describing settled types changes nothing. -/
theorem schemas_of_settled {types : List Ty} (h : ∀ t ∈ types, Settled components t) :
    (schemas types components).2 = components := by
  induction types with
  | nil => rfl
  | cons t rest ih =>
    have ht : (t.schema components).2 = components :=
      h t List.mem_cons_self components (List.Subset.refl _)
    rw [schemas]
    dsimp only
    rw [ht]
    exact ih fun t' ht' ↦ h t' (.tail _ ht')

end Ty

namespace Components

open Ty

/-- Every component is that of a known record whose fields have been described. -/
structure Traced (known : List RecordType) (components : Components) : Prop where
  selfContained : components.SelfContained
  entries : ∀ name c, components.get? name = some c → ∃ r ∈ known, r.1 = name ∧
    c = component r ∧ ∀ t ∈ fieldTypes r, Settled components t

end Components

namespace Ty

open Components

variable {known : List RecordType}

theorem traced_empty (known : List RecordType) : Traced known ∅ :=
  ⟨.empty, nofun⟩

/-- **Describing a type of known records** keeps every component traced. -/
theorem traced_schema (t : Ty) : ∀ {components : Components}, t.records ⊆ known →
    Traced known components → Traced known (t.schema components).2 := by
  induction t using head_induction with
  | step t ih =>
  intro components hsub h
  have hself := (registers_schema t components h.selfContained).serves.selfContained
  rw [schema_snd] at hself ⊢
  rw [records_eq] at hsub
  cases hhead : t.head? with
  | none => exact h
  | some r =>
    rw [hhead] at hself hsub
    obtain ⟨hr, hfields⟩ := List.cons_subset.1 hsub
    dsimp only at hself ⊢
    cases hget : components.get? r.1 with
    | some c =>
      rw [schema_record_of_known hget]
      exact h
    | none =>
      rw [schema_record_of_new hget] at hself ⊢
      have hdone : Traced known (schemas (fieldTypes r) components).2 :=
        schemas_preserves (fun t' ht' _ hc ↦ ih r hhead t' ht'
          (fun q hq ↦ hfields (List.mem_flatMap.2 ⟨t', ht', hq⟩)) hc) h
      have hkeys : (schemas (fieldTypes r) components).2.keys ⊆
          ((schemas (fieldTypes r) components).2.insert r.1 (component r)).keys :=
        fun name hname ↦ KeyMap.mem_keys_insert.2 (.inr hname)
      refine ⟨hself, fun name c hentry ↦ ?_⟩
      rw [KeyMap.get?_insert] at hentry
      split at hentry
      · next heq =>
        exact ⟨r, hr, heq, (Option.some.inj hentry).symm, fun t' ht' ↦
          (settled_schemas h.selfContained _ t' ht').mono hkeys⟩
      · obtain ⟨q, hq, hname, hc, hsettled⟩ := hdone.entries name c hentry
        exact ⟨q, hq, hname, hc, fun t' ht' ↦ (hsettled t' ht').mono hkeys⟩

theorem traced_schemas {types : List Ty} (hsub : recordsOf types ⊆ known)
    (h : Traced known components) : Traced known (schemas types components).2 :=
  schemas_preserves (fun t ht _ hc ↦
    traced_schema t (fun _ hr ↦ hsub (List.mem_flatMap.2 ⟨t, ht, hr⟩)) hc) h

end Ty

/-! ### Two tables in tandem -/

/-- A record of `before` and a record of `after` that have one name are the same. -/
def Agree (before after : List RecordType) : Prop :=
  ∀ r ∈ before, ∀ r' ∈ after, r.1 = r'.1 → r.2 = r'.2

instance (before after : List RecordType) : Decidable (Agree before after) :=
  inferInstanceAs (Decidable (∀ r ∈ before, ∀ r' ∈ after, r.1 = r'.1 → r.2 = r'.2))

namespace Components

open Ty

/-- Some types have been described with a table that had the records `before` already, and on their
own. The shared table is ahead in those records only. -/
structure Tandem (before after : List RecordType) (shared alone : Components) : Prop where
  traced : shared.Traced (before ++ after)
  within : alone.Within shared
  others : ∀ name, name ∉ before.map Prod.fst → shared.get? name = alone.get? name

variable {before after : List RecordType} {shared alone : Components}

/-- A name that only the shared table has is one of `before`, and stands for the same record. -/
theorem Tandem.ahead (h : Tandem before after shared alone) (hagree : Agree before after)
    {r : RecordType} (hr : r ∈ after) {c : Json} (hshared : shared.get? r.1 = some c)
    (halone : alone.get? r.1 = none) :
    r.1 ∈ before.map Prod.fst ∧ c = component r ∧ ∀ t ∈ fieldTypes r, Settled shared t := by
  have hname : r.1 ∈ before.map Prod.fst := by
    refine Decidable.byContradiction fun hname ↦ ?_
    rw [h.others r.1 hname, halone] at hshared
    cases hshared
  obtain ⟨q, hq, hqr⟩ := List.mem_map.1 hname
  have hqr' : q.2 = r.2 := hagree q hq r hr hqr
  obtain ⟨p, hp, hpr, hc, hsettled⟩ := h.traced.entries r.1 c hshared
  -- Where `p` is not of `before`, it agrees with the record of `before` that has the name.
  have hpr' : p.2 = r.2 := by
    rcases List.mem_append.1 hp with hp | hp
    · exact hagree p hp r hr hpr
    · exact (hagree q hq p hp (hqr.trans hpr.symm)).symm.trans hqr'
  obtain rfl : p = r := Prod.ext hpr hpr'
  exact ⟨hname, hc, hsettled⟩

/-- The component of a record may be put into both tables. -/
theorem Tandem.insert_both (h : Tandem before after shared alone) (name : String) (c : Json)
    (htraced : Traced (before ++ after) (shared.insert name c)) :
    Tandem before after (shared.insert name c) (alone.insert name c) := by
  refine ⟨htraced, fun name' c' hget ↦ ?_, fun name' hname' ↦ ?_⟩
  · rw [KeyMap.get?_insert] at hget ⊢
    split at hget
    · next heq => rwa [if_pos heq]
    · next hne =>
      rw [if_neg hne]
      exact h.within name' c' hget
  · rw [KeyMap.get?_insert, KeyMap.get?_insert]
    split
    · rfl
    · exact h.others name' hname'

/-- A component that the shared table has may be put into the other one. -/
theorem Tandem.insert_alone (h : Tandem before after shared alone) {name : String} {c : Json}
    (hname : name ∈ before.map Prod.fst) (hshared : shared.get? name = some c) :
    Tandem before after shared (alone.insert name c) := by
  refine ⟨h.traced, fun name' c' hget ↦ ?_, fun name' hname' ↦ ?_⟩
  · rw [KeyMap.get?_insert] at hget
    split at hget
    · next heq =>
      cases hget
      exact heq ▸ hshared
    · exact h.within name' c' hget
  · have hne : name ≠ name' := fun heq ↦ hname' (heq ▸ hname)
    rw [KeyMap.get?_insert_of_ne _ _ hne]
    exact h.others name' hname'

end Components

/-- A schema can be used with either of two tables, and an instance violates the same of it. -/
def Schema.SameMeaning (s : Json) (components components' : Components) : Prop :=
  ∃ schema schema', compile s components = .ok schema ∧ compile s components' = .ok schema' ∧
    ∀ j, schema.validate j = schema'.validate j

namespace Ty

open Components

variable {before after : List RecordType} {shared alone : Components}

/-- What describing each of some types preserves of two tables, describing all of them does. -/
theorem tandem_schemas_of_forall {types : List Ty}
    (h : ∀ t ∈ types, ∀ {a b : Components}, Tandem before after a b →
      Tandem before after (t.schema a).2 (t.schema b).2)
    (hab : Tandem before after shared alone) :
    Tandem before after (schemas types shared).2 (schemas types alone).2 := by
  induction types generalizing shared alone with
  | nil => exact hab
  | cons t rest ih =>
    rw [schemas, schemas]
    exact ih (fun t' ht' ↦ h t' (.tail _ ht')) (h t List.mem_cons_self hab)

/-- **Describing a type keeps two tables in tandem.** -/
theorem tandem_schema (hagree : Agree before after) (t : Ty) :
    ∀ {shared alone : Components}, t.records ⊆ after → Tandem before after shared alone →
      Tandem before after (t.schema shared).2 (t.schema alone).2 := by
  induction t using head_induction with
  | step t ih =>
  intro shared alone hsub h
  have htraced : (t.schema shared).2.Traced (before ++ after) :=
    traced_schema t (fun _ hr ↦ List.mem_append_right _ (hsub hr)) h.traced
  rw [schema_snd] at htraced ⊢
  rw [schema_snd t alone]
  rw [records_eq] at hsub
  cases hhead : t.head? with
  | none => exact h
  | some r =>
    rw [hhead] at htraced hsub
    obtain ⟨hr, hfields⟩ := List.cons_subset.1 hsub
    have hdone : Tandem before after (schemas (fieldTypes r) shared).2
        (schemas (fieldTypes r) alone).2 :=
      tandem_schemas_of_forall (fun t' ht' _ _ hab ↦ ih r hhead t' ht'
        (fun q hq ↦ hfields (List.mem_flatMap.2 ⟨t', ht', hq⟩)) hab) h
    dsimp only at htraced ⊢
    cases halone : alone.get? r.1 with
    | some c =>
      rw [schema_record_of_known (h.within r.1 c halone), schema_record_of_known halone]
      exact h
    | none =>
      rw [schema_record_of_new halone]
      cases hshared : shared.get? r.1 with
      | none =>
        rw [schema_record_of_new hshared] at htraced ⊢
        exact hdone.insert_both r.1 (component r) htraced
      | some c =>
        -- The shared table has the record and so its fields: only the other one moves.
        obtain ⟨hname, rfl, hsettled⟩ := h.ahead hagree hr hshared halone
        rw [schemas_of_settled hsettled] at hdone
        rw [schema_record_of_known hshared]
        exact hdone.insert_alone hname hshared

/-- **What some types put into a table of their own, they find in a shared one**, if the names that
they have in common with the types before them stand for the same records. -/
theorem registry_within {before types : List Ty}
    (hagree : Agree (recordsOf before) (recordsOf types)) (later : List Ty) :
    (registry types).Within (registry (before ++ types ++ later)) := by
  have htraced : (registry before).Traced (recordsOf before) :=
    traced_schemas (List.Subset.refl _) (traced_empty _)
  have hothers : ∀ name, name ∉ (recordsOf before).map Prod.fst →
      (registry before).get? name = (∅ : Components).get? name := by
    intro name hname
    refine Option.eq_none_iff_forall_ne_some.2 fun c hget ↦ hname ?_
    obtain ⟨r, hr, hrname, -⟩ := htraced.entries name c hget
    exact List.mem_map.2 ⟨r, hr, hrname⟩
  have hstart : Tandem (recordsOf before) (recordsOf types) (registry before) ∅ :=
    ⟨traced_schemas (List.subset_append_left _ _) (traced_empty _), nofun, hothers⟩
  have hend := tandem_schemas_of_forall (fun t ht _ _ hab ↦
    tandem_schema hagree t (fun r hr ↦ List.mem_flatMap.2 ⟨t, ht, hr⟩) hab) hstart
  have hshared : registry (before ++ types) = (schemas types (registry before)).2 := by
    rw [registry, schemas_append]
    rfl
  intro name c hget
  refine (registry_serves (before ++ types) later).keeps ?_
  rw [hshared]
  exact hend.within name c hget

/-- **Sharing keeps meanings.** The schemas of types can be used with a shared table as they can
with the table of their own, and an instance violates the same of them. -/
theorem means_schemas {before types : List Ty}
    (hagree : Agree (recordsOf before) (recordsOf types)) (later : List Ty) :
    ∀ s ∈ (schemas types ∅).1,
      SameMeaning s (registry (before ++ types ++ later)) (registry types) := by
  intro s hs
  obtain ⟨hserves, -⟩ := registers_schemas types ∅ .empty
  have halone : compile s (registry types) = .ok ⟨s, registry types⟩ :=
    hserves.selfContained.compile (hserves.meets s hs)
  have hwithin := registry_within hagree later
  exact ⟨_, _, compile_within hwithin halone, halone, validate_within hwithin halone⟩

end Ty

/-! ### Functions and contracts -/

namespace Transaction

/-- The schemas of a transaction: those of its parameters, and that of its success value. -/
def schemas (tx : Transaction) : List Json :=
  tx.parameters.map Parameter.schema ++ tx.returns.toList.map Returns.schema

variable (name : String) (f : FunctionOutline) (components components' : Components)

/-- The transaction of a function does not depend on the table. -/
theorem describe_fst : (describe name f.params f.success components).1 =
    (describe name f.params f.success components').1 := by
  unfold describe
  dsimp only
  rw [Ty.schemas_fst f.params components components']
  cases f.success with
  | none => rfl
  | some t =>
    dsimp only
    rw [Ty.schema_fst t _ (Ty.schemas f.params components').2]

/-- Describing a function describes the types of its parameters and of its success value. -/
theorem describe_snd : (describe name f.params f.success components).2 =
    (Ty.schemas f.types components).2 := by
  unfold describe FunctionOutline.types
  rw [Ty.schemas_append]
  cases f.success <;> rfl

theorem name_describe : (describe name f.params f.success components).1.name = name := by
  unfold describe
  cases f.success <;> rfl

theorem length_schemas (types : List Ty) :
    (Ty.schemas types components).1.length = types.length := by
  induction types generalizing components with
  | nil => rfl
  | cons t rest ih => exact congrArg (· + 1) (ih _)

/-- There is one parameter for each type. -/
theorem length_parameters_describe :
    (describe name f.params f.success components).1.parameters.length = f.params.length := by
  have hlength := length_schemas components f.params
  unfold describe
  cases f.success <;> simpa only [List.length_mapIdx] using hlength

theorem schemas_describe : (describe name f.params f.success components).1.schemas =
    (Ty.schemas f.types components).1 := by
  -- A parameter is named after its position; its schema is the one it was made of.
  have hparameters : ∀ ss : List Json, (ss.mapIdx fun i s ↦
      (⟨"param" ++ toString i, s⟩ : Parameter)).map Parameter.schema = ss := by
    intro ss
    rw [List.mapIdx_eq_zipIdx_map, List.map_map]
    exact List.zipIdx_map_fst 0 ss
  unfold describe schemas FunctionOutline.types
  rw [Ty.schemas_append]
  cases f.success with
  | none => exact congrArg (· ++ []) (hparameters _)
  | some t => exact congrArg (· ++ [_]) (hparameters _)

end Transaction

namespace ContractOutline

variable (components : Components)

theorem describeAll_fst (functions : List (String × FunctionOutline)) :
    (describeAll functions components).1 =
      functions.map fun e ↦ (Transaction.describe e.1 e.2.params e.2.success ∅).1 := by
  induction functions generalizing components with
  | nil => rfl
  | cons e rest ih =>
    rw [describeAll, List.map_cons, Transaction.describe_fst e.1 e.2 ∅ components]
    exact congrArg _ (ih _)

theorem describeAll_snd (functions : List (String × FunctionOutline)) :
    (describeAll functions components).2 =
      (Ty.schemas (functions.flatMap fun e ↦ e.2.types) components).2 := by
  induction functions generalizing components with
  | nil => rfl
  | cons e rest ih =>
    rw [describeAll, List.flatMap_cons, Ty.schemas_append]
    dsimp only
    rw [ih, Transaction.describe_snd]

/-- **The entry of a contract does not depend on the table**: it has a transaction for each
function, in the order of their names. -/
theorem describe_fst (c : ContractOutline) : (c.describe components).1 = ⟨c.info, c.name,
    c.functions.entries.map fun e ↦ (Transaction.describe e.1 e.2.params e.2.success ∅).1,
    c.isDefault⟩ := by
  unfold describe
  dsimp only
  rw [describeAll_fst]

/-- Describing a contract describes the types of its functions. -/
theorem describe_snd (c : ContractOutline) :
    (c.describe components).2 = (Ty.schemas c.types components).2 :=
  describeAll_snd components c.functions.entries

/-- The transaction of a function is the one of its name. -/
theorem find?_transactions (functions : KeyMap FunctionOutline) (name : String) :
    (functions.entries.map fun e ↦
        (Transaction.describe e.1 e.2.params e.2.success ∅).1).find? (fun tx ↦ tx.name == name) =
      (functions.get? name).map fun f ↦ (Transaction.describe name f.params f.success ∅).1 := by
  unfold KeyMap.get?
  induction functions.entries with
  | nil => rfl
  | cons e rest ih =>
    obtain ⟨name', f⟩ := e
    rw [List.map_cons, KeyMap.lookup, List.find?_cons]
    dsimp only
    rw [Transaction.name_describe]
    by_cases hname : name' = name
    · rw [if_pos hname, hname, beq_self_eq_true]
      rfl
    · rw [if_neg hname, beq_false_of_ne hname]
      exact ih

end ContractOutline

end ContractHost
