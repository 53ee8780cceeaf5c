import ContractHost.Proofs.Data.Writing
import ContractHost.Proofs.Document.Forms
import ContractHost.Proofs.Document.Usability

/-!
# Generated schemas accept documents of their types

A schema that was generated for a type accepts every document that the type admits
(`Ty.DescribedBy.validate`). The argument is about meanings: a predicate that satisfies the
semantics of schemas holds of the schema and the document, by induction over the type, and checking
is such a predicate.
-/

namespace ContractHost

open Schema

variable {components : Components} {root : Json} {S : Json → Json → Prop} {j : Json}

/-! ### Scalars -/

theorem hasType_number (h : j.isNumber = true) : j.HasType "number" := by
  cases j with
  | int n => exact .int n
  | float x => exact .float x
  | _ => cases h

/-- **The schema of a scalar type accepts the documents of the type.** -/
theorem Scalar.meaning_schema {s : Scalar} (h : s.Accepts j) :
    Meaning Json.roundedValue? components S s.schema j := by
  cases s with
  | bool =>
    cases j <;> simp only [Scalar.Accepts] at h
    exact constraints_type_iff.2 (.boolean _)
  | string =>
    cases j <;> simp only [Scalar.Accepts] at h
    exact constraints_type_iff.2 (.string _)
  | single => exact constraints_format_iff.2 (hasType_number h)
  | double => exact constraints_format_iff.2 (hasType_number h)
  | integer k =>
    cases j <;> simp only [Scalar.Accepts] at h
    case int n =>
    have hn : Json.IntegerRange n := IntegerKind.InRange.integerRange h
    cases k with
    | i64 | isize => exact constraints_format_iff.2 (.integer n)
    | u64 | usize => exact (constraints_natural_iff hn).2 h.1
    | i8 | i16 | i32 =>
      exact (constraints_format [_] _ _).2
        ((constraints_bounded_iff (by decide) (by decide) hn).2 h)
    | u8 | u16 | u32 =>
      exact (constraints_bounded_iff (by decide) (by decide) hn).2 h

/-! ### Records -/

/-- The names that a record has to have are names of its fields. -/
theorem Ty.mem_names_of_mem_requiredNames {fields : List (String × Ty)} {name : String}
    (h : name ∈ requiredNames fields) : name ∈ fields.map Prod.fst := by
  obtain ⟨f, hf, rfl⟩ := List.mem_map.1 h
  exact List.mem_map_of_mem (List.mem_of_mem_filter hf)

/-- Values of a record have the names of its fields. -/
theorem Ty.names_of_acceptsFields : ∀ {fields : List (String × Ty)} {values : List (String × Json)},
    AcceptsFields fields values → fields.map Prod.fst = values.map Prod.fst
  | [], [], _ => rfl
  | (_, _) :: _, (_, _) :: _, h => by
    rw [AcceptsFields] at h
    rw [List.map_cons, List.map_cons, names_of_acceptsFields h.2.2, h.1]

/-- Where a name repeats, only the last schema under it is reached, and only the last value counts.
-/
theorem exists_schema_of_mem_collect {described values : List (String × Json)}
    (hvalues : List.Forall₂ (Json.SameName fun s v ↦ Reached components root s → S s v)
      described values)
    (hreached : ∀ k s, Json.field? k (Json.collect described) = some s →
      Reached components root s) :
    ∀ f ∈ Json.collect values,
      ∃ s, Json.field? f.1 (Json.collect described) = some s ∧ S s f.2 := by
  intro f hf
  have hcollected := Json.forall₂_collect hvalues
  have hname : f.1 ∈ (Json.collect described).map Prod.fst := by
    rw [Json.names_eq_of_forall₂ hcollected]
    exact List.mem_map_of_mem hf
  obtain ⟨s, hs⟩ := Json.exists_field?_iff.2 hname
  exact ⟨s, hs, Json.related_of_forall₂ hcollected (Json.nodup_collect _) hs hf (hreached _ s hs)⟩

/-! ### What generated schemas mean -/

namespace Ty

mutual

/-- **A generated schema means at least its type**: it holds of every document that the type
admits. -/
theorem DescribedBy.holds (hS : Semantics Json.roundedValue? components root S) :
    ∀ {t : Ty} {s j : Json}, t.DescribedBy components s → Reached components root s →
      t.Accepts j → S s j
  | .scalar t, s, j, hs, hreached, hj => by
    rw [DescribedBy] at hs
    rw [Accepts] at hj
    rw [hS s hreached j, hs]
    exact t.meaning_schema hj
  | .array elem n, s, j, hs, hreached, hj => by
    rw [DescribedBy] at hs
    obtain ⟨items, hitems, rfl⟩ := hs
    cases j <;> simp only [Accepts] at hj
    case list values =>
    have hpart := hreached.part (part_of_field? (.inl rfl) rfl)
    obtain ⟨rfl, hvalues⟩ := hj
    rw [hS _ hreached]
    exact constraints_array_iff.2
      ⟨values, rfl, rfl, fun i hi ↦ hitems.holds hS hpart (hvalues i hi)⟩
  | .list elem, s, j, hs, hreached, hj => by
    rw [DescribedBy] at hs
    obtain ⟨items, hitems, rfl⟩ := hs
    cases j <;> simp only [Accepts] at hj
    case list values =>
    have hpart := hreached.part (part_of_field? (.inl rfl) rfl)
    rw [hS _ hreached]
    exact constraints_list_iff.2 ⟨values, rfl, fun i hi ↦ hitems.holds hS hpart (hj i hi)⟩
  | .map _ _ value, s, j, hs, hreached, hj => by
    rw [DescribedBy] at hs
    obtain ⟨values, hvalues, rfl⟩ := hs
    cases j <;> simp only [Accepts] at hj
    case object fields =>
    have hpart := hreached.part (part_of_field? (.inr (.inr rfl)) rfl)
    rw [hS _ hreached]
    exact constraints_map_iff.2 ⟨fields, rfl, fun f hf ↦ hvalues.holds hS hpart (hj f hf)⟩
  | .optional inner, s, j, hs, hreached, hj => by
    rw [DescribedBy] at hs
    obtain ⟨inside, hinside, rfl⟩ := hs
    rw [Accepts] at hj
    have hparts : ∀ s ∈ [inside, .object [("type", .string "null")]],
        Reached components root s := fun s hs ↦
      hreached.part (part_of_mem_schemasIn (.inr (.inl rfl)) (mem_schemasIn.2 ⟨_, rfl, hs⟩))
    rw [hS _ hreached]
    refine constraints_anyOf_iff.2 ?_
    rcases hj with rfl | hj
    · refine .inr ?_
      rw [hS _ (hparts _ (.tail _ List.mem_cons_self))]
      exact constraints_type_iff.2 .null
    · exact .inl (hinside.holds hS (hparts _ List.mem_cons_self) hj)
  | .record name fields, s, j, hs, hreached, hj => by
    rw [DescribedBy] at hs
    obtain ⟨rfl, described, hdescribed, hget⟩ := hs
    rw [Accepts] at hj
    obtain ⟨values, rfl, hvalues⟩ := hj
    -- The schema of a record is a reference; what it means is said by the component.
    have hresolve : resolve? components (referencePrefix ++ name) = _ :=
      (resolve?_reference name).trans hget
    have htarget := hreached.target rfl hresolve
    rw [hS _ hreached]
    refine ⟨_, hresolve, ?_⟩
    rw [hS _ htarget]
    have hfalse : ∀ v, ¬S (.bool false) v := fun v hv ↦
      Bool.false_ne_true ((hS _ (htarget.part (part_of_field? (.inr (.inr rfl)) rfl)) v).1 hv)
    refine (constraints_record_iff hfalse).2 ⟨_, rfl, fun k hk ↦ ?_,
      exists_schema_of_mem_collect (hdescribed.holds hS hvalues) fun k s hs ↦ ?_⟩
    · rw [Json.mem_names_collect, ← names_of_acceptsFields hvalues]
      exact mem_names_of_mem_requiredNames hk
    · exact htarget.part (part_of_fieldSchema? (show fieldSchema? _ k = some s by
        simp [fieldSchema?, Json.field?, Json.get?, hs]))
  | .any, s, j, hs, hreached, _ => by
    rw [DescribedBy] at hs
    rw [hS _ hreached, hs]
    exact constraints_nil
  | .error, s, j, hs, hreached, _ => by
    rw [DescribedBy] at hs
    rw [hS _ hreached, hs]
    exact constraints_nil
  | .named _, s, j, hs, hreached, _ => by
    rw [DescribedBy] at hs
    rw [hS _ hreached, hs]
    exact constraints_nil

theorem FieldsDescribedBy.holds (hS : Semantics Json.roundedValue? components root S) :
    ∀ {fields : List (String × Ty)} {described values : List (String × Json)},
      FieldsDescribedBy components fields described → AcceptsFields fields values →
      List.Forall₂ (Json.SameName fun s v ↦ Reached components root s → S s v) described values
  | [], [], [], _, _ => .nil
  | (_, _) :: _, (_, _) :: _, (_, _) :: _, hdescribed, hvalues => by
    rw [FieldsDescribedBy] at hdescribed
    rw [AcceptsFields] at hvalues
    exact .cons ⟨hdescribed.1.trans hvalues.1.symm,
      fun hreached ↦ hdescribed.2.1.holds hS hreached hvalues.2.1⟩
      (hdescribed.2.2.holds hS hvalues.2.2)

end

/-- **A generated schema accepts the documents of its type.** -/
theorem DescribedBy.validate {known : List RecordType} {t : Ty} {s : Json}
    (h : t.DescribedBy components s) (hsound : components.Sound known) (hj : t.Accepts j) :
    Schema.validate ⟨s, components⟩ j = [] := by
  obtain ⟨-, l, husable⟩ := compile_spec (h.compile hsound)
  exact h.holds (semantics_check husable) .root hj

end Ty

end ContractHost
