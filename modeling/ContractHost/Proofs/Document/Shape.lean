import ContractHost.Proofs.Document.Acceptance
import ContractHost.Proofs.Json.Canonical

/-!
# The shape of a type

`Ty.Shape` says which documents have the shape of a type on the wire, without a word about schemas.
Among documents that hold no numbers but integers (`Json.Integral`), **the schema that is generated
for a type accepts exactly those of its shape** (`Ty.validate_schema_iff`).

The shape is wider than what `Ty.Accepts` admits: the schema of a signed 64-bit integer takes
integers up to the end of the unsigned range, and that of an unsigned one has no upper bound; a
record may leave out its optional fields and have the others in any order.

Two provisos are about the type. Records of one name have to be the same (`Consistent`), since
components are kept by name; and no record has two fields of one name (`Ty.FieldsDistinct`), since
such a record would have the schema of the last one only.
-/

namespace ContractHost

open Schema

/-! ### Shapes -/

/-- A document has the shape of a scalar type. -/
def Scalar.Shape : Scalar → Json → Prop
  | .bool, j => ∃ b, j = .bool b
  | .string, j => ∃ s, j = .string s
  | .integer .i64, j | .integer .isize, j => ∃ n, j = .int n
  | .integer .u64, j | .integer .usize, j => ∃ n, j = .int n ∧ 0 ≤ n
  | .integer k, j => ∃ n, j = .int n ∧ k.InRange n
  | .single, j | .double, j => j.isNumber = true

namespace Ty

mutual

/-- A document has the shape of a type. -/
def Shape : Ty → Json → Prop
  | .scalar s, j => s.Shape j
  | .array elem n, j => ∃ items, j = .list items ∧ items.length = n ∧ ∀ i ∈ items, Shape elem i
  | .list elem, j => ∃ items, j = .list items ∧ ∀ i ∈ items, Shape elem i
  | .map _ _ value, j => ∃ fields, j = .object fields ∧ ∀ f ∈ fields, Shape value f.2
  | .optional inner, j => j = .null ∨ Shape inner j
  | .record _ fields, j => ∃ present, j = .object present ∧
      (∀ f ∈ fields, f.2.isOptional = false → f.1 ∈ present.map Prod.fst) ∧
      ∀ f ∈ present, FieldShape fields f
  | .any, _ | .error, _ | .named _, _ => True

/-- A field of a document has the name and the shape of one of the fields of a record. -/
def FieldShape : List (String × Ty) → String × Json → Prop
  | [], _ => False
  | (name, t) :: rest, f => f.1 = name ∧ Shape t f.2 ∨ FieldShape rest f

end

/-- No record inside a type has two fields of one name. -/
def FieldsDistinct (t : Ty) : Prop :=
  ∀ r ∈ t.records, (r.2.map Prod.fst).Nodup

instance : DecidablePred FieldsDistinct := fun t ↦
  inferInstanceAs (Decidable (∀ r ∈ t.records, (r.2.map Prod.fst).Nodup))

end Ty

/-! ### Scalars -/

open Json (Integral)

variable {components : Components} {root : Json} {S : Json → Json → Prop} {j : Json}

theorem hasType_integer_iff (hj : j.Integral) : j.HasType "integer" ↔ ∃ n, j = .int n := by
  rw [← hasType_iff]
  rcases j with _ | _ | n | x | _ | _ | _
  case float => exact hj.elim
  all_goals simp [hasType]

theorem hasType_number_iff : j.HasType "number" ↔ j.isNumber = true := by
  rw [← hasType_iff]
  rcases j with _ | _ | _ | _ | _ | _ | _ <;> simp [hasType, Json.isNumber]

theorem hasType_boolean_iff : j.HasType "boolean" ↔ ∃ b, j = .bool b := by
  rw [← hasType_iff]
  rcases j with _ | b | _ | _ | _ | _ | _ <;> simp [hasType]

theorem hasType_string_iff : j.HasType "string" ↔ ∃ s, j = .string s := by
  rw [← hasType_iff]
  rcases j with _ | _ | _ | _ | s | _ | _ <;> simp [hasType]

theorem hasType_null_iff : j.HasType "null" ↔ j = .null := by
  rw [← hasType_iff]
  rcases j with _ | _ | _ | _ | _ | _ | _ <;> simp [hasType]

/-- The schemas of kinds of integers accept integers only. -/
theorem integer_iff {fields : List (String × Json)} {P : ℤ → Prop} (hj : j.Integral)
    (hname : Json.field? "type" fields = some (.string "integer"))
    (h : ∀ n, Json.IntegerRange n → (Constraints Json.roundedValue? S fields (.int n) ↔ P n)) :
    Constraints Json.roundedValue? S fields j ↔ ∃ n, j = .int n ∧ P n := by
  constructor
  · intro hc
    obtain ⟨n, rfl⟩ := (hasType_integer_iff hj).1 ((type_iff hname).1 hc.type)
    exact ⟨n, rfl, (h n hj).1 hc⟩
  · rintro ⟨n, rfl, hn⟩
    exact (h n hj).2 hn

/-- **The schema of a scalar type accepts exactly the documents of its shape.** -/
theorem Scalar.meaning_schema_iff (s : Scalar) (hj : j.Integral) :
    Meaning Json.roundedValue? components S s.schema j ↔ s.Shape j := by
  cases s with
  | bool => exact constraints_type_iff.trans hasType_boolean_iff
  | string => exact constraints_type_iff.trans hasType_string_iff
  | single => exact constraints_format_iff.trans hasType_number_iff
  | double => exact constraints_format_iff.trans hasType_number_iff
  | integer k =>
    cases k with
    | i64 | isize => exact constraints_format_iff.trans (hasType_integer_iff hj)
    | u64 | usize => exact integer_iff hj rfl fun _ hn ↦ constraints_natural_iff hn
    | i8 | i16 | i32 =>
      exact integer_iff hj rfl fun _ hn ↦
        (constraints_format [_] _ _).trans (constraints_bounded_iff (by decide) (by decide) hn)
    | u8 | u16 | u32 =>
      exact integer_iff hj rfl fun _ hn ↦
        constraints_bounded_iff (by decide) (by decide) hn

/-! ### What generated schemas mean -/

namespace Ty

/-- The schemas of a record's fields have the names of the fields. -/
theorem FieldsDescribedBy.names_eq {fields : List (String × Ty)}
    {described : List (String × Json)} (h : FieldsDescribedBy components fields described) :
    described.map Prod.fst = fields.map Prod.fst := by
  induction fields generalizing described with
  | nil =>
    cases described with
    | nil => rfl
    | cons f rest => exact h.elim
  | cons f rest ih =>
    cases described with
    | nil => exact h.elim
    | cons p described =>
      obtain ⟨hname, -, hrest⟩ := h
      rw [List.map_cons, List.map_cons, ih hrest, hname]

theorem mem_names_of_fieldShape {f : String × Json} : ∀ {fields : List (String × Ty)},
    FieldShape fields f → f.1 ∈ fields.map Prod.fst
  | (_, _) :: _, h => by
    rw [FieldShape] at h
    rcases h with ⟨hname, -⟩ | h
    · exact List.mem_cons.2 (.inl hname)
    · exact List.mem_cons_of_mem _ (mem_names_of_fieldShape h)

/-- A record has to have the fields that are not optional. -/
theorem forall_mem_requiredNames_iff {fields : List (String × Ty)} {P : String → Prop} :
    (∀ k ∈ requiredNames fields, P k) ↔ ∀ f ∈ fields, f.2.isOptional = false → P f.1 := by
  simp [requiredNames]

mutual

/-- **A generated schema means the shape of its type**, for documents without floating-point
numbers. -/
theorem DescribedBy.holds_iff (hS : Semantics Json.roundedValue? components root S) :
    ∀ {t : Ty} {s j : Json}, t.DescribedBy components s → Reached components root s →
      t.FieldsDistinct → j.Integral → (S s j ↔ t.Shape j)
  | .scalar t, s, j, hs, hreached, _, hj => by
    rw [DescribedBy] at hs
    rw [hS s hreached j, hs, Shape]
    exact t.meaning_schema_iff hj
  | .array elem n, s, j, hs, hreached, hdistinct, hj => by
    rw [DescribedBy] at hs
    obtain ⟨items, hitems, rfl⟩ := hs
    have hpart := hreached.part (part_of_field? (.inl rfl) rfl)
    rw [hS _ hreached, Shape]
    refine constraints_array_iff.trans (exists_congr fun values ↦ and_congr_right ?_)
    rintro rfl
    exact and_congr_right' (forall₂_congr fun i hi ↦
      hitems.holds_iff hS hpart hdistinct (hj.mem hi))
  | .list elem, s, j, hs, hreached, hdistinct, hj => by
    rw [DescribedBy] at hs
    obtain ⟨items, hitems, rfl⟩ := hs
    have hpart := hreached.part (part_of_field? (.inl rfl) rfl)
    rw [hS _ hreached, Shape]
    refine constraints_list_iff.trans (exists_congr fun values ↦ and_congr_right ?_)
    rintro rfl
    exact forall₂_congr fun i hi ↦ hitems.holds_iff hS hpart hdistinct (hj.mem hi)
  | .map _ _ value, s, j, hs, hreached, hdistinct, hj => by
    rw [DescribedBy] at hs
    obtain ⟨values, hvalues, rfl⟩ := hs
    have hpart := hreached.part (part_of_field? (.inr (.inr rfl)) rfl)
    rw [hS _ hreached, Shape]
    refine constraints_map_iff.trans (exists_congr fun fields ↦ and_congr_right ?_)
    rintro rfl
    exact forall₂_congr fun f hf ↦ hvalues.holds_iff hS hpart hdistinct (hj.mem hf)
  | .optional inner, s, j, hs, hreached, hdistinct, hj => by
    rw [DescribedBy] at hs
    obtain ⟨inside, hinside, rfl⟩ := hs
    have hparts : ∀ s ∈ [inside, .object [("type", .string "null")]],
        Reached components root s := fun s hs ↦
      hreached.part (part_of_mem_schemasIn (.inr (.inl rfl)) (mem_schemasIn.2 ⟨_, rfl, hs⟩))
    have hnull : S (.object [("type", .string "null")]) j ↔ j = .null := by
      rw [hS _ (hparts _ (.tail _ List.mem_cons_self))]
      exact constraints_type_iff.trans hasType_null_iff
    rw [hS _ hreached, Shape]
    refine constraints_anyOf_iff.trans (Or.comm.trans (or_congr hnull ?_))
    exact hinside.holds_iff hS (hparts _ List.mem_cons_self) hdistinct hj
  | .record name fields, s, j, hs, hreached, hdistinct, hj => by
    rw [DescribedBy] at hs
    obtain ⟨rfl, described, hdescribed, hget⟩ := hs
    have hnodup : (fields.map Prod.fst).Nodup := hdistinct (name, fields) (by simp [records])
    rw [Json.collect_eq_self (hdescribed.names_eq ▸ hnodup)] at hget
    -- The schema of a record is a reference; what it means is said by the component.
    have hresolve : resolve? components (referencePrefix ++ name) = _ :=
      (resolve?_reference name).trans hget
    have htarget := hreached.target rfl hresolve
    have hfalse : ∀ v, ¬S (.bool false) v := fun v hv ↦
      Bool.false_ne_true ((hS _ (htarget.part (part_of_field? (.inr (.inr rfl)) rfl)) v).1 hv)
    have hmeaning : Meaning Json.roundedValue? components S (referenceSchema name) j ↔
        S (recordSchema name described (requiredNames fields)) j :=
      ⟨fun ⟨t, ht, hj⟩ ↦ by rw [hresolve] at ht; cases ht; exact hj, fun hj ↦ ⟨_, hresolve, hj⟩⟩
    rw [hS _ hreached, hmeaning, hS _ htarget, Shape]
    refine (constraints_record_iff hfalse).trans (exists_congr fun present ↦ and_congr_right ?_)
    rintro rfl
    refine and_congr forall_mem_requiredNames_iff (forall₂_congr fun f hf ↦ ?_)
    refine hdescribed.holds_iff hS (fun k s hs ↦ ?_) (fun r hr ↦ ?_) hnodup (hj.mem hf)
    · exact htarget.part (part_of_fieldSchema? (show fieldSchema? _ k = some s by
        simp [fieldSchema?, Json.field?, Json.get?, hs]))
    · exact hdistinct r (by rw [records]; exact List.mem_cons_of_mem _ hr)
  | .any, s, j, hs, hreached, _, _ => by
    rw [DescribedBy] at hs
    rw [hS _ hreached, hs, Shape]
    exact iff_of_true constraints_nil trivial
  | .error, s, j, hs, hreached, _, _ => by
    rw [DescribedBy] at hs
    rw [hS _ hreached, hs, Shape]
    exact iff_of_true constraints_nil trivial
  | .named _, s, j, hs, hreached, _, _ => by
    rw [DescribedBy] at hs
    rw [hS _ hreached, hs, Shape]
    exact iff_of_true constraints_nil trivial

/-- A field meets the schema under its name exactly if it has the shape of the field of that name.
-/
theorem FieldsDescribedBy.holds_iff (hS : Semantics Json.roundedValue? components root S) :
    ∀ {fields : List (String × Ty)} {described : List (String × Json)} {f : String × Json},
      FieldsDescribedBy components fields described →
      (∀ k s, Json.field? k described = some s → Reached components root s) →
      (∀ r ∈ recordsOfFields fields, (r.2.map Prod.fst).Nodup) → (fields.map Prod.fst).Nodup →
      f.2.Integral →
      ((∃ s, Json.field? f.1 described = some s ∧ S s f.2) ↔ FieldShape fields f)
  | [], [], f, _, _, _, _, _ => by
    rw [FieldShape]
    exact iff_of_false (fun ⟨_, hs, _⟩ ↦ nomatch hs) id
  | (name, t) :: rest, (k, s) :: described, f, hdescribed, hreached, hdistinct, hnodup, hf => by
    rw [FieldsDescribedBy] at hdescribed
    obtain ⟨rfl, hs, hdescribed⟩ := hdescribed
    rw [List.map_cons, List.nodup_cons] at hnodup
    rw [recordsOfFields, List.forall_mem_append] at hdistinct
    rw [FieldShape, Json.field?]
    by_cases hname : k = f.1
    · have hother : ¬FieldShape rest f := fun h ↦ hnodup.1 (hname ▸ mem_names_of_fieldShape h)
      have hshape := hs.holds_iff hS (hreached k s (if_pos rfl)) hdistinct.1 hf
      rw [if_pos hname, or_iff_left hother, and_iff_right hname.symm, ← hshape]
      exact ⟨fun ⟨_, heq, h⟩ ↦ Option.some.inj heq ▸ h, fun h ↦ ⟨s, rfl, h⟩⟩
    · have hreached' : ∀ k' s', Json.field? k' described = some s' →
          Reached components root s' := by
        intro k' s' hs'
        refine hreached k' s' ?_
        have hne : k ≠ k' := by
          rintro rfl
          exact hnodup.1 (hdescribed.names_eq ▸ Json.exists_field?_iff.1 ⟨s', hs'⟩)
        rw [Json.field?, if_neg hne, hs']
      rw [if_neg hname, or_iff_right fun h ↦ hname h.1.symm]
      exact hdescribed.holds_iff hS hreached' hdistinct.2 hnodup.2 hf

end

/-- **The schema that is generated for a type accepts exactly the documents of its shape.** The
schema and the components are those of a description that starts from an empty table. -/
theorem validate_schema_iff {t : Ty} (hknown : Consistent t.records) (hdistinct : t.FieldsDistinct)
    {j : Json} (hj : j.Integral) :
    ∃ schema, Schema.compile (t.schema ∅).1 (t.schema ∅).2 = .ok schema ∧
      (schema.validate j = [] ↔ t.Shape j) := by
  have h := schema_spec hknown t ∅ (List.Subset.refl _) (Components.sound_empty _)
  have hcompile := h.schema.compile h.table.sound
  obtain ⟨-, l, husable⟩ := compile_spec hcompile
  exact ⟨_, hcompile, h.schema.holds_iff (semantics_check husable) .root hdistinct hj⟩

/-- A record with a bounded and an optional field. -/
def box : Ty :=
  .record "Box" [("size", .scalar (.integer .u8)), ("inner", .optional (.list (.scalar .string)))]

/-- The optional field may be missing, and the bounded one may not be out of its bounds. -/
theorem validate_schema_iff_box :
    ∃ schema, Schema.compile (box.schema ∅).1 (box.schema ∅).2 = .ok schema ∧
      schema.validate (.object [("size", .int 255)]) = [] ∧
      schema.validate (.object [("inner", .null), ("size", .int 256)]) ≠ [] := by
  have hsmall : Json.Integral (.object [("size", .int 255)]) :=
    ⟨show Json.IntegerRange 255 by decide, trivial⟩
  have hlarge : Json.Integral (.object [("inner", .null), ("size", .int 256)]) :=
    ⟨trivial, show Json.IntegerRange 256 by decide, trivial⟩
  obtain ⟨schema, hcompile, hiff⟩ := validate_schema_iff (t := box) (by decide) (by decide) hsmall
  obtain ⟨schema', hcompile', hiff'⟩ :=
    validate_schema_iff (t := box) (by decide) (by decide) hlarge
  cases hcompile.symm.trans hcompile'
  have hrange : ∀ n, IntegerKind.InRange .u8 n ↔ 0 ≤ n ∧ n ≤ 255 := fun _ ↦ Iff.rfl
  refine ⟨schema, hcompile, hiff.2 ?_, fun h ↦ ?_⟩
  · simp [box, Shape, FieldShape, Scalar.Shape, isOptional, hrange]
  · have hshape := hiff'.1 h
    simp only [box, Shape, FieldShape, Scalar.Shape, hrange] at hshape
    obtain ⟨_, ⟨⟩, -, hfields⟩ := hshape
    simpa using hfields ("size", .int 256) (by simp)

end Ty

end ContractHost
