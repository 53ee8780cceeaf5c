import ContractHost.Document.Describe
import ContractHost.Proofs.Json.Fields
import ContractHost.Proofs.Number.Rounding
import ContractHost.Proofs.Schema.Semantics

/-!
# What the forms of generated schemas ask for

Every generated schema has one of a few forms. Here each form is taken by itself: which documents
meet its keywords, where `S` says which documents the schemas inside it accept.

The format of a number is no keyword (`constraints_format`): a form with it asks for what the form
without it asks for.

| keywords | documents |
| --- | --- |
| `type` | those of the type (`constraints_type_iff`, `constraints_format_iff`) |
| `type`, `minimum`, `maximum` | integers in the bounds (`constraints_bounded_iff`) |
| `type`, `items` | lists of the schema (`constraints_list_iff`, `constraints_array_iff`) |
| `type`, `additionalProperties` | objects with one schema for all fields (`constraints_map_iff`) |
| `anyOf` | those of either schema (`constraints_anyOf_iff`) |
| `$id`, `type`, `properties`, … | objects with the declared fields only (`constraints_record_iff`) |
-/

namespace ContractHost

namespace Schema

variable {fields : List (String × Json)} {S : Json → Json → Prop} {s j : Json}

/-! ### The format -/

/-- What meets the keywords of a schema meets those of another one that has the same, the format
aside. -/
theorem Constraints.of_keywords {fields' : List (String × Json)}
    (h : Constraints Json.roundedValue? S fields j)
    (hsame : ∀ key ≠ "format", Json.field? key fields' = Json.field? key fields) :
    Constraints Json.roundedValue? S fields' j := by
  constructor <;> simp only [Undeclared, hsame, ne_eq, String.reduceEq, not_false_eq_true]
  exacts [h.type, h.enum, h.const, h.minimum, h.maximum, h.exclusiveMinimum, h.exclusiveMaximum,
    h.minLength, h.maxLength, h.minItems, h.maxItems, h.required, h.items, h.properties,
    h.additionalProperties, h.allOf, h.anyOf, h.oneOf, h.not]

/-- **The format is not looked at.** -/
theorem constraints_format (head tail : List (String × Json)) (format : Json) :
    Constraints Json.roundedValue? S (head ++ ("format", format) :: tail) j ↔
      Constraints Json.roundedValue? S (head ++ tail) j := by
  have hsame : ∀ key ≠ "format", Json.field? key (head ++ ("format", format) :: tail) =
      Json.field? key (head ++ tail) := by
    intro key hkey
    rw [Json.field?_append, Json.field?_append, Json.field?, if_neg hkey.symm]
  exact ⟨fun h ↦ h.of_keywords fun key hkey ↦ (hsame key hkey).symm, fun h ↦ h.of_keywords hsame⟩

/-! ### Types and bounds -/

theorem type_iff {name : String} (hname : Json.field? "type" fields = some (.string name)) :
    (∀ t, Json.field? "type" fields = some t → ∃ name, Lists t name ∧ j.HasType name) ↔
      j.HasType name := by
  constructor
  · intro h
    obtain ⟨name', hlists | ⟨names, heq, -⟩, hj⟩ := h _ hname
    · cases hlists
      exact hj
    · cases heq
  · intro h t ht
    rw [hname] at ht
    exact ⟨name, .inl (Option.some.inj ht).symm, h⟩

/-- Documents of one type. -/
theorem constraints_type_iff {name : String} :
    Constraints Json.roundedValue? S [("type", .string name)] j ↔ j.HasType name := by
  refine ⟨fun h ↦ (type_iff rfl).1 h.type, fun h ↦ ?_⟩
  constructor
  case type => exact (type_iff rfl).2 h
  all_goals simp [Json.field?]

/-- Documents of one type, whatever the format. -/
theorem constraints_format_iff {name format : String} :
    Constraints Json.roundedValue? S [("type", .string name), ("format", .string format)] j ↔
      j.HasType name :=
  (constraints_format [_] [] _).trans constraints_type_iff

/-- Integers are compared exactly if one of them has at most 53 bits. -/
theorem atMost_int_iff {a b : ℤ} (hsmall : a.natAbs < 2 ^ 53 ∨ b.natAbs < 2 ^ 53)
    (ha : Json.IntegerRange a) (hb : Json.IntegerRange b) :
    AtMost Json.roundedValue? (.int a) (.int b) ↔ a ≤ b := by
  obtain ⟨x, hx⟩ := BinaryFormat.exists_ofInt_of_integerRange ha
  obtain ⟨y, hy⟩ := BinaryFormat.exists_ofInt_of_integerRange hb
  have hvalues : AtMost Json.roundedValue? (.int a) (.int b) ↔ x.value ≤ y.value := by
    simp only [AtMost, Json.roundedValue?, Json.toDouble?, hx, hy, Option.map_some,
      Option.some.injEq, forall_eq', forall_apply_eq_imp_iff]
  rw [hvalues]
  constructor
  · intro h
    by_contra hlt
    exact (BinaryFormat.ofInt_lt_ofInt hsmall.symm (not_le.1 hlt) hy hx).not_ge h
  · exact fun h ↦ BinaryFormat.ofInt_mono h hx hy

/-- Integers that are not negative. -/
theorem constraints_natural_iff {n : ℤ} (hn : Json.IntegerRange n) :
    Constraints Json.roundedValue? S [("type", .string "integer"), ("minimum", .int 0)] (.int n) ↔
      0 ≤ n := by
  have hminimum := atMost_int_iff (.inl (by decide)) (show Json.IntegerRange 0 by decide) hn
  refine ⟨fun h ↦ hminimum.1 (h.minimum _ rfl), fun h ↦ ?_⟩
  constructor
  case type => exact (type_iff rfl).2 (.integer n)
  case minimum => simpa [Json.field?] using hminimum.2 h
  all_goals simp [Json.field?]

/-- Integers between two bounds. -/
theorem constraints_bounded_iff {least greatest n : ℤ} (hleast : least.natAbs < 2 ^ 53)
    (hgreatest : greatest.natAbs < 2 ^ 53) (hn : Json.IntegerRange n) :
    Constraints Json.roundedValue? S [("type", .string "integer"), ("minimum", .int least),
      ("maximum", .int greatest)] (.int n) ↔ least ≤ n ∧ n ≤ greatest := by
  have hrange : ∀ {b : ℤ}, b.natAbs < 2 ^ 53 → Json.IntegerRange b := by
    intro b hb
    unfold Json.IntegerRange
    omega
  have hminimum := atMost_int_iff (.inl hleast) (hrange hleast) hn
  have hmaximum := atMost_int_iff (.inr hgreatest) hn (hrange hgreatest)
  constructor
  · intro h
    exact ⟨hminimum.1 (h.minimum _ rfl), hmaximum.1 (h.maximum _ rfl)⟩
  · rintro ⟨hlow, hhigh⟩
    constructor
    case type => exact (type_iff rfl).2 (.integer n)
    case minimum => simpa [Json.field?] using hminimum.2 hlow
    case maximum => simpa [Json.field?] using hmaximum.2 hhigh
    all_goals simp [Json.field?]

/-! ### Lists, maps and optional values -/

theorem hasType_array_iff : j.HasType "array" ↔ ∃ items, j = .list items := by
  rw [← hasType_iff]
  rcases j with _ | _ | _ | _ | _ | items | _ <;> simp [hasType]

theorem hasType_object_iff : j.HasType "object" ↔ ∃ fields, j = .object fields := by
  rw [← hasType_iff]
  rcases j with _ | _ | _ | _ | _ | _ | fields <;> simp [hasType]

/-- Lists of a schema. -/
theorem constraints_list_iff :
    Constraints Json.roundedValue? S [("type", .string "array"), ("items", s)] j ↔
      ∃ items, j = .list items ∧ ∀ i ∈ items, S s i := by
  constructor
  · intro h
    obtain ⟨items, rfl⟩ := hasType_array_iff.1 ((type_iff rfl).1 h.type)
    exact ⟨items, rfl, h.items s items rfl rfl⟩
  · rintro ⟨items, rfl, hitems⟩
    constructor
    case type => exact (type_iff rfl).2 (.array items)
    case items =>
      rintro s' _ hs' ⟨⟩
      cases (show some s = some s' from hs')
      exact hitems
    all_goals simp [Json.field?]

/-- Lists of a schema and of one length. -/
theorem constraints_array_iff {n : ℕ} :
    Constraints Json.roundedValue? S [("type", .string "array"), ("items", s),
      ("minItems", .int n), ("maxItems", .int n)] j ↔
        ∃ items, j = .list items ∧ items.length = n ∧ ∀ i ∈ items, S s i := by
  constructor
  · intro h
    obtain ⟨items, rfl⟩ := hasType_array_iff.1 ((type_iff rfl).1 h.type)
    exact ⟨items, rfl, (h.maxItems n items rfl rfl).antisymm (h.minItems n items rfl rfl),
      h.items s items rfl rfl⟩
  · rintro ⟨items, rfl, rfl, hitems⟩
    constructor
    case type => exact (type_iff rfl).2 (.array items)
    case items =>
      rintro s' _ hs' ⟨⟩
      cases (show some s = some s' from hs')
      exact hitems
    case minItems =>
      rintro n _ hn ⟨⟩
      have hn : (items.length : ℤ) = n := by simpa [Json.field?] using hn
      exact (Int.ofNat.inj hn).ge
    case maxItems =>
      rintro n _ hn ⟨⟩
      have hn : (items.length : ℤ) = n := by simpa [Json.field?] using hn
      exact (Int.ofNat.inj hn).le
    all_goals simp [Json.field?]

/-- Objects with one schema for all fields. -/
theorem constraints_map_iff :
    Constraints Json.roundedValue? S [("type", .string "object"), ("additionalProperties", s)] j ↔
      ∃ fields, j = .object fields ∧ ∀ f ∈ fields, S s f.2 := by
  constructor
  · intro h
    obtain ⟨fields, rfl⟩ := hasType_object_iff.1 ((type_iff rfl).1 h.type)
    refine ⟨fields, rfl, fun f hf ↦ h.additionalProperties s fields rfl rfl f.1 f.2 hf ?_⟩
    rintro described ⟨⟩
  · rintro ⟨fields, rfl, hfields⟩
    constructor
    case type => exact (type_iff rfl).2 (.object fields)
    case additionalProperties =>
      rintro s' _ hs' ⟨⟩ name v hmem _
      cases (show some s = some s' from hs')
      exact hfields _ hmem
    all_goals simp [Json.field?]

/-- Documents that one of two schemas accepts. -/
theorem constraints_anyOf_iff {s' : Json} :
    Constraints Json.roundedValue? S [("anyOf", .list [s, s'])] j ↔ S s j ∨ S s' j := by
  constructor
  · intro h
    obtain ⟨t, ht, hj⟩ := h.anyOf _ rfl
    rcases List.mem_pair.1 ht with rfl | rfl
    · exact .inl hj
    · exact .inr hj
  · intro h
    constructor
    case anyOf =>
      intro schemas hschemas
      cases (show some (Json.list [s, s']) = some (.list schemas) from hschemas)
      rcases h with h | h
      · exact ⟨s, List.mem_cons_self, h⟩
      · exact ⟨s', .tail _ List.mem_cons_self, h⟩
    all_goals simp [Json.field?]

/-- Without keywords everything is accepted. -/
theorem constraints_nil : Constraints Json.roundedValue? S [] j := by
  constructor <;> simp [Json.field?]

/-! ### Records -/

/-- Objects that have some fields, and no others than those that are declared. -/
theorem constraints_record_iff {name : String} {required : List String}
    {declared : List (String × Json)} (hfalse : ∀ v, ¬S (.bool false) v) :
    Constraints Json.roundedValue? S [("$id", .string name), ("type", .string "object"),
      ("properties", .object declared), ("required", .list (required.map .string)),
      ("additionalProperties", .bool false)] j ↔
        ∃ present, j = .object present ∧ (∀ k ∈ required, k ∈ present.map Prod.fst) ∧
          ∀ f ∈ present, ∃ s, Json.field? f.1 declared = some s ∧ S s f.2 := by
  constructor
  · intro h
    obtain ⟨present, rfl⟩ := hasType_object_iff.1 ((type_iff rfl).1 h.type)
    refine ⟨present, rfl, fun k hk ↦ ?_, fun f hf ↦ ?_⟩
    · exact Json.exists_field?_iff.1
        (h.required _ present rfl rfl k (List.mem_map_of_mem hk))
    · -- What is not declared would have to meet the schema `false`.
      cases hs : Json.field? f.1 declared with
      | some s => exact ⟨s, rfl, h.properties declared present rfl rfl f.1 f.2 s hf hs⟩
      | none =>
        refine absurd (h.additionalProperties _ present rfl rfl f.1 f.2 hf ?_) (hfalse f.2)
        rintro described ⟨⟩
        exact hs
  · rintro ⟨present, rfl, hrequired, hpresent⟩
    constructor
    case type => exact (type_iff rfl).2 (.object present)
    case required =>
      rintro names _ hnames ⟨⟩ k hk
      cases (show some (Json.list (required.map .string)) = some (.list names) from hnames)
      obtain ⟨k', hk', heq⟩ := List.mem_map.1 hk
      cases heq
      exact Json.exists_field?_iff.2 (hrequired k hk')
    case properties =>
      rintro declared' _ hdeclared ⟨⟩ k v s hmem hs
      cases (show some (Json.object declared) = some (.object declared') from hdeclared)
      obtain ⟨s', hs', hv⟩ := hpresent _ hmem
      cases hs.symm.trans hs'
      exact hv
    case additionalProperties =>
      rintro s _ _ ⟨⟩ k v hmem hundeclared
      obtain ⟨s', hs', -⟩ := hpresent _ hmem
      cases hs'.symm.trans (hundeclared declared rfl)
    all_goals simp [Json.field?]

end Schema

end ContractHost
