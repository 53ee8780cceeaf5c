import ContractHost.Proofs.Schema.Bounds

/-!
# Constraints that fail

A reported violation names a constraint (`Schema.Constraint`) by a text of its own
(`Constraint.report`). `Schema.Fails S s j c` says without the text that the constraint `c` of the
schema `s` fails at the document `j`, where `S` says which documents the schemas under a combination
accept: nothing meets `false`; where an object makes no reference its type restriction may fail; and
where that admits the document (`Schema.Admits`), the other keywords may.

The lists of violations are lists of just these constraints: those that look at one value
(`mem_localFaults`), the closed object (`mem_judgeField`) and the combinations
(`mem_combine_judge`).
-/

namespace ContractHost

namespace Schema

variable {components : Components} {fields : List (String × Json)} {S : Json → Json → Prop}
  {s j : Json} {path t : String}

/-! ### Constraints -/

/-- A keyword that limits the length of a string or of a list. -/
inductive LimitKeyword
  | minLength
  | maxLength
  | minItems
  | maxItems
  deriving DecidableEq, Repr

namespace LimitKeyword

/-- The keyword as it is written. -/
def name : LimitKeyword → String
  | minLength => "minLength"
  | maxLength => "maxLength"
  | minItems => "minItems"
  | maxItems => "maxItems"

/-- The length that the keyword limits, if the document has it. -/
def length? : LimitKeyword → Json → Option ℕ
  | minLength, .string s | maxLength, .string s => some s.length
  | minItems, .list items | maxItems, .list items => some items.length
  | _, _ => none

/-- A length violates a limit. -/
def Violated : LimitKeyword → ℕ → ℕ → Prop
  | minLength, length, n | minItems, length, n => length < n
  | maxLength, length, n | maxItems, length, n => n < length

/-- The report of a violated limit. -/
def report (n : ℕ) : LimitKeyword → String
  | minLength => "String length must be greater than or equal to " ++ toString n
  | maxLength => "String length must be less than or equal to " ++ toString n
  | minItems => "Array must have at least " ++ toString n ++ " items"
  | maxItems => "Array must have at most " ++ toString n ++ " items"

end LimitKeyword

/-- A constraint, with what a report says of it. -/
inductive Constraint
  /-- The schema that accepts nothing. -/
  | never
  /-- The names of the types that are allowed. -/
  | type (names : List String)
  | enum (options : List Json)
  | const (expected : Json)
  | bound (k : BoundKeyword) (b : Json)
  | limit (k : LimitKeyword) (n : ℕ)
  /-- The name of a field that has to be present. -/
  | required (name : String)
  /-- The name of a field that must not be present. -/
  | additional (name : String)
  | anyOf
  | oneOf
  | not

/-- What is reported of a document at which the constraint fails. -/
def Constraint.report (j : Json) : Constraint → String
  | never => "False always fails validation"
  | type names => "Invalid type. Expected: " ++ "/".intercalate names ++ ", given: " ++ typeName j
  | enum options => "must be one of the following: " ++ ", ".intercalate (options.map Json.toText)
  | const expected => "Does not match: " ++ expected.toText
  | bound k b => k.report b
  | limit k n => k.report n
  | required name => name ++ " is required"
  | additional name => "Additional property " ++ name ++ " is not allowed"
  | anyOf => "Must validate at least one schema (anyOf)"
  | oneOf => "Must validate one and only one schema (oneOf)"
  | not => "Must not validate the schema (not)"

/-! ### Failing -/

/-- The keywords of an object apply to a document: the object makes no reference, and its type
restriction admits the document. -/
structure Admits (fields : List (String × Json)) (j : Json) : Prop where
  reference : reference? fields = none
  type : ∀ t, Json.field? "type" fields = some t → ∃ name, Lists t name ∧ j.HasType name

/-- A constraint that looks at one value fails there. Numbers are compared in the 64-bit format. -/
inductive FailsAlone (fields : List (String × Json)) (j : Json) : Constraint → Prop
  | enum {options : List Json} (hf : Json.field? "enum" fields = some (.list options))
      (h : ∀ o ∈ options, o.same j = false) : FailsAlone fields j (.enum options)
  | const {expected : Json} (hf : Json.field? "const" fields = some expected)
      (h : expected.same j = false) : FailsAlone fields j (.const expected)
  | bound {k : BoundKeyword} {b : Json} {x y : ℚ} (hf : Json.field? k.name fields = some b)
      (hx : j.roundedValue? = some x) (hy : b.roundedValue? = some y) (h : k.Violated x y) :
      FailsAlone fields j (.bound k b)
  | limit {k : LimitKeyword} {n length : ℕ} (hf : Json.field? k.name fields = some (.int n))
      (hlength : k.length? j = some length) (h : k.Violated length n) :
      FailsAlone fields j (.limit k n)
  | required {names : List Json} {present : List (String × Json)} {name : String}
      (hf : Json.field? "required" fields = some (.list names)) (hname : .string name ∈ names)
      (hj : j = .object present) (h : Json.field? name present = none) :
      FailsAlone fields j (.required name)

/-- A constraint that looks through other schemas fails, where `S` says what they accept. -/
inductive FailsCombined (S : Json → Json → Prop) (fields : List (String × Json)) (j : Json) :
    Constraint → Prop
  | anyOf {schemas : List Json} (hf : Json.field? "anyOf" fields = some (.list schemas))
      (h : ∀ s ∈ schemas, ¬S s j) : FailsCombined S fields j .anyOf
  | oneOf {schemas : List Json} (hf : Json.field? "oneOf" fields = some (.list schemas))
      (h : ¬∃! i : Fin schemas.length, S (schemas.get i) j) : FailsCombined S fields j .oneOf
  | not {s : Json} (hf : Json.field? "not" fields = some s) (h : S s j) :
      FailsCombined S fields j .not

/-- A constraint of a schema fails at a document, where `S` says what the schemas under a
combination accept. -/
inductive Fails (S : Json → Json → Prop) : Json → Json → Constraint → Prop
  | never (j : Json) : Fails S (.bool false) j .never
  | type {fields : List (String × Json)} {j : Json} {names : List String}
      (hr : reference? fields = none) (hf : allowedTypes? fields = some names)
      (h : ∀ name ∈ names, ¬j.HasType name) : Fails S (.object fields) j (.type names)
  | alone {fields : List (String × Json)} {j : Json} {c : Constraint} (ha : Admits fields j)
      (h : FailsAlone fields j c) : Fails S (.object fields) j c
  | additional {fields present : List (String × Json)} {name : String} {v : Json}
      (ha : Admits fields (.object present)) (hv : (name, v) ∈ present)
      (hu : Undeclared fields name)
      (hf : Json.field? "additionalProperties" fields = some (.bool false)) :
      Fails S (.object fields) (.object present) (.additional name)
  | combined {fields : List (String × Json)} {j : Json} {c : Constraint} (ha : Admits fields j)
      (h : FailsCombined S fields j c) : Fails S (.object fields) j c

/-- Beside a reference nothing fails. -/
theorem Fails.reference {c : Constraint} (h : Fails S (.object fields) j c) :
    reference? fields = none := by
  cases h with
  | type hr => exact hr
  | alone ha => exact ha.reference
  | additional ha => exact ha.reference
  | combined ha => exact ha.reference

/-- Of a document that the type restriction does not admit, nothing else fails. -/
theorem Fails.of_not_admits {c : Constraint} (h : Fails S (.object fields) j c)
    (ha : ¬Admits fields j) : ∃ names, allowedTypes? fields = some names ∧ c = .type names := by
  cases h with
  | type _ hf => exact ⟨_, hf, rfl⟩
  | alone ha' => exact absurd ha' ha
  | additional ha' => exact absurd ha' ha
  | combined ha' => exact absurd ha' ha

/-! ### Constraints that look at one value -/

theorem typeFault?_eq_some_iff :
    typeFault? fields j = some t ↔ ∃ names, allowedTypes? fields = some names ∧
      (∀ name ∈ names, ¬j.HasType name) ∧ t = (Constraint.type names).report j := by
  unfold typeFault?
  cases allowedTypes? fields with
  | none => simp
  | some names =>
    have hany : names.any (hasType · j) = true ↔ ¬∀ name ∈ names, ¬j.HasType name := by
      simp [← hasType_iff]
    simp only [Option.some.injEq, exists_eq_left', Option.ite_none_left_eq_some, hany, not_not]
    exact and_congr_right fun _ ↦ eq_comm

theorem admits_iff : Admits fields j ↔ reference? fields = none ∧ typeFault? fields j = none := by
  rw [typeFault?_eq_none_iff]
  exact ⟨fun h ↦ ⟨h.reference, h.type⟩, fun h ↦ ⟨h.1, h.2⟩⟩

theorem mem_choiceFaults :
    t ∈ choiceFaults fields j ↔
      (∃ options, Json.field? "enum" fields = some (.list options) ∧
        (∀ o ∈ options, o.same j = false) ∧ t = (Constraint.enum options).report j) ∨
      ∃ expected, Json.field? "const" fields = some expected ∧ expected.same j = false ∧
        t = (Constraint.const expected).report j := by
  rw [choiceFaults, List.mem_append]
  refine or_congr ?_ ?_
  · split
    · next options h =>
      have hany : ¬(options.any fun o ↦ o.same j) = true ↔ ∀ o ∈ options, o.same j = false := by
        simp
      rw [List.mem_ite_nil_left, List.mem_singleton, hany]
      refine ⟨fun ht ↦ ⟨options, h, ht⟩, ?_⟩
      rintro ⟨options', h', ht⟩
      cases h.symm.trans h'
      exact ht
    · next h =>
      refine iff_of_false List.not_mem_nil ?_
      rintro ⟨options, ho, -⟩
      exact h options ho
  · split
    · next expected h =>
      rw [List.mem_ite_nil_left, List.mem_singleton, Bool.not_eq_true, h]
      simp only [Option.some.injEq, exists_eq_left']
      exact Iff.rfl
    · next h => simp [h]

theorem mem_countFaults {n : ℕ} {low high : String} {tooFew tooMany : ℕ → String} :
    t ∈ countFaults fields n low high tooFew tooMany ↔
      (∃ least : ℕ, Json.field? low fields = some (.int least) ∧ n < least ∧ t = tooFew least) ∨
      ∃ greatest : ℕ, Json.field? high fields = some (.int greatest) ∧ greatest < n ∧
        t = tooMany greatest := by
  rw [countFaults, List.mem_append]
  simp only [← count?_eq_some_iff]
  refine or_congr ?_ ?_
  · cases count? low fields <;> simp
  · cases count? high fields <;> simp

/-- **What is reported of the limits of a schema.** -/
theorem mem_lengthFaults :
    t ∈ lengthFaults fields j ↔ ∃ (k : LimitKeyword) (n length : ℕ),
      Json.field? k.name fields = some (.int n) ∧ k.length? j = some length ∧
        k.Violated length n ∧ t = k.report n := by
  constructor
  · intro h
    cases j with
    | string s =>
      rcases mem_countFaults.1 h with ⟨n, hf, hlt, rfl⟩ | ⟨n, hf, hlt, rfl⟩
      · exact ⟨.minLength, n, s.length, hf, rfl, hlt, rfl⟩
      · exact ⟨.maxLength, n, s.length, hf, rfl, hlt, rfl⟩
    | list items =>
      rcases mem_countFaults.1 h with ⟨n, hf, hlt, rfl⟩ | ⟨n, hf, hlt, rfl⟩
      · exact ⟨.minItems, n, items.length, hf, rfl, hlt, rfl⟩
      · exact ⟨.maxItems, n, items.length, hf, rfl, hlt, rfl⟩
    | _ => cases h
  · rintro ⟨k, n, length, hf, hlength, hviolated, rfl⟩
    cases j with
    | string s =>
      cases k <;> cases hlength
      · exact mem_countFaults.2 (.inl ⟨n, hf, hviolated, rfl⟩)
      · exact mem_countFaults.2 (.inr ⟨n, hf, hviolated, rfl⟩)
    | list items =>
      cases k <;> cases hlength
      · exact mem_countFaults.2 (.inl ⟨n, hf, hviolated, rfl⟩)
      · exact mem_countFaults.2 (.inr ⟨n, hf, hviolated, rfl⟩)
    | _ => cases k <;> cases hlength

theorem mem_requiredFaults :
    t ∈ requiredFaults fields j ↔ ∃ names present name,
      Json.field? "required" fields = some (.list names) ∧ .string name ∈ names ∧
        j = .object present ∧ Json.field? name present = none ∧
        t = (Constraint.required name).report j := by
  cases j with
  | object present =>
    rw [requiredFaults]
    split
    · next names h =>
      rw [List.mem_filterMap]
      simp only [Option.ite_none_left_eq_some]
      constructor
      · rintro ⟨name, hname, hnone, ht⟩
        rw [Bool.not_eq_true, Option.isSome_eq_false_iff, Option.isNone_iff_eq_none] at hnone
        exact ⟨names, present, name, h, mem_names_iff.1 hname, rfl, hnone,
          (Option.some.inj ht).symm⟩
      · rintro ⟨names', present', name, h', hname, hj, hnone, rfl⟩
        cases h.symm.trans h'
        cases hj
        exact ⟨name, mem_names_iff.2 hname, by simp [hnone], rfl⟩
    · next h =>
      refine iff_of_false List.not_mem_nil ?_
      rintro ⟨names, -, -, hf, -⟩
      exact h names hf
  | _ =>
    refine iff_of_false List.not_mem_nil ?_
    rintro ⟨_, _, _, -, -, hj, -⟩
    cases hj

/-- **What is reported of one value** are the constraints that fail there. -/
theorem mem_localFaults :
    t ∈ localFaults fields j ↔ ∃ c, FailsAlone fields j c ∧ t = c.report j := by
  simp only [localFaults, List.mem_append, mem_choiceFaults, mem_boundFaults, mem_lengthFaults,
    mem_requiredFaults]
  constructor
  · rintro ((((⟨options, hf, h, rfl⟩ | ⟨expected, hf, h, rfl⟩) | ⟨k, b, x, y, hf, hx, hy, h, rfl⟩) |
      ⟨k, n, length, hf, hlength, h, rfl⟩) | ⟨names, present, name, hf, hname, hj, h, rfl⟩)
    · exact ⟨_, .enum hf h, rfl⟩
    · exact ⟨_, .const hf h, rfl⟩
    · exact ⟨_, .bound hf (Option.map_eq_some_iff.2 ⟨x, hx, rfl⟩)
        (Option.map_eq_some_iff.2 ⟨y, hy, rfl⟩) h, rfl⟩
    · exact ⟨_, .limit hf hlength h, rfl⟩
    · exact ⟨_, .required hf hname hj h, rfl⟩
  · rintro ⟨c, hc, rfl⟩
    cases hc with
    | enum hf h => exact .inl (.inl (.inl (.inl ⟨_, hf, h, rfl⟩)))
    | const hf h => exact .inl (.inl (.inl (.inr ⟨_, hf, h, rfl⟩)))
    | bound hf hx hy h =>
      obtain ⟨x, hx', rfl⟩ := Option.map_eq_some_iff.1 hx
      obtain ⟨y, hy', rfl⟩ := Option.map_eq_some_iff.1 hy
      exact .inl (.inl (.inr ⟨_, _, x, y, hf, hx', hy', h, rfl⟩))
    | limit hf hlength h => exact .inl (.inr ⟨_, _, _, hf, hlength, h, rfl⟩)
    | required hf hname hj h => exact .inr ⟨_, _, _, hf, hname, hj, h, rfl⟩

/-! ### Constraints that look further -/

section Judge

variable {g : Json → Json → String → Id (List Violation)} {v : Violation}

/-- The schema that a field of an instance has to satisfy: that of its property, or that of all the
others where it is not `false`. -/
inductive Describes (fields : List (String × Json)) (name : String) (s : Json) : Prop
  | property {described : List (String × Json)}
      (hf : Json.field? "properties" fields = some (.object described))
      (hs : Json.field? name described = some s)
  | additional (hu : Undeclared fields name)
      (hf : Json.field? "additionalProperties" fields = some s) (hs : s ≠ .bool false)

theorem describes_iff {name : String} :
    Describes fields name s ↔
      (Json.field? "properties" fields).bind (·.get? name) = some s ∨
      (Json.field? "properties" fields).bind (·.get? name) = none ∧
        Json.field? "additionalProperties" fields = some s ∧ s ≠ .bool false := by
  rw [property?_eq_some_iff, property?_eq_none_iff]
  constructor
  · rintro (⟨hf, hs⟩ | ⟨hu, hf, hs⟩)
    · exact .inl ⟨_, hf, hs⟩
    · exact .inr ⟨hu, hf, hs⟩
  · rintro (⟨described, hf, hs⟩ | ⟨hu, hf, hs⟩)
    · exact .property hf hs
    · exact .additional hu hf hs

theorem Describes.fieldSchema?_eq {name : String} (h : Describes fields name s) :
    fieldSchema? fields name = some s := by
  cases h with
  | property hf hs => exact fieldSchema?_eq_some_iff.2 (.inl ⟨_, hf, hs⟩)
  | additional hu hf => exact fieldSchema?_eq_some_iff.2 (.inr ⟨hu, hf⟩)

theorem mem_judgeItems :
    v ∈ (judgeItems g fields j path).run ↔ ∃ s items, ∃ (i : ℕ) (item : Json),
      Json.field? "items" fields = some s ∧ j = .list items ∧ items[i]? = some item ∧
        v ∈ (g s item (childPath path (toString i))).run := by
  rw [run_judgeItems]
  cases Json.field? "items" fields with
  | none => simp
  | some s =>
    cases j with
    | list items =>
      simp only [List.mem_flatMap, Prod.exists, List.mem_zipIdx_iff_getElem?]
      constructor
      · rintro ⟨item, i, hi, hv⟩
        exact ⟨s, items, i, item, rfl, rfl, hi, hv⟩
      · rintro ⟨s', items', i, item, hs, hj, hi, hv⟩
        cases hs
        cases hj
        exact ⟨item, i, hi, hv⟩
    | _ => simp

/-- **What is reported of one field**: what its schema reports of its value, or that it should not
be there. -/
theorem mem_judgeField {name : String} {value : Json} :
    v ∈ (judgeField g fields path (name, value)).run ↔
      (∃ s, Describes fields name s ∧ v ∈ (g s value (childPath path name)).run) ∨
      Undeclared fields name ∧ Json.field? "additionalProperties" fields = some (.bool false) ∧
        v = ⟨path, (Constraint.additional name).report j⟩ := by
  have htext : (Constraint.additional name).report j =
      "Additional property " ++ name ++ " is not allowed" := rfl
  rw [← property?_eq_none_iff, htext]
  simp only [describes_iff]
  unfold judgeField
  cases (Json.field? "properties" fields).bind (·.get? name) with
  | some s => simp
  | none =>
    rcases Json.field? "additionalProperties" fields with _ | s
    · simp
    · cases s with
      | bool b => cases b <;> simp
      | _ => simp

theorem mem_judgeFields :
    v ∈ (judgeFields g fields j path).run ↔ ∃ present name value,
      j = .object present ∧ (name, value) ∈ present ∧
        v ∈ (judgeField g fields path (name, value)).run := by
  rw [run_judgeFields]
  cases j with
  | object present =>
    rw [List.mem_flatMap]
    constructor
    · rintro ⟨f, hf, hv⟩
      exact ⟨present, f.1, f.2, rfl, List.mem_mergeSort.1 hf, hv⟩
    · rintro ⟨present', name, value, hj, hf, hv⟩
      cases hj
      exact ⟨_, List.mem_mergeSort.2 hf, hv⟩
  | _ => simp

/-- **What is reported of the combinations of a schema**: what a part of a conjunction reports, and
the other combinations that fail. -/
theorem mem_combine_judge (h : ∀ s ∈ schemasInPlace fields, (g s j path).run = [] ↔ S s j) :
    v ∈ combine path (judgeList g "allOf" fields j path).run
        (judgeList g "anyOf" fields j path).run (judgeList g "oneOf" fields j path).run
        (judgeNot g fields j path).run ↔
      (∃ schemas, Json.field? "allOf" fields = some (.list schemas) ∧
        ∃ s ∈ schemas, v ∈ (g s j path).run) ∨
      ∃ c, FailsCombined S fields j c ∧ v = ⟨path, c.report j⟩ := by
  have hlist : ∀ {keyword schemas}, (keyword = "allOf" ∨ keyword = "anyOf" ∨ keyword = "oneOf") →
      Json.field? keyword fields = some (.list schemas) →
      ∀ s ∈ schemas, (g s j path).run = [] ↔ S s j :=
    fun hk hf s hs ↦ h s (mem_schemasInPlace_of_mem hk hf hs)
  have hcount : ∀ {schemas}, Json.field? "oneOf" fields = some (.list schemas) →
      ((schemas.map fun s ↦ (g s j path).run).countP List.isEmpty = 1 ↔
        ∃! i : Fin schemas.length, S (schemas.get i) j) :=
    fun hf ↦ countP_judge_eq_one_iff (hlist (.inr (.inr rfl)) hf)
  rw [mem_combine]
  simp only [run_judgeList, run_judgeNot, Option.map_eq_some_iff, list?_eq_some_iff]
  constructor
  · rintro (⟨_, ⟨schemas, hf, rfl⟩, _, hresult, hv⟩ | ⟨_, ⟨schemas, hf, rfl⟩, hall, rfl⟩ |
      ⟨_, ⟨schemas, hf, rfl⟩, hnot, rfl⟩ | ⟨⟨s, hf, hnil⟩, rfl⟩)
    · obtain ⟨s, hs, rfl⟩ := List.mem_map.1 hresult
      exact .inl ⟨schemas, hf, s, hs, hv⟩
    · refine .inr ⟨.anyOf, .anyOf hf fun s hs hS ↦ ?_, rfl⟩
      exact hall _ (List.mem_map_of_mem hs) ((hlist (.inr (.inl rfl)) hf s hs).2 hS)
    · exact .inr ⟨.oneOf, .oneOf hf fun hS ↦ hnot ((hcount hf).2 hS), rfl⟩
    · exact .inr ⟨.not, .not hf ((h s (mem_schemasInPlace_of_not hf)).1 hnil), rfl⟩
  · rintro (⟨schemas, hf, s, hs, hv⟩ | ⟨c, hc, rfl⟩)
    · exact .inl ⟨_, ⟨schemas, hf, rfl⟩, _, List.mem_map_of_mem hs, hv⟩
    · cases hc with
      | anyOf hf hnone =>
        refine .inr (.inl ⟨_, ⟨_, hf, rfl⟩, List.forall_mem_map.2 fun s hs hnil ↦ ?_, rfl⟩)
        exact hnone s hs ((hlist (.inr (.inl rfl)) hf s hs).1 hnil)
      | oneOf hf hnot =>
        exact .inr (.inr (.inl ⟨_, ⟨_, hf, rfl⟩, fun hone ↦ hnot ((hcount hf).1 hone), rfl⟩))
      | not hf hS =>
        exact .inr (.inr (.inr ⟨⟨_, hf, (h _ (mem_schemasInPlace_of_not hf)).2 hS⟩, rfl⟩))

end Judge

end Schema

end ContractHost
