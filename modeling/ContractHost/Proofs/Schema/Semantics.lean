import ContractHost.Proofs.Number.Double
import ContractHost.Proofs.Schema.Calls

/-!
# What a schema means

The meaning of a schema is a predicate on documents. Schemas refer to one another, also under `not`,
so the predicates of all schemas are described together: `Schema.Semantics` holds of a predicate on
schemas and documents if it satisfies `Schema.Meaning` at everything the root reaches. `true`
accepts everything and `false` nothing, a reference means its target whatever stands beside it, and
any other object means all of its keywords (`Schema.Constraints`).

Bounds compare numbers. Which rational number a numeric document stands for is a parameter of the
semantics: its exact value (`exactValue?`), or its value in the 64-bit floating-point format
(`roundedValue?`).

**A usable schema has exactly one meaning, and validating decides it**
(`validate_eq_nil_iff`), with numbers rounded to the 64-bit format. With exact numbers it does not:
`validate_ne_exact` is an integer above the range in which that format holds every integer.
-/

namespace ContractHost

/-! ### Numbers and types of documents -/

namespace Json

/-- The value of a numeric document in the 64-bit format. -/
def roundedValue? (j : Json) : Option ℚ :=
  j.toDouble?.map BinaryNumber.value

/-- A document has the type of that name. -/
inductive HasType : String → Json → Prop
  | null : HasType "null" .null
  | boolean (b : Bool) : HasType "boolean" (.bool b)
  | object (fields : List (String × Json)) : HasType "object" (.object fields)
  | array (items : List Json) : HasType "array" (.list items)
  | string (s : String) : HasType "string" (.string s)
  | int (n : Int) : HasType "number" (.int n)
  | float (x : BinaryNumber) : HasType "number" (.float x)
  | integer (n : Int) : HasType "integer" (.int n)
  | whole {x : BinaryNumber} (h : ∃ n : ℤ, x.value = n) : HasType "integer" (.float x)

end Json

namespace Schema

variable {components : Components} {fields : List (String × Json)} {l : List String} {root : Json}
  {number : Json → Option ℚ} {S : Json → Json → Prop} {s j : Json}

/-! ### Meaning -/

/-- A name is listed under the keyword `type`, alone or among others. -/
def Lists (t : Json) (name : String) : Prop :=
  t = .string name ∨ ∃ names, t = .list names ∧ .string name ∈ names

/-- If both documents are numbers, the first is at most the second. -/
def AtMost (number : Json → Option ℚ) (i j : Json) : Prop :=
  ∀ x y, number i = some x → number j = some y → x ≤ y

/-- If both documents are numbers, the first is less than the second. -/
def Below (number : Json → Option ℚ) (i j : Json) : Prop :=
  ∀ x y, number i = some x → number j = some y → x < y

/-- A field of an instance is not among those declared under `properties`. -/
def Undeclared (fields : List (String × Json)) (name : String) : Prop :=
  ∀ described, Json.field? "properties" fields = some (.object described) →
    Json.field? name described = none

/-- A document meets the keywords of a schema, where `S` says which documents the schemas under the
keywords accept. -/
structure Constraints (number : Json → Option ℚ) (S : Json → Json → Prop)
    (fields : List (String × Json)) (j : Json) : Prop where
  type : ∀ t, Json.field? "type" fields = some t → ∃ name, Lists t name ∧ j.HasType name
  enum : ∀ options, Json.field? "enum" fields = some (.list options) → ∃ o ∈ options, o.same j
  const : ∀ expected, Json.field? "const" fields = some expected → expected.same j
  minimum : ∀ b, Json.field? "minimum" fields = some b → AtMost number b j
  maximum : ∀ b, Json.field? "maximum" fields = some b → AtMost number j b
  exclusiveMinimum : ∀ b, Json.field? "exclusiveMinimum" fields = some b → Below number b j
  exclusiveMaximum : ∀ b, Json.field? "exclusiveMaximum" fields = some b → Below number j b
  minLength : ∀ (n : ℕ) (s : String), Json.field? "minLength" fields = some (.int n) →
    j = .string s → n ≤ s.length
  maxLength : ∀ (n : ℕ) (s : String), Json.field? "maxLength" fields = some (.int n) →
    j = .string s → s.length ≤ n
  minItems : ∀ (n : ℕ) (items : List Json), Json.field? "minItems" fields = some (.int n) →
    j = .list items → n ≤ items.length
  maxItems : ∀ (n : ℕ) (items : List Json), Json.field? "maxItems" fields = some (.int n) →
    j = .list items → items.length ≤ n
  required : ∀ names present, Json.field? "required" fields = some (.list names) →
    j = .object present → ∀ name, .string name ∈ names → ∃ v, Json.field? name present = some v
  items : ∀ s items, Json.field? "items" fields = some s → j = .list items → ∀ i ∈ items, S s i
  properties : ∀ described present, Json.field? "properties" fields = some (.object described) →
    j = .object present → ∀ name v s, (name, v) ∈ present → Json.field? name described = some s →
      S s v
  additionalProperties : ∀ s present, Json.field? "additionalProperties" fields = some s →
    j = .object present → ∀ name v, (name, v) ∈ present → Undeclared fields name → S s v
  allOf : ∀ schemas, Json.field? "allOf" fields = some (.list schemas) → ∀ s ∈ schemas, S s j
  anyOf : ∀ schemas, Json.field? "anyOf" fields = some (.list schemas) → ∃ s ∈ schemas, S s j
  oneOf : ∀ schemas, Json.field? "oneOf" fields = some (.list schemas) →
    ∃! i : Fin schemas.length, S schemas[i] j
  not : ∀ s, Json.field? "not" fields = some s → ¬S s j

/-- What a schema means, where `S` says what the others mean. -/
def Meaning (number : Json → Option ℚ) (components : Components) (S : Json → Json → Prop) :
    Json → Json → Prop
  | .bool b, _ => b = true
  | .object fields, j =>
    match reference? fields with
    | some r => ∃ t, resolve? components r = some t ∧ S t j
    | none => Constraints number S fields j
  | _, _ => False

/-- `S` says what everything means that the root reaches. -/
def Semantics (number : Json → Option ℚ) (components : Components) (root : Json)
    (S : Json → Json → Prop) : Prop :=
  ∀ s, Reached components root s → ∀ j, S s j ↔ Meaning number components S s j

/-! ### Keywords that look at one value -/

theorem hasType_iff (name : String) (j : Json) : hasType name j = true ↔ j.HasType name := by
  constructor
  · intro h
    cases j <;> simp only [hasType, Bool.or_eq_true, Bool.and_eq_true, beq_iff_eq] at h
    case float x =>
      rcases h with rfl | ⟨rfl, hwhole⟩
      · exact .float x
      · exact .whole (x.isWhole_iff.1 hwhole)
    case int n =>
      rcases h with rfl | rfl
      · exact .int n
      · exact .integer n
    all_goals subst h; constructor
  · intro h
    cases h with
    | whole h => simp [hasType, (BinaryNumber.isWhole_iff _).2 h]
    | _ => rfl

theorem mem_names_iff {names : List Json} {name : String} :
    name ∈ names.filterMap Json.asString? ↔ .string name ∈ names := by
  rw [List.mem_filterMap]
  constructor
  · rintro ⟨j, hj, hname⟩
    cases j <;> cases hname
    exact hj
  · exact fun h ↦ ⟨_, h, rfl⟩

theorem allowedTypes?_spec {t : Json} (ht : Json.field? "type" fields = some t) :
    ∃ names, allowedTypes? fields = some names ∧ ∀ name, name ∈ names ↔ Lists t name := by
  unfold allowedTypes?
  rw [ht]
  cases t with
  | string name => exact ⟨[name], rfl, fun n ↦ by simp [Lists, eq_comm]⟩
  | list names => exact ⟨_, rfl, fun n ↦ mem_names_iff.trans (by simp [Lists])⟩
  | _ => exact ⟨[], rfl, fun n ↦ by simp [Lists]⟩

theorem typeFault?_eq_none_iff :
    typeFault? fields j = none ↔
      ∀ t, Json.field? "type" fields = some t → ∃ name, Lists t name ∧ j.HasType name := by
  unfold typeFault?
  cases ht : Json.field? "type" fields with
  | none =>
    have hnone : allowedTypes? fields = none := by rw [allowedTypes?, ht]
    simp [hnone]
  | some t =>
    obtain ⟨names, hnames, hlists⟩ := allowedTypes?_spec ht
    have hany : names.any (hasType · j) = true ↔ ∃ name, Lists t name ∧ j.HasType name := by
      simp only [List.any_eq_true, hasType_iff, hlists]
    simp only [hnames, Option.some.injEq, forall_eq', ← hany]
    split
    · next h => simp [h]
    · next h => simp [h]

theorem choiceFaults_eq_nil_iff :
    choiceFaults fields j = [] ↔
      (∀ options, Json.field? "enum" fields = some (.list options) → ∃ o ∈ options, o.same j) ∧
      ∀ expected, Json.field? "const" fields = some expected → expected.same j := by
  rw [choiceFaults, List.append_eq_nil_iff]
  refine and_congr ?_ ?_
  · split
    · next options h =>
      rw [h]
      split
      · next hany => simpa using hany
      · next hany => simpa using hany
    · next h => exact iff_of_true rfl fun options ho ↦ absurd ho (h options)
  · split
    · next expected h =>
      rw [h]
      split
      · next hsame => simpa using hsame
      · next hsame => simpa using hsame
    · next h => simp [h]

theorem boundFault_eq_nil_iff {x : BinaryNumber} {keyword text : String}
    {holds : BinaryNumber → BinaryNumber → Bool} :
    boundFault fields x keyword text holds = [] ↔
      ∀ b, Json.field? keyword fields = some b → ∀ y, b.toDouble? = some y → holds x y := by
  unfold boundFault
  cases hb : Json.field? keyword fields with
  | none => simp
  | some b =>
    simp only [Option.some.injEq, forall_eq']
    cases b.toDouble? with
    | none => simp
    | some y => cases h : holds x y <;> simp [h]

/-- What a number is compared with is the rounded value of the bound. -/
theorem forall_roundedValue?_iff {x : BinaryNumber} (hx : j.toDouble? = some x) (b : Json)
    (R : ℚ → ℚ → Prop) :
    (∀ y, b.toDouble? = some y → R y.value x.value) ↔
      ∀ p q, b.roundedValue? = some p → j.roundedValue? = some q → R p q := by
  have hj : j.roundedValue? = some x.value := by rw [Json.roundedValue?, hx, Option.map_some]
  constructor
  · intro h p q hp hq
    obtain ⟨y, hy, rfl⟩ := Option.map_eq_some_iff.1 hp
    cases hj.symm.trans hq
    exact h y hy
  · exact fun h y hy ↦ h y.value x.value (by rw [Json.roundedValue?, hy, Option.map_some]) hj

/-- Bounds are compared by their values in the 64-bit format. -/
theorem boundFaults_eq_nil_iff :
    boundFaults fields j = [] ↔
      (∀ b, Json.field? "minimum" fields = some b → AtMost Json.roundedValue? b j) ∧
      (∀ b, Json.field? "maximum" fields = some b → AtMost Json.roundedValue? j b) ∧
      (∀ b, Json.field? "exclusiveMinimum" fields = some b → Below Json.roundedValue? b j) ∧
      ∀ b, Json.field? "exclusiveMaximum" fields = some b → Below Json.roundedValue? j b := by
  unfold boundFaults
  cases hx : j.toDouble? with
  | none => simp [AtMost, Below, Json.roundedValue?, hx]
  | some x =>
    simp only [List.append_eq_nil_iff, boundFault_eq_nil_iff, BinaryNumber.le_iff,
      BinaryNumber.lt_iff, and_assoc]
    refine and_congr ?_ (and_congr ?_ (and_congr ?_ ?_))
    · exact forall₂_congr fun b _ ↦ forall_roundedValue?_iff hx b (· ≤ ·)
    · exact forall₂_congr fun b _ ↦ (forall_roundedValue?_iff hx b fun p q ↦ q ≤ p).trans
        ⟨fun h p q hp hq ↦ h q p hq hp, fun h p q hp hq ↦ h q p hq hp⟩
    · exact forall₂_congr fun b _ ↦ forall_roundedValue?_iff hx b (· < ·)
    · exact forall₂_congr fun b _ ↦ (forall_roundedValue?_iff hx b fun p q ↦ q < p).trans
        ⟨fun h p q hp hq ↦ h q p hq hp, fun h p q hp hq ↦ h q p hq hp⟩

theorem asNat?_eq_some_iff {n : ℕ} : j.asNat? = some n ↔ j = .int n := by
  constructor
  · intro h
    rcases j with _ | _ | (m | m) | _ | _ | _ | _ <;> cases h
    rfl
  · rintro rfl
    rfl

theorem count?_eq_some_iff {keyword : String} {n : ℕ} :
    count? keyword fields = some n ↔ Json.field? keyword fields = some (.int n) := by
  unfold count?
  cases Json.field? keyword fields with
  | none => simp
  | some j => exact asNat?_eq_some_iff.trans (by simp)

theorem countFaults_eq_nil_iff {n : ℕ} {low high : String} {tooFew tooMany : ℕ → String} :
    countFaults fields n low high tooFew tooMany = [] ↔
      (∀ least : ℕ, Json.field? low fields = some (.int least) → least ≤ n) ∧
      ∀ greatest : ℕ, Json.field? high fields = some (.int greatest) → n ≤ greatest := by
  rw [countFaults, List.append_eq_nil_iff]
  simp only [← count?_eq_some_iff]
  refine and_congr ?_ ?_
  · cases count? low fields <;> simp
  · cases count? high fields <;> simp

theorem lengthFaults_eq_nil_iff :
    lengthFaults fields j = [] ↔
      (∀ (n : ℕ) (s : String), Json.field? "minLength" fields = some (.int n) → j = .string s →
        n ≤ s.length) ∧
      (∀ (n : ℕ) (s : String), Json.field? "maxLength" fields = some (.int n) → j = .string s →
        s.length ≤ n) ∧
      (∀ (n : ℕ) (items : List Json), Json.field? "minItems" fields = some (.int n) →
        j = .list items → n ≤ items.length) ∧
      ∀ (n : ℕ) (items : List Json), Json.field? "maxItems" fields = some (.int n) →
        j = .list items → items.length ≤ n := by
  cases j with
  | string s => simp [lengthFaults, countFaults_eq_nil_iff]
  | list items => simp [lengthFaults, countFaults_eq_nil_iff]
  | _ => simp [lengthFaults]

theorem requiredFaults_eq_nil_iff :
    requiredFaults fields j = [] ↔
      ∀ names present, Json.field? "required" fields = some (.list names) → j = .object present →
        ∀ name, .string name ∈ names → ∃ v, Json.field? name present = some v := by
  cases j with
  | object present =>
    have hname : ∀ name : String, (if (Json.field? name present).isSome = true then none
        else some (name ++ " is required")) = none ↔ ∃ v, Json.field? name present = some v := by
      intro name
      cases Json.field? name present <;> simp
    simp only [requiredFaults]
    split
    · next names hnames =>
      simp only [List.filterMap_eq_nil_iff, mem_names_iff, hname]
      refine ⟨fun h names' present' hf hj ↦ ?_, fun h ↦ h names present hnames rfl⟩
      cases hnames.symm.trans hf
      cases hj
      exact h
    · next h => exact iff_of_true rfl fun names _ hf ↦ absurd hf (h names)
  | _ => simp [requiredFaults]

/-- **The keywords that look at one value.** -/
theorem localFaults_eq_nil_iff :
    localFaults fields j = [] ↔
      choiceFaults fields j = [] ∧ boundFaults fields j = [] ∧ lengthFaults fields j = [] ∧
        requiredFaults fields j = [] := by
  simp only [localFaults, List.append_eq_nil_iff, and_assoc]

/-! ### Keywords that look at children and at other schemas -/

section Step

variable {g : Json → Json → String → Id (List Violation)} {path : String}

theorem judgeItems_eq_nil_iff
    (h : ∀ c ∈ childCalls fields j, ∀ p, (g c.1 c.2 p).run = [] ↔ S c.1 c.2) :
    (judgeItems g fields j path).run = [] ↔
      ∀ s items, Json.field? "items" fields = some s → j = .list items → ∀ i ∈ items, S s i := by
  rw [run_judgeItems]
  cases hs : Json.field? "items" fields with
  | none => simp
  | some s =>
    cases j with
    | list items =>
      simp only [List.flatMap_eq_nil_iff]
      constructor
      · intro hnil s' items' hs' hj i hi
        cases hs'
        cases hj
        obtain ⟨p, hp, rfl⟩ : ∃ p ∈ items.zipIdx, p.1 = i := by
          rw [← List.mem_map, List.zipIdx_map_fst]
          exact hi
        exact (h _ (mem_childCalls_items hs hi) _).1 (hnil _ hp)
      · intro hS p hp
        have hmem := List.fst_mem_of_mem_zipIdx hp
        exact (h _ (mem_childCalls_items hs hmem) _).2 (hS s items rfl rfl _ hmem)
    | _ => simp

/-- The schema that is declared for a field. -/
theorem property?_eq_some_iff {name : String} :
    (Json.field? "properties" fields).bind (·.get? name) = some s ↔
      ∃ described, Json.field? "properties" fields = some (.object described) ∧
        Json.field? name described = some s := by
  rw [Option.bind_eq_some_iff]
  constructor
  · rintro ⟨d, hd, hget⟩
    cases d with
    | object described => exact ⟨described, hd, hget⟩
    | _ => cases hget
  · rintro ⟨described, hd, hget⟩
    exact ⟨_, hd, hget⟩

theorem property?_eq_none_iff {name : String} :
    (Json.field? "properties" fields).bind (·.get? name) = none ↔ Undeclared fields name := by
  rw [Option.bind_eq_none_iff]
  constructor
  · exact fun h described hd ↦ h _ hd
  · intro h d hd
    cases d with
    | object described => exact h described hd
    | _ => rfl

/-- Which schema a field of an instance is judged by. -/
theorem fieldSchema?_eq_some_iff {name : String} :
    fieldSchema? fields name = some s ↔
      (∃ described, Json.field? "properties" fields = some (.object described) ∧
        Json.field? name described = some s) ∨
      Undeclared fields name ∧ Json.field? "additionalProperties" fields = some s := by
  rw [← property?_eq_some_iff, ← property?_eq_none_iff]
  unfold fieldSchema?
  cases (Json.field? "properties" fields).bind (·.get? name) <;> simp

/-- One field is judged by its schema, if it has one. -/
theorem judgeField_eq_nil_iff {f : String × Json}
    (h : ∀ s, fieldSchema? fields f.1 = some s → ∀ p, (g s f.2 p).run = [] ↔ S s f.2)
    (hfalse : ∀ p, (g (.bool false) f.2 p).run ≠ []) :
    (judgeField g fields path f).run = [] ↔ ∀ s, fieldSchema? fields f.1 = some s → S s f.2 := by
  unfold judgeField
  revert h
  unfold fieldSchema?
  cases (Json.field? "properties" fields).bind (·.get? f.1) with
  | some s =>
    intro h
    simpa using h s rfl _
  | none =>
    intro h
    dsimp only at h ⊢
    split
    · next hs =>
      rw [hs] at h ⊢
      have hnot : ¬S (.bool false) f.2 := fun hS ↦ hfalse path ((h _ rfl path).2 hS)
      simp [hnot]
    · next s _ hs =>
      rw [hs] at h ⊢
      simpa using h s rfl _
    · next hs => simp [hs]

theorem judgeFields_eq_nil_iff
    (h : ∀ c ∈ childCalls fields j, ∀ p, (g c.1 c.2 p).run = [] ↔ S c.1 c.2)
    (hfalse : ∀ v p, (g (.bool false) v p).run ≠ []) :
    (judgeFields g fields j path).run = [] ↔
      (∀ described present, Json.field? "properties" fields = some (.object described) →
        j = .object present → ∀ name v s, (name, v) ∈ present →
          Json.field? name described = some s → S s v) ∧
      ∀ s present, Json.field? "additionalProperties" fields = some s → j = .object present →
        ∀ name v, (name, v) ∈ present → Undeclared fields name → S s v := by
  rw [run_judgeFields]
  cases j with
  | object present =>
    have hfields : (inNameOrder present).flatMap (fun f ↦ (judgeField g fields path f).run) = [] ↔
        ∀ f ∈ present, ∀ s, fieldSchema? fields f.1 = some s → S s f.2 := by
      rw [List.flatMap_eq_nil_iff]
      constructor
      · intro hnil f hf
        exact (judgeField_eq_nil_iff (fun s hs ↦ h _ (mem_childCalls_fields hs hf))
          (hfalse f.2)).1 (hnil f (List.mem_mergeSort.2 hf))
      · intro hS f hf
        have hf := List.mem_mergeSort.1 hf
        exact (judgeField_eq_nil_iff (fun s hs ↦ h _ (mem_childCalls_fields hs hf))
          (hfalse f.2)).2 (hS f hf)
    rw [hfields]
    simp only [fieldSchema?_eq_some_iff]
    constructor
    · intro hS
      refine ⟨fun described present' hd hj name v s hf hs ↦ ?_,
        fun s present' hs hj name v hf hu ↦ ?_⟩
      · cases hj
        exact hS (name, v) hf s (.inl ⟨described, hd, hs⟩)
      · cases hj
        exact hS (name, v) hf s (.inr ⟨hu, hs⟩)
    · rintro ⟨hproperties, hadditional⟩ ⟨name, v⟩ hf s (⟨described, hd, hs⟩ | ⟨hu, hs⟩)
      · exact hproperties described present hd rfl name v s hf hs
      · exact hadditional s present hs rfl name v hf hu
  | _ => simp

/-- Counting to one is the same as a unique place in the list. -/
theorem countP_eq_one_iff {α : Type} {p : α → Bool} {P : α → Prop} (xs : List α)
    (h : ∀ x ∈ xs, p x = true ↔ P x) :
    xs.countP p = 1 ↔ ∃! i : Fin xs.length, P xs[i] := by
  induction xs with
  | nil => exact iff_of_false Nat.zero_ne_one fun ⟨i, _⟩ ↦ i.elim0
  | cons x xs ih =>
    have htail : ∀ y ∈ xs, p y = true ↔ P y := fun y hy ↦ h y (.tail _ hy)
    by_cases hx : p x = true
    · have hP : P x := (h x List.mem_cons_self).1 hx
      rw [List.countP_cons_of_pos hx, Nat.add_eq_right, List.countP_eq_zero]
      constructor
      · intro hnone
        refine ⟨(0 : Fin (xs.length + 1)), hP, fun i hi ↦ ?_⟩
        induction i using Fin.cases with
        | zero => rfl
        | succ k =>
          have hmem : xs[k] ∈ xs := List.getElem_mem _
          exact absurd ((htail _ hmem).2 hi) (hnone _ hmem)
      · rintro ⟨i, -, huniq⟩ y hy hp
        obtain ⟨k, hk, rfl⟩ := List.getElem_of_mem hy
        have hzero := huniq (0 : Fin (xs.length + 1)) hP
        have hsucc := huniq (Fin.succ ⟨k, hk⟩) ((htail _ hy).1 hp)
        exact Fin.succ_ne_zero _ (hsucc.trans hzero.symm)
    · have hP : ¬P x := fun hP ↦ hx ((h x List.mem_cons_self).2 hP)
      rw [List.countP_cons_of_neg hx, ih htail]
      constructor
      · rintro ⟨k, hk, huniq⟩
        refine ⟨k.succ, hk, fun i hi ↦ ?_⟩
        induction i using Fin.cases with
        | zero => exact absurd hi hP
        | succ k' => exact congrArg Fin.succ (huniq k' hi)
      · rintro ⟨i, hi, huniq⟩
        induction i using Fin.cases with
        | zero => exact absurd hi hP
        | succ k => exact ⟨k, hi, fun k' hk' ↦ Fin.succ_injective _ (huniq k'.succ hk')⟩

/-- The list of schemas under a keyword. -/
theorem list?_eq_some_iff {keyword : String} {schemas : List Json} :
    (Json.field? keyword fields).bind Json.asList? = some schemas ↔
      Json.field? keyword fields = some (.list schemas) := by
  rw [Option.bind_eq_some_iff]
  constructor
  · rintro ⟨j, hj, hlist⟩
    cases j <;> cases hlist
    exact hj
  · exact fun h ↦ ⟨_, h, rfl⟩

theorem mem_schemasInPlace_of_mem {keyword : String} {schemas : List Json}
    (hk : keyword = "allOf" ∨ keyword = "anyOf" ∨ keyword = "oneOf")
    (hf : Json.field? keyword fields = some (.list schemas)) (hs : s ∈ schemas) :
    s ∈ schemasInPlace fields :=
  mem_schemasInPlace_of_list hk (list?_eq_some_iff.2 hf) hs

/-- Exactly one schema of a list has no violations. -/
theorem countP_judge_eq_one_iff {schemas : List Json}
    (h : ∀ s ∈ schemas, (g s j path).run = [] ↔ S s j) :
    (schemas.map fun s ↦ (g s j path).run).countP List.isEmpty = 1 ↔
      ∃! i : Fin schemas.length, S schemas[i] j := by
  rw [List.countP_map]
  exact countP_eq_one_iff (P := (S · j)) schemas fun s hs ↦ List.isEmpty_iff.trans (h s hs)

/-- The lists under a keyword, through what is judged of their members. -/
theorem forall_list_iff {keyword : String} {P : List (List Violation) → Prop}
    {Q : List Json → Prop} (f : Json → List Violation)
    (h : ∀ schemas, Json.field? keyword fields = some (.list schemas) →
      (P (schemas.map f) ↔ Q schemas)) :
    (∀ results, ((Json.field? keyword fields).bind Json.asList?).map (List.map f) = some results →
      P results) ↔
      ∀ schemas, Json.field? keyword fields = some (.list schemas) → Q schemas := by
  simp only [Option.map_eq_some_iff, list?_eq_some_iff]
  constructor
  · exact fun hP schemas hs ↦ (h schemas hs).1 (hP _ ⟨schemas, hs, rfl⟩)
  · rintro hQ _ ⟨schemas, hs, rfl⟩
    exact (h schemas hs).2 (hQ schemas hs)

/-- **What is reported of a combination.** -/
theorem mem_combine {v : Violation} {allOf anyOf oneOf : Option (List (List Violation))}
    {negated : Option (List Violation)} :
    v ∈ combine path allOf anyOf oneOf negated ↔
      (∃ results, allOf = some results ∧ ∃ result ∈ results, v ∈ result) ∨
      (∃ results, anyOf = some results ∧ (∀ result ∈ results, result ≠ []) ∧
        v = ⟨path, "Must validate at least one schema (anyOf)"⟩) ∨
      (∃ results, oneOf = some results ∧ results.countP List.isEmpty ≠ 1 ∧
        v = ⟨path, "Must validate one and only one schema (oneOf)"⟩) ∨
      negated = some [] ∧ v = ⟨path, "Must not validate the schema (not)"⟩ := by
  simp only [combine, List.mem_append, or_assoc]
  refine or_congr ?_ (or_congr ?_ (or_congr ?_ ?_))
  · cases allOf <;> simp
  · cases anyOf with
    | none => simp
    | some results =>
      simp only [List.mem_ite_nil_left, List.mem_singleton, Option.some.injEq, exists_eq_left',
        List.any_eq_true, List.isEmpty_iff, exists_eq_right, List.forall_mem_ne']
  · cases oneOf with
    | none => simp
    | some results => simp [List.mem_ite_nil_left]
  · cases negated with
    | none => simp
    | some result => simp [List.mem_ite_nil_right]

theorem combine_eq_nil_iff {allOf anyOf oneOf : Option (List (List Violation))}
    {negated : Option (List Violation)} :
    combine path allOf anyOf oneOf negated = [] ↔
      (∀ results, allOf = some results → ∀ r ∈ results, r = []) ∧
      (∀ results, anyOf = some results → ∃ r ∈ results, r = []) ∧
      (∀ results, oneOf = some results → results.countP List.isEmpty = 1) ∧
      ∀ result, negated = some result → result ≠ [] := by
  simp only [combine, List.append_eq_nil_iff, and_assoc]
  refine and_congr ?_ (and_congr ?_ (and_congr ?_ ?_))
  · cases allOf <;> simp
  · cases anyOf with
    | none => simp
    | some results =>
      simp only [Option.some.injEq, forall_eq']
      split
      · next h => simpa using h
      · next h => simpa using h
  · cases oneOf with
    | none => simp
    | some results =>
      simp only [Option.some.injEq, forall_eq']
      split
      · next h => simpa using h
      · next h => simpa using h
  · cases negated with
    | none => simp
    | some result => cases result <;> simp

/-- The four keywords that combine schemas. -/
theorem combine_judge_eq_nil_iff
    (h : ∀ s ∈ schemasInPlace fields, ∀ p, (g s j p).run = [] ↔ S s j) :
    combine path (judgeList g "allOf" fields j path).run (judgeList g "anyOf" fields j path).run
        (judgeList g "oneOf" fields j path).run (judgeNot g fields j path).run = [] ↔
      (∀ schemas, Json.field? "allOf" fields = some (.list schemas) → ∀ s ∈ schemas, S s j) ∧
      (∀ schemas, Json.field? "anyOf" fields = some (.list schemas) → ∃ s ∈ schemas, S s j) ∧
      (∀ schemas, Json.field? "oneOf" fields = some (.list schemas) →
        ∃! i : Fin schemas.length, S schemas[i] j) ∧
      ∀ s, Json.field? "not" fields = some s → ¬S s j := by
  have hlist : ∀ {keyword schemas}, (keyword = "allOf" ∨ keyword = "anyOf" ∨ keyword = "oneOf") →
      Json.field? keyword fields = some (.list schemas) →
      ∀ s ∈ schemas, (g s j path).run = [] ↔ S s j :=
    fun hk hf s hs ↦ h s (mem_schemasInPlace_of_mem hk hf hs) path
  rw [combine_eq_nil_iff]
  simp only [run_judgeList, run_judgeNot]
  refine and_congr ?_ (and_congr ?_ (and_congr ?_ ?_))
  · refine forall_list_iff _ fun schemas hf ↦ ?_
    rw [List.forall_mem_map]
    exact forall₂_congr (hlist (.inl rfl) hf)
  · refine forall_list_iff (P := fun results ↦ ∃ r ∈ results, r = []) _ fun schemas hf ↦ ?_
    simp only [List.mem_map, exists_exists_and_eq_and]
    exact exists_congr fun s ↦ and_congr_right (hlist (.inr (.inl rfl)) hf s)
  · exact forall_list_iff (P := fun results ↦ results.countP List.isEmpty = 1) _
      fun schemas hf ↦ countP_judge_eq_one_iff (hlist (.inr (.inr rfl)) hf)
  · cases hs : Json.field? "not" fields with
    | none => simp
    | some s =>
      simp only [Option.map_some, Option.some.injEq, forall_eq', ne_eq]
      exact not_congr (h s (mem_schemasInPlace_of_not hs) path)

/-- **One step decides the meaning of a schema**, if what it asks for decides the meanings of the
others. -/
theorem judgeStep_eq_nil_iff (h : Usable components root l) (hs : Reached components root s)
    (hcalls : ∀ c ∈ calls components s j, ∀ p, (g c.1 c.2 p).run = [] ↔ S c.1 c.2)
    (hfalse : ∀ v p, (g (.bool false) v p).run ≠ []) :
    (judgeStep g components s j path).run = [] ↔
      Meaning Json.roundedValue? components S s j := by
  rcases h.object_or_bool hs with ⟨fields, rfl⟩ | ⟨b, rfl⟩
  · cases hr : reference? fields with
    | some r =>
      obtain ⟨t, ht⟩ := h.exists_target hs hr
      have hcall := hcalls (t, j) (by simp [calls, hr, ht]) path
      simp only [judgeStep, Meaning, hr, ht]
      refine hcall.trans ⟨fun hS ↦ ⟨t, rfl, hS⟩, ?_⟩
      rintro ⟨t', ht', hS⟩
      cases Option.some.inj ht'
      exact hS
    | none =>
      simp only [calls, hr] at hcalls
      have hchild : ∀ c ∈ childCalls fields j, ∀ p, (g c.1 c.2 p).run = [] ↔ S c.1 c.2 :=
        fun c hc ↦ hcalls c (List.mem_append_left _ hc)
      have hplace : ∀ s ∈ schemasInPlace fields, ∀ p, (g s j p).run = [] ↔ S s j :=
        fun s hs ↦ hcalls (s, j) (List.mem_append_right _ (List.mem_map_of_mem hs))
      have htype : typeFault? fields j = none ↔ _ := typeFault?_eq_none_iff
      simp only [judgeStep, Meaning, hr]
      cases hfault : typeFault? fields j with
      | some text =>
        refine iff_of_false (List.cons_ne_nil _ _) fun hc ↦ ?_
        cases (htype.2 hc.type).symm.trans hfault
      | none =>
        simp only [Id.run_bind, Id.run_pure, List.append_eq_nil_iff, List.map_eq_nil_iff,
          localFaults_eq_nil_iff, choiceFaults_eq_nil_iff, boundFaults_eq_nil_iff,
          lengthFaults_eq_nil_iff, requiredFaults_eq_nil_iff, judgeItems_eq_nil_iff hchild,
          judgeFields_eq_nil_iff hchild hfalse, combine_judge_eq_nil_iff hplace]
        constructor
        · rintro ⟨⟨⟨⟨henum, hconst⟩, ⟨hmin, hmax, hxmin, hxmax⟩,
            ⟨hminLength, hmaxLength, hminItems, hmaxItems⟩, hrequired⟩, hitems, hproperties,
            hadditional⟩, hallOf, hanyOf, honeOf, hnot⟩
          exact ⟨htype.1 hfault, henum, hconst, hmin, hmax, hxmin, hxmax, hminLength, hmaxLength,
            hminItems, hmaxItems, hrequired, hitems, hproperties, hadditional, hallOf, hanyOf,
            honeOf, hnot⟩
        · intro hc
          exact ⟨⟨⟨⟨hc.enum, hc.const⟩, ⟨hc.minimum, hc.maximum, hc.exclusiveMinimum,
            hc.exclusiveMaximum⟩, ⟨hc.minLength, hc.maxLength, hc.minItems, hc.maxItems⟩,
            hc.required⟩, hc.items, hc.properties, hc.additionalProperties⟩, hc.allOf, hc.anyOf,
            hc.oneOf, hc.not⟩
  · cases b <;> simp [judgeStep, Meaning]

end Step

/-! ### Validating decides the meaning -/

theorem check_false (v : Json) (path : String) : check components v path (.bool false) ≠ [] := by
  rw [check_eq_follow]
  cases components.entries.length <;> exact List.cons_ne_nil _ _

/-- **One step of a check decides the meaning**, if what it asks for decides the meanings of the
others. -/
theorem check_eq_nil_step (h : Usable components root l) (hs : Reached components root s)
    (hcalls : ∀ c ∈ calls components s j, ∀ p, check components c.2 p c.1 = [] ↔ S c.1 c.2)
    (path : String) :
    check components j path s = [] ↔ Meaning Json.roundedValue? components S s j := by
  rw [check_eq_judgeStep h hs]
  exact judgeStep_eq_nil_iff h hs hcalls fun v p ↦ check_false v p

/-- Any predicate that satisfies the semantics is decided by checking, at every path. -/
theorem check_eq_nil_iff (h : Usable components root l)
    (hS : Semantics Json.roundedValue? components root S) (hs : Reached components root s)
    (j : Json) : ∀ path, check components j path s = [] ↔ S s j := by
  refine call_induction h (motive := fun s j ↦ ∀ path, check components j path s = [] ↔ S s j) ?_
    s j hs
  intro s j hs hcalls path
  rw [hS s hs j]
  exact check_eq_nil_step h hs hcalls path

/-- Checking satisfies the semantics: the path plays no part in whether violations are found. -/
theorem semantics_check (h : Usable components root l) :
    Semantics Json.roundedValue? components root
      fun s j ↦ check components j rootPath s = [] := by
  have hpath : ∀ s j, Reached components root s → ∀ path,
      check components j path s = [] ↔ check components j rootPath s = [] := by
    intro s j hs
    refine call_induction h (motive := fun s j ↦ ∀ path,
      check components j path s = [] ↔ check components j rootPath s = []) ?_ s j hs
    intro s j hs hcalls path
    rw [check_eq_nil_step (S := fun s j ↦ check components j rootPath s = []) h hs hcalls path,
      check_eq_nil_step (S := fun s j ↦ check components j rootPath s = []) h hs hcalls rootPath]
  exact fun s hs j ↦
    check_eq_nil_step h hs (fun c hc ↦ hpath _ _ (reached_of_mem_calls hs hc)) rootPath

/-- **Validating decides the meaning of a usable schema.** There is a predicate that satisfies the
semantics, with numbers rounded to the 64-bit format, and for every such predicate a document has no
violations exactly if the predicate holds of it. -/
theorem validate_eq_nil_iff {schema : Schema} (h : compile root components = .ok schema) :
    (∃ S, Semantics Json.roundedValue? components root S) ∧
      ∀ S, Semantics Json.roundedValue? components root S →
        ∀ document, validate schema document = [] ↔ S root document := by
  obtain ⟨rfl, l, husable⟩ := compile_spec h
  exact ⟨⟨_, semantics_check husable⟩,
    fun S hS document ↦ check_eq_nil_iff husable hS .root document rootPath⟩

/-! ### Bounds are not exact -/

/-- A bound at the end of the range in which the 64-bit format holds every integer. -/
def boundSchema : Json :=
  .object [("maximum", .int 9007199254740992)]

theorem reached_boundSchema (h : Reached components boundSchema s) : s = boundSchema := by
  induction h with
  | root => rfl
  | part _ hs ih =>
    cases ih
    simp [parts, referenceObligations, typeObligations, partsOfProperties, listObligations,
      partsUnder, partsInList, numberObligations, Json.field?] at hs
  | target _ hr _ ih =>
    cases ih
    simp [reference?, Json.field?] at hr

theorem constraints_boundSchema :
    Constraints number S [("maximum", .int 9007199254740992)] j ↔
      AtMost number j (.int 9007199254740992) := by
  constructor
  · exact fun h ↦ h.maximum _ (by simp [Json.field?])
  · intro h
    constructor
    case maximum => simpa [Json.field?] using h
    all_goals simp [Json.field?]

/-- **Exact numbers are not what bounds compare**: for this schema the exact semantics has a
predicate, every such predicate rejects the first integer above the bound, and validating does not.
-/
theorem validate_ne_exact :
    compile boundSchema ∅ = .ok ⟨boundSchema, ∅⟩ ∧
      (∃ S, Semantics Json.exactValue? ∅ boundSchema S) ∧
      ∀ S, Semantics Json.exactValue? ∅ boundSchema S →
        validate ⟨boundSchema, ∅⟩ (.int 9007199254740993) = [] ∧
          ¬S boundSchema (.int 9007199254740993) := by
  refine ⟨rfl, ⟨fun _ j ↦ AtMost Json.exactValue? j (.int 9007199254740992), fun s hs j ↦ ?_⟩,
    fun S hS ↦ ⟨rfl, fun hmem ↦ ?_⟩⟩
  · cases reached_boundSchema hs
    exact constraints_boundSchema.symm
  · have hle := constraints_boundSchema.1 ((hS _ .root _).1 hmem) _ _ rfl rfl
    norm_num at hle

/-- A document and a schema with a combination under a negation. -/
theorem validate_eq_nil_iff_not_anyOf :
    compile (.object [("not", .object [("anyOf", .list [.bool false, boundSchema])])]) ∅ =
        .ok ⟨.object [("not", .object [("anyOf", .list [.bool false, boundSchema])])], ∅⟩ ∧
      ∃ S, Semantics Json.roundedValue? ∅
          (.object [("not", .object [("anyOf", .list [.bool false, boundSchema])])]) S ∧
        ¬S (.object [("not", .object [("anyOf", .list [.bool false, boundSchema])])]) (.int 1) := by
  have hcompile : compile
      (.object [("not", .object [("anyOf", .list [.bool false, boundSchema])])]) ∅ = .ok _ := rfl
  obtain ⟨⟨S, hS⟩, hall⟩ := validate_eq_nil_iff hcompile
  refine ⟨rfl, S, hS, fun hmem ↦ ?_⟩
  cases (hall S hS (.int 1)).2 hmem

end Schema

end ContractHost
