import ContractHost.Proofs.Schema.Bounds
import ContractHost.Proofs.Schema.Kinds
import ContractHost.Proofs.Schema.Termination

/-!
# Nothing is skipped

`Schema.validate` passes over what it cannot read: a schema that is neither an object nor a truth
value accepts everything, so does a reference to nothing, and a keyword of the wrong kind is as good
as absent. Here is a validator that does no such thing. It reads an object into `Schema.Keywords`,
where every keyword has a value of its own type and a reference is replaced by its target
(`Schema.readKeywords`), and judges by those values only. Reading **fails** on any keyword of the
wrong kind, beside a reference too, and with it the whole check (`strictWithin_of_not_wellKinded`).

**For a compiled schema the strict validator returns, with the violations that `Schema.validate`
lists** (`compiled_nothing_skipped`). It rests on two facts that have nothing to do with each other:
everything consulted is covered by the schema, so that it is of the right kind; and where a schema
can be read, one step of the lenient check is one step of the strict one (`Reads.judgeStep_eq`).
-/

namespace ContractHost

namespace Schema

variable {components : Components} {fields : List (String × Json)} {l : List String} {root s : Json}

/-! ### Reading keywords -/

/-- A number under a keyword, as it is shown and by its value in the 64-bit format. -/
structure Bound where
  shown : Json
  value : Option BinaryNumber

/-- The keywords that hold a number. -/
structure Bounds where
  minimum : Option Bound
  maximum : Option Bound
  exclusiveMinimum : Option Bound
  exclusiveMaximum : Option Bound

/-- The keywords that hold a count. -/
structure Limits where
  minLength : Option ℕ
  maxLength : Option ℕ
  minItems : Option ℕ
  maxItems : Option ℕ

/-- The keywords of an object, each read as what it has to be. -/
structure Keywords where
  target : Option Json
  types : Option (List String)
  options : Option (List Json)
  const : Option Json
  bounds : Bounds
  limits : Limits
  required : Option (List String)
  items : Option Json
  properties : Option (List (String × Json))
  additionalProperties : Option Json
  allOf : Option (List Json)
  anyOf : Option (List Json)
  oneOf : Option (List Json)
  negated : Option Json

/-- Read a keyword if it is there. -/
def readKeyword {α : Type} (read : Json → Option α) (keyword : String)
    (fields : List (String × Json)) : Option (Option α) :=
  match Json.field? keyword fields with
  | none => some none
  | some j => (read j).map some

/-- Read a reference as its target. -/
def readTarget (components : Components) : Json → Option Json
  | .string r => resolve? components r
  | _ => none

/-- Read the name of a JSON type. -/
def readTypeName : Json → Option String
  | .string name => if name ∈ typeNames then some name else none
  | _ => none

/-- Read one or several names of JSON types. -/
def readTypes : Json → Option (List String)
  | .list names => names.mapM readTypeName
  | j => (readTypeName j).map fun name ↦ [name]

/-- Read a list of strings. -/
def readStrings : Json → Option (List String)
  | .list names => names.mapM Json.asString?
  | _ => none

/-- Read a number. Only an integer that is too large for any document may be without a value. -/
def readBound : Json → Option Bound
  | .int n =>
    if Json.IntegerRange n then (Json.int n).toDouble?.map fun x ↦ ⟨.int n, some x⟩
    else some ⟨.int n, (Json.int n).toDouble?⟩
  | .float x => some ⟨.float x, some x⟩
  | _ => none

/-- Read a list of schemas, at least one. -/
def readSchemas : Json → Option (List Json)
  | .list (s :: rest) => some (s :: rest)
  | _ => none

/-- Read the keywords that hold a number. -/
def readBounds (fields : List (String × Json)) : Option Bounds := do
  let minimum ← readKeyword readBound "minimum" fields
  let maximum ← readKeyword readBound "maximum" fields
  let exclusiveMinimum ← readKeyword readBound "exclusiveMinimum" fields
  let exclusiveMaximum ← readKeyword readBound "exclusiveMaximum" fields
  return { minimum, maximum, exclusiveMinimum, exclusiveMaximum }

/-- Read the keywords that hold a count. -/
def readLimits (fields : List (String × Json)) : Option Limits := do
  let minLength ← readKeyword Json.asNat? "minLength" fields
  let maxLength ← readKeyword Json.asNat? "maxLength" fields
  let minItems ← readKeyword Json.asNat? "minItems" fields
  let maxItems ← readKeyword Json.asNat? "maxItems" fields
  return { minLength, maxLength, minItems, maxItems }

/-- Read the keywords of an object. This fails if one of them cannot be read. -/
def readKeywords (components : Components) (fields : List (String × Json)) : Option Keywords := do
  let target ← readKeyword (readTarget components) "$ref" fields
  let types ← readKeyword readTypes "type" fields
  let options ← readKeyword Json.asList? "enum" fields
  let bounds ← readBounds fields
  let limits ← readLimits fields
  let required ← readKeyword readStrings "required" fields
  let properties ← readKeyword Json.asObject? "properties" fields
  let allOf ← readKeyword readSchemas "allOf" fields
  let anyOf ← readKeyword readSchemas "anyOf" fields
  let oneOf ← readKeyword readSchemas "oneOf" fields
  return {
    target, types, options, const := Json.field? "const" fields, bounds, limits, required,
    items := Json.field? "items" fields, properties,
    additionalProperties := Json.field? "additionalProperties" fields, allOf, anyOf, oneOf,
    negated := Json.field? "not" fields }

/-! ### Judging strictly -/

/-- The violation of a bound by a number. -/
def Bound.faults (x : BinaryNumber) (text : String) (holds : BinaryNumber → BinaryNumber → Bool)
    (b : Bound) : List String :=
  match b.value with
  | none => []
  | some y => if holds x y then [] else [text ++ " " ++ b.shown.toText]

/-- The violations of two limits by a count. -/
def limitFaults (least greatest : Option ℕ) (n : ℕ) (tooFew tooMany : ℕ → String) : List String :=
  (match least with
    | none => []
    | some least => if n < least then [tooFew least] else []) ++
  match greatest with
  | none => []
  | some greatest => if greatest < n then [tooMany greatest] else []

namespace Keywords

variable (k : Keywords)

/-- The violated type restriction. -/
def typeFault? (j : Json) : Option String :=
  match k.types with
  | none => none
  | some names =>
    if names.any (hasType · j) then none
    else some ("Invalid type. Expected: " ++ "/".intercalate names ++ ", given: " ++ typeName j)

/-- The violated choice of documents. -/
def choiceFaults (j : Json) : List String :=
  (match k.options with
    | none => []
    | some options =>
      if options.any fun o ↦ o.same j then []
      else ["must be one of the following: " ++ ", ".intercalate (options.map Json.toText)]) ++
  match k.const with
  | none => []
  | some expected => if expected.same j then [] else ["Does not match: " ++ expected.toText]

/-- The violated bounds. -/
def boundFaults (j : Json) : List String :=
  match j.toDouble? with
  | none => []
  | some x =>
    k.bounds.minimum.elim []
      (Bound.faults x "Must be greater than or equal to" fun x b ↦ b.le x) ++
    k.bounds.maximum.elim [] (Bound.faults x "Must be less than or equal to" fun x b ↦ x.le b) ++
    k.bounds.exclusiveMinimum.elim [] (Bound.faults x "Must be greater than" fun x b ↦ b.lt x) ++
    k.bounds.exclusiveMaximum.elim [] (Bound.faults x "Must be less than" fun x b ↦ x.lt b)

/-- The violated limits on a length. -/
def lengthFaults : Json → List String
  | .string s =>
    limitFaults k.limits.minLength k.limits.maxLength s.length
      (fun n ↦ "String length must be greater than or equal to " ++ toString n)
      (fun n ↦ "String length must be less than or equal to " ++ toString n)
  | .list items =>
    limitFaults k.limits.minItems k.limits.maxItems items.length
      (fun n ↦ "Array must have at least " ++ toString n ++ " items")
      (fun n ↦ "Array must have at most " ++ toString n ++ " items")
  | _ => []

/-- The required fields that are missing. -/
def requiredFaults : Json → List String
  | .object present =>
    (k.required.getD []).filterMap fun name ↦
      if (Json.field? name present).isSome then none else some (name ++ " is required")
  | _ => []

/-- The violated constraints that look at one value. -/
def localFaults (j : Json) : List String :=
  k.choiceFaults j ++ k.boundFaults j ++ k.lengthFaults j ++ k.requiredFaults j

variable (judge : Json → Json → String → Option (List Violation)) (j : Json) (path : String)

/-- Judge the items of a list. -/
def judgeItems : Option (List Violation) :=
  match k.items, j with
  | some s, .list items =>
    List.flatten <$> items.zipIdx.mapM fun p ↦ judge s p.1 (childPath path (toString p.2))
  | _, _ => some []

/-- Judge one field of an object. -/
def judgeField (f : String × Json) : Option (List Violation) :=
  match k.properties.bind (Json.field? f.1) with
  | some s => judge s f.2 (childPath path f.1)
  | none =>
    match k.additionalProperties with
    | some (.bool false) => some [⟨path, "Additional property " ++ f.1 ++ " is not allowed"⟩]
    | some s => judge s f.2 (childPath path f.1)
    | none => some []

/-- Judge the fields of an object in the order of their names. -/
def judgeFields : Option (List Violation) :=
  match j with
  | .object present => List.flatten <$> (inNameOrder present).mapM (k.judgeField judge path)
  | _ => some []

/-- Judge an instance by each of a list of schemas. -/
def judgeEach (schemas : Option (List Json)) : Option (Option (List (List Violation))) :=
  match schemas with
  | some schemas => some <$> schemas.mapM fun s ↦ judge s j path
  | none => some none

/-- Judge an instance by the schema under `not`. -/
def judgeNegated : Option (Option (List Violation)) :=
  match k.negated with
  | some s => some <$> judge s j path
  | none => some none

/-- Judge an instance by the keywords of an object. -/
def violations : Option (List Violation) :=
  match k.target with
  | some t => judge t j path
  | none =>
    match k.typeFault? j with
    | some text => some [⟨path, text⟩]
    | none => do
      let items ← k.judgeItems judge j path
      let children ← k.judgeFields judge j path
      let allOf ← judgeEach judge j path k.allOf
      let anyOf ← judgeEach judge j path k.anyOf
      let oneOf ← judgeEach judge j path k.oneOf
      let negated ← k.judgeNegated judge j path
      some ((k.localFaults j).map (⟨path, ·⟩) ++ (items ++ children) ++
        combine path allOf anyOf oneOf negated)

end Keywords

/-- Judge an instance strictly, by calls nested at most `depth` deep. -/
def strictWithin (components : Components) :
    ℕ → Json → Json → String → Option (List Violation)
  | 0, _, _, _ => none
  | _ + 1, .bool true, _, _ => some []
  | _ + 1, .bool false, _, path => some [⟨path, "False always fails validation"⟩]
  | depth + 1, .object fields, j, path =>
    match readKeywords components fields with
    | some k => k.violations (strictWithin components depth) j path
    | none => none
  | _ + 1, _, _, _ => none

/-- Validate a document strictly, by calls nested at most `depth` deep. -/
def validateStrictly (schema : Schema) (document : Json) (depth : ℕ) : Option (List Violation) :=
  strictWithin schema.components depth schema.root document rootPath

/-! ### What can be read -/

theorem readKeyword_eq_some_iff {α : Type} {read : Json → Option α} {keyword : String}
    {a : Option α} :
    readKeyword read keyword fields = some a ↔
      (Json.field? keyword fields = none ∧ a = none) ∨
        ∃ j b, Json.field? keyword fields = some j ∧ read j = some b ∧ a = some b := by
  unfold readKeyword
  cases Json.field? keyword fields with
  | none => simp [eq_comm]
  | some j => simp [eq_comm]

theorem exists_readKeyword_iff {α : Type} {read : Json → Option α} {keyword : String} :
    (∃ a, readKeyword read keyword fields = some a) ↔
      ∀ j, Json.field? keyword fields = some j → ∃ b, read j = some b := by
  unfold readKeyword
  cases Json.field? keyword fields with
  | none => simp
  | some j => simp

theorem mapM_eq_some_iff {α β : Type} {f : α → Option β} {xs : List α} :
    (∃ ys, xs.mapM f = some ys) ↔ ∀ x ∈ xs, ∃ y, f x = some y := by
  induction xs with
  | nil => simp
  | cons x xs ih =>
    rw [List.mapM_cons, List.forall_mem_cons, ← ih]
    cases f x with
    | none => simp
    | some y => cases xs.mapM f <;> simp

theorem exists_readTarget_iff {j : Json} :
    (∃ t, readTarget components j = some t) ↔ ∃ r t, j = .string r ∧ Names components r t := by
  cases j with
  | string r => simp [readTarget, resolve?_eq_some_iff]
  | _ => simp [readTarget]

theorem exists_readTypeName_iff {j : Json} :
    (∃ name, readTypeName j = some name) ↔ IsTypeName j := by
  cases j with
  | string name => simp [readTypeName, IsTypeName]
  | _ => simp [readTypeName, IsTypeName]

theorem exists_readTypes_iff {j : Json} :
    (∃ names, readTypes j = some names) ↔
      IsTypeName j ∨ ∃ names, j = .list names ∧ ∀ name ∈ names, IsTypeName name := by
  cases j with
  | list names =>
    have hlist : ¬IsTypeName (.list names) := fun ⟨_, _, heq⟩ ↦ nomatch heq
    simp only [readTypes, mapM_eq_some_iff, exists_readTypeName_iff, hlist, false_or,
      Json.list.injEq, exists_eq_left']
  | _ => simp [readTypes, ← exists_readTypeName_iff]

theorem exists_readStrings_iff {j : Json} :
    (∃ names, readStrings j = some names) ↔
      ∃ names, j = .list names ∧ ∀ name ∈ names, ∃ text, name = .string text := by
  have hstring : ∀ {j : Json}, (∃ text, j.asString? = some text) ↔ ∃ text, j = .string text := by
    intro j
    cases j <;> simp [Json.asString?]
  cases j with
  | list names => simp [readStrings, mapM_eq_some_iff, hstring]
  | _ => simp [readStrings]

theorem exists_readBound_iff {j : Json} :
    (∃ b, readBound j = some b) ↔ (∃ n, j = .int n) ∨ ∃ x, j = .float x := by
  cases j with
  | int n =>
    refine iff_of_true ?_ (.inl ⟨n, rfl⟩)
    simp only [readBound]
    split
    · next hn =>
      obtain ⟨x, -, hx, -⟩ := exists_toDouble?_of_integerRange hn
      exact ⟨⟨.int n, some x⟩, by rw [hx, Option.map_some]⟩
    · exact ⟨_, rfl⟩
  | float x => simp [readBound]
  | _ => simp [readBound]

theorem exists_readSchemas_iff {j : Json} :
    (∃ schemas, readSchemas j = some schemas) ↔ ∃ schemas, j = .list schemas ∧ schemas ≠ [] := by
  rcases j with _ | _ | _ | _ | _ | (_ | ⟨s, rest⟩) | _ <;> simp [readSchemas]

/-- Each keyword has been read. -/
structure Reads (components : Components) (fields : List (String × Json)) (k : Keywords) :
    Prop where
  target : readKeyword (readTarget components) "$ref" fields = some k.target
  types : readKeyword readTypes "type" fields = some k.types
  options : readKeyword Json.asList? "enum" fields = some k.options
  const : Json.field? "const" fields = k.const
  bounds : readBounds fields = some k.bounds
  limits : readLimits fields = some k.limits
  required : readKeyword readStrings "required" fields = some k.required
  items : Json.field? "items" fields = k.items
  properties : readKeyword Json.asObject? "properties" fields = some k.properties
  additionalProperties : Json.field? "additionalProperties" fields = k.additionalProperties
  allOf : readKeyword readSchemas "allOf" fields = some k.allOf
  anyOf : readKeyword readSchemas "anyOf" fields = some k.anyOf
  oneOf : readKeyword readSchemas "oneOf" fields = some k.oneOf
  negated : Json.field? "not" fields = k.negated

theorem readBounds_eq_some_iff {b : Bounds} :
    readBounds fields = some b ↔
      readKeyword readBound "minimum" fields = some b.minimum ∧
      readKeyword readBound "maximum" fields = some b.maximum ∧
      readKeyword readBound "exclusiveMinimum" fields = some b.exclusiveMinimum ∧
      readKeyword readBound "exclusiveMaximum" fields = some b.exclusiveMaximum := by
  cases b
  simp [readBounds, Option.bind_eq_some_iff]

theorem readLimits_eq_some_iff {n : Limits} :
    readLimits fields = some n ↔
      readKeyword Json.asNat? "minLength" fields = some n.minLength ∧
      readKeyword Json.asNat? "maxLength" fields = some n.maxLength ∧
      readKeyword Json.asNat? "minItems" fields = some n.minItems ∧
      readKeyword Json.asNat? "maxItems" fields = some n.maxItems := by
  cases n
  simp [readLimits, Option.bind_eq_some_iff]

theorem reads_of_readKeywords {k : Keywords} (h : readKeywords components fields = some k) :
    Reads components fields k := by
  simp only [readKeywords, Option.bind_eq_bind, Option.bind_eq_some_iff, Option.pure_def,
    Option.some.injEq] at h
  obtain ⟨target, htarget, types, htypes, options, hoptions, bounds, hbounds, limits, hlimits,
    required, hrequired, properties, hproperties, allOf, hallOf, anyOf, hanyOf, oneOf, honeOf,
    rfl⟩ := h
  exact ⟨htarget, htypes, hoptions, rfl, hbounds, hlimits, hrequired, rfl, hproperties, rfl, hallOf,
    hanyOf, honeOf, rfl⟩

theorem exists_readBounds_iff :
    (∃ b, readBounds fields = some b) ↔ ∀ keyword ∈ boundKeywords, ∀ j,
      Json.field? keyword fields = some j → (∃ n, j = .int n) ∨ ∃ x, j = .float x := by
  simp only [← exists_readBound_iff, ← exists_readKeyword_iff, readBounds_eq_some_iff]
  simp only [boundKeywords, List.forall_mem_cons, List.not_mem_nil, false_imp_iff, implies_true,
    and_true]
  constructor
  · rintro ⟨b, h1, h2, h3, h4⟩
    exact ⟨⟨_, h1⟩, ⟨_, h2⟩, ⟨_, h3⟩, ⟨_, h4⟩⟩
  · rintro ⟨⟨_, h1⟩, ⟨_, h2⟩, ⟨_, h3⟩, ⟨_, h4⟩⟩
    exact ⟨⟨_, _, _, _⟩, h1, h2, h3, h4⟩

theorem exists_readLimits_iff :
    (∃ n, readLimits fields = some n) ↔ ∀ keyword ∈ countKeywords, ∀ j,
      Json.field? keyword fields = some j → ∃ n : ℕ, j = .int n := by
  simp only [← asNat?_eq_some_iff, ← exists_readKeyword_iff, readLimits_eq_some_iff]
  simp only [countKeywords, List.forall_mem_cons, List.not_mem_nil, false_imp_iff, implies_true,
    and_true]
  constructor
  · rintro ⟨n, h1, h2, h3, h4⟩
    exact ⟨⟨_, h1⟩, ⟨_, h2⟩, ⟨_, h3⟩, ⟨_, h4⟩⟩
  · rintro ⟨⟨_, h1⟩, ⟨_, h2⟩, ⟨_, h3⟩, ⟨_, h4⟩⟩
    exact ⟨⟨_, _, _, _⟩, h1, h2, h3, h4⟩

/-- **An object can be read exactly if its keywords are of the right kind.** -/
theorem exists_readKeywords_iff :
    (∃ k, readKeywords components fields = some k) ↔ KeywordsTyped components fields := by
  have hlist : ∀ {j : Json}, (∃ items, j.asList? = some items) ↔ ∃ items, j = .list items := by
    intro j
    cases j <;> simp [Json.asList?]
  have hobject : ∀ {j : Json}, (∃ fs, j.asObject? = some fs) ↔ ∃ fs, j = .object fs := by
    intro j
    cases j <;> simp [Json.asObject?]
  have hread : (∃ k, readKeywords components fields = some k) ↔
      (∃ a, readKeyword (readTarget components) "$ref" fields = some a) ∧
      (∃ a, readKeyword readTypes "type" fields = some a) ∧
      (∃ a, readKeyword Json.asList? "enum" fields = some a) ∧
      (∃ a, readBounds fields = some a) ∧
      (∃ a, readLimits fields = some a) ∧
      (∃ a, readKeyword readStrings "required" fields = some a) ∧
      (∃ a, readKeyword Json.asObject? "properties" fields = some a) ∧
      ∀ keyword ∈ combinators, ∃ a, readKeyword readSchemas keyword fields = some a := by
    simp only [combinators, List.forall_mem_cons, List.not_mem_nil, false_imp_iff, implies_true,
      and_true]
    constructor
    · rintro ⟨k, hk⟩
      have h := reads_of_readKeywords hk
      exact ⟨⟨_, h.target⟩, ⟨_, h.types⟩, ⟨_, h.options⟩, ⟨_, h.bounds⟩, ⟨_, h.limits⟩,
        ⟨_, h.required⟩, ⟨_, h.properties⟩, ⟨_, h.allOf⟩, ⟨_, h.anyOf⟩, ⟨_, h.oneOf⟩⟩
    · rintro ⟨⟨_, htarget⟩, ⟨_, htypes⟩, ⟨_, hoptions⟩, ⟨_, hbounds⟩, ⟨_, hlimits⟩, ⟨_, hrequired⟩,
        ⟨_, hproperties⟩, ⟨_, hallOf⟩, ⟨_, hanyOf⟩, ⟨_, honeOf⟩⟩
      simp only [readKeywords, htarget, htypes, hoptions, hbounds, hlimits, hrequired, hproperties,
        hallOf, hanyOf, honeOf, Option.bind_eq_bind, Option.bind_some, Option.pure_def,
        Option.some.injEq, exists_eq']
  rw [hread]
  simp only [exists_readBounds_iff, exists_readLimits_iff, exists_readKeyword_iff,
    exists_readTarget_iff, exists_readTypes_iff, exists_readStrings_iff, exists_readSchemas_iff,
    hlist, hobject]
  constructor
  · rintro ⟨hreference, htype, henum, hbounds, hcounts, hrequired, hproperties, hcombined⟩
    exact ⟨hreference, htype, hproperties, hrequired, henum, hcombined, hbounds, hcounts⟩
  · rintro ⟨hreference, htype, hproperties, hrequired, henum, hcombined, hbounds, hcounts⟩
    exact ⟨hreference, htype, henum, hbounds, hcounts, hrequired, hproperties, hcombined⟩

/-! ### The lenient reader and the strict one -/

theorem readTypeName_eq_some {j : Json} {name : String} (h : readTypeName j = some name) :
    j = .string name := by
  cases j with
  | string n =>
    simp only [readTypeName] at h
    split at h <;> cases h
    rfl
  | _ => cases h

theorem filterMap_of_mapM {α β : Type} {f g : α → Option β} {xs : List α} {ys : List β}
    (h : xs.mapM f = some ys) (hfg : ∀ x y, f x = some y → g x = some y) : xs.filterMap g = ys := by
  induction xs generalizing ys with
  | nil =>
    cases h
    rfl
  | cons x xs ih =>
    rw [List.mapM_cons] at h
    obtain ⟨y, hy, h⟩ := Option.bind_eq_some_iff.1 h
    obtain ⟨ys', hys, h⟩ := Option.bind_eq_some_iff.1 h
    cases h
    rw [List.filterMap_cons_some (hfg x y hy), ih hys]

namespace Reads

variable {k : Keywords} (h : Reads components fields k)
include h

theorem reference? :
    (reference? fields).bind (resolve? components) = k.target ∧
      (k.target = none → Schema.reference? fields = none) := by
  unfold Schema.reference?
  rcases readKeyword_eq_some_iff.1 h.target with ⟨hf, ht⟩ | ⟨j, t, hf, ht, hk⟩
  · simp [hf, ht]
  · cases j with
    | string r =>
      have hresolve : resolve? components r = some t := ht
      simp [hf, hk, hresolve]
    | _ => cases ht

theorem allowedTypes? : allowedTypes? fields = k.types := by
  unfold Schema.allowedTypes?
  rcases readKeyword_eq_some_iff.1 h.types with ⟨hf, hk⟩ | ⟨j, names, hf, hread, hk⟩
  · rw [hf, hk]
  · rw [hf, hk]
    cases j with
    | list items =>
      have hnames : items.filterMap Json.asString? = names :=
        filterMap_of_mapM hread fun x y hxy ↦ by rw [readTypeName_eq_some hxy]; rfl
      simp only [hnames]
    | string name =>
      obtain ⟨name', hname, rfl⟩ := Option.map_eq_some_iff.1 hread
      cases readTypeName_eq_some hname
      rfl
    | _ => cases hread

theorem typeFault? (j : Json) : typeFault? fields j = k.typeFault? j := by
  rw [Schema.typeFault?, h.allowedTypes?]
  rfl

theorem choiceFaults (j : Json) : choiceFaults fields j = k.choiceFaults j := by
  rw [Schema.choiceFaults, Keywords.choiceFaults, h.const]
  congr 1
  · rcases readKeyword_eq_some_iff.1 h.options with ⟨hf, hk⟩ | ⟨j', options, hf, hread, hk⟩
    · rw [hf, hk]
    · rw [hf, hk]
      cases j' <;> cases hread
      rfl
  · cases k.const <;> rfl

end Reads

/-- A bound that has been read is the one that the check looks at. -/
theorem boundFault_of_read {keyword text : String} {x : BinaryNumber}
    {holds : BinaryNumber → BinaryNumber → Bool} {b : Option Bound}
    (h : readKeyword readBound keyword fields = some b) :
    boundFault fields x keyword text holds = b.elim [] (Bound.faults x text holds) := by
  unfold boundFault
  rcases readKeyword_eq_some_iff.1 h with ⟨hf, rfl⟩ | ⟨j, bound, hf, hread, rfl⟩
  · rw [hf]
    rfl
  · rw [hf]
    cases j with
    | int n =>
      simp only [readBound] at hread
      split at hread
      · obtain ⟨x', hx, rfl⟩ := Option.map_eq_some_iff.1 hread
        simp [hx, Bound.faults]
      · cases hread
        cases hdouble : (Json.int n).toDouble? <;> simp [hdouble, Bound.faults]
    | float x' =>
      cases hread
      rfl
    | _ => cases hread

theorem count?_of_read {keyword : String} {n : Option ℕ}
    (h : readKeyword Json.asNat? keyword fields = some n) : count? keyword fields = n := by
  unfold count?
  rcases readKeyword_eq_some_iff.1 h with ⟨hf, rfl⟩ | ⟨j, m, hf, hread, rfl⟩
  · rw [hf]
    rfl
  · rw [hf]
    exact hread

theorem countFaults_of_read {low high : String} {least greatest : Option ℕ} {n : ℕ}
    {tooFew tooMany : ℕ → String} (hlow : readKeyword Json.asNat? low fields = some least)
    (hhigh : readKeyword Json.asNat? high fields = some greatest) :
    countFaults fields n low high tooFew tooMany = limitFaults least greatest n tooFew tooMany := by
  rw [countFaults, count?_of_read hlow, count?_of_read hhigh]
  unfold limitFaults
  cases least <;> cases greatest <;> rfl

theorem asList?_of_read {keyword : String} {schemas : Option (List Json)}
    (h : readKeyword readSchemas keyword fields = some schemas) :
    (Json.field? keyword fields).bind Json.asList? = schemas := by
  rcases readKeyword_eq_some_iff.1 h with ⟨hf, rfl⟩ | ⟨j, schemas, hf, hread, rfl⟩
  · rw [hf]
    rfl
  · rw [hf]
    rcases j with _ | _ | _ | _ | _ | (_ | ⟨s, rest⟩) | _ <;> cases hread
    rfl

namespace Reads

variable {k : Keywords} (h : Reads components fields k)
include h

theorem boundFaults (j : Json) : boundFaults fields j = k.boundFaults j := by
  obtain ⟨hminimum, hmaximum, hexclusiveMinimum, hexclusiveMaximum⟩ :=
    readBounds_eq_some_iff.1 h.bounds
  unfold Schema.boundFaults Keywords.boundFaults
  cases j.toDouble? with
  | none => rfl
  | some x =>
    simp only [boundFault_of_read hminimum, boundFault_of_read hmaximum,
      boundFault_of_read hexclusiveMinimum, boundFault_of_read hexclusiveMaximum]

theorem lengthFaults (j : Json) : lengthFaults fields j = k.lengthFaults j := by
  obtain ⟨hminLength, hmaxLength, hminItems, hmaxItems⟩ := readLimits_eq_some_iff.1 h.limits
  cases j with
  | string s => exact countFaults_of_read hminLength hmaxLength
  | list items => exact countFaults_of_read hminItems hmaxItems
  | _ => rfl

theorem requiredFaults (j : Json) : requiredFaults fields j = k.requiredFaults j := by
  cases j with
  | object present =>
    rw [Schema.requiredFaults, Keywords.requiredFaults]
    rcases readKeyword_eq_some_iff.1 h.required with ⟨hf, hk⟩ | ⟨j, names, hf, hread, hk⟩
    · rw [hf, hk]
      rfl
    · rw [hf, hk]
      cases j with
      | list items =>
        have hnames : items.filterMap Json.asString? = names :=
          filterMap_of_mapM hread fun _ _ h ↦ h
        simp only [hnames, Option.getD_some]
      | _ => cases hread
  | _ => rfl

theorem localFaults (j : Json) : localFaults fields j = k.localFaults j := by
  rw [Schema.localFaults, Keywords.localFaults, h.choiceFaults, h.boundFaults, h.lengthFaults,
    h.requiredFaults]

theorem property? (name : String) :
    (Json.field? "properties" fields).bind (·.get? name) =
      k.properties.bind (Json.field? name) := by
  rcases readKeyword_eq_some_iff.1 h.properties with ⟨hf, hk⟩ | ⟨j, described, hf, hread, hk⟩
  · rw [hf, hk]
    rfl
  · rw [hf, hk]
    cases j <;> cases hread
    rfl

variable (judge : Json → Json → String → Option (List Violation)) (j : Json) (path : String)

theorem judgeItems : judgeItems judge fields j path = k.judgeItems judge j path := by
  unfold Schema.judgeItems Keywords.judgeItems
  rw [h.items]
  rfl

theorem judgeField (f : String × Json) :
    judgeField judge fields path f = k.judgeField judge path f := by
  unfold Schema.judgeField Keywords.judgeField
  rw [h.property?, h.additionalProperties]
  rfl

theorem judgeFields : judgeFields judge fields j path = k.judgeFields judge j path := by
  unfold Schema.judgeFields Keywords.judgeFields
  rw [funext (h.judgeField judge path)]
  rfl

theorem judgeNot : judgeNot judge fields j path = k.judgeNegated judge j path := by
  unfold Schema.judgeNot Keywords.judgeNegated
  rw [h.negated]
  rfl

omit h in
theorem judgeList {keyword : String} {schemas : Option (List Json)}
    (h : readKeyword readSchemas keyword fields = some schemas) :
    judgeList judge keyword fields j path = Keywords.judgeEach judge j path schemas := by
  unfold Schema.judgeList Keywords.judgeEach
  rw [asList?_of_read h]
  rfl

/-- **Where a schema can be read, one step of the lenient check is one step of the strict one.** -/
theorem judgeStep_eq :
    judgeStep judge components (.object fields) j path = k.violations judge j path := by
  unfold judgeStep Keywords.violations
  obtain ⟨htarget, hnone⟩ := h.reference?
  cases hk : k.target with
  | some t =>
    obtain ⟨r, hr, ht⟩ := Option.bind_eq_some_iff.1 (htarget.trans hk)
    simp only [hr, ht]
  | none =>
    simp only [hnone hk, h.typeFault?, h.judgeItems, h.judgeFields, h.judgeNot,
      judgeList _ _ _ h.allOf, judgeList _ _ _ h.anyOf, judgeList _ _ _ h.oneOf, h.localFaults]
    rfl

end Reads

/-! ### What a check consults -/

/-- The pairs of a schema and an instance that checking a document asks for. -/
inductive Consults (components : Components) (root document : Json) : Json → Json → Prop
  | start : Consults components root document root document
  | call {s j : Json} {c : Json × Json} (h : Consults components root document s j)
      (hc : c ∈ calls components s j) : Consults components root document c.1 c.2

theorem Consults.covers {document j : Json} (h : Consults components root document s j) :
    Covers components root s := by
  rw [covers_iff_reached]
  induction h with
  | start => exact .root
  | call _ hc ih => exact reached_of_mem_calls ih hc

/-- What a usable schema reaches is of the right kind. -/
theorem Usable.wellKinded (h : Usable components root l) (hs : Reached components root s) :
    WellKinded components s :=
  wellKinded_of_met h.ranked.visited (h.met hs)

/-! ### Main result -/

/-- Strict judging fails on a schema that is not of the right kind, whatever the instance. -/
theorem strictWithin_of_not_wellKinded (h : ¬WellKinded components s) (depth : ℕ) (j : Json)
    (path : String) : strictWithin components depth s j path = none := by
  cases depth with
  | zero => rfl
  | succ depth =>
    cases s with
    | bool b => exact absurd (.bool b) h
    | object fields =>
      have hnone : readKeywords components fields = none := by
        refine Option.eq_none_iff_forall_ne_some.2 fun k hk ↦ h ?_
        exact .object (exists_readKeywords_iff.1 ⟨k, hk⟩)
      simp only [strictWithin, hnone]
    | _ => rfl

/-- On schemas of the right kind, strict judging makes the same step. -/
theorem strictWithin_succ (h : WellKinded components s) (depth : ℕ) (j : Json) (path : String) :
    strictWithin components (depth + 1) s j path =
      judgeStep (strictWithin components depth) components s j path := by
  cases h with
  | bool b => cases b <;> rfl
  | object hfields =>
    obtain ⟨k, hk⟩ := exists_readKeywords_iff.2 hfields
    simp only [strictWithin, hk, (reads_of_readKeywords hk).judgeStep_eq]

/-- **Strict judging by a usable schema returns**, with what the library finds. -/
theorem returns_strictWithin (h : Usable components root l) (hs : Reached components root s)
    (j : Json) :
    ∃ depth, ∀ d, depth ≤ d → ∀ path,
      strictWithin components d s j path = some (check components j path s) :=
  returns_of_step h (fun _ hs ↦ strictWithin_succ (h.wellKinded hs)) hs j

/-- **After compiling, validating skips nothing.** Every schema that a document is checked against
is of the right kind, and the strict validator, which fails on any that is not, returns the
violations that the library lists. -/
theorem compiled_nothing_skipped {schema : Schema} (h : compile root components = .ok schema)
    (document : Json) :
    (∀ s j, Consults components root document s j → WellKinded components s) ∧
    Returns (validateStrictly schema document) (validate schema document) ∧
    ∀ s, ¬WellKinded components s →
      ∀ depth j path, strictWithin components depth s j path = none := by
  obtain ⟨rfl, l, husable⟩ := compile_spec h
  obtain ⟨depth, hdepth⟩ := returns_strictWithin husable .root document
  refine ⟨fun s j hs ↦ husable.wellKinded (covers_iff_reached.1 hs.covers),
    ⟨depth, fun d hd ↦ hdepth d hd rootPath⟩, fun s hs depth j path ↦ ?_⟩
  exact strictWithin_of_not_wellKinded hs depth j path

/-- A tree with a child that is none. -/
theorem compiled_nothing_skipped_tree :
    compile treeSchema (.ofList [("Tree", treeSchema)]) =
        .ok ⟨treeSchema, .ofList [("Tree", treeSchema)]⟩ ∧
      Returns
        (validateStrictly ⟨treeSchema, .ofList [("Tree", treeSchema)]⟩
          (.object [("children", .list [.object [], .int 1])]))
        [⟨"children.1", "Invalid type. Expected: object, given: integer"⟩] ∧
      ¬WellKinded (.ofList [("Tree", treeSchema)])
        (.object [("$ref", .string "#/components/schemas/Shrub")]) := by
  have hcompile : compile treeSchema (.ofList [("Tree", treeSchema)]) = .ok _ := rfl
  obtain ⟨-, hreturns, -⟩ :=
    compiled_nothing_skipped hcompile (.object [("children", .list [.object [], .int 1])])
  have hvalue : validate ⟨treeSchema, .ofList [("Tree", treeSchema)]⟩
      (.object [("children", .list [.object [], .int 1])]) =
        [⟨"children.1", "Invalid type. Expected: object, given: integer"⟩] := by decide +kernel
  refine ⟨rfl, hvalue ▸ hreturns, fun h ↦ ?_⟩
  cases h with
  | object hfields =>
    obtain ⟨r, t, hr, hnames⟩ := hfields.reference _ rfl
    cases hr
    cases resolve?_eq_some_iff.2 hnames

end Schema

end ContractHost
