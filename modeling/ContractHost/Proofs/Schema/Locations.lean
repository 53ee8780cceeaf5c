import ContractHost.Proofs.Schema.Faults

/-!
# Where a violation is

A violation carries a text that tells where in the instance it is. Behind the text stand the steps
into the instance (`Segment`): `Json.At` says which part of a document they lead to, and `written`
how a place should be written, its steps joined by dots, with a marker for the whole document.

One step of a check asks that a part of the instance satisfies a schema (`Schema.Asks`): it follows
a reference or a conjunction and stays, or it goes into an item or a field. `Schema.Demands` is what
that adds up to. **What is reported are exactly the constraints that fail of the schemas that are
demanded, each at the place that the steps lead to** (`violations_located`).

The marker is a text like any other, and a text that is the marker is taken for the whole document
wherever it comes from. So the reported text is that of the steps without the fields named like the
marker that they begin with (`extend_rootPath`): it is how the place is written where they begin
otherwise, and may be how no place of the document is written where they do not
(`written_ne_of_marker`).
-/

namespace ContractHost

/-! ### Places in a document -/

/-- A step into a document. -/
inductive Segment
  | key (name : String)
  | index (i : ℕ)
  deriving DecidableEq, Repr

/-- A step as it is written. -/
def Segment.text : Segment → String
  | key name => name
  | index i => toString i

/-- Steps lead from a document to a part of it. -/
inductive Json.At : Json → List Segment → Json → Prop
  | here (j : Json) : Json.At j [] j
  | item {items : List Json} {i : ℕ} {item j : Json} {segments : List Segment}
      (hi : items[i]? = some item) (h : Json.At item segments j) :
      Json.At (.list items) (.index i :: segments) j
  | field {fields : List (String × Json)} {name : String} {v j : Json} {segments : List Segment}
      (hv : (name, v) ∈ fields) (h : Json.At v segments j) :
      Json.At (.object fields) (.key name :: segments) j

theorem Json.At.append {j j' j'' : Json} {segments segments' : List Segment}
    (h : j.At segments j') (h' : j'.At segments' j'') : j.At (segments ++ segments') j'' := by
  induction h with
  | here => exact h'
  | item hi _ ih => exact .item hi (ih h')
  | field hv _ ih => exact .field hv (ih h')

namespace Schema

variable {components : Components} {fields : List (String × Json)} {l : List String}
  {root s s' s'' j j' j'' : Json} {S : Json → Json → Prop} {path : String}
  {segments segments' : List Segment} {v : Violation}

/-- How a place is written. -/
def written : List Segment → String
  | [] => rootPath
  | segments => ".".intercalate (segments.map Segment.text)

/-- The text of a path that is extended step by step. -/
def extend (path : String) (segments : List Segment) : String :=
  segments.foldl (fun path segment ↦ childPath path segment.text) path

theorem extend_append (path : String) (segments segments' : List Segment) :
    extend path (segments ++ segments') = extend (extend path segments) segments' :=
  List.foldl_append

/-- From every text but the marker, the steps are joined by dots. -/
theorem extend_of_ne (h : path ≠ rootPath) (segments : List Segment) :
    extend path segments = ".".intercalate (path :: segments.map Segment.text) := by
  induction segments generalizing path with
  | nil => exact String.intercalate_singleton.symm
  | cons segment rest ih =>
    -- There is no dot in the marker, so an extended text is never the marker again.
    have hdot : path ++ "." ++ segment.text ≠ rootPath := by
      intro heq
      have hmem : '.' ∈ (path ++ "." ++ segment.text).toList := by simp
      rw [heq] at hmem
      exact absurd hmem (by decide)
    have hchild : childPath path segment.text = path ++ "." ++ segment.text := if_neg h
    show extend (childPath path segment.text) rest = _
    rw [hchild, ih hdot, List.map_cons, String.intercalate_cons_cons]
    cases rest with
    | nil => simp
    | cons next rest => simp [String.intercalate_cons_cons, String.append_assoc]

/-- An index is not written like the marker. -/
theorem toString_ne_rootPath (i : ℕ) : toString i ≠ rootPath := by
  intro heq
  have hmem : '(' ∈ (toString i).toList := by
    rw [heq]
    decide
  rw [Nat.toString_eq_repr, Nat.toList_repr] at hmem
  exact absurd (Nat.isDigit_of_mem_toDigits (by decide) (by decide) hmem) (by decide)

/-- **The text that steps extend the marker to**: how the place is written, without the fields named
like the marker that they begin with. -/
theorem extend_rootPath (segments : List Segment) :
    extend rootPath segments =
      written (segments.dropWhile (· = .key rootPath)) := by
  induction segments with
  | nil => rfl
  | cons segment rest ih =>
    show extend (childPath rootPath segment.text) rest = _
    have hchild : childPath rootPath segment.text = segment.text := if_pos rfl
    by_cases hmarker : segment = .key rootPath
    · subst hmarker
      rw [hchild, List.dropWhile_cons_of_pos (by simp)]
      exact ih
    · have hne : segment.text ≠ rootPath := by
        cases segment with
        | key name => exact fun heq ↦ hmarker (congrArg Segment.key heq)
        | index i => exact toString_ne_rootPath i
      rw [hchild, List.dropWhile_cons_of_neg (by simpa using hmarker), extend_of_ne hne]
      rfl

/-! ### What a schema demands -/

/-- To satisfy a schema, a document must in one step have a part that satisfies another. What stands
under `anyOf`, `oneOf` and `not` is not demanded by itself. -/
inductive Asks (components : Components) : Json → Json → List Segment → Json → Json → Prop
  | target {fields : List (String × Json)} {r : String} {t j : Json}
      (hr : reference? fields = some r) (ht : resolve? components r = some t) :
      Asks components (.object fields) j [] t j
  | allOf {fields : List (String × Json)} {schemas : List Json} {s j : Json}
      (ha : Admits fields j) (hf : Json.field? "allOf" fields = some (.list schemas))
      (hs : s ∈ schemas) : Asks components (.object fields) j [] s j
  | item {fields : List (String × Json)} {s item : Json} {items : List Json} {i : ℕ}
      (ha : Admits fields (.list items)) (hf : Json.field? "items" fields = some s)
      (hi : items[i]? = some item) :
      Asks components (.object fields) (.list items) [.index i] s item
  | field {fields present : List (String × Json)} {name : String} {s v : Json}
      (ha : Admits fields (.object present)) (hs : Describes fields name s)
      (hv : (name, v) ∈ present) :
      Asks components (.object fields) (.object present) [.key name] s v

/-- To satisfy a schema, a document must have a part that satisfies another. -/
inductive Demands (components : Components) : Json → Json → List Segment → Json → Json → Prop
  | here (s j : Json) : Demands components s j [] s j
  | step {s j s' j' s'' j'' : Json} {segments segments' : List Segment}
      (h : Asks components s j segments s' j') (h' : Demands components s' j' segments' s'' j'') :
      Demands components s j (segments ++ segments') s'' j''

theorem Asks.at (h : Asks components s j segments s' j') : j.At segments j' := by
  cases h with
  | target => exact .here j
  | allOf => exact .here j
  | item _ _ hi => exact .item hi (.here j')
  | field _ _ hv => exact .field hv (.here j')

/-- What is demanded is demanded of a part of the document. -/
theorem Demands.at (h : Demands components s j segments s' j') : j.At segments j' := by
  induction h with
  | here _ j => exact .here j
  | step h _ ih => exact h.at.append ih

/-- A check asks for what is demanded. -/
theorem Asks.mem_calls (h : Asks components s j segments s' j') :
    (s', j') ∈ calls components s j := by
  cases h with
  | target hr ht =>
    simp only [calls, hr, ht]
    exact List.mem_singleton.2 rfl
  | allOf ha hf hs =>
    simp only [calls, ha.reference]
    refine List.mem_append_right _ (List.mem_map_of_mem ?_)
    exact mem_schemasInPlace_of_mem (.inl rfl) hf hs
  | item ha hf hi =>
    simp only [calls, ha.reference]
    exact List.mem_append_left _ (mem_childCalls_items hf (List.mem_of_getElem? hi))
  | field ha hs hv =>
    simp only [calls, ha.reference]
    exact List.mem_append_left _ (mem_childCalls_fields hs.fieldSchema?_eq hv)

/-- A reference is followed, whatever stands beside it. -/
theorem Asks.of_reference {r : String} (hr : reference? fields = some r)
    (h : Asks components (.object fields) j segments s' j') :
    segments = [] ∧ resolve? components r = some s' ∧ j' = j := by
  have hadmits : ¬Admits fields j := fun ha ↦ nomatch ha.reference.symm.trans hr
  cases h with
  | target hr' ht =>
    cases hr.symm.trans hr'
    exact ⟨rfl, ht, rfl⟩
  | allOf ha => exact absurd ha hadmits
  | item ha => exact absurd ha hadmits
  | field ha => exact absurd ha hadmits

/-- Nothing is asked of a document that the type restriction does not admit. -/
theorem Asks.admits (hr : reference? fields = none)
    (h : Asks components (.object fields) j segments s' j') : Admits fields j := by
  cases h with
  | target hr' => cases hr.symm.trans hr'
  | allOf ha => exact ha
  | item ha => exact ha
  | field ha => exact ha

/-! ### One step -/

/-- What one step of a check reports: a constraint of the schema that fails at the document, or what
is reported of a part that the step asks for. -/
def StepReports (components : Components) (S : Json → Json → Prop) (s j : Json) (path : String)
    (v : Violation) : Prop :=
  (∃ c, Fails S s j c ∧ v = ⟨path, c.report j⟩) ∨
    ∃ segments s' j', Asks components s j segments s' j' ∧
      v ∈ check components j' (extend path segments) s'

section Step

variable (h : Usable components root l) (hS : Semantics Json.roundedValue? components root S)

include h

/-- Where a reference is followed, what is reported is what its target reports. -/
theorem mem_check_reference (hs : Reached components root (.object fields)) {r : String}
    (hr : reference? fields = some r) :
    v ∈ check components j path (.object fields) ↔
      StepReports components S (.object fields) j path v := by
  obtain ⟨t, ht⟩ := h.exists_target hs hr
  rw [check_eq_judgeStep h hs]
  simp only [judgeStep, hr, ht, Id.run_pure]
  constructor
  · exact fun hv ↦ .inr ⟨[], t, j, .target hr ht, hv⟩
  · rintro (⟨c, hc, -⟩ | ⟨segments, s', j', hasks, hv⟩)
    · cases hc.reference.symm.trans hr
    · obtain ⟨rfl, ht', rfl⟩ := hasks.of_reference hr
      cases ht.symm.trans ht'
      exact hv

/-- Where the type restriction does not admit the document, that is all that is reported. -/
theorem mem_check_type (hs : Reached components root (.object fields))
    (hr : reference? fields = none) (ha : ¬Admits fields j) :
    v ∈ check components j path (.object fields) ↔
      StepReports components S (.object fields) j path v := by
  obtain ⟨t, ht⟩ := Option.ne_none_iff_exists'.1 fun hnone ↦ ha (admits_iff.2 ⟨hr, hnone⟩)
  obtain ⟨names, hf, hnames, rfl⟩ := typeFault?_eq_some_iff.1 ht
  rw [check_of_typeFault? h hs hr ht, List.mem_singleton]
  constructor
  · exact fun hv ↦ .inl ⟨_, .type hr hf hnames, hv⟩
  · rintro (⟨c, hc, rfl⟩ | ⟨segments, s', j', hasks, -⟩)
    · obtain ⟨names', hf', rfl⟩ := hc.of_not_admits ha
      cases hf.symm.trans hf'
      rfl
    · exact absurd (hasks.admits hr) ha

include hS

/-- Where the keywords apply, each reports what fails of it. -/
theorem mem_check_admitted (hs : Reached components root (.object fields)) (ha : Admits fields j) :
    v ∈ check components j path (.object fields) ↔
      StepReports components S (.object fields) j path v := by
  obtain ⟨hr, hfault⟩ := admits_iff.1 ha
  have hplace : ∀ s ∈ schemasInPlace fields, check components j path s = [] ↔ S s j :=
    fun s hmem ↦ check_eq_nil_iff h hS (.part hs (part_of_mem_schemasInPlace hmem)) j path
  rw [check_eq_judgeStep h hs]
  simp only [judgeStep, hr, hfault, Id.run_bind, Id.run_pure, List.mem_append, List.mem_map,
    mem_localFaults, mem_judgeItems, mem_judgeFields, mem_judgeField (j := j)]
  rw [mem_combine_judge (S := S) hplace]
  constructor
  · rintro ((⟨_, ⟨c, hc, rfl⟩, rfl⟩ | ⟨s, items, i, item, hf, rfl, hi, hv⟩ |
      ⟨present, name, value, rfl, hvalue, ⟨s, hd, hv⟩ | ⟨hu, hf, rfl⟩⟩) |
      ⟨schemas, hf, s, hs, hv⟩ | ⟨c, hc, rfl⟩)
    · exact .inl ⟨c, .alone ha hc, rfl⟩
    · exact .inr ⟨_, s, item, .item ha hf hi, hv⟩
    · exact .inr ⟨_, s, value, .field ha hd hvalue, hv⟩
    · exact .inl ⟨_, .additional ha hvalue hu hf, rfl⟩
    · exact .inr ⟨[], s, j, .allOf ha hf hs, hv⟩
    · exact .inl ⟨c, .combined ha hc, rfl⟩
  · rintro (⟨c, hc, rfl⟩ | ⟨segments, s', j', hasks, hv⟩)
    · cases hc with
      | type _ hf hnames => cases (typeFault?_eq_some_iff.2 ⟨_, hf, hnames, rfl⟩).symm.trans hfault
      | alone _ hc => exact .inl (.inl ⟨_, ⟨c, hc, rfl⟩, rfl⟩)
      | additional _ hvalue hu hf =>
        exact .inl (.inr (.inr ⟨_, _, _, rfl, hvalue, .inr ⟨hu, hf, rfl⟩⟩))
      | combined _ hc => exact .inr (.inr ⟨c, hc, rfl⟩)
    · cases hasks with
      | target hr' => cases hr.symm.trans hr'
      | allOf _ hf hs => exact .inr (.inl ⟨_, hf, _, hs, hv⟩)
      | item _ hf hi => exact .inl (.inr (.inl ⟨_, _, _, _, hf, rfl, hi, hv⟩))
      | field _ hd hvalue => exact .inl (.inr (.inr ⟨_, _, _, rfl, hvalue, .inl ⟨_, hd, hv⟩⟩))

/-- **One step of a check reports what it should.** -/
theorem mem_check_step (hs : Reached components root s) :
    v ∈ check components j path s ↔ StepReports components S s j path v := by
  rcases h.object_or_bool hs with ⟨fields, rfl⟩ | ⟨truth, rfl⟩
  · cases hr : reference? fields with
    | some r => exact mem_check_reference h hs hr
    | none =>
      by_cases ha : Admits fields j
      · exact mem_check_admitted h hS hs ha
      · exact mem_check_type h hs hr ha
  · rw [check_eq_judgeStep h hs]
    constructor
    · intro hv
      cases truth with
      | true => cases hv
      | false =>
        rw [List.mem_singleton.1 hv]
        exact .inl ⟨_, .never j, rfl⟩
    · rintro (⟨c, hc, rfl⟩ | ⟨_, _, _, hasks, -⟩)
      · cases hc
        exact List.mem_singleton.2 rfl
      · cases hasks

end Step

/-! ### The whole check -/

/-- **What is reported are the constraints that fail** of all that is demanded, each at the path of
the steps that lead there. -/
theorem mem_check_iff (h : Usable components root l)
    (hS : Semantics Json.roundedValue? components root S) (hs : Reached components root s)
    (path : String) :
    v ∈ check components j path s ↔ ∃ segments s' j' c, Demands components s j segments s' j' ∧
      Fails S s' j' c ∧ v = ⟨extend path segments, c.report j'⟩ := by
  constructor
  · -- What is reported comes from the step itself or from one of its calls.
    refine call_induction h (motive := fun s j ↦ ∀ path, v ∈ check components j path s →
      ∃ segments s' j' c, Demands components s j segments s' j' ∧ Fails S s' j' c ∧
        v = ⟨extend path segments, c.report j'⟩) ?_ s j hs path
    intro s j hs hcalls path hv
    rcases (mem_check_step h hS hs).1 hv with ⟨c, hc, rfl⟩ | ⟨segments, s', j', hasks, hv⟩
    · exact ⟨[], s, j, c, .here s j, hc, rfl⟩
    · obtain ⟨segments', s'', j'', c, hdemands, hc, rfl⟩ := hcalls _ hasks.mem_calls _ hv
      refine ⟨segments ++ segments', s'', j'', c, .step hasks hdemands, hc, ?_⟩
      rw [extend_append]
  · -- What fails at the end of the steps is handed back through each of them.
    rintro ⟨segments, s', j', c, hdemands, hc, rfl⟩
    induction hdemands generalizing path with
    | here s j => exact (mem_check_step h hS hs).2 (.inl ⟨c, hc, rfl⟩)
    | step hasks _ ih =>
      rw [extend_append]
      exact (mem_check_step h hS hs).2
        (.inr ⟨_, _, _, hasks, ih (reached_of_mem_calls hs hasks.mem_calls) _ hc⟩)

/-- **Violations are located.** What is reported are the constraints that fail of all that a schema
demands of a document, each under the text of the steps that lead to the part at which it fails. The
text is how the place is written, without the fields named like the marker of the whole document
that the steps begin with. So it is how the place is written, unless it lies in such a field. -/
theorem violations_located {schema : Schema} (h : compile root components = .ok schema)
    (hS : Semantics Json.roundedValue? components root S) (document : Json) :
    (∀ v, v ∈ validate schema document ↔ ∃ segments s j c,
      Demands components root document segments s j ∧ Fails S s j c ∧
        v = ⟨written (segments.dropWhile (· = .key rootPath)), c.report j⟩) ∧
    ∀ v ∈ validate schema document, ∃ segments s j c, document.At segments j ∧
      Demands components root document segments s j ∧ Fails S s j c ∧
        v.description = c.report j ∧
        (segments.head? ≠ some (.key rootPath) → v.path = written segments) := by
  obtain ⟨rfl, l, husable⟩ := compile_spec h
  have hmem : ∀ v, v ∈ validate ⟨root, components⟩ document ↔ ∃ segments s j c,
      Demands components root document segments s j ∧ Fails S s j c ∧
        v = ⟨written (segments.dropWhile (· = .key rootPath)), c.report j⟩ := by
    intro v
    simp only [← extend_rootPath]
    exact mem_check_iff husable hS .root rootPath
  refine ⟨hmem, fun v hv ↦ ?_⟩
  obtain ⟨segments, s, j, c, hdemands, hc, rfl⟩ := (hmem v).1 hv
  refine ⟨segments, s, j, c, hdemands.at, hdemands, hc, rfl, fun hhead ↦ ?_⟩
  cases segments with
  | nil => rfl
  | cons segment rest =>
    have hmarker : segment ≠ .key rootPath := fun heq ↦ hhead (congrArg some heq)
    rw [List.dropWhile_cons_of_neg (by simpa using hmarker)]

/-- A schema of tables whose rows have a text under a name with a dot. -/
def tableSchema : Json :=
  .object [("properties", .object [("rows", .object [("items", .object
    [("properties", .object [("a.b", .object [("type", .string "string")])])])])])]

/-- A value in the second row is no text, and is reported under its place. -/
theorem violations_located_table :
    compile tableSchema ∅ = .ok ⟨tableSchema, ∅⟩ ∧
      (∃ S, Semantics Json.roundedValue? ∅ tableSchema S) ∧
      ⟨"rows.1.a.b", "Invalid type. Expected: string, given: integer"⟩ ∈
        validate ⟨tableSchema, ∅⟩
          (.object [("rows", .list [.object [], .object [("a.b", .int 1)]])]) := by
  have hcompile : compile tableSchema ∅ = .ok ⟨tableSchema, ∅⟩ := rfl
  obtain ⟨S, hS⟩ := (validate_eq_nil_iff hcompile).1
  have hadmits : ∀ {name : String} {s j : Json}, name ≠ "$ref" → name ≠ "type" →
      Admits [(name, s)] j := by
    intro name s j href htype
    refine ⟨?_, ?_⟩
    · simp [reference?, Json.field?, href]
    · simp [Json.field?, htype]
  refine ⟨rfl, ⟨S, hS⟩, ((violations_located hcompile hS _).1 _).2
    ⟨[.key "rows", .index 1, .key "a.b"], .object [("type", .string "string")], .int 1,
      .type ["string"], ?_, ?_, ?_⟩⟩
  · refine .step (.field (hadmits (by decide) (by decide)) (.property rfl rfl) (.head _)) ?_
    refine .step (.item (hadmits (by decide) (by decide)) rfl rfl) ?_
    refine .step (.field (hadmits (by decide) (by decide)) (.property rfl rfl) (.head _)) ?_
    exact .here _ _
  · exact .type rfl rfl (by simp [← hasType_iff, hasType])
  · decide

/-- A schema that describes a field named like the marker of the whole document. -/
def markerSchema : Json :=
  .object [("properties", .object [("(root)", .object [("properties", .object
    [("x", .object [("type", .string "string")])])])])]

/-- **In a field named like the marker a reported place may not exist**: nothing in this document is
written like the path of its violation. -/
theorem written_ne_of_marker :
    compile markerSchema ∅ = .ok ⟨markerSchema, ∅⟩ ∧
      validate ⟨markerSchema, ∅⟩ (.object [("(root)", .object [("x", .int 1)])]) =
        [⟨"x", "Invalid type. Expected: string, given: integer"⟩] ∧
      ∀ segments j, (Json.object [("(root)", .object [("x", .int 1)])]).At segments j →
        written segments ≠ "x" := by
  refine ⟨rfl, by decide +kernel, fun segments j h ↦ ?_⟩
  cases h with
  | here => decide
  | field hv h =>
    cases List.mem_singleton.1 hv
    cases h with
    | here => decide
    | field hv h =>
      cases List.mem_singleton.1 hv
      cases h
      decide

end Schema

end ContractHost
