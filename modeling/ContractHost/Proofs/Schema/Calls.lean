import ContractHost.Proofs.Schema.Cycles

/-!
# One step of a check

`Schema.check` is layered so that each layer recurses on one thing. Read without the layers it is
one function that judges an instance by a schema, keyword by keyword, and asks the same of other
schemas and instances: of the target of a reference, of the schemas in place, of the children of the
instance. `Schema.judgeStep` is one step of that function, in any monad, and `Schema.calls` lists
what it asks for.

For a usable schema the layers are invisible: **`Schema.check` satisfies the plain recursion**
(`check_eq_judgeStep`). A reference may lead to a larger schema, so the recursion is on no
structure; `call_induction` is the induction it runs on. The instance gets smaller in a child, the
ranked list of references in place gets shorter at a reference, and the schema gets smaller
otherwise.
-/

namespace ContractHost

namespace Schema

variable {components : Components} {fields : List (String × Json)} {l : List String} {root s : Json}

/-! ### The step -/

section Step

variable {m : Type → Type} [Monad m] (judge : Json → Json → String → m (List Violation))

/-- Judge the items of a list by the schema under `items`. -/
def judgeItems (fields : List (String × Json)) (j : Json) (path : String) : m (List Violation) :=
  match Json.field? "items" fields, j with
  | some s, .list items =>
    List.flatten <$> items.zipIdx.mapM fun p ↦ judge s p.1 (childPath path (toString p.2))
  | _, _ => pure []

/-- Judge one field of an object, by the schema of its property or by that of all the others. -/
def judgeField (fields : List (String × Json)) (path : String) (f : String × Json) :
    m (List Violation) :=
  match (Json.field? "properties" fields).bind (·.get? f.1) with
  | some s => judge s f.2 (childPath path f.1)
  | none =>
    match Json.field? "additionalProperties" fields with
    | some (.bool false) => pure [⟨path, "Additional property " ++ f.1 ++ " is not allowed"⟩]
    | some s => judge s f.2 (childPath path f.1)
    | none => pure []

/-- Judge the fields of an object in the order of their names. -/
def judgeFields (fields : List (String × Json)) (j : Json) (path : String) : m (List Violation) :=
  match j with
  | .object present => List.flatten <$> (inNameOrder present).mapM (judgeField judge fields path)
  | _ => pure []

/-- Judge an instance by each schema in the list under a keyword. -/
def judgeList (keyword : String) (fields : List (String × Json)) (j : Json) (path : String) :
    m (Option (List (List Violation))) :=
  match (Json.field? keyword fields).bind Json.asList? with
  | some schemas => some <$> schemas.mapM fun s ↦ judge s j path
  | none => pure none

/-- Judge an instance by the schema under `not`. -/
def judgeNot (fields : List (String × Json)) (j : Json) (path : String) :
    m (Option (List Violation)) :=
  match Json.field? "not" fields with
  | some s => some <$> judge s j path
  | none => pure none

/-- Judge an instance at a path by a schema, where `judge` does the same for other schemas and
instances. -/
def judgeStep (components : Components) (s j : Json) (path : String) : m (List Violation) :=
  match s with
  | .bool true => pure []
  | .bool false => pure [⟨path, "False always fails validation"⟩]
  | .object fields =>
    match reference? fields with
    | some r =>
      match resolve? components r with
      | some t => judge t j path
      | none => pure []
    | none =>
      match typeFault? fields j with
      | some text => pure [⟨path, text⟩]
      | none => do
        let items ← judgeItems judge fields j path
        let children ← judgeFields judge fields j path
        let allOf ← judgeList judge "allOf" fields j path
        let anyOf ← judgeList judge "anyOf" fields j path
        let oneOf ← judgeList judge "oneOf" fields j path
        let negated ← judgeNot judge fields j path
        pure ((localFaults fields j).map (⟨path, ·⟩) ++ (items ++ children) ++
          combine path allOf anyOf oneOf negated)
  | _ => pure []

end Step

/-- What a schema asks of the children of an instance. -/
def childCalls (fields : List (String × Json)) : Json → List (Json × Json)
  | .list items => (Json.field? "items" fields).toList.flatMap fun s ↦ items.map (s, ·)
  | .object present => present.filterMap fun f ↦ (fieldSchema? fields f.1).map (·, f.2)
  | _ => []

/-- What one step asks for: pairs of a schema and an instance. -/
def calls (components : Components) (s j : Json) : List (Json × Json) :=
  match s with
  | .object fields =>
    match reference? fields with
    | some r => (resolve? components r).toList.map (·, j)
    | none => childCalls fields j ++ (schemasInPlace fields).map (·, j)
  | _ => []

/-! ### What a step asks for -/

theorem mem_childCalls_items {items : List Json} {j : Json}
    (hs : Json.field? "items" fields = some s) (hj : j ∈ items) :
    (s, j) ∈ childCalls fields (.list items) :=
  List.mem_flatMap.2 ⟨s, Option.mem_toList.2 hs, List.mem_map_of_mem hj⟩

theorem mem_childCalls_fields {present : List (String × Json)} {f : String × Json}
    (hs : fieldSchema? fields f.1 = some s) (hf : f ∈ present) :
    (s, f.2) ∈ childCalls fields (.object present) :=
  List.mem_filterMap.2 ⟨f, hf, by rw [hs]; rfl⟩

/-- A child of an instance is judged by a part of the schema, and is smaller than the instance. -/
theorem childCalls_spec {j : Json} {c : Json × Json} (h : c ∈ childCalls fields j) :
    .schema c.1 ∈ parts fields ∧ sizeOf c.2 < sizeOf j := by
  cases j with
  | list items =>
    obtain ⟨s, hs, hc⟩ := List.mem_flatMap.1 h
    obtain ⟨item, hitem, rfl⟩ := List.mem_map.1 hc
    have := List.sizeOf_lt_of_mem hitem
    refine ⟨part_of_field? (.inl rfl) (Option.mem_toList.1 hs), ?_⟩
    show sizeOf item < sizeOf (Json.list items)
    rw [Json.list.sizeOf_spec]
    omega
  | object present =>
    obtain ⟨⟨name, v⟩, hf, hc⟩ := List.mem_filterMap.1 h
    obtain ⟨s, hs, rfl⟩ := Option.map_eq_some_iff.1 hc
    have hlt := List.sizeOf_lt_of_mem hf
    refine ⟨part_of_fieldSchema? hs, ?_⟩
    show sizeOf v < sizeOf (Json.object present)
    rw [Json.object.sizeOf_spec]
    rw [Prod.mk.sizeOf_spec] at hlt
    omega
  | _ => cases h

/-- What a reached schema asks for is reached. -/
theorem reached_of_mem_calls {j : Json} {c : Json × Json} (hs : Reached components root s)
    (h : c ∈ calls components s j) : Reached components root c.1 := by
  cases s with
  | object fields =>
    simp only [calls] at h
    split at h
    · next r hr =>
      obtain ⟨t, ht, rfl⟩ := List.mem_map.1 h
      exact .target hs hr (Option.mem_toList.1 ht)
    · rcases List.mem_append.1 h with h | h
      · exact .part hs (childCalls_spec h).1
      · obtain ⟨s, hmem, rfl⟩ := List.mem_map.1 h
        exact .part hs (part_of_mem_schemasInPlace hmem)
  | _ => cases h

/-! ### The induction -/

theorem mem_inPlace_of_reference? {r : String} (h : reference? fields = some r) :
    r ∈ inPlace (.object fields) := by
  rw [inPlace_object, h]
  exact List.mem_cons_self

theorem inPlace_subset_of_mem (h : s ∈ schemasInPlace fields) :
    inPlace s ⊆ inPlace (.object fields) := by
  intro r hr
  rw [inPlace_object]
  exact List.mem_append_right _ (List.mem_flatMap.2 ⟨s, h, hr⟩)

/-- **Induction over what a check asks for.** -/
theorem call_induction (h : Usable components root l) {motive : Json → Json → Prop}
    (step : ∀ s j, Reached components root s →
      (∀ c ∈ calls components s j, motive c.1 c.2) → motive s j)
    (s j : Json) (hs : Reached components root s) : motive s j := by
  -- The outer induction is on the instance, the next on the ranked references that the schema may
  -- still follow in place, the innermost on the schema.
  induction hsize : sizeOf j using Nat.strongRecOn generalizing s j with
  | ind n ihchild =>
  have hchild : ∀ s' j', Reached components root s' → sizeOf j' < sizeOf j → motive s' j' :=
    fun s' j' hs' hlt ↦ ihchild _ (hsize ▸ hlt) s' j' hs' rfl
  suffices hlevel : ∀ n, ∀ below : List String, below.length = n → Ranked components below →
      ∀ s, Reached components root s → inPlace s ⊆ below → motive s j from
    hlevel _ l rfl h.ranked s hs (h.inPlace_subset hs)
  intro n
  induction n using Nat.strongRecOn with
  | ind n ihtarget =>
  intro below hlength hranked s hs hin
  induction hsizeS : sizeOf s using Nat.strongRecOn generalizing s with
  | ind k ihplace =>
  refine step s j hs fun c hc ↦ ?_
  have hc' := reached_of_mem_calls hs hc
  cases s with
  | object fields =>
    simp only [calls] at hc
    split at hc
    · next r hr =>
      obtain ⟨t, ht, rfl⟩ := List.mem_map.1 hc
      have hmem := hin (mem_inPlace_of_reference? hr)
      obtain ⟨lower, hlower, hlt, -, -, hin'⟩ := hranked.target hmem (Option.mem_toList.1 ht)
      exact ihtarget _ (hlength ▸ hlt) lower rfl hlower t hc' hin'
    · rcases List.mem_append.1 hc with hc | hc
      · exact hchild _ _ hc' (childCalls_spec hc).2
      · obtain ⟨s', hmem, rfl⟩ := List.mem_map.1 hc
        have hlt := sizeOf_lt_of_part (part_of_mem_schemasInPlace hmem)
        exact ihplace _ (hsizeS ▸ hlt) s' hc' (List.Subset.trans (inPlace_subset_of_mem hmem) hin)
          rfl
  | _ => cases hc

/-! ### The layers of a check -/

/-- The location of an instance: its children are checked by `Schema.check`. -/
def location (components : Components) (j : Json) (path : String) : Location :=
  match j with
  | .list items => ⟨.list items, path, checkItems components items path 0, []⟩
  | .object present =>
    ⟨.object present, path, [], inNameOrder (checkFields components present path)⟩
  | j => ⟨j, path, [], []⟩

@[simp] theorem location_path (j : Json) (path : String) :
    (location components j path).path = path := by
  cases j <;> rfl

@[simp] theorem location_value (j : Json) (path : String) :
    (location components j path).value = j := by
  cases j <;> rfl

theorem check_eq_follow (j : Json) (path : String) :
    check components j path =
      follow components (location components j path) components.entries.length := by
  cases j <;> simp only [check, location]

section Congr

variable {α : Type} {f g : Json → α}

theorem mem_schemasInPlace_of_list {keyword : String} {schemas : List Json}
    (hk : keyword = "allOf" ∨ keyword = "anyOf" ∨ keyword = "oneOf")
    (h : (Json.field? keyword fields).bind Json.asList? = some schemas) (hs : s ∈ schemas) :
    s ∈ schemasInPlace fields := by
  obtain ⟨j, hj, hitems⟩ := Option.bind_eq_some_iff.1 h
  cases j <;> cases hitems
  have hmem : s ∈ schemasIn keyword fields := mem_schemasIn.2 ⟨schemas, hj, hs⟩
  simp only [schemasInPlace, List.mem_append]
  rcases hk with rfl | rfl | rfl <;> simp only [hmem, true_or, or_true]

theorem mem_schemasInPlace_of_not (h : Json.field? "not" fields = some s) :
    s ∈ schemasInPlace fields := by
  simp only [schemasInPlace, h, List.mem_append, Option.mem_toList, true_or]

theorem map_list_congr {keyword : String}
    (hk : keyword = "allOf" ∨ keyword = "anyOf" ∨ keyword = "oneOf")
    (h : ∀ s ∈ schemasInPlace fields, f s = g s) :
    ((Json.field? keyword fields).bind Json.asList?).map (List.map f) =
      ((Json.field? keyword fields).bind Json.asList?).map (List.map g) := by
  cases hlist : (Json.field? keyword fields).bind Json.asList? with
  | none => rfl
  | some schemas =>
    exact congrArg some
      (List.map_congr_left fun s hs ↦ h s (mem_schemasInPlace_of_list hk hlist hs))

theorem map_not_congr (h : ∀ s ∈ schemasInPlace fields, f s = g s) :
    (Json.field? "not" fields).map f = (Json.field? "not" fields).map g := by
  cases hf : Json.field? "not" fields with
  | none => rfl
  | some s => exact congrArg some (h s (mem_schemasInPlace_of_not hf))

end Congr

/-- A schema is only asked about its references in place. -/
theorem here_congr (loc : Location) {target target' : String → List Violation} (s : Json)
    (h : ∀ r ∈ inPlace s, target r = target' r) : here loc target s = here loc target' s := by
  induction hsize : sizeOf s using Nat.strongRecOn generalizing s with
  | ind n ih =>
  cases s with
  | object fields =>
    cases hr : reference? fields with
    | some r =>
      rw [here_reference _ _ hr, here_reference _ _ hr, h r (mem_inPlace_of_reference? hr)]
    | none =>
      have hplace : ∀ s ∈ schemasInPlace fields, here loc target s = here loc target' s :=
        fun s hs ↦ ih _ (hsize ▸ sizeOf_lt_of_part (part_of_mem_schemasInPlace hs)) s
          (fun r hr ↦ h r (inPlace_subset_of_mem hs hr)) rfl
      rw [here_object _ _ hr, here_object _ _ hr, map_not_congr hplace,
        map_list_congr (.inl rfl) hplace, map_list_congr (.inr (.inl rfl)) hplace,
        map_list_congr (.inr (.inr rfl)) hplace]
  | bool b => cases b <;> rfl
  | _ => simp [here]

/-- Following references with more room than there are ranked references gives the same. -/
theorem follow_stable (loc : Location) {n m : Nat} {below : List String}
    (hranked : Ranked components below) (hn : below.length ≤ n) (hm : below.length ≤ m) (s : Json)
    (hin : inPlace s ⊆ below) : follow components loc n s = follow components loc m s := by
  induction n generalizing m below s with
  | zero =>
    obtain rfl : below = [] := List.eq_nil_of_length_eq_zero (Nat.le_zero.1 hn)
    have hnone : ∀ r ∈ inPlace s, ∀ v : List Violation, [] = v :=
      fun r hr ↦ absurd (hin hr) List.not_mem_nil
    cases m <;> exact here_congr loc s fun r hr ↦ hnone r hr _
  | succ n ih =>
    cases m with
    | zero =>
      obtain rfl : below = [] := List.eq_nil_of_length_eq_zero (Nat.le_zero.1 hm)
      exact here_congr loc s fun r hr ↦ absurd (hin hr) List.not_mem_nil
    | succ m =>
      refine here_congr loc s fun r hr ↦ ?_
      cases ht : resolve? components r with
      | none => rfl
      | some t =>
        obtain ⟨lower, hlower, hlt, -, -, hin'⟩ := hranked.target (hin hr) ht
        exact ih hlower (by omega) (by omega) t hin'

/-- The check of a reached schema asks for the checks of the targets of its references. -/
theorem check_eq_here (h : Usable components root l) (hs : Reached components root s) (j : Json)
    (path : String) :
    check components j path s =
      here (location components j path) (fun r ↦
        match resolve? components r with
        | some t => check components j path t
        | none => []) s := by
  simp only [check_eq_follow]
  have hbound := h.ranked.visited.length_le
  have hin := h.inPlace_subset hs
  generalize components.entries.length = n at hbound
  cases n with
  | zero =>
    refine here_congr _ s fun r hr ↦ ?_
    rw [List.eq_nil_of_length_eq_zero (Nat.le_zero.1 hbound)] at hin
    exact absurd (hin hr) List.not_mem_nil
  | succ n =>
    refine here_congr _ s fun r hr ↦ ?_
    cases ht : resolve? components r with
    | none => rfl
    | some t =>
      obtain ⟨lower, hlower, hlt, -, -, hin'⟩ := h.ranked.target (hin hr) ht
      exact follow_stable _ hlower (by omega) (by omega) t hin'

theorem checkItems_eq (items : List Json) (path : String) (i : Nat) :
    checkItems components items path i =
      (items.zipIdx i).map fun p ↦ check components p.1 (childPath path (toString p.2)) := by
  induction items generalizing i with
  | nil => rw [checkItems]; rfl
  | cons j rest ih => rw [checkItems, ih, List.zipIdx_cons, List.map_cons]

theorem checkFields_eq (present : List (String × Json)) (path : String) :
    checkFields components present path =
      present.map fun f ↦ (f.1, check components f.2 (childPath path f.1)) := by
  induction present with
  | nil => rw [checkFields]; rfl
  | cons f rest ih => rw [checkFields, ih, List.map_cons]

theorem inNameOrder_map {α β : Type} (g : String × α → β) (present : List (String × α)) :
    inNameOrder (present.map fun f ↦ (f.1, g f)) =
      (inNameOrder present).map fun f ↦ (f.1, g f) := by
  refine (List.map_mergeSort (f := fun e : String × α ↦ (e.1, g e)) ?_).symm
  intro _ _ _ _
  rfl

/-! ### The plain recursion -/

section Run

variable (judge : Json → Json → String → Id (List Violation)) (j : Json) (path : String)

theorem run_judgeItems :
    (judgeItems judge fields j path).run =
      match Json.field? "items" fields, j with
      | some s, .list items =>
        items.zipIdx.flatMap fun p ↦ (judge s p.1 (childPath path (toString p.2))).run
      | _, _ => [] := by
  unfold judgeItems
  split <;> simp [List.flatMap_def]

theorem run_judgeFields :
    (judgeFields judge fields j path).run =
      match j with
      | .object present =>
        (inNameOrder present).flatMap fun f ↦ (judgeField judge fields path f).run
      | _ => [] := by
  unfold judgeFields
  split <;> simp [List.flatMap_def]

theorem run_judgeList (keyword : String) :
    (judgeList judge keyword fields j path).run =
      ((Json.field? keyword fields).bind Json.asList?).map
        (List.map fun s ↦ (judge s j path).run) := by
  unfold judgeList
  split <;> simp [*]

theorem run_judgeNot :
    (judgeNot judge fields j path).run =
      (Json.field? "not" fields).map fun s ↦ (judge s j path).run := by
  unfold judgeNot
  split <;> simp [*]

end Run

/-- The children of a location are those of its instance. -/
theorem childViolations_location (j : Json) (path : String) :
    childViolations (location components j path) fields =
      (judgeItems (m := Id) (fun s j path ↦ pure (check components j path s)) fields j path).run ++
        (judgeFields (m := Id) (fun s j path ↦ pure (check components j path s)) fields j
          path).run := by
  rw [childViolations, run_judgeItems, run_judgeFields]
  congr 1
  · rw [itemViolations]
    cases Json.field? "items" fields with
    | none => rfl
    | some s =>
      cases j with
      | list items =>
        simp only [location, checkItems_eq, List.flatMap_map, Id.run_pure]
      | _ => rfl
  · cases j with
    | object present =>
      rw [location, checkFields_eq, inNameOrder_map, List.flatMap_map]
      refine List.flatMap_congr fun f _ ↦ ?_
      simp only [fieldViolations, judgeField]
      cases (Json.field? "properties" fields).bind (·.get? f.1) with
      | some s => rfl
      | none =>
        rcases Json.field? "additionalProperties" fields with _ | s
        · rfl
        · cases s with
          | bool b => cases b <;> rfl
          | _ => rfl
    | _ => rfl

/-- **`Schema.check` satisfies the plain recursion.** -/
theorem check_eq_judgeStep (h : Usable components root l) (hs : Reached components root s)
    (j : Json) (path : String) :
    check components j path s =
      (judgeStep (m := Id) (fun s j path ↦ pure (check components j path s)) components s j
        path).run := by
  rw [check_eq_here h hs]
  cases s with
  | object fields =>
    cases hr : reference? fields with
    | some r =>
      rw [here_reference _ _ hr]
      simp only [judgeStep, hr]
      cases resolve? components r <;> rfl
    | none =>
      have hplace : ∀ s ∈ schemasInPlace fields, here (location components j path) (fun r ↦
          match resolve? components r with
          | some t => check components j path t
          | none => []) s = check components j path s :=
        fun s hmem ↦ (check_eq_here h (.part hs (part_of_mem_schemasInPlace hmem)) j path).symm
      rw [here_object _ _ hr, childViolations_location, map_not_congr hplace,
        map_list_congr (.inl rfl) hplace, map_list_congr (.inr (.inl rfl)) hplace,
        map_list_congr (.inr (.inr rfl)) hplace]
      simp only [judgeStep, hr, location_value, location_path]
      cases typeFault? fields j with
      | some text => simp [Location.violation]
      | none =>
        simp only [Id.run_bind, Id.run_pure, run_judgeList, run_judgeNot]
        simp [Location.violation]
  | bool b => cases b <;> simp [here, judgeStep, Location.violation]
  | _ => simp [here, judgeStep]

end Schema

end ContractHost
