import ContractHost.Proofs.Json.Sameness
import ContractHost.Proofs.Schema.Calls

/-!
# The order of fields

A document keeps the fields of its objects in the order in which they were written. What is asked of
a document is the same of another one that is equal up to the order of fields (`Json.Reordered`):

* which type it has, how large it is and whether it has a field: read off the two documents, since
  a field is looked up by its name (`Json.field?_of_names`);
* whether it is the same as a document that a schema names (`Json.Reordered.same_eq`), for the order
  of fields is no part of sameness;
* what its fields violate, one after the other: fields are visited in the order of their names, so
  the two visits meet the same names, with values that are equal up to order again
  (`forall₂_inNameOrder`).

So one step of a check comes out the same where the calls that it makes do (`judgeStep_reordered`),
and `call_induction` carries that to the whole check: **documents that are equal up to the order of
fields have the same violations, in the same order** (`field_order_immaterial`).
-/

namespace ContractHost

namespace Schema

variable {components : Components} {fields : List (String × Json)} {root s j j' : Json}

/-! ### Constraints that look at one value -/

theorem hasType_reordered (h : j.Reordered j') (name : String) :
    hasType name j = hasType name j' := by
  cases h <;> rfl

theorem typeFault?_reordered (h : j.Reordered j') : typeFault? fields j = typeFault? fields j' := by
  have hname : typeName j = typeName j' := by cases h <;> rfl
  simp only [typeFault?, hasType_reordered h, hname]

theorem requiredFaults_reordered (h : j.Reordered j') :
    requiredFaults fields j = requiredFaults fields j' := by
  cases h with
  | refl => rfl
  | list => rfl
  | @object present present' hnames hvalues =>
    have hpresent : ∀ name,
        (Json.field? name present).isSome = (Json.field? name present').isSome := by
      intro name
      rcases Json.field?_of_names hnames hvalues name with ⟨hnone, hnone'⟩ | ⟨v, v', hv, hv', -⟩
      · rw [hnone, hnone']
      · rw [hv, hv']
        rfl
    simp only [requiredFaults, hpresent]

theorem localFaults_reordered (h : j.Reordered j') :
    localFaults fields j = localFaults fields j' := by
  have hchoice : choiceFaults fields j = choiceFaults fields j' := by
    simp only [choiceFaults, h.same_eq]
  have hbound : boundFaults fields j = boundFaults fields j' := by
    cases h <;> rfl
  have hlength : lengthFaults fields j = lengthFaults fields j' := by
    cases h with
    | list hlength => simp only [lengthFaults, hlength]
    | _ => rfl
  rw [localFaults, localFaults, hchoice, hbound, hlength, requiredFaults_reordered h]

/-! ### Fields in the order of their names -/

/-- Fields that are in the order of their names stay where they are. -/
theorem inNameOrder_of_pairwise {α : Type} {fields : List (String × α)}
    (h : fields.Pairwise fun f g ↦ f.1 ≤ g.1) : inNameOrder fields = fields :=
  List.mergeSort_of_pairwise (h.imp decide_eq_true)

theorem pairwise_inNameOrder {α : Type} (present : List (String × α)) :
    ((inNameOrder present).map Prod.fst).Pairwise (· ≤ ·) := by
  refine List.pairwise_map.2 ((List.pairwise_mergeSort ?_ ?_ present).imp of_decide_eq_true)
  · simp only [decide_eq_true_eq]
    exact fun a b c ↦ String.le_trans
  · simp only [Bool.or_eq_true, decide_eq_true_eq]
    exact fun a b ↦ String.le_total a.1 b.1

/-- Objects with the same names visit them in the same order. -/
theorem names_inNameOrder_eq {α : Type} {present present' : List (String × α)}
    (h : (present.map Prod.fst).Perm (present'.map Prod.fst)) :
    (inNameOrder present).map Prod.fst = (inNameOrder present').map Prod.fst := by
  have hperm : ∀ present : List (String × α),
      ((inNameOrder present).map Prod.fst).Perm (present.map Prod.fst) :=
    fun present ↦ (List.mergeSort_perm present _).map _
  exact List.Perm.eq_of_pairwise (fun _ _ _ _ ↦ String.le_antisymm) (pairwise_inNameOrder _)
    (pairwise_inNameOrder _) ((hperm _).trans (h.trans (hperm _).symm))

/-- Two lists with the same names, and with related values under each of them. -/
theorem forall₂_sameName {R : Json → Json → Prop} {fields fields' : List (String × Json)}
    (hnames : fields.map Prod.fst = fields'.map Prod.fst)
    (h : ∀ name v v', (name, v) ∈ fields → (name, v') ∈ fields' → R v v') :
    List.Forall₂ (Json.SameName R) fields fields' := by
  induction fields generalizing fields' with
  | nil =>
    obtain rfl : fields' = [] := List.map_eq_nil_iff.1 hnames.symm
    exact .nil
  | cons f rest ih =>
    obtain ⟨f', rest', rfl, hname, hrest⟩ := List.map_eq_cons_iff.1 hnames.symm
    obtain ⟨name, v⟩ := f
    obtain ⟨_, v'⟩ := f'
    cases hname
    refine .cons ⟨rfl, h name v v' List.mem_cons_self List.mem_cons_self⟩ ?_
    exact ih hrest.symm fun name v v' hv hv' ↦ h name v v' (.tail _ hv) (.tail _ hv')

/-- **Two visits meet the same names**, with values that are related as those of the objects are. -/
theorem forall₂_inNameOrder {R : Json → Json → Prop} {present present' : List (String × Json)}
    (hnames : (present.map Prod.fst).Perm (present'.map Prod.fst))
    (h : ∀ name v v', (name, v) ∈ present → (name, v') ∈ present' → R v v') :
    List.Forall₂ (Json.SameName R) (inNameOrder present) (inNameOrder present') :=
  forall₂_sameName (names_inNameOrder_eq hnames) fun name v v' hv hv' ↦
    h name v v' (List.mem_mergeSort.1 hv) (List.mem_mergeSort.1 hv')

/-! ### One step -/

section Step

variable {g : Json → Json → String → Id (List Violation)} {path : String}

theorem judgeItems_reordered (hj : j.Reordered j')
    (h : ∀ c ∈ childCalls fields j, ∀ v', c.2.Reordered v' → ∀ p,
      (g c.1 c.2 p).run = (g c.1 v' p).run) :
    (judgeItems g fields j path).run = (judgeItems g fields j' path).run := by
  cases hj with
  | refl => rfl
  | object =>
    rw [run_judgeItems, run_judgeItems]
    cases Json.field? "items" fields <;> rfl
  | @list items items' hlength hitems =>
    rw [run_judgeItems, run_judgeItems]
    cases hs : Json.field? "items" fields with
    | none => rfl
    | some s =>
      simp only [List.flatMap_def]
      refine congrArg List.flatten (List.ext_getElem (by simp [hlength]) fun i hi hi' ↦ ?_)
      simp only [List.length_map, List.length_zipIdx] at hi hi'
      simp only [List.getElem_map, List.getElem_zipIdx]
      exact h _ (mem_childCalls_items hs (List.getElem_mem hi)) _ (hitems i hi hi') _

theorem judgeField_reordered {f f' : String × Json} (hf : Json.SameName Json.Reordered f f')
    (h : ∀ s, fieldSchema? fields f.1 = some s → ∀ p, (g s f.2 p).run = (g s f'.2 p).run) :
    (judgeField g fields path f).run = (judgeField g fields path f').run := by
  obtain ⟨name, v⟩ := f
  obtain ⟨_, v'⟩ := f'
  obtain ⟨rfl, -⟩ := hf
  unfold fieldSchema? at h
  unfold judgeField
  dsimp only at h ⊢
  cases hp : (Json.field? "properties" fields).bind (·.get? name) with
  | some s => exact h s (by rw [hp]) _
  | none =>
    rw [hp] at h
    dsimp only at h ⊢
    split
    · rfl
    · next s _ hs => exact h s hs _
    · rfl

theorem judgeFields_reordered (hj : j.Reordered j')
    (h : ∀ c ∈ childCalls fields j, ∀ v', c.2.Reordered v' → ∀ p,
      (g c.1 c.2 p).run = (g c.1 v' p).run) :
    (judgeFields g fields j path).run = (judgeFields g fields j' path).run := by
  rw [run_judgeFields, run_judgeFields]
  cases hj with
  | refl => rfl
  | list => rfl
  | @object present present' hnames hvalues =>
    have hvisit := forall₂_inNameOrder hnames hvalues
    have hmem : ∀ f ∈ inNameOrder present, f ∈ present := fun f ↦ List.mem_mergeSort.1
    simp only [List.flatMap_def]
    refine congrArg List.flatten ?_
    -- Of the two visits only counts that they meet the same names, and whose fields they visit.
    generalize inNameOrder present = visited at hvisit hmem
    generalize inNameOrder present' = visited' at hvisit
    induction hvisit with
    | nil => rfl
    | @cons f f' rest rest' hff' _ ih =>
      rw [List.map_cons, List.map_cons, ih fun e he ↦ hmem e (.tail _ he)]
      congr 1
      exact judgeField_reordered hff' fun s hs p ↦
        h _ (mem_childCalls_fields hs (hmem f List.mem_cons_self)) _ hff'.2 p

/-- **One step comes out the same** for documents that are equal up to the order of fields, if what
it asks for does. -/
theorem judgeStep_reordered (hj : j.Reordered j')
    (h : ∀ c ∈ calls components s j, ∀ v', c.2.Reordered v' → ∀ p,
      (g c.1 c.2 p).run = (g c.1 v' p).run) :
    (judgeStep g components s j path).run = (judgeStep g components s j' path).run := by
  cases s with
  | object fields =>
    cases hr : reference? fields with
    | some r =>
      simp only [calls, hr] at h
      simp only [judgeStep, hr]
      cases ht : resolve? components r with
      | none => rfl
      | some t => exact h (t, j) (by rw [ht]; exact List.mem_cons_self) j' hj path
    | none =>
      simp only [calls, hr] at h
      have hchild : ∀ c ∈ childCalls fields j, ∀ v', c.2.Reordered v' → ∀ p,
          (g c.1 c.2 p).run = (g c.1 v' p).run :=
        fun c hc ↦ h c (List.mem_append_left _ hc)
      have hplace : ∀ s ∈ schemasInPlace fields, (g s j path).run = (g s j' path).run :=
        fun s hs ↦ h (s, j) (List.mem_append_right _ (List.mem_map_of_mem hs)) j' hj path
      simp only [judgeStep, hr, typeFault?_reordered hj]
      cases typeFault? fields j' with
      | some text => rfl
      | none =>
        simp only [Id.run_bind, Id.run_pure, localFaults_reordered hj,
          judgeItems_reordered hj hchild, judgeFields_reordered hj hchild, run_judgeList,
          run_judgeNot, map_not_congr hplace, map_list_congr (.inl rfl) hplace,
          map_list_congr (.inr (.inl rfl)) hplace, map_list_congr (.inr (.inr rfl)) hplace]
  | bool b => cases b <;> rfl
  | _ => rfl

end Step

/-! ### The whole check -/

/-- **A check comes out the same**, at every path. -/
theorem check_reordered {l : List String} (h : Usable components root l)
    (hs : Reached components root s) (hj : j.Reordered j') (path : String) :
    check components j path s = check components j' path s := by
  refine call_induction h (motive := fun s j ↦ ∀ j', j.Reordered j' →
    ∀ path, check components j path s = check components j' path s) ?_ s j hs j' hj path
  intro s j hs hcalls j' hj path
  rw [check_eq_judgeStep h hs, check_eq_judgeStep h hs]
  exact judgeStep_reordered hj hcalls

/-- **The order of fields is immaterial.** Documents that are equal up to the order of the fields of
objects, at any depth, have the same violations, at the same paths and in the same order. -/
theorem field_order_immaterial {schema : Schema} (h : compile root components = .ok schema)
    (hj : j.Reordered j') : validate schema j = validate schema j' := by
  obtain ⟨rfl, l, husable⟩ := compile_spec h
  exact check_reordered husable .root hj rootPath

/-- A schema of objects with a field `size` of one permitted value and no other field. -/
def sizedSchema : Json :=
  .object
    [("properties", .object
      [("size", .object [("enum", .list [.object [("x", .int 1), ("y", .int 2)]])])]),
     ("additionalProperties", .bool false)]

theorem field_order_immaterial_sized :
    compile sizedSchema .empty = .ok ⟨sizedSchema, .empty⟩ ∧
      (Json.object [("tag", .null), ("size", .object [("y", .int 2), ("x", .int 1)])]).Reordered
        (.object [("size", .object [("x", .int 1), ("y", .int 2)]), ("tag", .null)]) ∧
      validate ⟨sizedSchema, .empty⟩
          (.object [("tag", .null), ("size", .object [("y", .int 2), ("x", .int 1)])]) =
        [⟨rootPath, "Additional property tag is not allowed"⟩] := by
  have hcompile : compile sizedSchema .empty = .ok ⟨sizedSchema, .empty⟩ := rfl
  have hsize : (Json.object [("y", .int 2), ("x", .int 1)]).Reordered
      (.object [("x", .int 1), ("y", .int 2)]) := .of_perm (by decide) (.swap _ _ [])
  have hreordered :
      (Json.object [("tag", .null), ("size", .object [("y", .int 2), ("x", .int 1)])]).Reordered
        (.object [("size", .object [("x", .int 1), ("y", .int 2)]), ("tag", .null)]) := by
    refine .object (.swap _ _ []) fun name v v' hv hv' ↦ ?_
    simp only [List.mem_cons, Prod.mk.injEq, List.not_mem_nil, or_false] at hv
    obtain ⟨rfl, rfl⟩ | ⟨rfl, rfl⟩ := hv
    · obtain rfl : v' = .null := by simpa using hv'
      exact .refl _
    · obtain rfl : v' = .object [("x", .int 1), ("y", .int 2)] := by simpa using hv'
      exact hsize
  refine ⟨hcompile, hreordered, ?_⟩
  rw [field_order_immaterial hcompile hreordered]
  -- The fields are in the order of their names now, outside and inside.
  rw [validate, check, checkFields, checkFields, checkFields, inNameOrder_of_pairwise (by simp),
    check, checkFields, checkFields, checkFields, inNameOrder_of_pairwise (by simp)]
  decide +kernel

end Schema

end ContractHost
