import ContractHost.Proofs.Schema.Kinds
import ContractHost.Proofs.Schema.Termination
import Mathlib.Logic.Relation

/-!
# Which schemas are usable

A schema is **sound** (`Schema.Sound`) if everything it covers is of the right kind, and
**circular** (`Schema.Circular`) if a reference it covers leads back to itself along references that
apply in place (`Schema.Leads`): the target's own, and those under its `not`, `allOf`, `anyOf` and
`oneOf`, at any depth. Neither notion mentions a walk, a list of what has been seen, or an order.

**`Schema.compile` accepts exactly the sound schemas that are not circular, and reports a cycle
exactly for the sound ones that are** (`compile_verdict`). This is so for every order in which the
references found by the walk are settled. What carries each direction:

```
sound     ⊢ the walk succeeds           every obligation is a reference of something covered
succeeds  ⊢ sound                       what is found is closed
settled   ⊢ no reference leads to itself  a ranked list is left by no reference, and only downwards
fails     ⊢ a cycle                     every active reference leads to every one still to settle
```

The last line is the invariant of the search (`Settles.cycle_of_error`): a reference that is found
active again is on a cycle for no other reason than that.
-/

namespace ContractHost

namespace Schema

variable {components : Components} {fields : List (String × Json)} {root s : Json}
  {active settled references found l : List String} {r q : String}

/-! ### References that apply in place -/

/-- A schema applies a reference where it applies itself: its own, or one of a schema under `not`,
`allOf`, `anyOf` or `oneOf`. -/
inductive Applies : Json → String → Prop
  | own {fields : List (String × Json)} {r : String}
      (h : Json.field? "$ref" fields = some (.string r)) : Applies (.object fields) r
  | negated {fields : List (String × Json)} {s : Json} {r : String}
      (h : Json.field? "not" fields = some s) (hr : Applies s r) : Applies (.object fields) r
  | combined {keyword : String} {fields : List (String × Json)} {schemas : List Json} {s : Json}
      {r : String} (hk : keyword ∈ combinators)
      (h : Json.field? keyword fields = some (.list schemas)) (hs : s ∈ schemas)
      (hr : Applies s r) : Applies (.object fields) r

/-- The target of the first reference applies the second one in place. -/
def Leads (components : Components) (r q : String) : Prop :=
  ∃ t, Names components r t ∧ Applies t q

/-- Everything that a schema covers is of the right kind. -/
def Sound (components : Components) (root : Json) : Prop :=
  ∀ s, Covers components root s → WellKinded components s

/-- A reference that a schema covers leads back to itself. -/
def Circular (components : Components) (root : Json) : Prop :=
  ∃ r, Refers components root r ∧ Relation.TransGen (Leads components) r r

theorem mem_schemasInPlace_iff :
    s ∈ schemasInPlace fields ↔ Json.field? "not" fields = some s ∨
      ∃ keyword ∈ combinators, ∃ schemas, Json.field? keyword fields = some (.list schemas) ∧
        s ∈ schemas := by
  simp only [schemasInPlace, combinators, List.mem_append, Option.mem_toList,
    mem_schemasIn, List.exists_mem_cons_iff, List.not_mem_nil, false_and, exists_false, or_false,
    or_assoc]

/-- The library lists the references that a schema applies. -/
theorem mem_inPlace_iff : r ∈ inPlace s ↔ Applies s r := by
  constructor
  · intro h
    induction hsize : sizeOf s using Nat.strongRecOn generalizing s with
    | ind n ih =>
    cases s with
    | object fields =>
      rw [inPlace_object, List.mem_append, Option.mem_toList, List.mem_flatMap] at h
      rcases h with h | ⟨s, hs, hr⟩
      · exact .own (reference?_eq_some_iff.1 h)
      · have hr := ih _ (hsize ▸ sizeOf_lt_of_part (part_of_mem_schemasInPlace hs)) hr rfl
        rcases mem_schemasInPlace_iff.1 hs with hnot | ⟨keyword, hk, schemas, hf, hmem⟩
        · exact .negated hnot hr
        · exact .combined hk hf hmem hr
    | _ => simp [inPlace] at h
  · intro h
    induction h with
    | own h => exact mem_inPlace_of_reference? (reference?_eq_some_iff.2 h)
    | negated h _ ih => exact inPlace_subset_of_mem (mem_schemasInPlace_of_not h) ih
    | combined hk h hs _ ih =>
      exact inPlace_subset_of_mem (mem_schemasInPlace_iff.2 (.inr ⟨_, hk, _, h, hs⟩)) ih

theorem leads_iff : Leads components r q ↔ ∃ t, resolve? components r = some t ∧ q ∈ inPlace t := by
  simp only [Leads, resolve?_eq_some_iff, mem_inPlace_iff]

/-- A reference applied by something covered is made by something covered. -/
theorem Applies.refers (h : Applies s r) (hs : Covers components root s) :
    Refers components root r := by
  induction h with
  | own h => exact ⟨_, hs, h⟩
  | negated h _ ih => exact ih (.subschema hs (.under (by simp) h))
  | combined hk h hmem _ ih => exact ih (.subschema hs (.among hk h hmem))

/-- What a covered reference leads to is covered. -/
theorem Leads.refers (h : Leads components r q) (hr : Refers components root r) :
    Refers components root q := by
  obtain ⟨t, ht, happlies⟩ := h
  obtain ⟨fields, hs, hf⟩ := hr
  exact happlies.refers (.target hs hf ht)

/-! ### The walk -/

/-- Where everything covered is of the right kind, a walk over what is covered succeeds and finds
only covered references. -/
theorem Walks.ok_of_sound {seen : List String} {todo : List Obligation}
    {result : Except SchemaError (List String)} (h : Walks components seen todo result)
    (hsound : Sound components root)
    (htodo : ∀ o ∈ todo, ∃ r t, o = .reference r ∧ Names components r t ∧ Refers components root r)
    (hseen : ∀ r ∈ seen, Refers components root r) :
    ∃ found, result = .ok found ∧ ∀ r ∈ found, Refers components root r := by
  induction h with
  | done seen => exact ⟨seen, rfl, hseen⟩
  | fault seen e rest =>
    obtain ⟨r, t, heq, -⟩ := htodo _ List.mem_cons_self
    cases heq
  | unresolved seen rest hr =>
    obtain ⟨r, t, heq, ht, -⟩ := htodo _ List.mem_cons_self
    cases heq
    cases hr.symm.trans (resolve?_eq_some_iff.2 ht)
  | again _ _ _ ih => exact ih (fun o ho ↦ htodo o (.tail _ ho)) hseen
  | @new seen r t rest result hr _ _ ih =>
    obtain ⟨r', -, heq, -, hrefers⟩ := htodo _ List.mem_cons_self
    cases heq
    obtain ⟨fields, hs, hf⟩ := hrefers
    have htarget : Covers components root t := .target hs hf (resolve?_eq_some_iff.1 hr)
    refine ih (fun o ho ↦ ?_) fun q hq ↦ ?_
    · rcases List.mem_append.1 ho with ho | ho
      · exact obligation_of_wellKinded hsound htarget ho
      · exact htodo o (.tail _ ho)
    · rcases List.mem_cons.1 hq with rfl | hq
      · exact ⟨fields, hs, hf⟩
      · exact hseen q hq

/-- **The walk over a sound schema succeeds.** -/
theorem reached_of_sound (hsound : Sound components root) :
    ∃ found, reached components root = .ok found ∧ ∀ r ∈ found, Refers components root r :=
  (walks_reached components root).ok_of_sound hsound
    (fun _ ho ↦ obligation_of_wellKinded hsound .root ho) fun _ h ↦ absurd h List.not_mem_nil

/-- **Only sound schemas have a walk that succeeds**, and it finds every covered reference. -/
theorem sound_of_reached (h : reached components root = .ok found) :
    Sound components root ∧ ∀ r, Refers components root r → r ∈ found := by
  obtain ⟨hvisited, hclosed, hroot⟩ := closed_of_reached h
  have hmet : ∀ {s}, Covers components root s → ∀ o ∈ obligations s, Met found o :=
    fun hs ↦ met_of_reached hclosed hroot (covers_iff_reached.1 hs)
  refine ⟨fun s hs ↦ wellKinded_of_met hvisited (hmet hs), ?_⟩
  rintro r ⟨fields, hs, hf⟩
  exact hmet hs _ (obligation_mem_of_part (reference_mem_parts (reference?_eq_some_iff.2 hf))
    List.mem_cons_self)

/-- A walk reports no cycle. -/
theorem Walks.ne_cycle {seen : List String} {todo : List Obligation}
    {result : Except SchemaError (List String)} (h : Walks components seen todo result)
    (htodo : ∀ e, .fault e ∈ todo → ∀ r, e ≠ .cycle r) (r : String) :
    result ≠ .error (.cycle r) := by
  induction h with
  | done => exact nofun
  | fault seen e rest => exact fun heq ↦ htodo e List.mem_cons_self r (Except.error.inj heq)
  | unresolved => exact nofun
  | again _ _ _ ih => exact ih fun e he ↦ htodo e (.tail _ he)
  | new _ _ _ ih =>
    refine ih fun e he ↦ ?_
    rcases List.mem_append.1 he with he | he
    · exact ne_cycle_of_fault_mem he
    · exact htodo e (.tail _ he)

/-! ### The search for cycles -/

/-- References in a ranked list lead into it. -/
theorem Ranked.leads (h : Ranked components l) (hr : r ∈ l) (hleads : Leads components r q) :
    q ∈ l := by
  obtain ⟨t, ht, hq⟩ := leads_iff.1 hleads
  obtain ⟨below, -, -, hsub, -, hin⟩ := h.target hr ht
  exact hsub (hin hq)

/-- No path leaves a ranked list. -/
theorem Ranked.path (h : Ranked components l) (hr : r ∈ l)
    (hpath : Relation.ReflTransGen (Leads components) r q) : q ∈ l := by
  induction hpath with
  | refl => exact hr
  | tail _ hleads ih => exact h.leads ih hleads

/-- **No reference in a ranked list leads to itself.** -/
theorem Ranked.not_circular (h : Ranked components l) (hr : r ∈ l) :
    ¬Relation.TransGen (Leads components) r r := by
  induction h with
  | nil => cases hr
  | @cons r' t l h ht hnew hin ih =>
    rcases List.mem_cons.1 hr with rfl | hr
    · intro hcycle
      obtain ⟨q, hleads, hback⟩ := Relation.TransGen.head'_iff.1 hcycle
      obtain ⟨t', ht', hq⟩ := leads_iff.1 hleads
      cases ht.symm.trans ht'
      exact hnew (h.path (hin hq) hback)
    · exact ih hr

/-- **What a search fails on is a cycle**, if everything it is given is covered by a sound schema.
Each active reference leads to each one that is still to be settled. -/
theorem Settles.cycle_of_error {e : SchemaError}
    (h : Settles components active settled references (.error e)) (hsound : Sound components root)
    (hcovered : ∀ r ∈ references, Refers components root r)
    (hactive : ∀ a ∈ active, ∀ r ∈ references, Relation.TransGen (Leads components) a r) :
    ∃ r, e = .cycle r ∧ Refers components root r ∧ Relation.TransGen (Leads components) r r := by
  generalize hresult : Except.error e = result at h
  induction h with
  | done => cases hresult
  | again _ _ ih =>
    exact ih (fun q hq ↦ hcovered q (.tail _ hq)) (fun a ha q hq ↦ hactive a ha q (.tail _ hq))
      hresult
  | @cycle active settled r rest _ hr =>
    cases hresult
    exact ⟨r, rfl, hcovered r List.mem_cons_self, hactive r hr r List.mem_cons_self⟩
  | @unresolved active settled r rest _ _ ht =>
    obtain ⟨fields, hs, hf⟩ := hcovered r List.mem_cons_self
    cases hsound _ hs with
    | object hfields =>
      obtain ⟨r', t, heq, hnames⟩ := hfields.reference _ hf
      cases heq
      cases ht.symm.trans (resolve?_eq_some_iff.2 hnames)
  | @failed active settled r t e rest _ _ ht _ ih =>
    have hleads : ∀ q ∈ inPlace t, Leads components r q := fun q hq ↦ leads_iff.2 ⟨t, ht, hq⟩
    refine ih (fun q hq ↦ (hleads q hq).refers (hcovered r List.mem_cons_self))
      (fun a ha q hq ↦ ?_) hresult
    rcases List.mem_cons.1 ha with rfl | ha
    · exact .single (hleads q hq)
    · exact (hactive a ha r List.mem_cons_self).tail (hleads q hq)
  | new _ _ _ _ _ _ ih =>
    exact ih (fun q hq ↦ hcovered q (.tail _ hq)) (fun a ha q hq ↦ hactive a ha q (.tail _ hq))
      hresult

/-! ### Main result -/

/-- The result of compiling a schema is right: it is accepted exactly if it is sound and not
circular, a cycle is reported exactly if it is sound and circular, and the reported reference is on
a cycle. -/
structure Verdict (components : Components) (root : Json) (result : Except SchemaError Schema) :
    Prop where
  accepts : ∀ schema, result = .ok schema ↔
    schema = ⟨root, components⟩ ∧ Sound components root ∧ ¬Circular components root
  cycle : (∃ r, result = .error (.cycle r)) ↔ Sound components root ∧ Circular components root
  reported : ∀ r, result = .error (.cycle r) →
    Refers components root r ∧ Relation.TransGen (Leads components) r r

section Order

variable {order : List String → List String} (horder : ∀ l, (order l).Perm l)
include horder

/-- A schema is accepted only if it is sound and not circular. -/
theorem sound_of_compileInOrder {schema : Schema}
    (h : compileInOrder order root components = .ok schema) :
    schema = ⟨root, components⟩ ∧ Sound components root ∧ ¬Circular components root := by
  unfold compileInOrder at h
  split at h
  · cases h
  · next found hfound =>
    obtain ⟨hsound, hcovered⟩ := sound_of_reached hfound
    split at h
    · cases h
    · next settled hsettled =>
      cases h
      obtain ⟨hranked, hsub⟩ := ranked_of_settleAll hsettled
      refine ⟨rfl, hsound, fun ⟨r, hr, hcycle⟩ ↦ ?_⟩
      exact hranked.not_circular (hsub ((horder found).mem_iff.2 (hcovered r hr))) hcycle

/-- A sound schema is accepted, unless a reference is reported, and that one is on a cycle. -/
theorem compileInOrder_of_sound (hsound : Sound components root) :
    compileInOrder order root components = .ok ⟨root, components⟩ ∨
      ∃ r, compileInOrder order root components = .error (.cycle r) ∧
        Refers components root r ∧ Relation.TransGen (Leads components) r r := by
  obtain ⟨found, hfound, hcovered⟩ := reached_of_sound hsound
  have hsettles := settles_settleAll components (order found)
  unfold compileInOrder
  rw [hfound]
  dsimp only
  cases hresult : settleAll components (order found) with
  | ok settled => exact .inl rfl
  | error e =>
    rw [hresult] at hsettles
    obtain ⟨r, rfl, hr, hcycle⟩ := hsettles.cycle_of_error hsound
      (fun r hr ↦ hcovered r ((horder found).mem_iff.1 hr)) fun _ ha ↦ absurd ha List.not_mem_nil
    exact .inr ⟨r, rfl, hr, hcycle⟩

omit horder in
/-- A cycle is reported only when everything covered is of the right kind. -/
theorem sound_of_cycle (h : compileInOrder order root components = .error (.cycle r)) :
    Sound components root := by
  unfold compileInOrder at h
  split at h
  · next e hreached =>
    cases h
    exact absurd hreached
      ((walks_reached components root).ne_cycle (fun _ he ↦ ne_cycle_of_fault_mem he) r)
  · next found hfound => exact (sound_of_reached hfound).1

theorem verdict_compileInOrder :
    Verdict components root (compileInOrder order root components) := by
  have hsound (hs : Sound components root) := compileInOrder_of_sound horder hs
  refine ⟨fun schema ↦ ⟨sound_of_compileInOrder horder, ?_⟩, ⟨?_, ?_⟩, fun r hr ↦ ?_⟩
  · rintro ⟨rfl, hs, hacyclic⟩
    rcases hsound hs with hok | ⟨r, -, hr, hcycle⟩
    · exact hok
    · exact absurd ⟨r, hr, hcycle⟩ hacyclic
  · rintro ⟨r, hr⟩
    have hs := sound_of_cycle hr
    rcases hsound hs with hok | ⟨r, -, hcovered, hcycle⟩
    · cases hok.symm.trans hr
    · exact ⟨hs, r, hcovered, hcycle⟩
  · rintro ⟨hs, hcircular⟩
    rcases hsound hs with hok | ⟨r, hr, -⟩
    · exact absurd hcircular (sound_of_compileInOrder horder hok).2.2
    · exact ⟨r, hr⟩
  · rcases hsound (sound_of_cycle hr) with hok | ⟨r', hr', hcovered, hcycle⟩
    · cases hok.symm.trans hr
    · cases hr'.symm.trans hr
      exact ⟨hcovered, hcycle⟩

end Order

/-- **A schema is accepted exactly if it is sound and not circular, and a cycle is reported exactly
if it is sound and circular**, in whatever order the references that it covers are settled. -/
theorem compile_verdict (root : Json) (components : Components) :
    (∀ order : List String → List String, (∀ l, (order l).Perm l) →
      Verdict components root (compileInOrder order root components)) ∧
    Verdict components root (compile root components) :=
  ⟨fun _ horder ↦ verdict_compileInOrder horder,
    compile_eq_compileInOrder root components ▸ verdict_compileInOrder List.reverse_perm⟩

/-- Two schemas that refer to one another in place, below a third that refers to both. -/
def loopComponents : Components :=
  .ofList [("Even", .object [("not", .object [("$ref", .string "#/components/schemas/Odd")])]),
    ("Odd", .object [("anyOf", .list [.bool true,
      .object [("$ref", .string "#/components/schemas/Even")]])])]

/-- A tree is accepted, though it refers to itself; two schemas that refer to one another in place
are not, from whichever of them the search starts. -/
theorem compile_verdict_tree_loop :
    (∀ l, (id l : List String).Perm l) ∧
    Sound (.ofList [("Tree", treeSchema)]) treeSchema ∧
    ¬Circular (.ofList [("Tree", treeSchema)]) treeSchema ∧
    compileInOrder id (.object [("items", .object [("$ref", .string "#/components/schemas/Even")])])
      loopComponents = .error (.cycle "#/components/schemas/Odd") ∧
    Sound loopComponents
      (.object [("items", .object [("$ref", .string "#/components/schemas/Even")])]) ∧
    Circular loopComponents
      (.object [("items", .object [("$ref", .string "#/components/schemas/Even")])]) := by
  have horder : ∀ l, (id l : List String).Perm l := fun l ↦ .refl l
  have htree := (compile_verdict treeSchema (.ofList [("Tree", treeSchema)])).1 id horder
  have hloop := (compile_verdict
    (.object [("items", .object [("$ref", .string "#/components/schemas/Even")])])
    loopComponents).1 id horder
  obtain ⟨-, hsound, hacyclic⟩ := (htree.accepts _).1 rfl
  obtain ⟨hsound', hcircular⟩ := hloop.cycle.1 ⟨_, rfl⟩
  exact ⟨horder, hsound, hacyclic, rfl, hsound', hcircular⟩

end Schema

end ContractHost
