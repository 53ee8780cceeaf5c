import ContractHost.Proofs.Schema.Termination

/-!
# Schemas in a larger table

A schema sees of a table of components only what it refers to. Let every component of a table be in
another one too, under the same name (`Components.Within`). What makes a schema usable with the
smaller table — obligations that are met, references that can be ranked — is about references that
have a target there, and each keeps its target; so the schema is usable with the larger table as
well. A check asks of the larger table only what it asks of the smaller one.

Put together, **a larger table changes nothing for a schema that compiles with the smaller one**
(`Schema.growth_changes_nothing`): it compiles there too, in whatever order its references are
settled, and lists the same violations. Nothing is asked of what else is in the larger table: it
need not even be well formed.
-/

namespace ContractHost

/-- Every component of a table is in another table too, under the same name. -/
def Components.Within (components components' : Components) : Prop :=
  ∀ name c, components.get? name = some c → components'.get? name = some c

namespace Schema

variable {components components' : Components} {root s : Json} {l : List String}

/-! ### What is reached, and in which order -/

section Within

variable (hwithin : components.Within components')
include hwithin

/-- A reference has the target that it has in a smaller table. -/
theorem resolve?_within {r : String} {t : Json} (h : resolve? components r = some t) :
    resolve? components' r = some t := by
  obtain ⟨name, hname, hget⟩ := Option.bind_eq_some_iff.1 h
  exact Option.bind_eq_some_iff.2 ⟨name, hname, hwithin name t hget⟩

theorem Closed.mono (h : Closed components l) : Closed components' l := by
  intro r hr
  obtain ⟨t, ht, hmet⟩ := h r hr
  exact ⟨t, resolve?_within hwithin ht, hmet⟩

theorem Ranked.mono (h : Ranked components l) : Ranked components' l := by
  induction h with
  | nil => exact .nil
  | cons _ hr hnew hin ih => exact .cons ih (resolve?_within hwithin hr) hnew hin

/-- A usable schema reaches nothing in a larger table that it does not reach in the smaller one. -/
theorem Usable.reached (h : Usable components root l) (hs : Reached components' root s) :
    Reached components root s := by
  induction hs with
  | root => exact .root
  | part _ hpart ih => exact .part ih hpart
  | target _ hr ht ih =>
    -- The reference has a target in the smaller table, and keeps it.
    obtain ⟨t, ht'⟩ := h.exists_target ih hr
    cases ht.symm.trans (resolve?_within hwithin ht')
    exact .target ih hr ht'

/-- What a schema reaches in a table, it reaches in a larger one. -/
theorem Reached.mono (h : Reached components root s) : Reached components' root s := by
  induction h with
  | root => exact .root
  | part _ hpart ih => exact .part ih hpart
  | target _ hr ht ih => exact .target ih hr (resolve?_within hwithin ht)

/-- **A schema that is usable with a table is usable with a larger one.** -/
theorem Usable.mono (h : Usable components root l) : Usable components' root l :=
  ⟨h.ranked.mono hwithin, fun hs ↦ h.met (h.reached hwithin hs)⟩

end Within

/-! ### The same check -/

/-- Judges that agree on all that a step asks for make the step come out the same. -/
theorem run_judgeStep_congr {j : Json} {path : String}
    {g g' : Json → Json → String → Id (List Violation)}
    (h : ∀ c ∈ calls components s j, ∀ p, (g c.1 c.2 p).run = (g' c.1 c.2 p).run) :
    (judgeStep g components s j path).run = (judgeStep g' components s j path).run := by
  -- Both are what the step returns when its calls return what `g` says.
  have hg : judgeStep (fun s j p ↦ some (g s j p).run) components s j path =
      some (judgeStep g components s j path).run := judgeStep_some fun _ _ _ ↦ rfl
  have hg' : judgeStep (fun s j p ↦ some (g s j p).run) components s j path =
      some (judgeStep g' components s j path).run :=
    judgeStep_some fun c hc p ↦ congrArg some (h c hc p)
  exact Option.some.inj (hg.symm.trans hg')

section Within

variable (hwithin : components.Within components')
include hwithin

/-- One step is the same in a larger table: its reference has a target in both. -/
theorem judgeStep_within (h : Usable components root l) (hs : Reached components root s)
    (judge : Json → Json → String → Id (List Violation)) (j : Json) (path : String) :
    judgeStep judge components s j path = judgeStep judge components' s j path := by
  rcases h.object_or_bool hs with ⟨fields, rfl⟩ | ⟨b, rfl⟩
  · cases hr : reference? fields with
    | some r =>
      obtain ⟨t, ht⟩ := h.exists_target hs hr
      have ht' : resolve? components' r = some t := resolve?_within hwithin ht
      simp only [judgeStep, hr, ht, ht']
    | none => simp only [judgeStep, hr]
  · cases b <;> rfl

/-- **A check comes out the same in a larger table.** -/
theorem check_within (h : Usable components root l) (s j : Json)
    (hs : Reached components root s) :
    ∀ path, check components j path s = check components' j path s := by
  refine call_induction h (motive := fun s j ↦
    ∀ path, check components j path s = check components' j path s) ?_ s j hs
  intro s j hs hcalls path
  have hs' : Reached components' root s := hs.mono hwithin
  have hcongr :
      (judgeStep (m := Id) (fun s j p ↦ pure (check components j p s)) components s j
          path).run =
        (judgeStep (m := Id) (fun s j p ↦ pure (check components' j p s)) components s j
          path).run :=
    run_judgeStep_congr fun c hc p ↦ hcalls c hc p
  rw [check_eq_judgeStep h hs, check_eq_judgeStep (h.mono hwithin) hs', hcongr,
    judgeStep_within hwithin h hs]

/-- A schema that compiles with a table compiles with a larger one. -/
theorem compile_within {schema : Schema} (h : compile root components = .ok schema) :
    compile root components' = .ok ⟨root, components'⟩ := by
  obtain ⟨rfl, found, settled, hfound, hsettled⟩ := compile_eq_ok h
  obtain ⟨-, hclosed, hroot⟩ := closed_of_reached hfound
  obtain ⟨hranked, hsub⟩ := ranked_of_settleAll hsettled
  exact compile_of_closed (hclosed.mono hwithin) hroot (hranked.mono hwithin)
    fun r hr ↦ hsub (List.mem_reverse.2 hr)

/-- An instance violates the same of a compiled schema in a larger table. -/
theorem validate_within {schema : Schema} (h : compile root components = .ok schema) (j : Json) :
    validate ⟨root, components'⟩ j = validate schema j := by
  obtain ⟨rfl, l, husable⟩ := compile_spec h
  exact (check_within hwithin husable root j .root rootPath).symm

/-- **A larger table changes nothing.** A schema that compiles with a table compiles with every
table that has those components and any others, whichever order its references are settled in, and
every instance has the same violations with both. -/
theorem growth_changes_nothing {schema : Schema} (h : compile root components = .ok schema) :
    compile root components' = .ok ⟨root, components'⟩ ∧
      (∀ order : List String → List String, (∀ l, (order l).Perm l) →
        compileInOrder order root components' = .ok ⟨root, components'⟩) ∧
      ∀ j, validate ⟨root, components'⟩ j = validate schema j := by
  have hcompile := compile_within hwithin h
  refine ⟨hcompile, fun order horder ↦ ?_, validate_within hwithin h⟩
  exact compileInOrder_eq_ok (fun l ↦ l.reverse_perm.trans (horder l).symm) hcompile

end Within

/-- A table with trees, and beside them a component that refers to itself, one that refers to
nothing and one that is no schema at all. -/
def grownTable : Components :=
  .ofList [("Tree", treeSchema), ("Loop", .object [("$ref", .string "#/components/schemas/Loop")]),
    ("Lost", .object [("$ref", .string "#/components/schemas/None")]), ("Void", .null)]

theorem growth_changes_nothing_tree :
    Components.Within (.ofList [("Tree", treeSchema)]) grownTable ∧
      compile treeSchema (.ofList [("Tree", treeSchema)]) =
        .ok ⟨treeSchema, .ofList [("Tree", treeSchema)]⟩ ∧
      validate ⟨treeSchema, grownTable⟩ (.object [("children", .list [.object [], .int 1])]) =
        [⟨"children.1", "Invalid type. Expected: object, given: integer"⟩] := by
  have hwithin : Components.Within (.ofList [("Tree", treeSchema)]) grownTable := by
    intro name c hget
    rw [KeyMap.get?_eq_some_iff] at hget
    cases List.mem_singleton.1 hget
    rfl
  have hcompile : compile treeSchema (.ofList [("Tree", treeSchema)]) = .ok _ := rfl
  refine ⟨hwithin, rfl, ?_⟩
  rw [(growth_changes_nothing hwithin hcompile).2.2]
  decide +kernel

end Schema

end ContractHost
