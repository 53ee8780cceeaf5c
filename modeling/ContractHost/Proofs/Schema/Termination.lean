import ContractHost.Proofs.Schema.Calls

/-!
# Compiling and validating return

The library bounds each of its recursions through references by the number of components, and so
always returns something. Here the same work is done by nested calls without such a bound: visiting
a schema (`Schema.visitWithin`), searching for cycles (`Schema.settleWithin`) and judging an
instance (`Schema.judgeWithin`). A call may nest `depth` calls deep and is given up, with `none`, if
it needs more; it **returns** a result (`Schema.Returns`) if every depth from some point on is
enough.

* Visiting returns because a reference that is met for the first time uses up one of the components
  (`visits`).
* The search for cycles returns because the references on the way are distinct (`returns_settles`).
* Judging returns for a usable schema by `call_induction` (`returns_judgeWithin`). A reference to a
  schema that is nothing but itself never returns at any depth (`judgeWithin_loop`), so this rests
  on the search for cycles.

`compile_and_validate_return` says that all calls return, and return what the library computes.
-/

namespace ContractHost

namespace Schema

variable {components : Components} {fields : List (String × Json)} {l seen : List String}
  {root s : Json}

/-! ### Nested calls -/

/-- The calls return `a`: they do so at every depth that is large enough. -/
def Returns {α : Type} (f : Nat → Option α) (a : α) : Prop :=
  ∃ depth, ∀ d, depth ≤ d → f d = some a

/-- Visit the parts of a schema from left to right; `visit` is called for a schema among them and
for the target of a reference that is met for the first time. -/
def visitParts (components : Components)
    (visit : List String → Json → Option (Except SchemaError (List String))) :
    List String → List Part → Option (Except SchemaError (List String))
  | seen, [] => some (.ok seen)
  | _, .obligation (.fault e) :: _ => some (.error e)
  | seen, .obligation (.reference r) :: rest =>
    match resolve? components r with
    | none => some (.error (.unresolved r))
    | some t =>
      if r ∈ seen then visitParts components visit seen rest
      else
        match visit (r :: seen) t with
        | some (.ok seen) => visitParts components visit seen rest
        | stopped => stopped
  | seen, .schema s :: rest =>
    match visit seen s with
    | some (.ok seen) => visitParts components visit seen rest
    | stopped => stopped

/-- Visit a schema and everything it reaches by calls nested at most `depth` deep. -/
def visitWithin (components : Components) :
    Nat → List String → Json → Option (Except SchemaError (List String))
  | 0, _, _ => none
  | _ + 1, seen, .bool _ => some (.ok seen)
  | depth + 1, seen, .object fields =>
    visitParts components (visitWithin components depth) seen (parts fields)
  | _ + 1, _, j => some (.error (.notASchema j))

/-- Settle references one after the other. -/
def settleEachWithin
    (settle : List String → String → Option (Except SchemaError (List String))) :
    List String → List String → Option (Except SchemaError (List String))
  | settled, [] => some (.ok settled)
  | settled, r :: rest =>
    match settle settled r with
    | some (.ok settled) => settleEachWithin settle settled rest
    | stopped => stopped

/-- Settle a reference by calls nested at most `depth` deep. -/
def settleWithin (components : Components) :
    Nat → List String → List String → String → Option (Except SchemaError (List String))
  | 0, _, _, _ => none
  | depth + 1, active, settled, r =>
    if r ∈ settled then some (.ok settled)
    else if r ∈ active then some (.error (.cycle r))
    else
      match resolve? components r with
      | none => some (.error (.unresolved r))
      | some t =>
        match settleEachWithin (settleWithin components depth (r :: active)) settled
            (inPlace t) with
        | some (.ok settled) => some (.ok (r :: settled))
        | stopped => stopped

/-- Compile a schema by calls nested at most `depth` deep. The references found are settled in the
order that `order` puts them in. -/
def compileWithin (order : List String → List String) (root : Json) (components : Components)
    (depth : Nat) : Option (Except SchemaError Schema) :=
  match visitWithin components depth [] root with
  | none => none
  | some (.error e) => some (.error e)
  | some (.ok references) =>
    match settleEachWithin (settleWithin components depth []) [] (order references) with
    | none => none
    | some (.error e) => some (.error e)
    | some (.ok _) => some (.ok ⟨root, components⟩)

/-- Judge an instance at a path by a schema, by calls nested at most `depth` deep. -/
def judgeWithin (components : Components) :
    Nat → Json → Json → String → Option (List Violation)
  | 0, _, _, _ => none
  | depth + 1, s, j, path => judgeStep (judgeWithin components depth) components s j path

/-- Validate a document by calls nested at most `depth` deep. -/
def validateWithin (schema : Schema) (document : Json) (depth : Nat) : Option (List Violation) :=
  judgeWithin schema.components depth schema.root document rootPath

theorem Returns.functional {α : Type} {f : Nat → Option α} {a b : α} (ha : Returns f a)
    (hb : Returns f b) : a = b := by
  obtain ⟨da, ha⟩ := ha
  obtain ⟨db, hb⟩ := hb
  have := (ha (max da db) (Nat.le_max_left ..)).symm.trans (hb _ (Nat.le_max_right ..))
  exact Option.some.inj this

/-- What every call does, one call deep. -/
theorem Returns.of_succ {α : Type} {f : Nat → Option α} {a : α} (h : ∀ d, f (d + 1) = some a) :
    Returns f a := by
  refine ⟨1, fun d hd ↦ ?_⟩
  obtain ⟨d, rfl⟩ := Nat.exists_eq_add_of_le' hd
  exact h d

/-- A call returns if it does so whenever a call below it and a call beside it have returned. -/
theorem Returns.step {α β γ : Type} {f : Nat → Option α} {g : Nat → Option β} {k : Nat → Option γ}
    {a : α} {b : β} {c : γ} (hf : Returns f a) (hg : Returns g b)
    (hk : ∀ d, f d = some a → g (d + 1) = some b → k (d + 1) = some c) : Returns k c := by
  obtain ⟨df, hf⟩ := hf
  obtain ⟨dg, hg⟩ := hg
  refine ⟨max df dg + 1, fun d hd ↦ ?_⟩
  obtain ⟨d, rfl⟩ := Nat.exists_eq_add_of_le' (Nat.le_trans (Nat.le_add_left 1 _) hd)
  exact hk d (hf d (by omega)) (hg (d + 1) (by omega))

/-- A call returns if it does so whenever two calls beside it have returned. -/
theorem Returns.and {α β γ : Type} {f : Nat → Option α} {g : Nat → Option β} {k : Nat → Option γ}
    {a : α} {b : β} {c : γ} (hf : Returns f a) (hg : Returns g b)
    (hk : ∀ d, f d = some a → g d = some b → k d = some c) : Returns k c := by
  obtain ⟨df, hf⟩ := hf
  obtain ⟨dg, hg⟩ := hg
  exact ⟨max df dg, fun d hd ↦ hk d (hf d (by omega)) (hg d (by omega))⟩

/-! ### Visiting -/

/-- What a visit comes to: it returns, and its result is that of the walk over the same obligations.
Here `f` are the calls and `todo` the obligations. -/
structure Visits (components : Components) (seen : List String) (todo : List Obligation)
    (f : Nat → Option (Except SchemaError (List String)))
    (result : Except SchemaError (List String)) : Prop where
  returns : Returns f result
  error : ∀ {e}, result = .error e → ∀ rest, Walks components seen (todo ++ rest) (.error e)
  ok : ∀ {seen'}, result = .ok seen' → Visited components seen' ∧ seen.length ≤ seen'.length ∧
    ∀ {rest out}, Walks components seen' rest out → Walks components seen (todo ++ rest) out

/-- The first call stops the visit. -/
theorem Visits.stop {f g : Nat → Option (Except SchemaError (List String))} {e : SchemaError}
    {todo todo' : List Obligation} (h : Visits components seen todo f (.error e))
    (hg : ∀ d, f d = some (.error e) → g d = some (.error e)) :
    Visits components seen (todo ++ todo') g (.error e) := by
  obtain ⟨depth, hdepth⟩ := h.returns
  refine ⟨⟨depth, fun d hd ↦ hg d (hdepth d hd)⟩, fun he rest ↦ ?_, nofun⟩
  cases he
  rw [List.append_assoc]
  exact h.error rfl _

/-- The visit goes on after the first call. -/
theorem Visits.next {f f' g : Nat → Option (Except SchemaError (List String))}
    {seen' : List String} {result : Except SchemaError (List String)}
    {todo todo' : List Obligation} (h : Visits components seen todo f (.ok seen'))
    (h' : Visits components seen' todo' f' result)
    (hg : ∀ d, f d = some (.ok seen') → g d = f' d) :
    Visits components seen (todo ++ todo') g result := by
  obtain ⟨depth, hdepth⟩ := h.returns
  obtain ⟨depth', hdepth'⟩ := h'.returns
  obtain ⟨-, hle, hok⟩ := h.ok rfl
  refine ⟨⟨max depth depth', fun d hd ↦ ?_⟩, fun he rest ↦ ?_, fun hr ↦ ?_⟩
  · rw [hg d (hdepth d (Nat.le_trans (Nat.le_max_left ..) hd))]
    exact hdepth' d (Nat.le_trans (Nat.le_max_right ..) hd)
  · rw [List.append_assoc]
    exact hok (h'.error he rest)
  · obtain ⟨hv, hle', hok'⟩ := h'.ok hr
    refine ⟨hv, Nat.le_trans hle hle', fun hw ↦ ?_⟩
    rw [List.append_assoc]
    exact hok (hok' hw)

/-- Visiting parts comes to an end if visiting the schemas among them does, and visiting the target
of any reference that is new. -/
theorem visits_parts {visit : Nat → List String → Json → Option (Except SchemaError (List String))}
    {n : Nat} (ps : List Part)
    (hschema : ∀ s, .schema s ∈ ps → ∀ seen, Visited components seen → n ≤ seen.length →
      ∃ result, Visits components seen (obligations s) (visit · seen s) result)
    (htarget : ∀ t seen, Visited components seen → n < seen.length →
      ∃ result, Visits components seen (obligations t) (visit · seen t) result)
    (seen : List String) (hv : Visited components seen) (hn : n ≤ seen.length) :
    ∃ result, Visits components seen (ps.flatMap Part.obligations)
      (fun d ↦ visitParts components (visit d) seen ps) result := by
  induction ps generalizing seen with
  | nil =>
    refine ⟨.ok seen, ⟨0, fun _ _ ↦ rfl⟩, nofun, fun h ↦ ?_⟩
    cases h
    exact ⟨hv, Nat.le_refl _, id⟩
  | cons p ps ih =>
    have ih := ih fun s hs ↦ hschema s (.tail _ hs)
    rw [List.flatMap_cons]
    rcases p with (e | r) | s
    · refine ⟨.error e, ⟨0, fun _ _ ↦ rfl⟩, fun h rest ↦ ?_, nofun⟩
      cases h
      exact .fault seen _ _
    · cases ht : resolve? components r with
      | none =>
        refine ⟨.error (.unresolved r), ⟨0, fun d _ ↦ by simp only [visitParts, ht]⟩,
          fun h rest ↦ ?_, nofun⟩
        cases h
        exact .unresolved seen _ ht
      | some t =>
        by_cases hseen : r ∈ seen
        · obtain ⟨result, h⟩ := ih seen hv hn
          refine ⟨result, ?_, fun he rest ↦ .again ht hseen (h.error he rest), fun hr ↦ ?_⟩
          · obtain ⟨depth, hdepth⟩ := h.returns
            refine ⟨depth, fun d hd ↦ ?_⟩
            simp only [visitParts, ht, if_pos hseen, hdepth d hd]
          · obtain ⟨hv', hle, hok⟩ := h.ok hr
            exact ⟨hv', hle, fun hw ↦ .again ht hseen (hok hw)⟩
        · obtain ⟨result, h⟩ := htarget t (r :: seen) (hv.cons hseen ht) (Nat.lt_succ_of_le hn)
          have hstep : Visits components seen (Part.obligations (.obligation (.reference r)))
              (visit · (r :: seen) t) result := by
            refine ⟨h.returns, fun he rest ↦ .new ht hseen (h.error he rest), fun hr ↦ ?_⟩
            obtain ⟨hv', hle, hok⟩ := h.ok hr
            exact ⟨hv', Nat.le_trans (Nat.le_succ _) hle, fun hw ↦ .new ht hseen (hok hw)⟩
          cases result with
          | error e =>
            refine ⟨.error e, hstep.stop fun d hd ↦ ?_⟩
            simp only [visitParts, ht, if_neg hseen, hd]
          | ok seen' =>
            obtain ⟨hv', hle, -⟩ := hstep.ok rfl
            obtain ⟨result, h'⟩ := ih seen' hv' (Nat.le_trans hn hle)
            refine ⟨result, hstep.next h' fun d hd ↦ ?_⟩
            simp only [visitParts, ht, if_neg hseen, hd]
    · obtain ⟨result, h⟩ := hschema s List.mem_cons_self seen hv hn
      cases result with
      | error e =>
        refine ⟨.error e, h.stop fun d hd ↦ ?_⟩
        simp only [visitParts, hd]
      | ok seen' =>
        obtain ⟨hv', hle, -⟩ := h.ok rfl
        obtain ⟨result, h'⟩ := ih seen' hv' (Nat.le_trans hn hle)
        refine ⟨result, Visits.next h h' fun d hd ↦ ?_⟩
        simp only [visitParts, hd]

/-- **Visiting a schema returns**, with the result of the walk over its obligations. -/
theorem visits (components : Components) (s : Json) (seen : List String)
    (hv : Visited components seen) :
    ∃ result, Visits components seen (obligations s) (visitWithin components · seen s) result := by
  -- The outer induction is on the components that no reference met so far names, the inner one on
  -- the schema.
  suffices hall : ∀ room s seen, Visited components seen →
      components.entries.length ≤ room + seen.length →
      ∃ result, Visits components seen (obligations s) (visitWithin components · seen s) result from
    hall _ s seen hv (Nat.le_add_right _ _)
  intro room
  induction room using Nat.strongRecOn with
  | ind room ihroom =>
  intro s seen hv hroom
  induction hsize : sizeOf s using Nat.strongRecOn generalizing s seen with
  | ind k ihsize =>
  cases s with
  | object fields =>
    have hschema : ∀ s, .schema s ∈ parts fields → ∀ seen', Visited components seen' →
        seen.length ≤ seen'.length → ∃ result,
          Visits components seen' (obligations s) (visitWithin components · seen' s) result :=
      fun s hs seen' hv' hle ↦
        ihsize _ (hsize ▸ sizeOf_lt_of_part hs) s seen' hv' (by omega) rfl
    have htarget : ∀ t seen', Visited components seen' → seen.length < seen'.length →
        ∃ result,
          Visits components seen' (obligations t) (visitWithin components · seen' t) result := by
      intro t seen' hv' hlt
      have hle := hv'.length_le
      exact ihroom (room - 1) (by omega) t seen' hv' (by omega)
    obtain ⟨result, h⟩ := visits_parts (parts fields) hschema htarget seen hv (Nat.le_refl _)
    rw [obligations_object]
    exact ⟨result, h.returns.step h.returns fun _ hd _ ↦ hd, h.error, h.ok⟩
  | bool b =>
    refine ⟨.ok seen, .of_succ fun _ ↦ rfl, nofun, fun h ↦ ?_⟩
    cases h
    exact ⟨hv, Nat.le_refl _, id⟩
  | _ =>
    refine ⟨.error (.notASchema _), .of_succ fun _ ↦ rfl, fun h rest ↦ ?_, nofun⟩
    cases h
    exact .fault seen _ _

/-- Visiting a schema from the start gives what it reaches. -/
theorem returns_visitWithin (root : Json) (components : Components) :
    Returns (visitWithin components · [] root) (reached components root) := by
  obtain ⟨result, h⟩ := visits components root [] Visited.nil
  have hwalks := walks_reached components root
  have heq : reached components root = result := by
    cases result with
    | error e =>
      have := h.error rfl []
      rw [List.append_nil] at this
      exact hwalks.functional this
    | ok seen =>
      have := (h.ok rfl).2.2 (.done seen)
      rw [List.append_nil] at this
      exact hwalks.functional this
  exact heq ▸ h.returns

/-! ### Settling -/

/-- **The search for cycles returns**, by following the search without a bound. -/
theorem returns_settles {active settled references : List String}
    {result : Except SchemaError (List String)}
    (h : Settles components active settled references result) :
    Returns (fun d ↦ settleEachWithin (settleWithin components d active) settled references)
      result := by
  induction h with
  | done => exact .of_succ fun _ ↦ rfl
  | again hr _ ih =>
    refine ih.step ih fun d _ hd ↦ ?_
    simpa only [settleEachWithin, settleWithin, if_pos hr] using hd
  | cycle rest hr hactive =>
    refine .of_succ fun d ↦ ?_
    simp only [settleEachWithin, settleWithin, if_neg hr, if_pos hactive]
  | unresolved rest hr hactive ht =>
    refine .of_succ fun d ↦ ?_
    simp only [settleEachWithin, settleWithin, if_neg hr, if_neg hactive, ht]
  | failed rest hr hactive ht _ ih =>
    refine ih.step ih fun d hd _ ↦ ?_
    simp only [settleEachWithin, settleWithin, if_neg hr, if_neg hactive, ht, hd]
  | new hr hactive ht _ _ ihbelow ih =>
    refine ihbelow.step ih fun d hbelow hd ↦ ?_
    simpa only [settleEachWithin, settleWithin, if_neg hr, if_neg hactive, ht, hbelow] using hd

/-! ### Compiling -/

/-- `Schema.compile` with the found references settled in the order that `order` puts them in. -/
def compileInOrder (order : List String → List String) (root : Json) (components : Components) :
    Except SchemaError Schema :=
  match reached components root with
  | .error e => .error e
  | .ok references =>
    match settleAll components (order references) with
    | .error e => .error e
    | .ok _ => .ok ⟨root, components⟩

theorem compile_eq_compileInOrder (root : Json) (components : Components) :
    compile root components = compileInOrder List.reverse root components := rfl

theorem returns_compileWithin (order : List String → List String) (root : Json)
    (components : Components) :
    Returns (compileWithin order root components) (compileInOrder order root components) := by
  have hvisit := returns_visitWithin root components
  have hsettle := fun references ↦
    returns_settles (settles_settleAll components (order references))
  rw [compileInOrder]
  revert hvisit
  cases reached components root with
  | error e =>
    intro hvisit
    refine hvisit.and hvisit fun d hd _ ↦ ?_
    simp only [compileWithin, hd]
  | ok references =>
    intro hvisit
    refine hvisit.and (hsettle references) fun d hd hd' ↦ ?_
    simp only [compileWithin, hd, hd']
    cases settleAll components (order references) <;> rfl

/-- **The order in which references are settled decides which error is reported, not whether a
schema is accepted.** -/
theorem compileInOrder_eq_ok {order order' : List String → List String}
    (horder : ∀ l, (order l).Perm (order' l)) {schema : Schema} :
    compileInOrder order root components = .ok schema →
      compileInOrder order' root components = .ok schema := by
  intro h
  unfold compileInOrder at h ⊢
  split at h
  · cases h
  · next references _ =>
    split at h
    · cases h
    · next settled hsettled =>
      obtain ⟨hranked, hsub⟩ := ranked_of_settleAll hsettled
      obtain ⟨final, hfinal⟩ :=
        settleAll_of_ranked hranked fun r hr ↦ hsub ((horder references).mem_iff.2 hr)
      simp only [hfinal]
      exact h

/-! ### Judging -/

theorem mapM_some {α β : Type} {f : α → Option β} {g : α → β} {xs : List α}
    (h : ∀ x ∈ xs, f x = some (g x)) : xs.mapM f = some (xs.map g) := by
  induction xs with
  | nil => rfl
  | cons x xs ih =>
    rw [List.mapM_cons, h x List.mem_cons_self, ih fun y hy ↦ h y (.tail _ hy)]
    rfl

section JudgeStep

variable {f : Json → Json → String → Option (List Violation)}
  {g : Json → Json → String → Id (List Violation)} {j : Json} {path : String}

theorem judgeItems_some (h : ∀ c ∈ childCalls fields j, ∀ p, f c.1 c.2 p = some (g c.1 c.2 p).run) :
    judgeItems f fields j path = some (judgeItems g fields j path).run := by
  rw [run_judgeItems]
  unfold judgeItems
  cases hs : Json.field? "items" fields with
  | none => rfl
  | some s =>
    cases j with
    | list items =>
      have hmap : items.zipIdx.mapM (fun p ↦ f s p.1 (childPath path (toString p.2))) =
          some (items.zipIdx.map fun p ↦ (g s p.1 (childPath path (toString p.2))).run) :=
        mapM_some fun p hp ↦
          h _ (mem_childCalls_items hs (List.fst_mem_of_mem_zipIdx hp)) _
      simp only [hmap, Option.map_eq_map, Option.map_some, List.flatMap_def]
    | _ => rfl

theorem judgeFields_some
    (h : ∀ c ∈ childCalls fields j, ∀ p, f c.1 c.2 p = some (g c.1 c.2 p).run) :
    judgeFields f fields j path = some (judgeFields g fields j path).run := by
  rw [run_judgeFields]
  unfold judgeFields
  cases j with
  | object present =>
    have hfield : ∀ e ∈ inNameOrder present,
        judgeField f fields path e = some (judgeField g fields path e).run := by
      intro e he
      have hmem : e ∈ present := List.mem_mergeSort.1 he
      have hcall : ∀ s, fieldSchema? fields e.1 = some s → ∀ p, f s e.2 p = some (g s e.2 p).run :=
        fun s hs ↦ h _ (mem_childCalls_fields hs hmem)
      unfold fieldSchema? at hcall
      unfold judgeField
      cases hp : (Json.field? "properties" fields).bind (·.get? e.1) with
      | some s => exact hcall s (by rw [hp]) _
      | none =>
        rw [hp] at hcall
        dsimp only at hcall ⊢
        split
        · rfl
        · next s _ hs => exact hcall s hs _
        · rfl
    simp only [mapM_some hfield, Option.map_eq_map, Option.map_some, List.flatMap_def]
  | _ => rfl

theorem judgeList_some {keyword : String}
    (hk : keyword = "allOf" ∨ keyword = "anyOf" ∨ keyword = "oneOf")
    (h : ∀ s ∈ schemasInPlace fields, ∀ p, f s j p = some (g s j p).run) :
    judgeList f keyword fields j path = some (judgeList g keyword fields j path).run := by
  rw [run_judgeList]
  unfold judgeList
  cases hlist : (Json.field? keyword fields).bind Json.asList? with
  | none => rfl
  | some schemas =>
    have hmap : schemas.mapM (fun s ↦ f s j path) = some (schemas.map fun s ↦ (g s j path).run) :=
      mapM_some fun s hs ↦ h s (mem_schemasInPlace_of_list hk hlist hs) _
    simp only [hmap, Option.map_eq_map, Option.map_some]

theorem judgeNot_some (h : ∀ s ∈ schemasInPlace fields, ∀ p, f s j p = some (g s j p).run) :
    judgeNot f fields j path = some (judgeNot g fields j path).run := by
  rw [run_judgeNot]
  unfold judgeNot
  cases hs : Json.field? "not" fields with
  | none => rfl
  | some s => simp only [h s (mem_schemasInPlace_of_not hs), Option.map_eq_map, Option.map_some]

/-- **A step returns if everything it asks for does.** -/
theorem judgeStep_some
    (h : ∀ c ∈ calls components s j, ∀ p, f c.1 c.2 p = some (g c.1 c.2 p).run) :
    judgeStep f components s j path = some (judgeStep g components s j path).run := by
  cases s with
  | object fields =>
    cases hr : reference? fields with
    | some r =>
      simp only [calls, hr] at h
      simp only [judgeStep, hr]
      cases ht : resolve? components r with
      | none => rfl
      | some t => exact h (t, j) (by rw [ht]; exact List.mem_cons_self) path
    | none =>
      simp only [calls, hr] at h
      simp only [judgeStep, hr]
      have hchild : ∀ c ∈ childCalls fields j, ∀ p, f c.1 c.2 p = some (g c.1 c.2 p).run :=
        fun c hc ↦ h c (List.mem_append_left _ hc)
      have hplace : ∀ s ∈ schemasInPlace fields, ∀ p, f s j p = some (g s j p).run :=
        fun s hs ↦ h (s, j) (List.mem_append_right _ (List.mem_map_of_mem hs))
      cases typeFault? fields j with
      | some text => rfl
      | none =>
        dsimp only
        rw [judgeItems_some hchild, judgeFields_some hchild, judgeList_some (.inl rfl) hplace,
          judgeList_some (.inr (.inl rfl)) hplace, judgeList_some (.inr (.inr rfl)) hplace,
          judgeNot_some hplace]
        rfl
  | bool b => cases b <;> rfl
  | _ => rfl

end JudgeStep

/-- Calls that all return do so together. -/
theorem exists_depth_of_forall {α : Type} {p : Nat → α → Prop} (xs : List α)
    (h : ∀ x ∈ xs, ∃ depth, ∀ d, depth ≤ d → p d x) :
    ∃ depth, ∀ d, depth ≤ d → ∀ x ∈ xs, p d x := by
  induction xs with
  | nil => exact ⟨0, fun _ _ _ hx ↦ absurd hx List.not_mem_nil⟩
  | cons x xs ih =>
    obtain ⟨depth, hdepth⟩ := h x List.mem_cons_self
    obtain ⟨depth', hdepth'⟩ := ih fun y hy ↦ h y (.tail _ hy)
    refine ⟨max depth depth', fun d hd y hy ↦ ?_⟩
    rcases List.mem_cons.1 hy with rfl | hy
    · exact hdepth d (Nat.le_trans (Nat.le_max_left ..) hd)
    · exact hdepth' d (Nat.le_trans (Nat.le_max_right ..) hd) y hy

/-- What takes one step at each depth, on the schemas that a usable one reaches, returns what the
library finds. -/
theorem returns_of_step {within : Nat → Json → Json → String → Option (List Violation)}
    (h : Usable components root l)
    (hstep : ∀ s, Reached components root s → ∀ d j path,
      within (d + 1) s j path = judgeStep (within d) components s j path)
    (hs : Reached components root s) (j : Json) :
    ∃ depth, ∀ d, depth ≤ d → ∀ path, within d s j path = some (check components j path s) := by
  refine call_induction h (motive := fun s j ↦ ∃ depth, ∀ d, depth ≤ d → ∀ path,
    within d s j path = some (check components j path s)) ?_ s j hs
  intro s j hs hcalls
  obtain ⟨depth, hdepth⟩ := exists_depth_of_forall (calls components s j) hcalls
  refine ⟨depth + 1, fun d hd path ↦ ?_⟩
  obtain ⟨d, rfl⟩ := Nat.exists_eq_add_of_le' (Nat.le_trans (Nat.le_add_left 1 _) hd)
  rw [hstep s hs, check_eq_judgeStep h hs]
  exact judgeStep_some fun c hc p ↦ hdepth d (by omega) c hc p

/-- **Judging by a usable schema returns**, with what the library finds. -/
theorem returns_judgeWithin (h : Usable components root l) (hs : Reached components root s)
    (j : Json) :
    ∃ depth, ∀ d, depth ≤ d → ∀ path,
      judgeWithin components d s j path = some (check components j path s) :=
  returns_of_step h (fun _ _ _ _ _ ↦ rfl) hs j

/-- A schema that refers to itself is never done, at any depth. -/
theorem judgeWithin_loop {r : String} (hr : reference? fields = some r)
    (ht : resolve? components r = some (.object fields)) (j : Json) (path : String) :
    ∀ depth, judgeWithin components depth (.object fields) j path = none
  | 0 => rfl
  | depth + 1 => by
    rw [judgeWithin, judgeStep]
    simp only [hr, ht]
    exact judgeWithin_loop hr ht j path depth

/-! ### Main result -/

/-- **Compiling returns for every schema and every registry of components, and validating by a
compiled schema returns for every document.** Compiling returns in whatever order the references it
finds are settled, accepts the same schemas in each, and in the order of the library gives what the
library gives; validating gives the violations that the library lists. -/
theorem compile_and_validate_return (root : Json) (components : Components) :
    (∀ order : List String → List String, (∀ l, (order l).Perm l) →
      ∃ result, Returns (compileWithin order root components) result ∧
        ∀ schema, result = .ok schema ↔ compile root components = .ok schema) ∧
    Returns (compileWithin List.reverse root components) (compile root components) ∧
    ∀ schema, compile root components = .ok schema → ∀ document,
      Returns (validateWithin schema document) (validate schema document) := by
  refine ⟨fun order horder ↦ ⟨_, returns_compileWithin order root components, fun schema ↦ ?_⟩,
    returns_compileWithin _ root components, fun schema h document ↦ ?_⟩
  · have hreverse : ∀ l, (order l).Perm l.reverse :=
      fun l ↦ (horder l).trans l.reverse_perm.symm
    exact ⟨compileInOrder_eq_ok hreverse, compileInOrder_eq_ok fun l ↦ (hreverse l).symm⟩
  · obtain ⟨rfl, l, husable⟩ := compile_spec h
    obtain ⟨depth, hdepth⟩ := returns_judgeWithin husable .root document
    exact ⟨depth, fun d hd ↦ hdepth d hd rootPath⟩

/-- Trees: a schema that refers to itself through the items of a property. -/
def treeSchema : Json :=
  .object [("type", .string "object"), ("properties", .object [("children",
    .object [("type", .string "array"),
      ("items", .object [("$ref", .string "#/components/schemas/Tree")])])])]

theorem compile_and_validate_return_tree :
    (∃ result, Returns (compileWithin id treeSchema (.ofList [("Tree", treeSchema)])) result) ∧
    Returns
      (validateWithin ⟨treeSchema, .ofList [("Tree", treeSchema)]⟩
        (.object [("children", .list [.object [], .int 1])]))
      (validate ⟨treeSchema, .ofList [("Tree", treeSchema)]⟩
        (.object [("children", .list [.object [], .int 1])])) := by
  obtain ⟨hcompile, -, hvalidate⟩ :=
    compile_and_validate_return treeSchema (.ofList [("Tree", treeSchema)])
  obtain ⟨result, hresult, -⟩ := hcompile id fun l ↦ .refl l
  exact ⟨⟨result, hresult⟩, hvalidate _ rfl _⟩

end Schema

end ContractHost
