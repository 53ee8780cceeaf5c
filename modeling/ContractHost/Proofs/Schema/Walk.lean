import ContractHost.Proofs.Schema.Reach

/-!
# The walk over a schema

`Schema.walk` is bounded by the number of references it may still meet for the first time.
`Schema.Walks` is the same walk without a bound, as a relation; the bound is never felt
(`walks_walk`), because references that resolve are no more than components. Everything else is
said about `Walks`, by induction on its derivation.

**What a walk finds is closed** (`closed_of_reached`): every obligation of the root and of the
target of every found reference is met, so that the same holds of everything the root reaches
(`met_of_reached`). **A walk inside a closed list of references succeeds** (`reached_of_closed`).
-/

namespace ContractHost

namespace Schema

variable {components : Components} {seen found : List String} {todo : List Obligation}
  {result : Except SchemaError (List String)}

/-! ### The walk without a bound -/

/-- Going through obligations from left to right, each reference followed where it is first met. -/
inductive Walks (components : Components) :
    List String → List Obligation → Except SchemaError (List String) → Prop
  | done (seen : List String) : Walks components seen [] (.ok seen)
  | fault (seen : List String) (e : SchemaError) (rest : List Obligation) :
      Walks components seen (.fault e :: rest) (.error e)
  | unresolved (seen : List String) {r : String} (rest : List Obligation)
      (hr : resolve? components r = none) :
      Walks components seen (.reference r :: rest) (.error (.unresolved r))
  | again {seen : List String} {r : String} {t : Json} {rest : List Obligation}
      {result : Except SchemaError (List String)} (hr : resolve? components r = some t)
      (hseen : r ∈ seen) (h : Walks components seen rest result) :
      Walks components seen (.reference r :: rest) result
  | new {seen : List String} {r : String} {t : Json} {rest : List Obligation}
      {result : Except SchemaError (List String)} (hr : resolve? components r = some t)
      (hseen : r ∉ seen) (h : Walks components (r :: seen) (obligations t ++ rest) result) :
      Walks components seen (.reference r :: rest) result

/-- References that have been met: each once, and each with a target. -/
structure Visited (components : Components) (seen : List String) : Prop where
  nodup : seen.Nodup
  resolves : ∀ r ∈ seen, ∃ t, resolve? components r = some t

theorem Visited.nil : Visited components [] :=
  ⟨List.nodup_nil, fun _ h ↦ absurd h List.not_mem_nil⟩

theorem Visited.cons {r : String} {t : Json} (h : Visited components seen) (hseen : r ∉ seen)
    (hr : resolve? components r = some t) : Visited components (r :: seen) := by
  refine ⟨List.nodup_cons.2 ⟨hseen, h.nodup⟩, fun q hq ↦ ?_⟩
  rcases List.mem_cons.1 hq with rfl | hq
  · exact ⟨t, hr⟩
  · exact h.resolves q hq

theorem Visited.length_le (h : Visited components seen) :
    seen.length ≤ components.entries.length :=
  length_le_of_resolvable h.nodup h.resolves

/-- One level of the bounded walk is the unbounded walk, if what it hands down is. -/
theorem walks_walkWith
    {deeper : List String → List Obligation → Except SchemaError (List String)}
    (hv : Visited components seen)
    (hdeeper : ∀ r todo, Visited components (r :: seen) →
      Walks components (r :: seen) todo (deeper (r :: seen) todo)) (todo : List Obligation) :
    Walks components seen todo (walkWith components deeper seen todo) := by
  induction todo with
  | nil => exact .done seen
  | cons o rest ih =>
    rcases o with e | r
    · exact .fault seen e rest
    · rw [walkWith]
      split
      · next hr => exact .unresolved seen rest hr
      · next t hr =>
        split
        · next hseen => exact .again hr hseen ih
        · next hseen => exact .new hr hseen (hdeeper r _ (hv.cons hseen hr))

/-- **The bound of the walk is never felt**, as long as it leaves room for every component. -/
theorem walks_walk : ∀ {fresh : Nat} {seen : List String}, Visited components seen →
    components.entries.length ≤ fresh + seen.length →
    ∀ todo, Walks components seen todo (walk components fresh seen todo)
  | 0, seen, hv, hroom, todo => by
    refine walks_walkWith hv (fun r _ hv' ↦ ?_) todo
    have := hv'.length_le
    rw [List.length_cons] at this
    omega
  | fresh + 1, seen, hv, hroom, todo => by
    refine walks_walkWith hv (fun r _ hv' ↦ walks_walk hv' ?_ _) todo
    rw [List.length_cons]
    omega

theorem walks_reached (components : Components) (root : Json) :
    Walks components [] (obligations root) (reached components root) :=
  walks_walk Visited.nil (Nat.le_add_right _ _) _

/-- A walk has one result. -/
theorem Walks.functional {result' : Except SchemaError (List String)}
    (h : Walks components seen todo result) (h' : Walks components seen todo result') :
    result = result' := by
  induction h with
  | done => cases h'; rfl
  | fault => cases h'; rfl
  | unresolved seen rest hr =>
    cases h' with
    | unresolved => rfl
    | again hr' => cases hr.symm.trans hr'
    | new hr' => cases hr.symm.trans hr'
  | again hr hseen _ ih =>
    cases h' with
    | unresolved _ _ hr' => cases hr.symm.trans hr'
    | again _ _ h' => exact ih h'
    | new _ hseen' => exact absurd hseen hseen'
  | new hr hseen _ ih =>
    cases h' with
    | unresolved _ _ hr' => cases hr.symm.trans hr'
    | again _ hseen' => exact absurd hseen' hseen
    | new hr' _ h' =>
      cases hr.symm.trans hr'
      exact ih h'

/-! ### What a walk finds -/

/-- An obligation is met: it is no fault, and its reference has been found. -/
def Met (found : List String) : Obligation → Prop
  | .fault _ => False
  | .reference r => r ∈ found

theorem not_met_fault {e : SchemaError} : ¬Met found (.fault e) := id

theorem Met.mono {o : Obligation} (hsub : seen ⊆ found) (h : Met seen o) : Met found o := by
  cases o with
  | fault e => exact h
  | reference r => exact hsub h

/-- The target of a reference has its obligations met. -/
def TargetMet (components : Components) (found : List String) (r : String) : Prop :=
  ∃ t, resolve? components r = some t ∧ ∀ o ∈ obligations t, Met found o

/-- Everything that the found references ask for is met. -/
def Closed (components : Components) (found : List String) : Prop :=
  ∀ r ∈ found, TargetMet components found r

/-- What a walk adds to the references it has met, if it ends well. -/
structure Finds (components : Components) (seen : List String) (todo : List Obligation)
    (found : List String) : Prop where
  visited : Visited components seen → Visited components found
  subset : seen ⊆ found
  todo : ∀ o ∈ todo, Met found o
  target : ∀ r ∈ found, r ∈ seen ∨ TargetMet components found r

theorem Walks.finds (h : Walks components seen todo (.ok found)) :
    Finds components seen todo found := by
  generalize hresult : Except.ok found = result at h
  induction h with
  | done seen =>
    cases hresult
    exact ⟨id, List.Subset.refl _, fun _ ho ↦ absurd ho List.not_mem_nil, fun _ hr ↦ .inl hr⟩
  | fault => cases hresult
  | unresolved => cases hresult
  | again hr hseen _ ih =>
    have ih := ih hresult
    refine ⟨ih.visited, ih.subset, fun o ho ↦ ?_, ih.target⟩
    rcases List.mem_cons.1 ho with rfl | ho
    · exact ih.subset hseen
    · exact ih.todo o ho
  | @new seen r t rest result hr hseen _ ih =>
    have ih := ih hresult
    have hmet : TargetMet components found r :=
      ⟨t, hr, fun o ho ↦ ih.todo o (List.mem_append_left _ ho)⟩
    refine ⟨fun hv ↦ ih.visited (hv.cons hseen hr), fun q hq ↦ ih.subset (.tail _ hq),
      fun o ho ↦ ?_, fun q hq ↦ ?_⟩
    · rcases List.mem_cons.1 ho with rfl | ho
      · exact ih.subset List.mem_cons_self
      · exact ih.todo o (List.mem_append_right _ ho)
    · rcases ih.target q hq with hq | hq
      · rcases List.mem_cons.1 hq with rfl | hq
        · exact .inr hmet
        · exact .inl hq
      · exact .inr hq

variable {root : Json}

/-- **What a walk finds is closed**, and the root's obligations are met. -/
theorem closed_of_reached (h : reached components root = .ok found) :
    Visited components found ∧ Closed components found ∧ ∀ o ∈ obligations root, Met found o := by
  have hfinds := (h ▸ walks_reached components root : Walks _ _ _ (.ok found)).finds
  refine ⟨hfinds.visited Visited.nil, fun r hr ↦ ?_, hfinds.todo⟩
  exact (hfinds.target r hr).resolve_left List.not_mem_nil

/-- **Everything that is reached has its obligations met.** -/
theorem met_of_reached {s : Json} (hclosed : Closed components found)
    (hroot : ∀ o ∈ obligations root, Met found o) (hs : Reached components root s) :
    ∀ o ∈ obligations s, Met found o := by
  induction hs with
  | root => exact hroot
  | part _ hs ih => exact fun o ho ↦ ih o (obligation_mem_of_part hs ho)
  | target _ hr ht ih =>
    have hfound := ih _ (obligation_mem_of_part (reference_mem_parts hr) List.mem_cons_self)
    obtain ⟨t, ht', hmet⟩ := hclosed _ hfound
    cases ht.symm.trans ht'
    exact hmet

/-! ### Walks that succeed -/

theorem Walks.ok_of_closed (h : Walks components seen todo result)
    (hclosed : Closed components found) (htodo : ∀ o ∈ todo, Met found o) (hseen : seen ⊆ found) :
    ∃ final, result = .ok final ∧ final ⊆ found := by
  induction h with
  | done seen => exact ⟨seen, rfl, hseen⟩
  | fault => exact (htodo _ List.mem_cons_self).elim
  | unresolved _ _ hr =>
    obtain ⟨t, ht, -⟩ := hclosed _ (htodo _ List.mem_cons_self)
    cases hr.symm.trans ht
  | again _ _ _ ih => exact ih (fun o ho ↦ htodo o (.tail _ ho)) hseen
  | new hr _ _ ih =>
    have hr' : _ ∈ found := htodo _ List.mem_cons_self
    obtain ⟨t, ht, hmet⟩ := hclosed _ hr'
    cases hr.symm.trans ht
    refine ih (fun o ho ↦ ?_) (List.cons_subset.2 ⟨hr', hseen⟩)
    rcases List.mem_append.1 ho with ho | ho
    · exact hmet o ho
    · exact htodo o (.tail _ ho)

/-- **A walk inside a closed list of references succeeds.** -/
theorem reached_of_closed (hclosed : Closed components found)
    (hroot : ∀ o ∈ obligations root, Met found o) :
    ∃ final, reached components root = .ok final ∧ final ⊆ found :=
  (walks_reached components root).ok_of_closed hclosed hroot (List.nil_subset _)

end Schema

end ContractHost
