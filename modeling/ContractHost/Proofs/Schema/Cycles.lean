import ContractHost.Proofs.Schema.Walk

/-!
# References in place

`Schema.settle` is bounded by the number of references that can be on the way at once.
`Schema.Settles` is the same search without a bound; the bound is never felt (`settles_settle`).

**What is settled is ranked** (`Schema.Ranked`): the target of each settled reference refers in
place only to references settled before it. A ranked list is what every induction over the checking
of an instance runs on, since following a reference in place moves down the list
(`Ranked.target`). Conversely **a search inside a ranked list succeeds** (`settleAll_of_ranked`).

`compile_spec` puts both halves of `Schema.compile` together: for everything a usable schema reaches
the obligations are met and the references in place are among the settled ones.
-/

namespace ContractHost

namespace Schema

variable {components : Components} {active settled references l : List String}
  {result : Except SchemaError (List String)}

/-! ### The search without a bound -/

/-- Settling references from left to right, depth first. -/
inductive Settles (components : Components) :
    List String → List String → List String → Except SchemaError (List String) → Prop
  | done (active settled : List String) : Settles components active settled [] (.ok settled)
  | again {active settled : List String} {r : String} {rest : List String}
      {result : Except SchemaError (List String)} (hr : r ∈ settled)
      (h : Settles components active settled rest result) :
      Settles components active settled (r :: rest) result
  | cycle {active settled : List String} {r : String} (rest : List String) (hr : r ∉ settled)
      (hactive : r ∈ active) : Settles components active settled (r :: rest) (.error (.cycle r))
  | unresolved {active settled : List String} {r : String} (rest : List String) (hr : r ∉ settled)
      (hactive : r ∉ active) (ht : resolve? components r = none) :
      Settles components active settled (r :: rest) (.error (.unresolved r))
  | failed {active settled : List String} {r : String} {t : Json} {e : SchemaError}
      (rest : List String) (hr : r ∉ settled) (hactive : r ∉ active)
      (ht : resolve? components r = some t)
      (h : Settles components (r :: active) settled (inPlace t) (.error e)) :
      Settles components active settled (r :: rest) (.error e)
  | new {active settled below : List String} {r : String} {t : Json} {rest : List String}
      {result : Except SchemaError (List String)} (hr : r ∉ settled) (hactive : r ∉ active)
      (ht : resolve? components r = some t)
      (h : Settles components (r :: active) settled (inPlace t) (.ok below))
      (hrest : Settles components active (r :: below) rest result) :
      Settles components active settled (r :: rest) result

/-- One level of the bounded search is the unbounded search, if what it hands down is. -/
theorem settles_settleWith
    {deeper : List String → List String → String → Except SchemaError (List String)}
    (hv : Visited components active)
    (hdeeper : ∀ r settled references, Visited components (r :: active) →
      Settles components (r :: active) settled references
        (settleEach (deeper (r :: active)) settled references))
    (settled references : List String) :
    Settles components active settled references
      (settleEach (settleWith components deeper active) settled references) := by
  induction references generalizing settled with
  | nil => exact .done active settled
  | cons r rest ih =>
    rw [settleEach, settleWith]
    by_cases hr : r ∈ settled
    · rw [if_pos hr]
      exact .again hr (ih settled)
    rw [if_neg hr]
    by_cases hactive : r ∈ active
    · rw [if_pos hactive]
      exact .cycle rest hr hactive
    rw [if_neg hactive]
    cases ht : resolve? components r with
    | none => exact .unresolved rest hr hactive ht
    | some t =>
      have hbelow := hdeeper r settled (inPlace t) (hv.cons hactive ht)
      dsimp only
      revert hbelow
      cases settleEach (deeper (r :: active)) settled (inPlace t) with
      | error e => exact fun hbelow ↦ .failed rest hr hactive ht hbelow
      | ok below => exact fun hbelow ↦ .new hr hactive ht hbelow (ih (r :: below))

/-- **The bound of the search is never felt**, as long as it leaves room for every component. -/
theorem settles_settle : ∀ {room : Nat} {active : List String}, Visited components active →
    components.entries.length ≤ room + active.length → ∀ settled references,
    Settles components active settled references
      (settleEach (settle components room active) settled references)
  | 0, active, hv, hroom, settled, references => by
    refine settles_settleWith hv (fun r _ _ hv' ↦ ?_) settled references
    have := hv'.length_le
    rw [List.length_cons] at this
    omega
  | room + 1, active, hv, hroom, settled, references => by
    refine settles_settleWith hv (fun r _ _ hv' ↦ settles_settle hv' ?_ _ _) settled references
    rw [List.length_cons]
    omega

theorem settles_settleAll (components : Components) (references : List String) :
    Settles components [] [] references (settleAll components references) :=
  settles_settle Visited.nil (Nat.le_add_right _ _) [] references

/-! ### Ranked references -/

/-- Each reference has a target, and that target refers in place only to references behind it. -/
inductive Ranked (components : Components) : List String → Prop
  | nil : Ranked components []
  | cons {r : String} {t : Json} {l : List String} (h : Ranked components l)
      (hr : resolve? components r = some t) (hnew : r ∉ l) (hin : inPlace t ⊆ l) :
      Ranked components (r :: l)

theorem Ranked.visited (h : Ranked components l) : Visited components l := by
  induction h with
  | nil => exact Visited.nil
  | cons _ hr hnew _ ih => exact ih.cons hnew hr

/-- Following a ranked reference moves down the list. -/
theorem Ranked.target {r : String} {t : Json} (h : Ranked components l) (hmem : r ∈ l)
    (ht : resolve? components r = some t) :
    ∃ below, Ranked components below ∧ below.length < l.length ∧ below ⊆ l ∧ r ∉ below ∧
      inPlace t ⊆ below := by
  induction h with
  | nil => cases hmem
  | @cons r' t' l h hr hnew hin ih =>
    rcases List.mem_cons.1 hmem with rfl | hmem
    · cases ht.symm.trans hr
      exact ⟨l, h, Nat.lt_succ_self _, List.subset_cons_self _ _, hnew, hin⟩
    · obtain ⟨below, hbelow, hlt, hsub, hnot, hin'⟩ := ih hmem
      exact ⟨below, hbelow, Nat.lt_succ_of_lt hlt, fun q hq ↦ .tail _ (hsub hq), hnot, hin'⟩

/-- A search that ends well settles what it was given, keeps the ranking and does not settle what is
on the way. -/
structure Extends (components : Components) (active settled references l : List String) :
    Prop where
  ranked : Ranked components l
  subset : settled ⊆ l
  mem : references ⊆ l
  notActive : ∀ r ∈ active, r ∉ l

theorem Settles.extends (h : Settles components active settled references (.ok l))
    (hranked : Ranked components settled) (hactive : ∀ r ∈ active, r ∉ settled) :
    Extends components active settled references l := by
  generalize hresult : Except.ok l = result at h
  induction h generalizing l with
  | done active settled =>
    cases hresult
    exact ⟨hranked, List.Subset.refl _, List.nil_subset _, hactive⟩
  | again hr _ ih =>
    have hext := ih hranked hactive hresult
    exact ⟨hext.ranked, hext.subset, List.cons_subset.2 ⟨hext.subset hr, hext.mem⟩, hext.notActive⟩
  | cycle | unresolved | failed => cases hresult
  | @new active settled below r t rest _ hr hnot ht _ _ ihbelow ih =>
    have hbelow : Extends components (r :: active) settled (inPlace t) below := by
      refine ihbelow hranked (fun q hq ↦ ?_) rfl
      rcases List.mem_cons.1 hq with rfl | hq
      · exact hr
      · exact hactive q hq
    have hnew : r ∉ below := hbelow.notActive r List.mem_cons_self
    have hext : Extends components active (r :: below) rest l := by
      refine ih (.cons hbelow.ranked ht hnew hbelow.mem) (fun q hq hmem ↦ ?_) hresult
      rcases List.mem_cons.1 hmem with rfl | hmem
      · exact hnot hq
      · exact hbelow.notActive q (.tail _ hq) hmem
    exact ⟨hext.ranked, fun q hq ↦ hext.subset (.tail _ (hbelow.subset hq)),
      List.cons_subset.2 ⟨hext.subset List.mem_cons_self, hext.mem⟩, hext.notActive⟩

/-- **What is settled is ranked.** -/
theorem ranked_of_settleAll (h : settleAll components references = .ok l) :
    Ranked components l ∧ references ⊆ l := by
  have hext := (h ▸ settles_settleAll components references : Settles _ _ _ _ (.ok l)).extends
    .nil (fun _ hr ↦ absurd hr List.not_mem_nil)
  exact ⟨hext.ranked, hext.mem⟩

theorem Settles.ok_of_ranked (h : Settles components active settled references result)
    (hranked : Ranked components l) (hsub : references ⊆ l) (hactive : ∀ r ∈ active, r ∉ l) :
    ∃ final, result = .ok final := by
  induction h generalizing l with
  | done _ settled => exact ⟨settled, rfl⟩
  | again _ _ ih => exact ih hranked (fun q hq ↦ hsub (.tail _ hq)) hactive
  | cycle _ _ hr => exact absurd (hsub List.mem_cons_self) (hactive _ hr)
  | unresolved _ _ _ ht =>
    obtain ⟨t, ht'⟩ := hranked.visited.resolves _ (hsub List.mem_cons_self)
    cases ht.symm.trans ht'
  | @failed active _ r t _ _ _ _ ht _ ih =>
    obtain ⟨below, hbelow, -, hle, hnot, hin⟩ := hranked.target (hsub List.mem_cons_self) ht
    have hdisjoint : ∀ q ∈ r :: active, q ∉ below := by
      intro q hq
      rcases List.mem_cons.1 hq with rfl | hq
      · exact hnot
      · exact fun hmem ↦ hactive q hq (hle hmem)
    exact nomatch ih hbelow hin hdisjoint
  | new _ _ _ _ _ _ ih => exact ih hranked (fun q hq ↦ hsub (.tail _ hq)) hactive

/-- **A search inside a ranked list succeeds.** -/
theorem settleAll_of_ranked (hranked : Ranked components l) (hsub : references ⊆ l) :
    ∃ final, settleAll components references = .ok final :=
  (settles_settleAll components references).ok_of_ranked hranked hsub
    fun _ hr ↦ absurd hr List.not_mem_nil

/-! ### Usable schemas -/

variable {root : Json} {schema : Schema}

theorem compile_eq_ok (h : compile root components = .ok schema) :
    schema = ⟨root, components⟩ ∧ ∃ found settled, reached components root = .ok found ∧
      settleAll components found.reverse = .ok settled := by
  unfold compile at h
  split at h
  · cases h
  · next found hfound =>
    split at h
    · cases h
    · next settled hsettled =>
      cases h
      exact ⟨rfl, found, settled, hfound, hsettled⟩

/-- What is known of everything that a usable schema reaches: its obligations are met by the found
references, and `l` ranks those. -/
structure Usable (components : Components) (root : Json) (l : List String) : Prop where
  ranked : Ranked components l
  met : ∀ {s}, Reached components root s → ∀ o ∈ obligations s, Met l o

/-- **What `Schema.compile` establishes.** -/
theorem compile_spec (h : compile root components = .ok schema) :
    schema = ⟨root, components⟩ ∧ ∃ l, Usable components root l := by
  obtain ⟨rfl, found, settled, hfound, hsettled⟩ := compile_eq_ok h
  obtain ⟨-, hclosed, hroot⟩ := closed_of_reached hfound
  obtain ⟨hranked, hsub⟩ := ranked_of_settleAll hsettled
  refine ⟨rfl, settled, hranked, fun hs o ho ↦ ?_⟩
  exact (met_of_reached hclosed hroot hs o ho).mono fun r hr ↦ hsub (List.mem_reverse.2 hr)

namespace Usable

variable {s : Json} {fields : List (String × Json)}

theorem inPlace_subset (h : Usable components root l) (hs : Reached components root s) :
    inPlace s ⊆ l :=
  fun _ hr ↦ h.met hs _ (reference_mem_of_mem_inPlace hr)

/-- A reference that is reached has a target. -/
theorem exists_target (h : Usable components root l)
    (hs : Reached components root (.object fields)) {r : String} (hr : reference? fields = some r) :
    ∃ t, resolve? components r = some t := by
  have hmem := obligation_mem_of_part (reference_mem_parts hr) List.mem_cons_self
  exact h.ranked.visited.resolves r (h.met hs _ hmem)

/-- Everything that is reached is an object or a truth value. -/
theorem object_or_bool (h : Usable components root l) (hs : Reached components root s) :
    (∃ fields, s = .object fields) ∨ ∃ b, s = .bool b := by
  refine Classical.byContradiction fun hne ↦ ?_
  obtain ⟨hobject, hbool⟩ := not_or.1 hne
  have hfault := notASchema_mem_obligations (not_exists.1 hobject) (not_exists.1 hbool)
  exact not_met_fault (h.met hs _ hfault)

end Usable

/-- A schema is usable when the references it asks for lie in a closed list, and that in a ranked
one. -/
theorem compile_of_closed {found : List String} (hclosed : Closed components found)
    (hroot : ∀ o ∈ obligations root, Met found o) (hranked : Ranked components l)
    (hsub : found ⊆ l) : compile root components = .ok ⟨root, components⟩ := by
  obtain ⟨found', hfound', hsub'⟩ := reached_of_closed hclosed hroot
  obtain ⟨settled, hsettled⟩ :=
    settleAll_of_ranked hranked fun r hr ↦ hsub (hsub' (List.mem_reverse.1 hr))
  rw [compile, hfound']
  dsimp only
  rw [hsettled]

/-- A closed list that is ranked itself. -/
theorem compile_of_ranked (hclosed : Closed components l) (hranked : Ranked components l)
    (hroot : ∀ o ∈ obligations root, Met l o) :
    compile root components = .ok ⟨root, components⟩ :=
  compile_of_closed hclosed hroot hranked (List.Subset.refl l)

/-- What a usable schema reaches is usable by itself. -/
theorem compile_of_reached {s : Json} (h : compile root components = .ok schema)
    (hs : Reached components root s) : compile s components = .ok ⟨s, components⟩ := by
  obtain ⟨-, found, settled, hfound, hsettled⟩ := compile_eq_ok h
  obtain ⟨-, hclosed, hroot⟩ := closed_of_reached hfound
  obtain ⟨hranked, hsub⟩ := ranked_of_settleAll hsettled
  exact compile_of_closed hclosed (met_of_reached hclosed hroot hs) hranked
    fun r hr ↦ hsub (List.mem_reverse.2 hr)

end Schema

end ContractHost
