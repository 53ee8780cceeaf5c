import ContractHost.Contract.Lifecycle
import ContractHost.Proofs.Contract.Records
import ContractHost.Proofs.Contract.Signatures

/-!
# What is built from a list of registrations

Whether a registration is refused, and why, depends on it and on the slots that were claimed before
it (`Registration.Refused`), not on the handlers behind them.

* **One step** (`Records.register_eq_error_iff`). If a contract records what was registered so far,
  the next registration fails exactly if it is refused, and otherwise the contract takes it.
* **A whole run** (`Records.registerAll_eq_error_iff`) is an induction over the registrations that
  are left, for all that were taken before.

So **a build reports the first registration that is refused, then a blank name, and otherwise yields
a contract that holds exactly what was registered** (`Contract.build_outcome`). Nothing in the
condition for success depends on an order: every registration is sound by itself, and no slot is
claimed twice. Nothing that an invocation looks at does, either. What does depend on the order is
which information stays where some is given twice, and which error is reported.
-/

namespace ContractHost

variable {κ : Type}

/-! ### Hooks -/

/-- The parameters that the function of a hook may have. -/
def HookKind.Allows (kind : HookKind) (types : List Ty) : Prop :=
  types = [] ∨ kind = .after ∧ types = [.any]

/-- What is wrong with the parameters of the function of a hook. -/
inductive HookOffence : HookKind → List Ty → RegistrationError → Prop
  | takesParams {kind : HookKind} {types : List Ty} (hkind : kind ≠ .after) (h : types ≠ []) :
      HookOffence kind types (.hookTakesParams kind)
  | paramType {t : Ty} (ht : t ≠ .any) : HookOffence .after [t] .afterParamType
  | tooMany {t u : Ty} {rest : List Ty} : HookOffence .after (t :: u :: rest) .afterTooManyParams

namespace Hook

variable {kind : HookKind} {types : List Ty} {f : Function κ} {hook : Hook κ} {h : Handler κ}
  {e : RegistrationError}

theorem ofFunction_of_allows (hallows : kind.Allows f.paramTypes) :
    ofFunction f kind = .ok ⟨f, kind⟩ := by
  unfold ofFunction
  rcases hallows with hnone | ⟨rfl, hany⟩
  · rw [hnone]
  · rw [hany]

theorem ofFunction_of_offence (htypes : f.paramTypes = types)
    (hoffence : HookOffence kind types e) : ofFunction f kind = .error e := by
  unfold ofFunction
  rw [htypes]
  rcases hoffence with ⟨hkind, hne⟩ | @⟨t, ht⟩ | _
  · rcases types with _ | ⟨t, rest⟩
    · exact absurd rfl hne
    · rcases kind
      case after => exact absurd rfl hkind
      all_goals simp
  · rcases t
    case any => exact absurd rfl ht
    all_goals rfl
  · simp

/-- A function can play a part, or something is wrong with its parameters. -/
theorem allows_or_offence (kind : HookKind) (types : List Ty) :
    kind.Allows types ∨ ∃ e, HookOffence kind types e := by
  by_cases hkind : kind = .after
  · subst hkind
    rcases types with _ | ⟨t, _ | ⟨u, rest⟩⟩
    · exact .inl (.inl rfl)
    · by_cases ht : t = .any
      · exact .inl (.inr ⟨rfl, by rw [ht]⟩)
      · exact .inr ⟨_, .paramType ht⟩
    · exact .inr ⟨_, .tooMany⟩
  · by_cases htypes : types = []
    · exact .inl (.inl htypes)
    · exact .inr ⟨_, .takesParams hkind htypes⟩

end Hook

/-! ### Refused registrations -/

variable [ContextType κ]

/-- A registration for the contract of a name is refused where some slots are taken, by the first
check that fails. -/
inductive Registration.Refused (contract : String) (taken : List Slot) :
    Registration κ → RegistrationError → Prop
  | blank {name : String} {h : Handler κ} (hblank : Text.isBlank name = true) :
      Refused contract taken (.function name h) (.blankFunctionName contract)
  | duplicate {name : String} {h : Handler κ} (hblank : Text.isBlank name = false)
      (htaken : .function name ∈ taken) :
      Refused contract taken (.function name h) (.duplicateFunction name contract)
  | signature {name : String} {h : Handler κ} {e : RegistrationError}
      (hblank : Text.isBlank name = false) (hfree : .function name ∉ taken)
      (he : Function.ofHandler name h = .error e) : Refused contract taken (.function name h) e
  | occupied {kind : HookKind} {h : Handler κ} (htaken : .hook kind ∈ taken) :
      Refused contract taken (.hook kind h) (.duplicateHook kind contract)
  | hookSignature {kind : HookKind} {h : Handler κ} {e : RegistrationError}
      (hfree : .hook kind ∉ taken) (he : Function.ofHandler kind.functionName h = .error e) :
      Refused contract taken (.hook kind h) e
  | hookShape {kind : HookKind} {h : Handler κ} {f : Function κ} {e : RegistrationError}
      (hfree : .hook kind ∉ taken) (hf : Function.ofHandler kind.functionName h = .ok f)
      (he : HookOffence kind f.paramTypes e) : Refused contract taken (.hook kind h) e

namespace Contract

variable {name : String} {steps steps' before : List (Registration κ)} {c c' : Contract κ}
  {r : Registration κ} {e : RegistrationError}

theorem Records.register_of_refused (hc : c.Records name steps)
    (h : r.Refused name (slots steps) e) : c.register r = .error e := by
  rcases h with hblank | ⟨hblank, htaken⟩ | ⟨hblank, hfree, he⟩ | htaken | ⟨hfree, he⟩ |
    ⟨hfree, hf, he⟩
  · rw [Contract.register, addFunction, if_pos hblank, hc.name]
  · have hsome := Option.isSome_iff_ne_none.2 fun hnone ↦ hc.get?_eq_none_iff.1 hnone htaken
    rw [Contract.register, addFunction, if_neg (Bool.eq_false_iff.1 hblank), KeyMap.contains,
      if_pos hsome, hc.name]
  · rw [Contract.register, addFunction, if_neg (Bool.eq_false_iff.1 hblank), KeyMap.contains,
      hc.get?_eq_none_iff.2 hfree, he]
    rfl
  · have hsome := Option.isSome_iff_ne_none.2 fun hnone ↦ hc.hook?_eq_none_iff.1 hnone htaken
    rw [Contract.register, addHook, if_pos hsome, hc.name]
  · rw [Contract.register, addHook, hc.hook?_eq_none_iff.2 hfree, Hook.ofHandler, he]
    rfl
  · rw [Contract.register, addHook, hc.hook?_eq_none_iff.2 hfree, Hook.ofHandler, hf]
    dsimp only
    rw [Hook.ofFunction_of_offence rfl he]
    rfl

/-- A registration is refused or taken. -/
theorem Records.refused_or_takes (hc : c.Records name steps) (r : Registration κ) :
    (∃ e, r.Refused name (slots steps) e) ∨ ∃ c', c.Takes r c' := by
  rcases r with ⟨n, h⟩ | ⟨kind, h⟩ | i | _
  · rcases hblank : Text.isBlank n with _ | _
    · by_cases htaken : .function n ∈ slots steps
      · exact .inl ⟨_, .duplicate hblank htaken⟩
      · rcases hf : Function.ofHandler n h with e | f
        · exact .inl ⟨e, .signature hblank htaken hf⟩
        · exact .inr ⟨_, .function hblank (hc.get?_eq_none_iff.2 htaken) hf⟩
    · exact .inl ⟨_, .blank hblank⟩
  · by_cases htaken : .hook kind ∈ slots steps
    · exact .inl ⟨_, .occupied htaken⟩
    · rcases hf : Function.ofHandler kind.functionName h with e | f
      · exact .inl ⟨e, .hookSignature htaken hf⟩
      · rcases Hook.allows_or_offence kind f.paramTypes with hallows | ⟨e, he⟩
        · have hhook : Hook.ofHandler kind h = .ok ⟨f, kind⟩ := by
            rw [Hook.ofHandler, hf]
            exact Hook.ofFunction_of_allows hallows
          exact .inr ⟨_, .hook (hc.hook?_eq_none_iff.2 htaken) hhook⟩
        · exact .inl ⟨e, .hookShape htaken hf he⟩
  · exact .inr ⟨_, .info i⟩
  · exact .inr ⟨_, .makeDefault⟩

/-- **A registration fails exactly if it is refused.** -/
theorem Records.register_eq_error_iff (hc : c.Records name steps) :
    c.register r = .error e ↔ r.Refused name (slots steps) e := by
  refine ⟨fun h ↦ ?_, hc.register_of_refused⟩
  rcases hc.refused_or_takes r with ⟨e', hrefused⟩ | ⟨c', htakes⟩
  · cases h.symm.trans (hc.register_of_refused hrefused)
    exact hrefused
  · cases h.symm.trans (register_eq_ok_iff.2 htakes)

/-! ### Whole runs -/

/-- The registration at an index of `steps`, which follow `before`, is refused. -/
def RefusedAt (name : String) (before steps : List (Registration κ)) (i : ℕ)
    (e : RegistrationError) : Prop :=
  ∃ r, steps[i]? = some r ∧ r.Refused name (slots (before ++ steps.take i)) e

theorem not_refusedAt_nil {i : ℕ} : ¬ RefusedAt name before [] i e := by
  rintro ⟨r, hr, -⟩
  cases hr

theorem refusedAt_cons_zero : RefusedAt name before (r :: steps) 0 e ↔
    r.Refused name (slots before) e := by
  rw [RefusedAt, List.getElem?_cons_zero, List.take_zero, List.append_nil]
  exact ⟨fun ⟨_, hr, h⟩ ↦ Option.some.inj hr ▸ h, fun h ↦ ⟨r, rfl, h⟩⟩

theorem refusedAt_cons_succ {i : ℕ} : RefusedAt name before (r :: steps) (i + 1) e ↔
    RefusedAt name (before ++ [r]) steps i e := by
  rw [RefusedAt, RefusedAt, List.getElem?_cons_succ, List.take_succ_cons, List.append_assoc,
    List.singleton_append]

theorem first_refusedAt_cons : First (RefusedAt name before (r :: steps)) e ↔
    r.Refused name (slots before) e ∨ (∀ e', ¬ r.Refused name (slots before) e') ∧
      First (RefusedAt name (before ++ [r]) steps) e := by
  have hsucc : (fun i ↦ RefusedAt name before (r :: steps) (i + 1)) =
      RefusedAt name (before ++ [r]) steps :=
    funext fun _ ↦ funext fun _ ↦ propext refusedAt_cons_succ
  rw [first_iff, hsucc]
  simp only [refusedAt_cons_zero]

/-- **Registrations fail with the first one that is refused.** -/
theorem Records.registerAll_eq_error_iff (hc : c.Records name before) :
    c.registerAll steps = .error e ↔ First (RefusedAt name before steps) e := by
  induction steps generalizing c before with
  | nil =>
    exact iff_of_false (fun h ↦ by cases h) (not_first fun _ _ ↦ not_refusedAt_nil)
  | cons r rest ih =>
    rw [first_refusedAt_cons, Contract.registerAll]
    rcases hr : c.register r with e' | c'
    · have hrefused := hc.register_eq_error_iff.1 hr
      rw [or_iff_left fun h ↦ h.1 e' hrefused, ← hc.register_eq_error_iff, hr]
    · have hnone : ∀ e', ¬ r.Refused name (slots before) e' := fun e' h ↦ by
        cases hr.symm.trans (hc.register_eq_error_iff.2 h)
      rw [or_iff_right (hnone e), and_iff_right hnone]
      exact ih (hc.register (register_eq_ok_iff.1 hr))

/-- A sound registration that claims no slot twice is taken. -/
theorem Records.exists_takes (hc : c.Records name before) (hsound : r.Sound)
    (hnodup : (slots (before ++ [r])).Nodup) : ∃ c', c.Takes r c' := by
  rw [slots_append] at hnodup
  rcases hsound with ⟨hblank, hf⟩ | hhook | i | _
  · refine ⟨_, .function hblank (hc.get?_eq_none_iff.2 fun hmem ↦ ?_) hf⟩
    exact (List.nodup_append.1 hnodup).2.2 _ hmem _ List.mem_cons_self rfl
  · refine ⟨_, .hook (hc.hook?_eq_none_iff.2 fun hmem ↦ ?_) hhook⟩
    exact (List.nodup_append.1 hnodup).2.2 _ hmem _ List.mem_cons_self rfl
  · exact ⟨_, .info i⟩
  · exact ⟨_, .makeDefault⟩

/-- Sound registrations that claim no slot twice are taken. -/
theorem Records.exists_registerAll (hc : c.Records name before) (hsound : ∀ r ∈ steps, r.Sound)
    (hnodup : (slots (before ++ steps)).Nodup) : ∃ c', c.registerAll steps = .ok c' := by
  induction steps generalizing c before with
  | nil => exact ⟨c, rfl⟩
  | cons r rest ih =>
    obtain ⟨hr, hrest⟩ := List.forall_mem_cons.1 hsound
    rw [← List.singleton_append, ← List.append_assoc] at hnodup
    have hfirst : (slots (before ++ [r])).Nodup := by
      rw [slots_append] at hnodup
      exact (List.nodup_append.1 hnodup).1
    obtain ⟨middle, htakes⟩ := hc.exists_takes hr hfirst
    obtain ⟨c', hc'⟩ := ih (hc.register htakes) hrest hnodup
    refine ⟨c', ?_⟩
    rw [Contract.registerAll, register_eq_ok_iff.2 htakes]
    exact hc'

/-! ### Building -/

/-- **When a build succeeds.** No part of the condition depends on an order. -/
theorem exists_build_iff : (∃ c, build name steps = .ok c) ↔
    Text.isBlank name = false ∧ (∀ r ∈ steps, r.Sound) ∧ (slots steps).Nodup := by
  constructor
  · rintro ⟨c, hc⟩
    obtain ⟨hrecords, hblank⟩ := records_of_build hc
    exact ⟨hblank, hrecords.sound, hrecords.nodup⟩
  · rintro ⟨hblank, hsound, hnodup⟩
    obtain ⟨c, hc⟩ := (records_empty name).exists_registerAll hsound hnodup
    have hname : c.name = name := ((records_empty name).registerAll hc).name
    refine ⟨c, ?_⟩
    rw [build, hc]
    dsimp only
    rw [hname, hblank]
    rfl

/-- **Which error a build reports.** -/
theorem build_eq_error_iff : build name steps = .error e ↔
    First (RefusedAt name [] steps) e ∨
      (∀ i e', ¬ RefusedAt name [] steps i e') ∧ Text.isBlank name = true ∧
        e = .blankContractName := by
  have hempty := records_empty (κ := κ) name
  rw [build]
  rcases hc : (empty name : Contract κ).registerAll steps with e₁ | c₁
  · have hfirst := hempty.registerAll_eq_error_iff.1 hc
    have hsome : ¬ ∀ i e', ¬ RefusedAt name [] steps i e' := fun hnone ↦ not_first hnone hfirst
    rw [or_iff_left fun h ↦ hsome h.1, ← hempty.registerAll_eq_error_iff, hc]
  · have hnone : ∀ i e', ¬ RefusedAt name [] steps i e' := fun i e' h ↦ by
      obtain ⟨e₁, hfirst⟩ := exists_first h
      cases hc.symm.trans (hempty.registerAll_eq_error_iff.2 hfirst)
    rw [or_iff_right (not_first hnone), and_iff_right hnone]
    dsimp only
    rw [(hempty.registerAll hc).name]
    split
    · next hblank =>
      rw [and_iff_right hblank]
      exact ⟨fun h ↦ (Except.error.inj h).symm, fun h ↦ congrArg _ h.symm⟩
    · next hblank =>
      exact iff_of_false (fun h ↦ by cases h) fun h ↦ hblank h.1

/-! ### Other orders -/

/-- An invocation looks at the name, the functions and the hooks. -/
theorem invoke_congr {ι : Type} {c c' : Contract ι} (hname : c.name = c'.name)
    (hfunctions : c.functions = c'.functions) (hhook : ∀ kind, c.hook? kind = c'.hook? kind)
    (document : Option Document) (function : String) (args : List String) (s : Session ι) :
    c.invoke document function args s = c'.invoke document function args s := by
  have hbefore : c.before = c'.before := hhook .before
  have hunknown : c.unknown = c'.unknown := hhook .unknown
  have hafter : c.after = c'.after := hhook .after
  have hdispatch : c.dispatch document function args = c'.dispatch document function args := by
    funext s
    rw [dispatch, dispatch, hname, hfunctions, hunknown]
  rw [invoke, invoke, hbefore, hafter, hdispatch]

/-- Contracts that record the same registrations, in whatever order, hold the same functions and
hooks. -/
theorem Records.invoke_eq (hc : c.Records name steps) (hc' : c'.Records name steps')
    (hperm : steps.Perm steps') (document : Option Document) (function : String)
    (args : List String) (s : Session κ) :
    c.invoke document function args s = c'.invoke document function args s := by
  have hmem : ∀ r, r ∈ steps ↔ r ∈ steps' := fun _ ↦ hperm.mem_iff
  refine invoke_congr (hc.name.trans hc'.name.symm) (KeyMap.ext_get? fun n ↦ ?_)
    (fun kind ↦ ?_) document function args s
  · refine Option.ext fun f ↦ ?_
    rw [hc.function n f, hc'.function n f]
    simp only [hmem]
  · refine Option.ext fun hook ↦ ?_
    rw [hc.hook kind hook, hc'.hook kind hook]
    simp only [hmem]

/-- **Whether a build succeeds does not depend on the order.** -/
theorem exists_build_congr (hperm : steps.Perm steps') :
    (∃ c, build name steps = .ok c) ↔ ∃ c, build name steps' = .ok c := by
  have hslots : (slots steps).Perm (slots steps') := hperm.filterMap _
  rw [exists_build_iff, exists_build_iff, hslots.nodup_iff]
  simp only [hperm.mem_iff]

/-! ### The outcome -/

/-- **What is built.** The error is that of the first registration that is refused after those
before it, then that of a blank name. Where the name is not blank, every registration is sound and
none claims a slot that another one claims, a contract is built, and it holds exactly what was
registered. The order decides neither whether a contract is built nor how it answers. -/
theorem build_outcome (name : String) (steps : List (Registration κ)) :
    (∀ e, build name steps = .error e ↔
      First (RefusedAt name [] steps) e ∨
        (∀ i e', ¬ RefusedAt name [] steps i e') ∧ Text.isBlank name = true ∧
          e = .blankContractName) ∧
    ((∃ c, build name steps = .ok c) ↔
      Text.isBlank name = false ∧ (∀ r ∈ steps, r.Sound) ∧ (slots steps).Nodup) ∧
    (∀ c, build name steps = .ok c → c.Records name steps) ∧
    ∀ steps', steps.Perm steps' →
      ((∃ c, build name steps = .ok c) ↔ ∃ c, build name steps' = .ok c) ∧
      ∀ c c', build name steps = .ok c → build name steps' = .ok c' →
        ∀ document function args s,
          c.invoke document function args s = c'.invoke document function args s := by
  refine ⟨fun _ ↦ build_eq_error_iff, exists_build_iff, fun _ hc ↦ (records_of_build hc).1,
    fun steps' hperm ↦ ⟨exists_build_congr hperm, fun c c' hc hc' ↦ ?_⟩⟩
  exact (records_of_build hc).1.invoke_eq (records_of_build hc').1 hperm

end Contract

end ContractHost
