import ContractHost.Contract.Context
import ContractHost.Data.Access
import ContractHost.Proofs.Contract.Arguments
import ContractHost.Proofs.Contract.Outputs

/-!
# Calls keep the promises of signatures

A `Breach` says that a function did something else than its signature promised. For a typed handler
that registration accepts there is one breach left: the body asks for the invocation in a session
that has none (`TypedHandler.OwnBreach`). It is the body's own doing. The other breaches would mean
that two of the tables behind a data type disagree: how it is described, how it is read, how it is
taken out of an argument, what is declared as output and what is produced.

- Arguments that were accepted fill the parameters (`takeParams_of_accepted`).
- What a result of an accepted return type produces can be split again (`splitOutputs_produce`).
- A handler that takes the context is registered as a function that uses it
  (`Function.Inspected.usesContext`).

`typed_keep_promises` puts these together for calls, for hooks and for whole invocations.
-/

namespace ContractHost

variable {κ : Type}

namespace Function

/-! ### Outputs -/

/-- **What is produced can be split.** -/
theorem splitOutputs_produce {f : Function κ} {r : ReturnType} (h : r.Shaped f.returns)
    (result : r.Result) : ∃ split, f.splitOutputs (r.produce result) = .ok split := by
  obtain ⟨name, usesContext, params, returns, run⟩ := f
  cases h with
  | nothing => exact ⟨_, rfl⟩
  | value t => exact ⟨_, rfl⟩
  | errorOnly => cases result <;> exact ⟨_, rfl⟩
  | valueOrError t => cases result <;> exact ⟨_, rfl⟩

/-- What a typed handler produces is answered without a breach. -/
theorem respond_produce_ne_breach {f : Function κ} {r : ReturnType} (h : r.Shaped f.returns)
    (result : r.Result) (metadata : Option Transaction) (components : Components) (b : Breach) :
    f.respond metadata components (r.produce result) ≠ .error (.breach b) := by
  obtain ⟨split, hsplit⟩ := splitOutputs_produce h result
  intro hbreach
  rw [respond_eq_breach_iff, hsplit] at hbreach
  cases hbreach

end Function

/-! ### Calls, hooks and invocations -/

/-- The breach that is the body's own: it asks for an invocation that the session does not have. -/
def TypedHandler.OwnBreach (h : TypedHandler κ) (s : Session κ) (b : Breach) : Prop :=
  b = .missingInvocation ∧ h.usesInvocation = true ∧ s.invocation = none

/-- Performing a registered typed handler on arguments that fill its parameters. -/
theorem Function.Inspected.perform_breach {h : TypedHandler κ} {name : String} {f : Function κ}
    (hf : Function.Inspected h name f) {args : Arguments} {data : List Datum}
    (hcontext : args.hasContext = f.usesContext)
    (hargs : takeParams h.params args.values = .ok data)
    {metadata : Option Transaction} {components : Components} {s : Session κ} {b : Breach}
    (hb : (f.perform metadata components args s).1 = .error (.breach b)) : h.OwnBreach s b := by
  unfold Function.perform at hb
  rw [hf.run] at hb
  rcases h.run_of_takeParams (hcontext.trans hf.usesContext) hargs s with ⟨hrun, hown⟩ | hrun
  · rw [hrun] at hb
    cases hb
    exact ⟨rfl, hown⟩
  · rw [hrun] at hb
    exact absurd hb (Function.respond_produce_ne_breach hf.shaped _ _ _ _)

theorem Function.Inspected.call_breach {h : TypedHandler κ} {name : String} {f : Function κ}
    (hf : Function.Inspected h name f) {metadata : Option Transaction} {components : Components}
    {wire : List String} {s : Session κ} {b : Breach}
    (hb : (f.call metadata components wire s).1 = .error (.breach b)) : h.OwnBreach s b := by
  unfold Function.call at hb
  split at hb
  · cases hb
  · next args hargs =>
    obtain ⟨hcontext, haccepted⟩ := Function.decodeArguments_spec hargs
    rw [hf.params] at haccepted
    obtain ⟨data, hdata, -⟩ := takeParams_of_accepted haccepted
    exact hf.perform_breach hcontext hdata hb

/-- A hook's function takes nothing, or one dynamic value. -/
theorem Hook.params_of_ofFunction {f : Function κ} {kind : HookKind} {hook : Hook κ}
    (hh : Hook.ofFunction f kind = .ok hook) :
    hook = ⟨f, kind⟩ ∧ (f.params = [] ∨ kind = .after ∧ ∃ t, f.params = [t]) := by
  unfold Hook.ofFunction Function.paramTypes at hh
  split at hh
  · next hparams =>
    cases hh
    exact ⟨rfl, .inl (List.map_eq_nil_iff.1 hparams)⟩
  · next hparams =>
    cases hh
    obtain ⟨t, ts, hts, -, hnil⟩ := List.map_eq_cons_iff.1 hparams
    rw [List.map_eq_nil_iff.1 hnil] at hts
    exact ⟨rfl, .inr ⟨rfl, t, hts⟩⟩
  · cases hh
  · cases hh
  · cases hh

theorem Function.Inspected.hook_breach {h : TypedHandler κ} {name : String} {f : Function κ}
    (hf : Function.Inspected h name f) {kind : HookKind} {hook : Hook κ}
    (hh : Hook.ofFunction f kind = .ok hook) (hafter : kind = .after → ∀ p ∈ h.params, p = .dynamic)
    {data : Option Value} {s : Session κ} {b : Breach}
    (hb : (hook.call data s).1 = .error (.breach b)) : h.OwnBreach s b := by
  obtain ⟨rfl, hparams⟩ := Hook.params_of_ofFunction hh
  unfold Hook.call Function.callValues at hb
  rw [hf.params] at hparams
  obtain ⟨taken, htaken⟩ : ∃ taken, takeParams h.params
      (if f.params = [] then [] else [data.getD .undefined]) = .ok taken := by
    rw [hf.params]
    rcases hparams with hnil | ⟨rfl, t, ht⟩
    · exact ⟨[], by rw [hnil]; rfl⟩
    · rw [ht] at hafter ⊢
      cases hafter rfl t List.mem_cons_self
      exact ⟨_, rfl⟩
  exact hf.perform_breach rfl htaken hb

theorem Hook.Typed.breach [ContextType κ] {P : TypedHandler κ → Prop} {hook : Hook κ}
    (hh : hook.Typed P) {data : Option Value} {s : Session κ} {b : Breach}
    (hb : (hook.call data s).1 = .error (.breach b)) : b = .missingInvocation := by
  obtain ⟨h, -, hhook, hafter⟩ := hh
  obtain ⟨f, hf, hhook⟩ := Hook.exists_of_ofHandler hhook
  exact ((Function.inspected_of_ofHandler hf).hook_breach hhook hafter hb).1

namespace Contract.Typed

variable [ContextType κ] {P : TypedHandler κ → Prop} {c : Contract κ}

theorem breach_of_dispatch (hc : c.Typed P) {document : Option Document} {function : String}
    {args : List String} {s : Session κ} {b : Breach}
    (hb : (c.dispatch document function args s).1 = .error (.breach b)) :
    b = .missingInvocation := by
  unfold Contract.dispatch at hb
  split at hb
  · next f hf =>
    obtain ⟨h, -, hfunction⟩ := hc.function hf
    exact ((Function.inspected_of_ofHandler hfunction).call_breach hb).1
  · split at hb
    · next hook hhook => exact (hc.hook .unknown hhook).breach hb
    · cases hb

theorem breach_of_runHook (hc : c.Typed P) (kind : HookKind) {data : Option Value} {s : Session κ}
    {b : Breach} (hb : (Contract.runHook (c.hook? kind) data s).1 = .error (.breach b)) :
    b = .missingInvocation := by
  unfold Contract.runHook at hb
  split at hb
  · cases hb
  · next hook hhook =>
    split at hb
    · next e s' he =>
      cases hb
      exact (hc.hook kind hhook).breach (congrArg Prod.fst he)
    · cases hb

theorem breach_of_invoke (hc : c.Typed P) {document : Option Document} {function : String}
    {args : List String} {s : Session κ} {b : Breach}
    (hb : (c.invoke document function args s).1 = .error (.breach b)) : b = .missingInvocation := by
  unfold Contract.invoke at hb
  split at hb
  · next e s' he =>
    cases hb
    exact hc.breach_of_runHook .before (congrArg Prod.fst he)
  · split at hb
    · next e s' he =>
      cases hb
      exact hc.breach_of_dispatch (congrArg Prod.fst he)
    · split at hb
      · next e s' he =>
        cases hb
        exact hc.breach_of_runHook .after (congrArg Prod.fst he)
      · cases hb

end Contract.Typed

/-- **Typed handlers keep the promises of their signatures.** A call of a registered typed handler,
whatever the metadata, the components, the wire strings and the session, breaches no more than the
body does on its own; so does a hook in any part it is accepted for, with a dynamic parameter if it
has one; and an invocation of a contract that is built from typed handlers breaches only where a
body asks for an invocation that its session has lost. -/
theorem typed_keep_promises [ContextType κ] (h : TypedHandler κ) (name : String) (f : Function κ)
    (hf : Function.ofHandler name h.toHandler = .ok f) :
    (∀ metadata components wire s b,
      (f.call metadata components wire s).1 = .error (.breach b) → h.OwnBreach s b) ∧
    (∀ kind hook, Hook.ofFunction f kind = .ok hook →
      (kind = .after → ∀ p ∈ h.params, p = .dynamic) → ∀ data s b,
        (hook.call data s).1 = .error (.breach b) → h.OwnBreach s b) ∧
    ∀ contract steps c, (∀ r ∈ steps, Registration.Typed (κ := κ) (fun _ ↦ True) r) →
      Contract.build contract steps = .ok c → ∀ document function args s b,
        (c.invoke document function args s).1 = .error (.breach b) → b = .missingInvocation := by
  have hinspected := Function.inspected_of_ofHandler hf
  refine ⟨fun _ _ _ _ _ hb ↦ hinspected.call_breach hb,
    fun _ _ hh hafter _ _ _ hb ↦ hinspected.hook_breach hh hafter hb, ?_⟩
  intro contract steps c hsteps hbuild document function args s b hb
  exact (Contract.typed_of_build hsteps hbuild).breach_of_invoke hb

/-- A handler that takes the context and a name, and refuses the empty name. -/
def greeter : TypedHandler TransactionContext where
  takesContext := true
  usesInvocation := false
  params := [.string]
  returns := .valueOrError .string
  body data s :=
    if stringAt data 0 = "" then (.error "No name", s)
    else (.ok (.string ("Hello " ++ stringAt data 0)), s.note (stringAt data 0))

/-- The greeter never breaches its signature, and neither does the contract it is all of. -/
theorem typed_keep_promises_greeter :
    ∃ f c, Function.ofHandler "Greet" greeter.toHandler = .ok f ∧
      Contract.build "Greeting" [.function "Greet" greeter.toHandler] = .ok c ∧
      (∀ metadata components wire s b,
        (f.call metadata components wire s).1 ≠ .error (.breach b)) ∧
      ∀ document function args s b,
        (c.invoke document function args s).1 = .error (.breach b) → b = .missingInvocation := by
  obtain ⟨hcall, -, hinvoke⟩ := typed_keep_promises greeter "Greet" _ rfl
  refine ⟨_, _, rfl, rfl, fun metadata components wire s b hb ↦ ?_,
    hinvoke "Greeting" [.function "Greet" greeter.toHandler] _ ?_ rfl⟩
  · exact absurd (hcall metadata components wire s b hb).2.1 (by decide)
  · intro r hr
    rw [List.mem_singleton.1 hr]
    exact ⟨greeter, trivial, rfl⟩

end ContractHost
