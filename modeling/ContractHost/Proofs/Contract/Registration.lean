import ContractHost.Contract.Lifecycle
import ContractHost.Proofs.Contract.Records
import ContractHost.Proofs.Contract.Signatures

/-!
# What registration establishes

A function is inspected once, when it is registered, and one inversion tells what was found
(`Function.eq_of_ofHandler`). So the parameters of a function have valid types, and so has its
success value (`Function.validate_of_mem_params`, `Function.validate_of_ofHandler`). For a typed
handler the inspection settles everything a call relies on (`Function.Inspected`): the function has
the parameters of the handler, takes the context exactly if the handler does, and its outputs have
one of four shapes (`ReturnType.Shaped`).

A contract that is built records its registrations, so what holds of each of them by itself holds of
the contract. `Contract.Typed` is what holds of a contract built from typed handlers
(`Contract.typed_of_build`). Whatever the handlers are, the functions of a contract are those of its
registrations (`Contract.functions_of_build`), none has a blank name
(`Contract.isBlank_of_build`), and every hook that is registered is in its place
(`Contract.hook_of_build`).
-/

namespace ContractHost

variable {κ : Type}

/-! ### Outputs -/

/-- The return types that registration accepts, with their shapes. -/
inductive ReturnType.Shaped : ReturnType → ReturnShape → Prop
  | nothing : Shaped .nothing ⟨none, false⟩
  | value (t : DataType) : Shaped (.value t) ⟨some t.ty, false⟩
  | errorOnly : Shaped .errorOnly ⟨none, true⟩
  | valueOrError (t : DataType) : Shaped (.valueOrError t) ⟨some t.ty, true⟩

/-- No data type is described as an error. -/
theorem DataType.ty_ne_error (t : DataType) : t.ty ≠ .error := by
  cases t <;> simp [DataType.ty]

section Outputs

variable {shape : ReturnShape} {t u v : Ty}

theorem ReturnShape.Describes.eq_of_single (h : shape.Describes [t]) (ht : t ≠ .error) :
    shape = ⟨some t, false⟩ := by
  rcases h with _ | _ | _
  · exact absurd rfl ht
  · rfl

theorem ReturnShape.Describes.eq_of_pair (h : shape.Describes [t, u]) :
    u = .error ∧ shape = ⟨some t, true⟩ := by
  cases h
  exact ⟨rfl, rfl⟩

theorem ReturnShape.not_describes_triple : ¬ shape.Describes [t, u, v] := by
  rintro ⟨⟩

/-- The success value that a function returns has a valid type. -/
theorem ReturnShape.Describes.validate {outputs : List Ty} (h : shape.Describes outputs)
    (ht : shape.success = some t) : t.validate [] = .ok () := by
  rcases h with _ | _ | hvalid | hvalid
  · cases ht
  · cases ht
  · exact Option.some.inj ht ▸ hvalid
  · exact Option.some.inj ht ▸ hvalid

/-- **What a typed handler may return.** -/
theorem ReturnShape.Describes.shaped {r : ReturnType} (h : shape.Describes r.outputs) :
    r.Shaped shape := by
  cases r with
  | nothing =>
    have hnothing : shape.Describes [] := h
    cases hnothing
    exact .nothing
  | value t =>
    rw [h.eq_of_single t.ty_ne_error]
    exact .value t
  | errorOnly =>
    have herror : shape.Describes [.error] := h
    rcases herror with _ | _ | hvalid
    · exact .errorOnly
    · exact absurd rfl (ne_error_of_validate hvalid)
  | valueOrError t =>
    rw [h.eq_of_pair.2]
    exact .valueOrError t
  | pair s t => exact absurd h.eq_of_pair.1 t.ty_ne_error
  | triple s t u => exact absurd h ReturnShape.not_describes_triple

end Outputs

/-! ### Inputs -/

section Inputs

variable {name : String} {leads : Bool} {inputs types : List Ty}

theorem LedBy.length {context : Option Ty} (h : LedBy context inputs leads types) :
    inputs.length = leads.toNat + types.length := by
  rcases h with _ | _
  · exact Nat.add_comm _ _
  · exact (Nat.zero_add _).symm

/-- The types of the parameters are the inputs without the context. -/
theorem LedBy.filter {context : Ty} (h : LedBy (some context) inputs leads types)
    (hparameters : ∀ t ∈ types, IsParameter (some context) t) :
    types = inputs.filter (· ≠ context) := by
  have hkeep : types.filter (· ≠ context) = types :=
    List.filter_eq_self.2 fun t ht ↦ decide_eq_true fun heq ↦
      (hparameters t ht).1 (congrArg some heq.symm)
  rcases h with ht | _
  · cases ht
    rw [List.filter_cons_of_neg (by simp), hkeep]
  · exact hkeep.symm

end Inputs

/-! ### Functions -/

/-- **What registering a handler establishes.** Its signature is admitted, and its decoders read
exactly the parameters that were found. -/
theorem Function.eq_of_ofHandler [ContextType κ] {name : String} {h : Handler κ} {f : Function κ}
    (hf : Function.ofHandler name h = .ok f) :
    h.signature.Admits (some (contextTy κ)) f.usesContext f.paramTypes f.returns ∧
      f.name = name ∧ f.params = h.decoders ∧ f.run = h.run :=
  inspect_eq_ok_iff.1 hf

/-- A function has the inputs of its handler as parameters, the context left out. -/
theorem Function.paramTypes_of_ofHandler [ContextType κ] {name : String} {h : Handler κ}
    {f : Function κ} (hf : Function.ofHandler name h = .ok f) :
    f.paramTypes = h.signature.inputs.filter (· ≠ contextTy κ) := by
  obtain ⟨hadmits, -⟩ := eq_of_ofHandler hf
  exact hadmits.inputs.filter hadmits.parameters

/-- A function reads its parameters with the decoders of its handler. -/
theorem Function.params_of_ofHandler [ContextType κ] {name : String} {h : Handler κ}
    {f : Function κ} (hf : Function.ofHandler name h = .ok f) : f.params = h.decoders := by
  obtain ⟨-, -, hparams, -⟩ := eq_of_ofHandler hf
  exact hparams

/-- The success value that a registered function returns has a valid type. -/
theorem Function.validate_of_ofHandler [ContextType κ] {name : String} {h : Handler κ}
    {f : Function κ} {t : Ty} (hf : Function.ofHandler name h = .ok f)
    (ht : f.returns.success = some t) : t.validate [] = .ok () := by
  obtain ⟨hadmits, -⟩ := eq_of_ofHandler hf
  exact hadmits.outputs.validate ht

/-- The parameters of a registered function have valid types, where the context is allowed in
addition. -/
theorem Function.validate_of_mem_params [ContextType κ] {name : String} {h : Handler κ}
    {f : Function κ} {t : DataType} (hf : Function.ofHandler name h = .ok f) (ht : t ∈ f.params) :
    t.ty.validate [contextTy κ] = .ok () := by
  obtain ⟨hadmits, -⟩ := eq_of_ofHandler hf
  exact (hadmits.parameters t.ty (List.mem_map_of_mem ht)).2

/-- What the inspection of a typed handler finds. -/
structure Function.Inspected (h : TypedHandler κ) (name : String) (f : Function κ) : Prop where
  name : f.name = name
  params : f.params = h.params
  usesContext : f.usesContext = h.takesContext
  run : f.run = h.run
  shaped : h.returns.Shaped f.returns

/-- **Registering a typed handler.** A handler without context whose first parameter is described
like the context does not get here: its decoders are one more than its parameters. -/
theorem Function.inspected_of_ofHandler [ContextType κ] {h : TypedHandler κ} {name : String}
    {f : Function κ} (hf : Function.ofHandler name h.toHandler = .ok f) :
    Function.Inspected h name f := by
  obtain ⟨hadmits, hname, hparams, hrun⟩ := eq_of_ofHandler hf
  refine ⟨hname, hparams, ?_, hrun, hadmits.outputs.shaped⟩
  have hlength : f.paramTypes.length = h.params.length := by
    rw [paramTypes, hparams, List.length_map]
    rfl
  have hcount : f.usesContext.toNat + f.paramTypes.length =
      h.takesContext.toNat + h.params.length := by
    rw [← hadmits.inputs.length]
    show (_ ++ _ : List Ty).length = _
    rw [List.length_append, List.length_map]
    cases h.takesContext <;> rfl
  have hinj : ∀ a b : Bool, a.toNat = b.toNat → a = b := by decide
  exact hinj _ _ (by omega)

/-- A hook is a registered function that can play its part. -/
theorem Hook.exists_of_ofHandler [ContextType κ] {kind : HookKind} {h : Handler κ} {hook : Hook κ}
    (hhook : Hook.ofHandler kind h = .ok hook) :
    ∃ f, Function.ofHandler kind.functionName h = .ok f ∧ Hook.ofFunction f kind = .ok hook := by
  unfold Hook.ofHandler at hhook
  split at hhook
  · cases hhook
  · next f hf => exact ⟨f, hf, hhook⟩

theorem Hook.kind_of_ofHandler [ContextType κ] {kind : HookKind} {h : Handler κ} {hook : Hook κ}
    (hhook : Hook.ofHandler kind h = .ok hook) : hook.kind = kind := by
  obtain ⟨f, -, hf⟩ := exists_of_ofHandler hhook
  unfold Hook.ofFunction at hf
  split at hf <;> cases hf <;> rfl

/-! ### Contracts -/

/-- A registration of a typed handler that satisfies `P`. An after hook takes a dynamic value or
nothing. -/
def Registration.Typed (P : TypedHandler κ → Prop) [ContextType κ] : Registration κ → Prop
  | .function _ h => ∃ t : TypedHandler κ, P t ∧ h = t.toHandler
  | .hook kind h => ∃ t : TypedHandler κ, P t ∧ h = t.toHandler ∧
      (kind = .after → ∀ p ∈ t.params, p = .dynamic)
  | .info _ => True
  | .makeDefault => True

/-- A hook made from a typed handler that satisfies `P`. -/
def Hook.Typed (P : TypedHandler κ → Prop) [ContextType κ] (hook : Hook κ) : Prop :=
  ∃ t : TypedHandler κ, P t ∧ Hook.ofHandler hook.kind t.toHandler = .ok hook ∧
    (hook.kind = .after → ∀ p ∈ t.params, p = .dynamic)

/-- A contract all of whose functions and hooks were registered from typed handlers that satisfy
`P`. -/
structure Contract.Typed (P : TypedHandler κ → Prop) [ContextType κ] (c : Contract κ) : Prop where
  function : ∀ {name f}, c.functions.get? name = some f →
    ∃ t : TypedHandler κ, P t ∧ Function.ofHandler name t.toHandler = .ok f
  hook : ∀ (kind : HookKind) {hook}, c.hook? kind = some hook → hook.Typed P

namespace Contract

variable [ContextType κ] {P : TypedHandler κ → Prop} {c : Contract κ} {name : String}
  {steps : List (Registration κ)}

/-- **A contract that is built from typed handlers is typed.** -/
theorem typed_of_build (hsteps : ∀ r ∈ steps, r.Typed P) (h : build name steps = .ok c) :
    c.Typed P := by
  obtain ⟨hrecords, -⟩ := records_of_build h
  refine ⟨fun {n f} hget ↦ ?_, fun kind {hook} hget ↦ ?_⟩
  · obtain ⟨handler, hmem, hf⟩ := (hrecords.function n f).1 hget
    obtain ⟨t, ht, rfl⟩ := hsteps _ hmem
    exact ⟨t, ht, hf⟩
  · obtain ⟨handler, hmem, hhook⟩ := (hrecords.hook kind hook).1 hget
    obtain ⟨t, ht, rfl, hafter⟩ := hsteps _ hmem
    have hkind := Hook.kind_of_ofHandler hhook
    exact ⟨t, ht, hkind.symm ▸ hhook, hkind.symm ▸ hafter⟩

/-- A contract has the name it is built under. -/
theorem name_of_build (h : build name steps = .ok c) : c.name = name :=
  (records_of_build h).1.name

/-- **The functions of a contract that is built are those of its registrations.** -/
theorem functions_of_build (h : build name steps = .ok c) :
    (∀ {function handler}, .function function handler ∈ steps →
        ∃ f, Function.ofHandler function handler = .ok f ∧ c.functions.get? function = some f) ∧
      ∀ {function f}, c.functions.get? function = some f →
        ∃ handler, .function function handler ∈ steps ∧
          Function.ofHandler function handler = .ok f := by
  obtain ⟨hrecords, -⟩ := records_of_build h
  refine ⟨fun {function handler} hmem ↦ ?_, (hrecords.function _ _).1⟩
  obtain ⟨f, hf⟩ := hrecords.exists_function hmem
  exact ⟨f, hf, (hrecords.function function f).2 ⟨handler, hmem, hf⟩⟩

/-- **No function of a contract that is built has a blank name.** -/
theorem isBlank_of_build (h : build name steps = .ok c) {function : String} {f : Function κ}
    (hf : c.functions.get? function = some f) : Text.isBlank function = false := by
  obtain ⟨handler, hmem, -⟩ := (functions_of_build h).2 hf
  rcases (records_of_build h).1.sound _ hmem with ⟨hblank, -⟩
  exact hblank

/-- **A hook that is registered is a hook of the contract that is built.** -/
theorem hook_of_build (h : build name steps = .ok c) {kind : HookKind} {handler : Handler κ}
    (hmem : .hook kind handler ∈ steps) :
    ∃ hook, Hook.ofHandler kind handler = .ok hook ∧ c.hook? kind = some hook := by
  obtain ⟨hrecords, -⟩ := records_of_build h
  obtain ⟨hook, hhook⟩ := hrecords.exists_hook hmem
  exact ⟨hook, hhook, (hrecords.hook kind hook).2 ⟨handler, hmem, hhook⟩⟩

end Contract

end ContractHost
