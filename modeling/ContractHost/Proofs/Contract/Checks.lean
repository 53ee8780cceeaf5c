import ContractHost.Proofs.Contract.Arguments
import ContractHost.Proofs.Contract.Refusals
import ContractHost.Proofs.Document.Acceptance

/-!
# Calls under metadata that describe them

Metadata add checks to a call: the number of parameters, one schema for each argument, one for the
success value. A check can fail in ways that no call without metadata fails
(`CallError.FromMetadata`).

**A call of a function under a transaction that describes it is the call without metadata**
(`Function.Inspected.call_described`). Both conversions of a call go into it: an argument that was
read is a document of the parameter's type (`accepts_of_decodeArgument`), and what a body returns is
one of the declared type. The schema of a type accepts the documents of the type, so every check
that is made succeeds.

The bodies have to be faithful (`TypedHandler.Faithful`): they return what their type says, and
their types show exactly the fields they write. The values have to be presentable
(`Value.Presentable`): no schema accepts what JSON cannot express.
-/

namespace ContractHost

variable {κ : Type}

/-! ### Faithful bodies and presentable values -/

namespace ReturnType

/-- The data types of the values that a return type has. -/
def types : ReturnType → List DataType
  | nothing => []
  | value t => [t]
  | errorOnly => []
  | valueOrError t => [t]
  | pair s t => [s, t]
  | triple s t u => [s, t, u]

/-- A result is one of the return type. -/
def Fits : (r : ReturnType) → r.Result → Prop
  | nothing, () => True
  | value t, d => Datum.Fits t d
  | errorOnly, _ => True
  | valueOrError t, .ok d => Datum.Fits t d
  | valueOrError _, .error _ => True
  | pair s t, (a, b) => Datum.Fits s a ∧ Datum.Fits t b
  | triple s t u, (a, b, c) => Datum.Fits s a ∧ Datum.Fits t b ∧ Datum.Fits u c

end ReturnType

/-- A typed handler keeps to its types: from data of its parameter types its body makes a result of
its return type, and none of these types has a field that is described but not written. -/
structure TypedHandler.Faithful (h : TypedHandler κ) : Prop where
  keeps : ∀ data s, List.Forall₂ Datum.Fits h.params data → h.returns.Fits (h.body data s).1
  params : ∀ t ∈ h.params, t.HidesNothing
  returns : ∀ t ∈ h.returns.types, t.HidesNothing

/-- A value has a document, and none of its numbers is lost in it. -/
structure Value.Presentable (v : Value) : Prop where
  finite : v.Finite
  written : ∃ j, v.toJson? = some j

/-! ### Arguments -/

/-- **What is read for a parameter is a document of its type.** The string that a dynamic parameter
gets is one, since its type admits every document. -/
theorem accepts_of_decodeArgument {t : DataType} {raw : String} {v : Value} {j : Json}
    (hplain : t.HidesNothing) (hv : decodeArgument t raw = .ok v) (hfinite : v.Finite)
    (hj : v.toJson? = some j) : t.ty.Accepts j := by
  rcases decodeArgument_spec hv with ⟨d, hfits, rfl⟩ | ⟨rfl, -⟩
  · exact Value.accepts_toJson? hplain hfits hfinite hj
  · exact trivial

section Described

variable {known : List RecordType} {components : Components} (hsound : components.Sound known)
include hsound

theorem checkArgument_described {t : DataType} {p : Parameter} {raw : String} {v : Value}
    (hp : t.ty.DescribedBy components p.schema) (hplain : t.HidesNothing)
    (hv : decodeArgument t raw = .ok v) (hpresentable : v.Presentable) :
    checkArgument components p t raw v = .ok () := by
  obtain ⟨j, hj⟩ := hpresentable.written
  have haccepts : t.ty.Accepts j := accepts_of_decodeArgument hplain hv hpresentable.finite hj
  rw [checkArgument, hj]
  dsimp only
  rw [hp.compile hsound]
  dsimp only
  rw [hp.validate hsound haccepts]

/-- **Reading arguments under parameters that describe them.** -/
theorem acceptArguments_described {params : List DataType} {parameters : List Parameter}
    (hparams : List.Forall₂ (fun t p ↦ t.ty.DescribedBy components p.schema) params parameters) :
    ∀ {wire : List String}, (∀ t ∈ params, t.HidesNothing) →
      (∀ t raw v, (t, raw) ∈ params.zip wire → decodeArgument t raw = .ok v → v.Presentable) →
      acceptArguments components (params.zip (parameters.map some)) wire =
        acceptArguments ∅ (params.map fun t ↦ (t, none)) wire := by
  induction hparams with
  | nil =>
    intro wire _ _
    cases wire <;> rfl
  | @cons t p params parameters hp _ ih =>
    intro wire hplain hpresentable
    cases wire with
    | nil => rfl
    | cons raw wire =>
      have hrest := ih (fun t' ht' ↦ hplain t' (.tail _ ht'))
        fun t' raw' v' hmem ↦ hpresentable t' raw' v' (.tail _ hmem)
      -- A string that cannot be read is refused before anything is checked.
      have hhead : acceptArgument components t (some p) raw = acceptArgument ∅ t none raw := by
        cases hv : decodeArgument t raw with
        | error e => simp only [acceptArgument, hv]
        | ok v =>
          have hcheck := checkArgument_described hsound hp (hplain t List.mem_cons_self) hv
            (hpresentable t raw v List.mem_cons_self hv)
          simp only [acceptArgument, hv, hcheck]
          rfl
      simp only [List.map_cons, List.zip_cons_cons, acceptArguments, hhead, hrest]

theorem Function.decodeArguments_described {f : Function κ} {name : String} {tx : Transaction}
    (htx : Transaction.Describes components name ⟨f.paramTypes, f.returns.success⟩ tx)
    (hplain : ∀ t ∈ f.params, t.HidesNothing) {wire : List String}
    (hpresentable : ∀ t raw v, (t, raw) ∈ f.params.zip wire → decodeArgument t raw = .ok v →
      v.Presentable) :
    f.decodeArguments (some tx) components wire = f.decodeArguments none ∅ wire := by
  have hparams : List.Forall₂ (fun t p ↦ t.ty.DescribedBy components p.schema) f.params
      tx.parameters := List.forall₂_map_left_iff.1 htx.parameters
  have hlength : tx.parameters.length = f.params.length := hparams.length_eq.symm
  simp only [decodeArguments, Option.map_some, Option.getD_some, Option.map_none, Option.getD_none,
    hlength, acceptArguments_described hsound hparams hplain hpresentable]

/-! ### Success values -/

theorem checkSuccess_described {t : DataType} {d : Datum} {r : Returns}
    (hr : t.ty.DescribedBy components r.schema) (hplain : t.HidesNothing) (hfits : Datum.Fits t d)
    (hpresentable : (Value.ofDatum t d).Presentable) :
    checkSuccess components r (.ofDatum t d) = .ok () := by
  obtain ⟨j, hj⟩ := hpresentable.written
  have haccepts : t.ty.Accepts j := Value.accepts_toJson? hplain hfits hpresentable.finite hj
  rw [checkSuccess, hj]
  dsimp only
  rw [hr.compile hsound]
  dsimp only
  rw [hr.validate hsound haccepts]

theorem answerSuccess_described {t : DataType} {d : Datum} {tx : Transaction}
    (htx : Option.Rel (fun t r ↦ Ty.DescribedBy components t r.schema) (some t.ty) tx.returns)
    (hplain : t.HidesNothing) (hfits : Datum.Fits t d)
    (hpresentable : ∀ answer, answerSuccess none ∅ t.ty (.ofDatum t d) = .ok answer →
      answer.2.Presentable) :
    answerSuccess (some tx) components t.ty (.ofDatum t d) =
      answerSuccess none ∅ t.ty (.ofDatum t d) := by
  obtain ⟨r, hreturns, hr⟩ : ∃ r, tx.returns = some r ∧ t.ty.DescribedBy components r.schema := by
    generalize tx.returns = returns at htx
    cases htx with
    | some hr => exact ⟨_, rfl, hr⟩
  unfold answerSuccess at hpresentable ⊢
  split
  · rfl
  · next hnil =>
    rw [if_neg hnil] at hpresentable
    cases hrender : renderSuccess t.ty (.ofDatum t d) with
    | error e => rfl
    | ok text =>
      rw [hrender] at hpresentable
      have hcheck := checkSuccess_described hsound hr hplain hfits (hpresentable _ rfl)
      simp only [Option.bind_some, hreturns, hcheck]
      rfl

theorem Function.respond_described_of_splitOutputs {f : Function κ} {outputs : List Output}
    {t : DataType} {d : Datum} {tx : Transaction} (hsuccess : f.returns.success = some t.ty)
    (hsplit : f.splitOutputs outputs = .ok (some (.ofDatum t d), none))
    (htx : Option.Rel (fun t r ↦ Ty.DescribedBy components t r.schema) (some t.ty) tx.returns)
    (hplain : t.HidesNothing) (hfits : Datum.Fits t d)
    (hpresentable : ∀ answer, f.respond none ∅ outputs = .ok answer → answer.2.Presentable) :
    f.respond (some tx) components outputs = f.respond none ∅ outputs := by
  have hanswer := respond_of_splitOutputs hsuccess hsplit
  rw [hanswer, hanswer, answerSuccess_described hsound htx hplain hfits]
  intro answer h
  refine hpresentable answer ?_
  rw [hanswer, h]
  rfl

/-- **Answering with what a faithful body returned.** An answer without a success value is not
checked. -/
theorem Function.respond_described {f : Function κ} {r : ReturnType} (hr : r.Shaped f.returns)
    {tx : Transaction}
    (htx : Option.Rel (fun t r ↦ Ty.DescribedBy components t r.schema) f.returns.success tx.returns)
    (hplain : ∀ t ∈ r.types, t.HidesNothing) {result : r.Result} (hresult : r.Fits result)
    (hpresentable : ∀ answer, f.respond none ∅ (r.produce result) = .ok answer →
      answer.2.Presentable) :
    f.respond (some tx) components (r.produce result) =
      f.respond none ∅ (r.produce result) := by
  obtain ⟨name, usesContext, params, returns, run⟩ := f
  cases hr with
  | nothing => rfl
  | errorOnly => cases result <;> rfl
  | value t =>
    exact respond_described_of_splitOutputs hsound rfl rfl htx (hplain t List.mem_cons_self)
      hresult hpresentable
  | valueOrError t =>
    cases result with
    | error e => rfl
    | ok d =>
      exact respond_described_of_splitOutputs hsound rfl rfl htx (hplain t List.mem_cons_self)
        hresult hpresentable

/-! ### Calls -/

/-- **A call under a transaction that describes the function** is the call without metadata. -/
theorem Function.Inspected.call_described {h : TypedHandler κ} {name : String} {f : Function κ}
    (hf : Function.Inspected h name f) (hfaithful : h.Faithful) {tx : Transaction}
    (htx : Transaction.Describes components name ⟨f.paramTypes, f.returns.success⟩ tx)
    {wire : List String} {s : Session κ}
    (hargs : ∀ t raw v, (t, raw) ∈ f.params.zip wire → decodeArgument t raw = .ok v →
      v.Presentable)
    (hsuccess : ∀ answer, (f.call none ∅ wire s).1 = .ok answer → answer.2.Presentable) :
    f.call (some tx) components wire s = f.call none ∅ wire s := by
  have hdecode := Function.decodeArguments_described hsound htx
    (fun t ht ↦ hfaithful.params t (hf.params ▸ ht)) hargs
  unfold Function.call at hsuccess ⊢
  rw [hdecode]
  cases hgiven : f.decodeArguments none ∅ wire with
  | error e => rfl
  | ok args =>
    rw [hgiven] at hsuccess
    obtain ⟨hcontext, haccepted⟩ := Function.decodeArguments_spec hgiven
    rw [hf.params] at haccepted
    obtain ⟨data, hdata, hfits⟩ := takeParams_of_accepted haccepted
    -- Both calls run the body on the same data; only what it returned is looked at differently.
    dsimp only [Function.perform] at hsuccess ⊢
    rw [hf.run] at hsuccess ⊢
    rcases h.run_of_takeParams (hcontext.trans hf.usesContext) hdata s with ⟨hrun, -⟩ | hrun
    · rw [hrun]
    · rw [hrun] at hsuccess ⊢
      dsimp only at hsuccess ⊢
      rw [Function.respond_described hsound hf.shaped htx.returns hfaithful.returns
        (hfaithful.keeps data s hfits) hsuccess]

end Described

end ContractHost
