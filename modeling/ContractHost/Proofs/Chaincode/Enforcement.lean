import ContractHost.Contract.Context
import ContractHost.Data.Access
import ContractHost.Proofs.Chaincode.Enrolment
import ContractHost.Proofs.Contract.Checks
import ContractHost.Proofs.Contract.Payloads
import ContractHost.Proofs.Data.Documents

/-!
# Enforcing a generated document

**A generated document, when it is enforced, changes nothing** (`invoke_generated_document`): an
invocation under it has the result and leaves the session that it has without a document. The set
of contracts that the document was generated for has to use each record name for one record, and
the bodies of the contract have to be faithful. The values that are checked have to be presentable
(`Contract.Presentable`); this is a condition on one invocation, met by every value without
infinities and not-a-numbers that JSON can hold.

Hooks are never checked, so nothing is asked of them.
-/

namespace ContractHost

variable {κ : Type}

namespace Contract

/-- Every function of a contract was registered from a faithful typed handler. -/
def Faithful [ContextType κ] (c : Contract κ) : Prop :=
  ∀ name f, c.functions.get? name = some f →
    ∃ h : TypedHandler κ, h.Faithful ∧ Function.ofHandler name h.toHandler = .ok f

/-- A contract that is built from faithful typed handlers is faithful. -/
theorem faithful_of_build [ContextType κ] {name : String} {steps : List (Registration κ)}
    {c : Contract κ} (hsteps : ∀ r ∈ steps, r.Typed TypedHandler.Faithful)
    (h : build name steps = .ok c) : c.Faithful :=
  fun _ _ hget ↦ (typed_of_build hsteps h).function hget

/-- The values that an invocation reads from its arguments, and the success value of its function,
are presentable. The function starts from the session that the before hook leaves. -/
structure Presentable (c : Contract κ) (function : String) (args : List String) (s : Session κ) :
    Prop where
  arguments : ∀ f, c.functions.get? function = some f → ∀ t raw v,
    (t, raw) ∈ f.params.zip args → decodeArgument t raw = .ok v → v.Presentable
  success : ∀ f, c.functions.get? function = some f → ∀ s', runHook c.before none s = (.ok (), s') →
    ∀ answer, (f.call none ∅ args s').1 = .ok answer → answer.2.Presentable

/-! ### Invocations -/

section Document

variable [ContextType κ] {c : Contract κ} {known : List RecordType} {roll : Chaincode.Roll}
variable (hsound : roll.components.Sound known) (hholds : roll.Holds c.toService)
variable (hc : c.Faithful)
include hsound hholds hc

/-- Running the function of a name under the document of a roll that holds the contract. -/
theorem dispatch_document (info : Option Info) {function : String} {args : List String}
    {s s' : Session κ} (hpresentable : c.Presentable function args s)
    (hbefore : runHook c.before none s = (.ok (), s')) :
    c.dispatch (some (roll.document info)) function args s' = c.dispatch none function args s' := by
  unfold dispatch
  cases hget : c.functions.get? function with
  | none => rfl
  | some f =>
    obtain ⟨h, hfaithful, hregistered⟩ := hc function f hget
    have hf := Function.inspected_of_ofHandler hregistered
    have houtline : c.outline.functions.get? function =
        some ⟨f.paramTypes, f.returns.success⟩ := by
      rw [outline, KeyMap.get?_map, hget]
      rfl
    obtain ⟨tx, htx, hdescribes⟩ := hholds.transaction? info houtline
    have htx : (roll.document info).transaction? c.name function = some tx := htx
    show f.call ((roll.document info).transaction? c.name function) roll.components args s' =
      f.call none ∅ args s'
    rw [htx]
    exact hf.call_described hsound hfaithful hdescribes (hpresentable.arguments f hget)
      (hpresentable.success f hget s' hbefore)

theorem invoke_document (info : Option Info) {function : String} {args : List String}
    {s : Session κ} (hpresentable : c.Presentable function args s) :
    c.invoke (some (roll.document info)) function args s = c.invoke none function args s := by
  unfold invoke
  rcases hbefore : runHook c.before none s with ⟨_ | ⟨⟨⟩⟩, s'⟩
  · rfl
  · dsimp only
    rw [dispatch_document hsound hholds hc info hpresentable hbefore]

end Document

end Contract

/-- **Enforcing a generated document changes nothing.** For a set of contracts that uses each record
name for one record, let a document be generated. An invocation of a contract of the set whose
values are presentable has, under the document, the result and the session that it has without one.
In particular no error says that the document does not fit: not the number of parameters, not a
schema, not an argument, not the success value. -/
theorem invoke_generated_document [ContextType κ] {services : List Service} {defaultName : String}
    {roll : Chaincode.Roll} {c : Contract κ}
    (hconsistent : Consistent (recordsOf (Service.describedTypes services)))
    (hroll : Chaincode.enrollAll defaultName services .empty = .ok roll)
    (hmem : c.toService ∈ services) (hfaithful : c.Faithful) (info : Option Info)
    (function : String) (args : List String) (s : Session κ)
    (hpresentable : c.Presentable function args s) :
    c.invoke (some (roll.document info)) function args s = c.invoke none function args s ∧
      ∀ e, (c.invoke (some (roll.document info)) function args s).1 = .error (.error e) →
        ¬ e.FromMetadata := by
  obtain ⟨hsound, hholds, -⟩ := Chaincode.enrollAll_spec hconsistent (List.Subset.refl _)
    (Components.sound_empty _) hroll
  have heq := Contract.invoke_document hsound (hholds _ hmem) hfaithful info hpresentable
  refine ⟨heq, fun e he ↦ ?_⟩
  rw [heq] at he
  exact (Contract.invoke_arises he).not_fromMetadata Bool.noConfusion

/-! ### A contract about ways -/

/-- A way: its heights, and the place it leads to, if it leads to one. -/
def way : DataType :=
  .recordOf "Way" [("heights", .list (.integer .i32)),
    ("target", .option (.recordOf "Place" [("name", .string)]))]

/-- A handler that answers with the way it is given, if that has a target. -/
def follower : TypedHandler TransactionContext where
  takesContext := false
  usesInvocation := false
  params := [way]
  returns := .valueOrError (.option way)
  body data s :=
    match (datumAt data 0).field "target" with
    | .nil => (.error "No target", s)
    | _ => (.ok (.present (datumAt data 0)), s.note "followed")

theorem follower_faithful : follower.Faithful where
  keeps data s hdata := by
    obtain _ | ⟨hway, ⟨⟩⟩ := hdata
    show ReturnType.Fits (.valueOrError (.option way)) (follower.body [_] s).1
    unfold follower
    dsimp only
    split
    · trivial
    · exact hway
  params t ht := by
    rw [List.mem_singleton.1 ht]
    simp [way, DataType.recordOf, DataType.HidesNothing, DataType.FieldsHideNothing]
  returns t ht := by
    rw [List.mem_singleton.1 ht]
    simp [way, DataType.recordOf, DataType.HidesNothing, DataType.FieldsHideNothing]

/-- The way over the heights 3 and -1 to the top. -/
def wayUp : Datum :=
  .record [("heights", .list [.int 3, .int (-1)]),
    ("target", .present (.record [("name", .string "Top")]))]

/-- The text of the way to the top. -/
def wayUpText : String :=
  "\x7b\"heights\":[3,-1],\"target\":\x7b\"name\":\"Top\"\x7d\x7d"

/-- The follower as a registered function. -/
def following : Function TransactionContext :=
  ⟨"Follow", false, [way], ⟨some (.optional way.ty), true⟩, follower.run⟩

/-- The contract that consists of the follower. -/
def ways : Contract TransactionContext :=
  { Contract.empty "Ways" with functions := KeyMap.empty.insert "Follow" following }

/-- The same contract under another name. -/
def trails : Contract TransactionContext :=
  { ways with name := "Trails" }

theorem build_ways : Contract.build "Ways" [.function "Follow" follower.toHandler] = .ok ways := rfl

theorem faithful_ways : ways.Faithful := by
  refine Contract.faithful_of_build (fun r hr ↦ ?_) build_ways
  rw [List.mem_singleton.1 hr]
  exact ⟨follower, follower_faithful, rfl⟩

theorem decodeArgument_wayUp : decodeArgument way wayUpText = .ok (.typed way wayUp) := by
  have hdiscrete : way.Discrete := by
    simp [way, DataType.recordOf, DataType.Discrete, DataType.FieldsDiscrete, DataType.shownNames,
      DataType.isRecord]
  have hheight : ∀ n : ℤ, IntegerKind.i32.InRange n → Datum.Fits (.integer .i32) (.int n) :=
    fun n hn ↦ by rwa [Datum.Fits]
  have hheights : Datum.Fits (.list (.integer .i32)) (.list [.int 3, .int (-1)]) :=
    List.forall_mem_cons.2 ⟨hheight _ (by decide), List.forall_mem_singleton.2
      (hheight _ (by decide))⟩
  have hfits : Datum.Fits way wayUp := ⟨rfl, hheights, rfl, ⟨rfl, trivial, trivial⟩, trivial⟩
  exact DataType.decodeArgument_of_renderSuccess rfl hdiscrete rfl hfits (by decide) rfl

/-- The way to the top is followed, and answered as it came. -/
theorem call_following (s : Session TransactionContext) : following.call none ∅ [wayUpText] s =
    (.ok (wayUpText, .typed (.option way) (.present wayUp)), s.note "followed") := by
  have hinspected : Function.Inspected follower "Follow" following :=
    Function.inspected_of_ofHandler rfl
  have hvalues : readAll follower.params [wayUpText] = .ok [.typed way wayUp] := by
    show acceptArguments ∅ [(way, none)] _ = _
    rw [acceptArguments, acceptArgument, decodeArgument_wayUp]
    rfl
  have hlength : follower.params.length ≤ [wayUpText].length := Nat.le_refl 1
  rw [hinspected.call_of_readAll hlength hvalues rfl Bool.noConfusion]
  rfl

theorem invoke_ways (s : Session TransactionContext) :
    ways.invoke none "Follow" [wayUpText] s = (.ok wayUpText, s.note "followed") := by
  have hbefore : Contract.runHook ways.before none s = (.ok (), s) := rfl
  have hdispatch : ways.dispatch none "Follow" [wayUpText] s =
      following.call none ∅ [wayUpText] s := rfl
  unfold Contract.invoke
  rw [hbefore]
  dsimp only
  rw [hdispatch, call_following]
  rfl

theorem presentable_ways (s : Session TransactionContext) :
    ways.Presentable "Follow" [wayUpText] s := by
  have hfinite : Datum.Finite wayUp := by
    simp [wayUp, Datum.Finite, Datum.FiniteFields, Datum.FiniteItems]
  have hrepresentable : wayUp.Representable := by
    simp [wayUp, Datum.Representable, Datum.RepresentableFields, Datum.RepresentableItems]
  have hwritten : ∀ t d, d.Representable → d.depth ≤ Json.maxDepth →
      ∃ j, (Value.typed t d).toJson? = some j := by
    intro t d hd hdepth
    obtain ⟨j, hj, -⟩ := Value.exists_toJson? (v := .typed t d) hd hdepth
    exact ⟨j, hj⟩
  constructor
  case arguments =>
    rintro f ⟨⟩ t raw v hmem hv
    cases List.mem_singleton.1 hmem
    cases decodeArgument_wayUp.symm.trans hv
    exact ⟨hfinite, hwritten _ _ hrepresentable (by decide)⟩
  case success =>
    rintro f ⟨⟩ s' - answer hanswer
    rw [call_following] at hanswer
    cases hanswer
    exact ⟨hfinite, hwritten _ (.present wayUp) hrepresentable (by decide)⟩

/-- The way to the top is followed under the document that is generated for two contracts, which
share the components of its type. -/
theorem invoke_generated_document_ways :
    ∃ roll, Chaincode.enrollAll "Ways" [trails.toService, ways.toService] .empty = .ok roll ∧
      ∀ s, (ways.invoke (some (roll.document none)) "Follow" [wayUpText] s).1 = .ok wayUpText ∧
        ways.invoke (some (roll.document none)) "Follow" [wayUpText] s =
          ways.invoke none "Follow" [wayUpText] s := by
  have hconsistent : Consistent (recordsOf
      (Service.describedTypes [trails.toService, ways.toService])) := by decide +kernel
  refine ⟨_, rfl, fun s ↦ ?_⟩
  obtain ⟨hsame, -⟩ := invoke_generated_document hconsistent rfl (.tail _ (.head _)) faithful_ways
    none "Follow" [wayUpText] s (presentable_ways s)
  exact ⟨by rw [hsame, invoke_ways], hsame⟩

end ContractHost
