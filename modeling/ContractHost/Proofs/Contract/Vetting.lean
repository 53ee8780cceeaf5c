import ContractHost.Contract.Lifecycle
import ContractHost.Proofs.Contract.Decoding
import ContractHost.Proofs.Contract.Responses

/-!
# What metadata can do to a call

Metadata add checks to a call: to its arguments before the body runs, and to its answer when the
body has run. Whatever the metadata say, **they refuse or they change nothing** (`Vetted`): a call
under metadata is the call without them, or it fails. If it fails where the other would not, then
either nothing has run, or the body has run on the same arguments and has left the same session. A
refused answer is not taken back.

The two checks are told apart by what they rest on. On the way in, metadata never change what a
string is read as (`Function.decodeArguments_of_metadata`), so the body that runs is given the same
arguments. On the way out, they are looked at after everything else (`Function.respond_vetted`).
Calls and dispatches are put together from these; an invocation also has hooks, which metadata say
nothing of, so only what the dispatch leaves can differ (`Contract.invoke_vetted`).
-/

namespace ContractHost

variable {κ α : Type} {components : Components} {metadata : Option Transaction}

/-- How a call from a session ends under metadata, where `plain` is how it ends without them. The
metadata let it pass, they refuse it before anything runs, or they withhold its answer. -/
inductive Vetted (s : Session κ) (plain : Except Failure α × Session κ) :
    Except Failure α × Session κ → Prop
  | passed : Vetted s plain plain
  | refused (e : CallError) : Vetted s plain (.error (.error e), s)
  | withheld (e : CallError) : Vetted s plain (.error (.error e), plain.2)

/-! ### The way out -/

/-- The answer with a success value is the one without metadata, or an error. -/
theorem answerSuccess_vetted (metadata : Option Transaction) (components : Components) (t : Ty)
    (v : Value) : answerSuccess metadata components t v = answerSuccess none ∅ t v ∨
      ∃ e, answerSuccess metadata components t v = .error e := by
  rcases hreturns : metadata.bind Transaction.returns with _ | r
  · refine .inl ?_
    rw [answerSuccess, answerSuccess, hreturns]
    rfl
  · obtain ⟨tx, rfl, hr⟩ := Option.bind_eq_some_iff.1 hreturns
    cases hanswer : answerSuccess (some tx) components t v with
    | error e => exact .inr ⟨e, rfl⟩
    | ok answer => exact .inl ((answerSuccess_eq_ok_iff hr).1 hanswer).1.symm

namespace Function

variable {f : Function κ} {wire : List String} {s : Session κ}

/-- A response is the one without metadata, or an error. -/
theorem respond_vetted (f : Function κ) (metadata : Option Transaction) (components : Components)
    (outputs : List Output) : f.respond metadata components outputs = f.respond none ∅ outputs ∨
      ∃ e, f.respond metadata components outputs = .error (.error e) := by
  by_cases hvalue : ∃ t v, f.returns.success = some t ∧ f.splitOutputs outputs = .ok (some v, none)
  · obtain ⟨t, v, hsuccess, hsplit⟩ := hvalue
    rw [respond_of_splitOutputs hsuccess hsplit, respond_of_splitOutputs hsuccess hsplit]
    rcases answerSuccess_vetted metadata components t v with hsame | ⟨e, he⟩
    · exact .inl (congrArg _ hsame)
    · exact .inr ⟨e, congrArg _ he⟩
  · have hnone : ∀ t v, f.returns.success = some t → f.splitOutputs outputs ≠ .ok (some v, none) :=
      fun t v hsuccess hsplit ↦ hvalue ⟨t, v, hsuccess, hsplit⟩
    rcases respond_without_value hnone with ⟨e, he⟩ | hundefined
    · exact .inl ((he _ _).trans (he _ _).symm)
    · exact .inl ((hundefined _ _).trans (hundefined _ _).symm)

/-! ### The way in -/

/-- **Metadata do not change what strings are read as.** -/
theorem decodeArguments_of_metadata {args : Arguments}
    (h : f.decodeArguments metadata components wire = .ok args) :
    f.decodeArguments none ∅ wire = .ok args := by
  obtain ⟨-, hwire, values, rfl, hlength, hall⟩ := decodeArguments_eq_ok_iff.1 h
  refine decodeArguments_eq_ok_iff.2 ⟨nofun, hwire, values, rfl, hlength, fun i v hv ↦ ?_⟩
  obtain ⟨t, raw, ht, hraw, haccepted⟩ := hall i v hv
  exact ⟨t, raw, ht, hraw, haccepted.decodes, nofun⟩

/-! ### Calls, dispatches and invocations -/

/-- **A call under metadata is the call without them, or it is refused.** -/
theorem call_vetted (f : Function κ) (metadata : Option Transaction) (components : Components)
    (wire : List String) (s : Session κ) :
    Vetted s (f.call none ∅ wire s) (f.call metadata components wire s) := by
  cases hdecode : f.decodeArguments metadata components wire with
  | error e =>
    have hcall : f.call metadata components wire s = (.error (.error e), s) := by
      rw [call, hdecode]
    rw [hcall]
    exact .refused e
  | ok args =>
    have hcall : f.call metadata components wire s = f.perform metadata components args s := by
      rw [call, hdecode]
    have hplain : f.call none ∅ wire s = f.perform none ∅ args s := by
      rw [call, decodeArguments_of_metadata hdecode]
    rw [hcall, hplain, perform, perform]
    rcases f.run args s with ⟨b | outputs, s'⟩
    · exact .passed
    · dsimp only
      rcases f.respond_vetted metadata components outputs with hsame | ⟨e, he⟩
      · rw [hsame]
        exact .passed
      · rw [he]
        exact .withheld e

end Function

namespace Contract

variable (c : Contract κ) (document : Option Document) (function : String) (args : List String)
  (s : Session κ)

/-- A document is looked at for registered functions only. -/
theorem dispatch_vetted :
    Vetted s (c.dispatch none function args s) (c.dispatch document function args s) := by
  unfold dispatch
  cases c.functions.get? function with
  | none => exact .passed
  | some f => exact f.call_vetted _ _ args s

/-- **An invocation under a document is the invocation without one, or the before hook has run and
the dispatch is refused**, before anything else runs or with its answer withheld. Either way the
after hook does not run. -/
theorem invoke_vetted :
    c.invoke document function args s = c.invoke none function args s ∨
      ∃ s' e, runHook c.before none s = (.ok (), s') ∧
        (c.invoke document function args s = (.error (.error e), s') ∨
          c.invoke document function args s =
            (.error (.error e), (c.dispatch none function args s').2)) := by
  rcases hbefore : runHook c.before none s with ⟨_ | ⟨⟨⟩⟩, s'⟩
  · refine .inl ?_
    rw [invoke, invoke, hbefore]
  · rw [invoke, invoke, hbefore]
    dsimp only
    have hvetted := c.dispatch_vetted document function args s'
    generalize c.dispatch document function args s' = outcome at hvetted ⊢
    cases hvetted with
    | passed => exact .inl rfl
    | refused e => exact .inr ⟨s', e, rfl, .inl rfl⟩
    | withheld e => exact .inr ⟨s', e, rfl, .inr rfl⟩

end Contract

end ContractHost
