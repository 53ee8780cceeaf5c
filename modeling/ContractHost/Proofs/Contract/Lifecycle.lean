import ContractHost.Chaincode.Service
import ContractHost.Proofs.Contract.Responses
import Mathlib.Data.List.Infix
import Mathlib.Data.List.Nodup

/-!
# The lifecycle of an invocation

Which bodies does an invocation run, and in which order? The result of an invocation does not say,
because a body need not leave a trace. So the functions and hooks of a contract are **watched**
(`Contract.watch`): each body is run as before, and notes in the context that it was run, for which
function, with which arguments and from which session. Nothing else is changed, and the invocation
itself is the same program. **Watching changes nothing** (`Contract.invoke_watch`): the answer and
the session are those of the contract that is not watched, and the context has the log besides.

`Contract.Lifecycle` says what such a log looks like, without a word about how invocations are
programmed:

* the phases of the log are a prefix of the phases that the contract has for the name
  (`Contract.phases`), none of them twice;
* each execution is of the function that is registered for its phase, on the arguments that are due
  there (`Contract.Calls`). The unknown hook runs only where no function has the name, and the after
  hook is given the raw success value of the dispatch;
* each execution starts from the session that the one before has left (`Runs`), and only the last
  one may fail;
* the answer is the text of the dispatch, or the first failure (`Contract.Ends`).

**Every invocation has a lifecycle** (`Contract.invoke_lifecycle`), whatever the bodies do.
-/

namespace ContractHost

variable {κ : Type}

/-! ### Executions -/

/-- The parts of an invocation. -/
inductive Phase
  | before
  | named
  | unknown
  | after
  deriving DecidableEq, Repr

/-- The two phases that answer an invocation. -/
def Phase.IsDispatch (p : Phase) : Prop :=
  p = .named ∨ p = .unknown

/-- One run of the body of a function, in a part of an invocation. -/
structure Execution (κ : Type) where
  phase : Phase
  function : Function κ
  args : Arguments
  entered : Session κ

/-- The arguments of a hook. Data are passed on only to a hook that has a parameter for them. -/
def Function.hookArguments (f : Function κ) (data : Option Value) : Arguments :=
  ⟨f.usesContext, if f.params = [] then [] else [data.getD .undefined]⟩

namespace Execution

/-- The session that the body leaves. -/
def left (x : Execution κ) : Session κ :=
  (x.function.run x.args x.entered).2

/-- The raw success value that the body produces. -/
def value (x : Execution κ) : Value :=
  match (x.function.run x.args x.entered).1 with
  | .ok outputs => x.function.rawValue outputs
  | .error _ => .undefined

end Execution

/-- Executions one after the other, each from the session that the one before has left. The first
one that is answered with a failure is the last one. -/
inductive Runs (answer : Execution κ → Except Failure (String × Value)) :
    Session κ → List (Execution κ) → Option Failure → Session κ → Prop
  | done (s : Session κ) : Runs answer s [] none s
  | failed {x : Execution κ} {e : Failure} (h : answer x = .error e) :
      Runs answer x.entered [x] (some e) x.left
  | next {x : Execution κ} {a : String × Value} {rest : List (Execution κ)}
      {result : Option Failure} {final : Session κ} (h : answer x = .ok a)
      (hrest : Runs answer x.left rest result final) :
      Runs answer x.entered (x :: rest) result final

/-- Where nothing has failed, more may run. -/
theorem Runs.append {answer : Execution κ → Except Failure (String × Value)}
    {s s' final : Session κ} {log log' : List (Execution κ)} {result : Option Failure}
    (h : Runs answer s log none s') (h' : Runs answer s' log' result final) :
    Runs answer s (log ++ log') result final := by
  generalize hnone : (none : Option Failure) = nothing at h
  induction h with
  | done => exact h'
  | failed => cases hnone
  | next ha _ ih => exact .next ha (ih h' hnone)

/-- A single execution, with whatever answer it gets. -/
theorem Runs.single (answer : Execution κ → Except Failure (String × Value)) (x : Execution κ) :
    (∃ a, answer x = .ok a ∧ Runs answer x.entered [x] none x.left) ∨
      ∃ e, answer x = .error e ∧ Runs answer x.entered [x] (some e) x.left := by
  rcases h : answer x with e | a
  · exact .inr ⟨e, rfl, .failed h⟩
  · exact .inl ⟨a, rfl, .next h (.done _)⟩

/-! ### What an invocation is to do -/

namespace Contract

/-- The phase of a hook, if there is one. -/
def hookPhases (p : Phase) (hook : Option (Hook κ)) : List Phase :=
  if hook.isSome then [p] else []

/-- The phases that a contract has for a name: a hook where there is one, and between the hooks the
function of the name or else the unknown hook. -/
def phases (c : Contract κ) (function : String) : List Phase :=
  hookPhases .before c.before ++
    (if c.functions.contains function then [.named] else hookPhases .unknown c.unknown) ++
    hookPhases .after c.after

theorem nodup_phases (c : Contract κ) (function : String) : (c.phases function).Nodup := by
  unfold phases hookPhases
  cases c.before.isSome <;> cases c.functions.contains function <;> cases c.unknown.isSome <;>
    cases c.after.isSome <;> decide

section Spec

variable (c : Contract κ) (document : Option Document) (function : String) (args : List String)

/-- The metadata of a phase. Only a function that was called by its name has any. -/
def metadata? : Phase → Option Transaction
  | .named => document.bind fun d ↦ d.transaction? c.name function
  | _ => none

/-- The components of a phase. -/
def components : Phase → Components
  | .named => (document.map Document.components).getD ∅
  | _ => ∅

/-- The answer that is made of an execution. -/
def answer (x : Execution κ) : Except Failure (String × Value) :=
  (x.function.perform (c.metadata? document function x.phase) (components document x.phase) x.args
    x.entered).1

/-- An execution is one that the contract calls for, with the arguments that are due. -/
inductive Calls (log : List (Execution κ)) : Execution κ → Prop
  | before {h : Hook κ} (s : Session κ) (hh : c.before = some h) :
      Calls log ⟨.before, h.function, h.function.hookArguments none, s⟩
  | named {f : Function κ} {decoded : Arguments} (s : Session κ)
      (hf : c.functions.get? function = some f)
      (hdecoded : f.decodeArguments (c.metadata? document function .named)
        (components document .named) args = .ok decoded) :
      Calls log ⟨.named, f, decoded, s⟩
  | unknown {h : Hook κ} (s : Session κ) (hf : c.functions.get? function = none)
      (hh : c.unknown = some h) :
      Calls log ⟨.unknown, h.function, h.function.hookArguments none, s⟩
  | after {h : Hook κ} {d : Execution κ} (s : Session κ) (hh : c.after = some h) (hd : d ∈ log)
      (hdispatch : d.phase.IsDispatch) :
      Calls log ⟨.after, h.function, h.function.hookArguments (some d.value), s⟩

/-- An invocation is refused between the hooks: the arguments do not fit the function of the name,
or there is no function to call. -/
inductive Refuses : CallError → Prop
  | arguments {f : Function κ} {e : CallError} (hf : c.functions.get? function = some f)
      (he : f.decodeArguments (c.metadata? document function .named) (components document .named)
        args = .error e) : Refuses e
  | missing (hf : c.functions.get? function = none) (hunknown : c.unknown = none) :
      Refuses (.functionNotFound function c.name)

/-- How an invocation ends. -/
inductive Ends (start : Session κ) (log : List (Execution κ)) :
    Except Failure String → Session κ → Prop
  | answered {d : Execution κ} {text : String} {final : Session κ}
      (hruns : Runs (c.answer document function) start log none final)
      (hall : log.map Execution.phase = c.phases function) (hd : d ∈ log)
      (hdispatch : d.phase.IsDispatch)
      (htext : c.answer document function d = .ok (text, d.value)) : Ends start log (.ok text) final
  | failed {e : Failure} {final : Session κ}
      (hruns : Runs (c.answer document function) start log (some e) final) :
      Ends start log (.error e) final
  | refused {e : CallError} {final : Session κ}
      (hruns : Runs (c.answer document function) start log none final)
      (hbefore : log.map Execution.phase = hookPhases .before c.before)
      (hrefuses : c.Refuses document function args e) : Ends start log (.error (.error e)) final

/-- What the log of an invocation looks like, given its answer and the session it leaves. -/
structure Lifecycle (start : Session κ) (log : List (Execution κ)) (answer : Except Failure String)
    (final : Session κ) : Prop where
  phases : log.map Execution.phase <+: c.phases function
  once : (log.map Execution.phase).Nodup
  calls : ∀ x ∈ log, c.Calls document function args log x
  /-- A dynamic parameter of the after hook receives the raw success value as it is. -/
  received : ∀ x ∈ log, x.phase = .after → x.function.params = [.dynamic] →
    ∃ d ∈ log, d.phase.IsDispatch ∧
      takeParams x.function.params x.args.values = .ok [.dynamic d.value]
  ends : c.Ends document function args start log answer final

end Spec

end Contract

/-! ### Watched functions -/

/-- A session with a log beside its context. -/
def Session.watch (s : Session κ) (log : List (Execution κ)) :
    Session (κ × List (Execution κ)) :=
  ⟨(s.context, log), s.invocation, s.ledger, s.journal⟩

/-- A session without the log. -/
def Session.bare (s : Session (κ × List (Execution κ))) : Session κ :=
  ⟨s.context.1, s.invocation, s.ledger, s.journal⟩

@[simp] theorem Session.bare_watch (s : Session κ) (log : List (Execution κ)) :
    (s.watch log).bare = s := rfl

/-- A function whose body notes in the log that it is run. -/
def Function.watch (p : Phase) (f : Function κ) : Function (κ × List (Execution κ)) where
  name := f.name
  usesContext := f.usesContext
  params := f.params
  returns := f.returns
  run args s := ((f.run args s.bare).1, (f.run args s.bare).2.watch
    (s.context.2 ++ [⟨p, f, args, s.bare⟩]))

/-- A hook whose body notes in the log that it is run. -/
def Hook.watch (p : Phase) (h : Hook κ) : Hook (κ × List (Execution κ)) :=
  ⟨h.function.watch p, h.kind⟩

/-- A contract all of whose bodies note in the log that they are run. -/
def Contract.watch (c : Contract κ) : Contract (κ × List (Execution κ)) where
  name := c.name
  info := c.info
  isDefault := c.isDefault
  functions := c.functions.map (Function.watch .named)
  before := c.before.map (Hook.watch .before)
  unknown := c.unknown.map (Hook.watch .unknown)
  after := c.after.map (Hook.watch .after)

variable {p : Phase} {s s' : Session κ} {log : List (Execution κ)}

/-- A result with a log beside the session. -/
def watched {α : Type} (r : α × Session κ) (log : List (Execution κ)) :
    α × Session (κ × List (Execution κ)) :=
  (r.1, r.2.watch log)

/-- **A watched body does what the body does**, and adds itself to the log. -/
theorem Function.perform_watch (f : Function κ) (metadata : Option Transaction)
    (comps : Components) (args : Arguments) :
    (f.watch p).perform metadata comps args (s.watch log) =
      watched (f.perform metadata comps args s) (log ++ [⟨p, f, args, s⟩]) := by
  have hrun : (f.watch p).run args (s.watch log) =
      watched (f.run args s) (log ++ [⟨p, f, args, s⟩]) := rfl
  unfold perform
  rw [hrun]
  rcases f.run args s with ⟨_ | outputs, s'⟩
  · rfl
  · rfl

/-- The session that a call leaves is the one that the body leaves. -/
theorem Function.perform_session (f : Function κ) (metadata : Option Transaction)
    (comps : Components) (args : Arguments) :
    (f.perform metadata comps args s).2 = (f.run args s).2 := by
  unfold perform
  rcases f.run args s with ⟨_ | outputs, s'⟩
  · rfl
  · rfl

/-- What runs for a call with wire strings: nothing, if the strings cannot be read. -/
def Function.callExecutions (p : Phase) (f : Function κ) (metadata : Option Transaction)
    (comps : Components) (wire : List String) (s : Session κ) : List (Execution κ) :=
  match f.decodeArguments metadata comps wire with
  | .error _ => []
  | .ok args => [⟨p, f, args, s⟩]

theorem Function.call_watch (f : Function κ) (metadata : Option Transaction) (comps : Components)
    (wire : List String) :
    (f.watch p).call metadata comps wire (s.watch log) =
      watched (f.call metadata comps wire s)
        (log ++ f.callExecutions p metadata comps wire s) := by
  have hdecode : (f.watch p).decodeArguments metadata comps wire =
      f.decodeArguments metadata comps wire := rfl
  unfold call callExecutions
  rw [hdecode]
  rcases f.decodeArguments metadata comps wire with e | args
  · exact Prod.ext rfl (congrArg s.watch (List.append_nil log).symm)
  · exact f.perform_watch metadata comps args

namespace Contract

/-! ### Hooks -/

/-- What runs for a hook. -/
def hookExecutions (p : Phase) (hook : Option (Hook κ)) (data : Option Value) (s : Session κ) :
    List (Execution κ) :=
  hook.toList.map fun h ↦ ⟨p, h.function, h.function.hookArguments data, s⟩

theorem map_phase_hookExecutions (hook : Option (Hook κ)) (data : Option Value) :
    (hookExecutions p hook data s).map Execution.phase = hookPhases p hook := by
  cases hook <;> rfl

theorem mem_hookExecutions {hook : Option (Hook κ)} {data : Option Value} {x : Execution κ}
    (hx : x ∈ hookExecutions p hook data s) :
    ∃ h, hook = some h ∧ x = ⟨p, h.function, h.function.hookArguments data, s⟩ := by
  obtain ⟨h, hh, rfl⟩ := List.mem_map.1 hx
  exact ⟨h, Option.mem_toList.1 hh, rfl⟩

theorem runHook_watch (hook : Option (Hook κ)) (data : Option Value) :
    runHook (hook.map (Hook.watch p)) data (s.watch log) =
      watched (runHook hook data s) (log ++ hookExecutions p hook data s) := by
  rcases hook with _ | h
  · show ((.ok (), s.watch log) : Except Failure Unit × _) = (.ok (), s.watch (log ++ []))
    rw [List.append_nil]
  · have hcall : (h.watch p).call data (s.watch log) = watched (h.call data s)
        (log ++ hookExecutions p (some h) data s) :=
      h.function.perform_watch none ∅ (h.function.hookArguments data)
    show runHook (some (h.watch p)) data (s.watch log) = _
    unfold runHook
    dsimp only
    rw [hcall]
    rcases h.call data s with ⟨_ | answer, s'⟩
    · rfl
    · rfl

variable {c : Contract κ} {document : Option Document} {function : String} {args : List String}

/-- Outside of the named phase nothing is checked against metadata. -/
theorem perform_eq_answer {x : Execution κ} (hp : x.phase ≠ .named) :
    x.function.perform none ∅ x.args x.entered = (c.answer document function x, x.left) := by
  have hterms : c.metadata? document function x.phase = none ∧ components document x.phase = ∅ := by
    rcases x with ⟨_ | _ | _ | _, f, arguments, s⟩
    · exact ⟨rfl, rfl⟩
    · exact absurd rfl hp
    · exact ⟨rfl, rfl⟩
    · exact ⟨rfl, rfl⟩
  rw [answer, hterms.1, hterms.2, Execution.left, ← Function.perform_session x.function none ∅]

/-- What runs for a hook ends as the hook does. -/
theorem runs_hookExecutions (c : Contract κ) (document : Option Document) (function : String)
    (hp : p ≠ .named) (hook : Option (Hook κ)) (data : Option Value) (s : Session κ) :
    (∃ s', runHook hook data s = (.ok (), s') ∧
      Runs (c.answer document function) s (hookExecutions p hook data s) none s') ∨
      ∃ e s', runHook hook data s = (.error e, s') ∧
        Runs (c.answer document function) s (hookExecutions p hook data s) (some e) s' := by
  rcases hook with _ | h
  · exact .inl ⟨s, rfl, .done s⟩
  · let x : Execution κ := ⟨p, h.function, h.function.hookArguments data, s⟩
    have hcall : h.call data s = (c.answer document function x, x.left) :=
      perform_eq_answer (x := x) hp
    unfold runHook
    dsimp only
    rw [hcall]
    rcases Runs.single (c.answer document function) x with ⟨a, ha, hruns⟩ | ⟨e, he, hruns⟩
    · rw [ha]
      exact .inl ⟨x.left, rfl, hruns⟩
    · rw [he]
      exact .inr ⟨e, x.left, rfl, hruns⟩

/-! ### The dispatch -/

/-- What runs between the hooks: nothing, if the invocation is refused. -/
def dispatchExecutions (c : Contract κ) (document : Option Document) (function : String)
    (args : List String) (s : Session κ) : List (Execution κ) :=
  match c.functions.get? function with
  | some f =>
    f.callExecutions .named (c.metadata? document function .named) (components document .named)
      args s
  | none => hookExecutions .unknown c.unknown none s

theorem dispatch_watch (c : Contract κ) (document : Option Document) (function : String)
    (args : List String) :
    c.watch.dispatch document function args (s.watch log) =
      watched (c.dispatch document function args s)
        (log ++ c.dispatchExecutions document function args s) := by
  have hget : c.watch.functions.get? function =
      (c.functions.get? function).map (Function.watch .named) := KeyMap.get?_map _ _ _
  have hunknown : c.watch.unknown = c.unknown.map (Hook.watch .unknown) := rfl
  unfold dispatch dispatchExecutions
  rw [hget, hunknown]
  rcases c.functions.get? function with _ | f
  · rcases c.unknown with _ | h
    · exact Prod.ext rfl (congrArg s.watch (List.append_nil log).symm)
    · exact h.function.perform_watch none ∅ (h.function.hookArguments none)
  · exact f.call_watch (c.metadata? document function .named) (components document .named) args

/-- **What runs between the hooks** is one execution that the contract calls for, and its answer is
that of the dispatch; or the invocation is refused. -/
theorem dispatch_spec (c : Contract κ) (document : Option Document) (function : String)
    (args : List String) (s : Session κ) :
    (∃ d, c.dispatchExecutions document function args s = [d] ∧ d.entered = s ∧
      d.phase.IsDispatch ∧ (∀ log, c.Calls document function args log d) ∧
      c.phases function = hookPhases .before c.before ++ [d.phase] ++ hookPhases .after c.after ∧
      c.dispatch document function args s = (c.answer document function d, d.left)) ∨
    ∃ e, c.dispatchExecutions document function args s = [] ∧
      c.Refuses document function args e ∧
      c.dispatch document function args s = (.error (.error e), s) := by
  have hphases : c.phases function = hookPhases .before c.before ++
      (if (c.functions.get? function).isSome then [.named] else hookPhases .unknown c.unknown) ++
      hookPhases .after c.after := rfl
  rcases hf : c.functions.get? function with _ | f
  · rcases hunknown : c.unknown with _ | h
    · refine .inr ⟨.functionNotFound function c.name, ?_, .missing hf hunknown, ?_⟩
      · rw [dispatchExecutions, hf, hunknown]
        rfl
      · rw [dispatch, hf, hunknown]
    · refine .inl ⟨⟨.unknown, h.function, h.function.hookArguments none, s⟩, ?_, rfl, .inr rfl,
        fun log ↦ .unknown s hf hunknown, ?_, ?_⟩
      · rw [dispatchExecutions, hf, hunknown]
        rfl
      · rw [hphases, hf, hunknown]
        rfl
      · rw [dispatch, hf, hunknown]
        exact perform_eq_answer
          (x := ⟨.unknown, h.function, h.function.hookArguments none, s⟩) nofun
  · have hcall : c.dispatch document function args s =
        f.call (c.metadata? document function .named) (components document .named) args s := by
      rw [dispatch, hf]
      rfl
    rcases hdecoded : f.decodeArguments (c.metadata? document function .named)
      (components document .named) args with e | decoded
    · refine .inr ⟨e, ?_, .arguments hf hdecoded, ?_⟩
      · rw [dispatchExecutions, hf]
        dsimp only
        rw [Function.callExecutions, hdecoded]
      · rw [hcall, Function.call, hdecoded]
    · refine .inl ⟨⟨.named, f, decoded, s⟩, ?_, rfl, .inl rfl,
        fun log ↦ .named s hf hdecoded, ?_, ?_⟩
      · rw [dispatchExecutions, hf]
        dsimp only
        rw [Function.callExecutions, hdecoded]
      · rw [hphases, hf]
        rfl
      · rw [hcall, Function.call, hdecoded]
        exact Prod.ext rfl (f.perform_session _ _ _)

/-! ### The whole invocation -/

/-- What runs in an invocation: each phase starts where the one before has left off, and nothing
runs after a failure. -/
def executions (c : Contract κ) (document : Option Document) (function : String)
    (args : List String) (s : Session κ) : List (Execution κ) :=
  hookExecutions .before c.before none s ++
    match runHook c.before none s with
    | (.error _, _) => []
    | (.ok (), s) =>
      c.dispatchExecutions document function args s ++
        match c.dispatch document function args s with
        | (.error _, _) => []
        | (.ok (_, value), s) => hookExecutions .after c.after (some value) s

/-- **Watching changes nothing**: the answer and the session are those of the contract that is not
watched, and what ran is added to the log. -/
theorem invoke_watch (c : Contract κ) (document : Option Document) (function : String)
    (args : List String) :
    c.watch.invoke document function args (s.watch log) =
      watched (c.invoke document function args s)
        (log ++ c.executions document function args s) := by
  have hbefore : runHook c.watch.before none (s.watch log) = watched (runHook c.before none s)
      (log ++ hookExecutions .before c.before none s) := runHook_watch c.before none
  unfold invoke executions
  rw [hbefore, ← List.append_assoc]
  generalize log ++ hookExecutions .before c.before none s = log
  rcases runHook c.before none s with ⟨e | ⟨⟨⟩⟩, s₁⟩
  · exact Prod.ext rfl (congrArg s₁.watch (List.append_nil log).symm)
  · have hdispatch : c.watch.dispatch document function args (s₁.watch log) =
        watched (c.dispatch document function args s₁)
          (log ++ c.dispatchExecutions document function args s₁) :=
      c.dispatch_watch document function args
    dsimp only [watched] at hdispatch ⊢
    rw [hdispatch, ← List.append_assoc]
    generalize log ++ c.dispatchExecutions document function args s₁ = log
    rcases c.dispatch document function args s₁ with ⟨e | ⟨text, value⟩, s₂⟩
    · exact Prod.ext rfl (congrArg s₂.watch (List.append_nil log).symm)
    · have hafter : runHook c.watch.after (some value) (s₂.watch log) =
          watched (runHook c.after (some value) s₂)
            (log ++ hookExecutions .after c.after (some value) s₂) :=
        runHook_watch c.after (some value)
      dsimp only
      rw [hafter]
      rcases runHook c.after (some value) s₂ with ⟨e | ⟨⟨⟩⟩, s₃⟩
      · rfl
      · rfl

/-- The raw success value of an execution that is answered with success. -/
theorem value_of_answer {d : Execution κ} {text : String} {v : Value}
    (h : c.answer document function d = .ok (text, v)) : v = d.value := by
  rw [answer, Function.perform] at h
  rw [Execution.value]
  rcases hrun : d.function.run d.args d.entered with ⟨_ | outputs, s'⟩
  · rw [hrun] at h
    cases h
  · rw [hrun] at h
    exact Function.value_of_respond h

/-- A dynamic parameter of the after hook receives the raw success value as it is. -/
theorem Calls.received {x : Execution κ} (h : c.Calls document function args log x)
    (hafter : x.phase = .after) (hparams : x.function.params = [.dynamic]) :
    ∃ d ∈ log, d.phase.IsDispatch ∧
      takeParams x.function.params x.args.values = .ok [.dynamic d.value] := by
  rcases h with _ | _ | _ | @⟨h, d, s, hh, hd, hdispatch⟩
  · cases hafter
  · cases hafter
  · cases hafter
  · refine ⟨d, hd, hdispatch, ?_⟩
    dsimp only at hparams ⊢
    rw [Function.hookArguments, hparams]
    rfl

/-- A log is that of a lifecycle if it has the phases and the executions of one, and ends like
one. -/
theorem Lifecycle.of_ends {start final : Session κ} {answer : Except Failure String}
    (hphases : log.map Execution.phase <+: c.phases function)
    (hcalls : ∀ x ∈ log, c.Calls document function args log x)
    (hends : c.Ends document function args start log answer final) :
    c.Lifecycle document function args start log answer final :=
  ⟨hphases, (c.nodup_phases function).sublist hphases.sublist, hcalls,
    fun x hx ↦ (hcalls x hx).received, hends⟩

theorem calls_before (c : Contract κ) (document : Option Document) (function : String)
    (args : List String) (log : List (Execution κ)) :
    ∀ x ∈ hookExecutions .before c.before none s, c.Calls document function args log x := by
  intro x hx
  obtain ⟨h, hh, rfl⟩ := mem_hookExecutions hx
  exact .before s hh

theorem calls_after {d : Execution κ} (hd : d ∈ log) (hdispatch : d.phase.IsDispatch) :
    ∀ x ∈ hookExecutions .after c.after (some d.value) s,
      c.Calls document function args log x := by
  intro x hx
  obtain ⟨h, hh, rfl⟩ := mem_hookExecutions hx
  exact .after s hh hd hdispatch

/-- The lifecycle of an invocation that gets past the dispatch, from there on. -/
theorem lifecycle_of_dispatch {start : Session κ} {before : List (Execution κ)} {d : Execution κ}
    {text : String} (hbefore : before.map Execution.phase = hookPhases .before c.before)
    (hphases : c.phases function =
      hookPhases .before c.before ++ [d.phase] ++ hookPhases .after c.after)
    (hcalls : ∀ log, ∀ x ∈ before ++ [d], c.Calls document function args log x)
    (hdispatch : d.phase.IsDispatch)
    (hruns : Runs (c.answer document function) start (before ++ [d]) none d.left)
    (hanswer : c.answer document function d = .ok (text, d.value)) :
    c.Lifecycle document function args start
      (before ++ [d] ++ hookExecutions .after c.after (some d.value) d.left)
      ((runHook c.after (some d.value) d.left).1.map fun () ↦ text)
      (runHook c.after (some d.value) d.left).2 := by
  have hall : (before ++ [d] ++ hookExecutions .after c.after (some d.value) d.left).map
      Execution.phase = c.phases function := by
    rw [List.map_append, List.map_append, hbefore, map_phase_hookExecutions, hphases]
    rfl
  have hd : d ∈ before ++ [d] ++ hookExecutions .after c.after (some d.value) d.left :=
    List.mem_append_left _ (List.mem_append_right _ List.mem_cons_self)
  refine .of_ends (hall ▸ List.prefix_refl _) ?_ ?_
  · intro x hx
    rcases List.mem_append.1 hx with hx | hx
    · exact hcalls _ x hx
    · exact calls_after hd hdispatch x hx
  · rcases runs_hookExecutions c document function (p := .after) nofun c.after (some d.value)
      d.left with ⟨final, hafter, hrest⟩ | ⟨e, final, hafter, hrest⟩
    · rw [hafter]
      exact .answered (hruns.append hrest) hall hd hdispatch hanswer
    · rw [hafter]
      exact .failed (hruns.append hrest)

/-- **What runs in an invocation is a lifecycle** with the answer and the session of the
invocation. -/
theorem lifecycle_executions (c : Contract κ) (document : Option Document) (function : String)
    (args : List String) (s : Session κ) :
    c.Lifecycle document function args s (c.executions document function args s)
      (c.invoke document function args s).1 (c.invoke document function args s).2 := by
  have hcalls := fun log ↦ c.calls_before (s := s) document function args log
  have hphases := map_phase_hookExecutions (p := .before) (s := s) c.before none
  unfold executions invoke
  rcases runs_hookExecutions c document function (p := .before) nofun c.before none s with
    ⟨s₁, hbefore, hruns⟩ | ⟨e, s₁, hbefore, hruns⟩
  · rw [hbefore]
    dsimp only
    rcases c.dispatch_spec document function args s₁ with
      ⟨d, hlog, rfl, hdispatch, hd, hall, heq⟩ | ⟨e, hlog, hrefuses, heq⟩
    · -- The dispatch runs one body.
      have hcalls' : ∀ log, ∀ x ∈ hookExecutions .before c.before none s ++ [d],
          c.Calls document function args log x := by
        intro log x hx
        rcases List.mem_append.1 hx with hx | hx
        · exact hcalls log x hx
        · exact List.mem_singleton.1 hx ▸ hd log
      rw [hlog, heq]
      rcases Runs.single (c.answer document function) d with
        ⟨⟨text, v⟩, hanswer, hsingle⟩ | ⟨e, hanswer, hsingle⟩
      · obtain rfl := value_of_answer hanswer
        have hlife := lifecycle_of_dispatch hphases hall hcalls' hdispatch (hruns.append hsingle)
          hanswer
        rw [hanswer]
        dsimp only
        rw [← List.append_assoc]
        rcases hafter : runHook c.after (some d.value) d.left with ⟨e | ⟨⟨⟩⟩, final⟩
        · rw [hafter] at hlife
          exact hlife
        · rw [hafter] at hlife
          exact hlife
      · rw [hanswer]
        dsimp only
        rw [List.append_nil]
        refine .of_ends ?_ (hcalls' _) (.failed (hruns.append hsingle))
        rw [List.map_append, hphases, hall]
        exact List.prefix_append _ _
    · -- The dispatch is refused.
      rw [hlog, heq]
      dsimp only
      rw [List.append_nil, List.append_nil]
      refine .of_ends ?_ (hcalls _) (.refused hruns hphases hrefuses)
      rw [hphases, Contract.phases, List.append_assoc]
      exact List.prefix_append _ _
  · -- The before hook fails.
    rw [hbefore]
    dsimp only
    rw [List.append_nil]
    refine .of_ends ?_ (hcalls _) (.failed hruns)
    rw [hphases, Contract.phases, List.append_assoc]
    exact List.prefix_append _ _

/-- **Every invocation has a lifecycle.** Let the bodies of a contract be watched, and an invocation
start from a fresh context that has received the invocation. The watched contract gives the answer
of the contract and leaves its session; the service of the contract leaves the world of that
session; and the log that has come about is that of a lifecycle with this answer and session. -/
theorem invoke_lifecycle [ContextType κ] (c : Contract κ) (document : Option Document)
    (invocation : Invocation) (function : String) (args : List String) (world : World) :
    ∃ log answer final,
      c.watch.invoke document function args
          ((Session.start invocation world.ledger world.journal).watch []) =
        (answer, final.watch log) ∧
      c.invoke document function args (.start invocation world.ledger world.journal) =
        (answer, final) ∧
      c.toService.invoke document invocation function args world = (answer, final.world) ∧
      c.Lifecycle document function args (.start invocation world.ledger world.journal) log answer
        final :=
  ⟨_, _, _, c.invoke_watch document function args, rfl, rfl,
    c.lifecycle_executions document function args _⟩

/-- A handler that answers with nothing. -/
def silent : TypedHandler TransactionContext where
  takesContext := false
  usesInvocation := false
  params := []
  returns := .nothing
  body _ s := ((), s)

/-- A hook that is shown a value and notes that. -/
def observer : TypedHandler TransactionContext where
  takesContext := false
  usesInvocation := false
  params := [.dynamic]
  returns := .nothing
  body _ s := ((), s.note "observed")

/-- Where the dispatch has no success value, the after hook is shown the undefined one. -/
example : ∃ c, build "Doors" [.function "Open" silent.toHandler,
    .hook .after observer.toHandler] = .ok c ∧ ∀ s : Session TransactionContext,
      (c.watch.invoke none "Open" [] (s.watch [])).2.context.2.map
          (fun x ↦ (x.phase, x.args.values)) = [(.named, []), (.after, [.undefined])] :=
  ⟨_, rfl, fun _ ↦ rfl⟩

end Contract

end ContractHost
