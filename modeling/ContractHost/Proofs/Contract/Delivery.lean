import ContractHost.Proofs.Contract.Breaches
import ContractHost.Proofs.Contract.Parameters
import ContractHost.Proofs.Contract.Responses
import ContractHost.Proofs.Data.Documents

/-!
# What the after hook is given

An after hook may have a parameter, and registration looks at nothing but its description, which is
`any`. Two data types are described so. A parameter of the one takes every value as it is; a
parameter of the other takes the value's document, which has to be found first (`Value.Received`).

That is where the delivery can fail: a success value may be nested so deeply that it has no
document. The values that are delivered are `Value.Deliverable`; a parameter that takes values as
they are is given every one. **A deliverable value reaches the body of the hook**
(`Contract.after_hook_receives`).

Of a hook whose handler is not a typed one nothing more is said than that it runs on the value,
since such a handler is not bound to keep to its signature. A value without a document is a breach
where a document is wanted (`Contract.breach_of_toDatum?`), and a caller can bring one about: a
function that puts what it is given into one more list turns an argument that is as deep as a reader
goes into an answer without a document (`after_hook_not_served`).
-/

namespace ContractHost

variable {κ : Type}

/-! ### Values and parameters -/

/-- What a parameter of an after hook receives: a value as it is, or its document. A document is
not written and read for that. -/
inductive Value.Received : DataType → Value → Datum → Prop
  | whole (v : Value) : Received .dynamic v (.dynamic v)
  | document (d : Datum) : Received .json (.typed .json d) d
  | read {v : Value} {j : Json} (hv : ∀ d, v ≠ .typed .json d) (hj : v.toJson? = some j) :
      Received .json v (.json j)

/-- The values that a parameter of a type receives: for a parameter of documents those that are one,
and those that are nested no more deeply than a reader goes. -/
def Value.Deliverable (t : DataType) (v : Value) : Prop :=
  t = .dynamic ∨ (∃ d, v = .typed .json d) ∨ v.Representable ∧ v.depth ≤ Json.maxDepth

/-- A value that is no document is taken as one by writing and reading it. -/
theorem Value.toDatum?_json {v : Value} (hv : ∀ d, v ≠ .typed .json d) :
    v.toDatum? .json = v.toJson?.map Datum.json := by
  cases v with
  | absent t => rfl
  | typed s d =>
    cases s with
    | json => exact absurd rfl (hv d)
    | _ => rfl

/-- **A deliverable value is received.** -/
theorem Value.Deliverable.exists_received {t : DataType} {v : Value} (hv : v.Deliverable t)
    (ht : t = .dynamic ∨ t = .json) : ∃ d, v.toDatum? t = some d ∧ Received t v d := by
  rcases ht with rfl | rfl
  · exact ⟨_, rfl, .whole v⟩
  · by_cases hdocument : ∃ d, v = .typed .json d
    · obtain ⟨d, rfl⟩ := hdocument
      exact ⟨d, rfl, .document d⟩
    · rcases hv with hne | hd | ⟨hrepresentable, hdepth⟩
      · cases hne
      · exact absurd hd hdocument
      · obtain ⟨j, hj, -⟩ := exists_toJson? hrepresentable hdepth
        have hother : ∀ d, v ≠ .typed .json d := fun d hd ↦ hdocument ⟨d, hd⟩
        refine ⟨.json j, ?_, .read hother hj⟩
        rw [toDatum?_json hother, hj]
        rfl

/-! ### The hook that is registered -/

/-- An after hook with a parameter reads it as a dynamic value or as a document. -/
theorem Hook.after_of_ofHandler [ContextType κ] {h : Handler κ} {hook : Hook κ} {t : DataType}
    (hhook : Hook.ofHandler .after h = .ok hook) (ht : h.decoders = [t]) :
    ∃ f, Function.ofHandler HookKind.after.functionName h = .ok f ∧ hook = ⟨f, .after⟩ ∧
      f.params = [t] ∧ (t = .dynamic ∨ t = .json) := by
  obtain ⟨f, hf, hhook⟩ := exists_of_ofHandler hhook
  have hparams : f.params = [t] := (Function.params_of_ofHandler hf).trans ht
  have htypes : f.paramTypes = [t.ty] := congrArg (List.map DataType.ty) hparams
  unfold Hook.ofFunction at hhook
  rw [htypes] at hhook
  split at hhook
  · next heq => cases heq
  · next heq =>
    cases hhook
    exact ⟨f, hf, rfl, hparams, DataType.eq_of_ty_any (List.head_eq_of_cons_eq heq)⟩
  · cases hhook
  · cases hhook
  · cases hhook

namespace Contract

/-- The end of an invocation: a hook has run for its effects, and its own answer is dropped. -/
def closing (text : String) (r : Except Failure (String × Value) × Session κ) :
    Except Failure String × Session κ :=
  (r.1.map fun _ ↦ text, r.2)

variable {c : Contract κ} {document : Option Document} {function text : String}
  {args : List String} {value : Value} {s s₁ s₂ : Session κ}

/-- After a dispatch that succeeds, the after hook closes the invocation. -/
theorem invoke_of_dispatch {hook : Hook κ} (hbefore : runHook c.before none s = (.ok (), s₁))
    (hdispatch : c.dispatch document function args s₁ = (.ok (text, value), s₂))
    (hafter : c.after = some hook) :
    c.invoke document function args s = closing text (hook.call (some value) s₂) := by
  unfold invoke
  rw [hbefore]
  dsimp only
  rw [hdispatch]
  unfold runHook
  rw [hafter]
  dsimp only
  rcases hook.call (some value) s₂ with ⟨_ | _, s₃⟩ <;> rfl

/-- After a dispatch that succeeds, the function of the after hook runs on the success value. -/
theorem invoke_of_build [ContextType κ] {name : String} {steps : List (Registration κ)}
    {h : Handler κ} {t : DataType} (hbuild : build name steps = .ok c)
    (hhook : .hook .after h ∈ steps) (ht : h.decoders = [t])
    (hbefore : runHook c.before none s = (.ok (), s₁))
    (hdispatch : c.dispatch document function args s₁ = (.ok (text, value), s₂)) :
    ∃ f, Function.ofHandler HookKind.after.functionName h = .ok f ∧ f.params = [t] ∧
      (t = .dynamic ∨ t = .json) ∧ c.invoke document function args s =
        closing text (f.perform none ∅ ⟨f.usesContext, [value]⟩ s₂) := by
  obtain ⟨hook, hofHandler, hafter⟩ := hook_of_build hbuild hhook
  obtain ⟨f, hf, rfl, hparams, hdynamic⟩ := Hook.after_of_ofHandler hofHandler ht
  refine ⟨f, hf, hparams, hdynamic, ?_⟩
  rw [invoke_of_dispatch hbefore hdispatch hafter, Hook.call, hparams]
  rfl

/-- **The after hook receives what was dispatched.** Let the before hook and the dispatch succeed in
an invocation of a contract whose after hook has a parameter. The parameter is dynamic or a
document. The hook's function runs on the success value, in the session that the dispatch left, and
closes the invocation: its failure is the outcome, and otherwise the outcome is the text of the
dispatch. If the hook is a typed handler and the value is deliverable, the body receives the value
or its document; the only breach is that of a body which asks for an invocation its session has
lost; and where the session has one, the body runs and what it returns is the hook's answer. -/
theorem after_hook_receives [ContextType κ] {name : String} {steps : List (Registration κ)}
    {h : Handler κ} {t : DataType} (hbuild : build name steps = .ok c)
    (hhook : .hook .after h ∈ steps) (ht : h.decoders = [t])
    (hbefore : runHook c.before none s = (.ok (), s₁))
    (hdispatch : c.dispatch document function args s₁ = (.ok (text, value), s₂)) :
    (t = .dynamic ∨ t = .json) ∧
    ∃ f, Function.ofHandler HookKind.after.functionName h = .ok f ∧
      c.invoke document function args s =
        closing text (f.perform none ∅ ⟨f.usesContext, [value]⟩ s₂) ∧
      ∀ typed : TypedHandler κ, h = typed.toHandler → value.Deliverable t →
        ∃ d, Value.Received t value d ∧
          (∀ b, (c.invoke document function args s).1 = .error (.breach b) →
            typed.OwnBreach s₂ b) ∧
          ((typed.usesInvocation = true → s₂.invocation.isSome = true) →
            c.invoke document function args s = closing text
              (f.respond none ∅ (typed.returns.produce (typed.body [d] s₂).1),
                (typed.body [d] s₂).2)) := by
  obtain ⟨f, hf, hparams, hdynamic, hinvoke⟩ := invoke_of_build hbuild hhook ht hbefore hdispatch
  refine ⟨hdynamic, f, hf, hinvoke, ?_⟩
  rintro typed rfl hvalue
  obtain ⟨d, hd, hreceived⟩ := hvalue.exists_received hdynamic
  have hinspected := Function.inspected_of_ofHandler hf
  have htaken : takeParams typed.params [value] = .ok [d] := by
    rw [← hinspected.params, hparams, takeParams, hd]
    rfl
  have hcontext : (⟨f.usesContext, [value]⟩ : Arguments).hasContext = typed.takesContext :=
    hinspected.usesContext
  rw [hinvoke]
  refine ⟨d, hreceived, fun b hb ↦ ?_, fun hready ↦ ?_⟩
  · exact hinspected.perform_breach rfl htaken (Except.map_eq_error.1 hb)
  · unfold Function.perform
    rw [hinspected.run]
    rcases TypedHandler.run_of_takeParams hcontext htaken s₂ with ⟨-, huses, hnone⟩ | hrun
    · have hsome := hready huses
      rw [hnone] at hsome
      cases hsome
    · rw [hrun]

end Contract

/-- A handler that answers with a fixed datum. -/
def constantly (t : DataType) (d : Datum) : TypedHandler TransactionContext where
  takesContext := false
  usesInvocation := false
  params := []
  returns := .value t
  body _ s := (d, s)

/-- A hook that looks at the invocation and notes the document it is given. -/
def auditor : TypedHandler TransactionContext where
  takesContext := true
  usesInvocation := true
  params := [.json]
  returns := .nothing
  body data s := ((), s.note (Value.typed .json (datumAt data 0)).text)

/-- A contract of one function, with an after hook. -/
def depot (pack : TypedHandler TransactionContext) (after : Handler TransactionContext) :
    List (Registration TransactionContext) :=
  [.function "Pack" pack.toHandler, .hook .after after]

/-- Two dynamic values in a list, of which one holds nothing. -/
def crates : Value :=
  .typed (.list .dynamic)
    (.list [.dynamic (.typed .string (.string "crate")), .dynamic .undefined])

/-- A handler that answers with these values. -/
def packer : TypedHandler TransactionContext :=
  constantly (.list .dynamic)
    (.list [.dynamic (.typed .string (.string "crate")), .dynamic .undefined])

theorem answerSuccess_crates :
    answerSuccess none ∅ (.list .any) crates = .ok ("[\"crate\",null]", crates) := by
  cbv

/-- A function that returns a value is answered with it. -/
theorem Function.Inspected.respond_value {h : TypedHandler κ} {name : String} {f : Function κ}
    (hf : Inspected h name f) {t : DataType} (hreturns : h.returns = .value t) {v : Value}
    {answer : String × Value} (hanswer : answerSuccess none ∅ t.ty v = .ok answer) :
    f.respond none ∅ [.value v] = .ok answer := by
  obtain ⟨name, usesContext, params, returns, run⟩ := f
  have hshaped := hf.shaped
  rw [hreturns] at hshaped
  cases hshaped
  rw [respond_of_splitOutputs rfl rfl, hanswer]
  rfl

/-- In a depot the call of the function that packs is what is dispatched. -/
theorem Contract.dispatch_depot {c : Contract TransactionContext}
    {pack : TypedHandler TransactionContext} {after : Handler TransactionContext}
    (hbuild : build "Depot" (depot pack after) = .ok c) (hpack : pack.usesInvocation = false)
    (wire : List String) (hlength : pack.params.length ≤ wire.length) {values : List Value}
    {data : List Datum} (hvalues : readAll pack.params wire = .ok values)
    (hdata : takeParams pack.params values = .ok data) (s : Session TransactionContext) :
    ∃ f, Function.Inspected pack "Pack" f ∧ c.dispatch none "Pack" wire s =
      (f.respond none ∅ (pack.returns.produce (pack.body data s).1), (pack.body data s).2) := by
  obtain ⟨f, hf, hget⟩ := (functions_of_build hbuild).1 List.mem_cons_self
  have hinspected := Function.inspected_of_ofHandler hf
  refine ⟨f, hinspected, ?_⟩
  unfold dispatch
  rw [hget]
  exact hinspected.call_of_readAll hlength hvalues hdata fun huses ↦ by
    cases hpack.symm.trans huses

/-- The auditor is given the document of the crates, in which the one that holds nothing is
`null`. -/
theorem after_hook_receives_crates : crates.Deliverable .json ∧
    ∃ c, Contract.build "Depot" (depot packer auditor.toHandler) = .ok c ∧
      ∀ s : Session TransactionContext, s.invocation.isSome = true →
        c.dispatch none "Pack" [] s = (.ok ("[\"crate\",null]", crates), s) ∧
        c.invoke none "Pack" [] s = (.ok "[\"crate\",null]", s.note "[\"crate\",null]") := by
  have hvalue : crates.Deliverable .json := .inr (.inr ⟨⟨trivial, trivial, trivial⟩, by decide⟩)
  have hjson : crates.toJson? = some (.list [.string "crate", .null]) := by cbv
  obtain ⟨c, hbuild, hbefore⟩ : ∃ c, Contract.build "Depot" (depot packer auditor.toHandler) =
    .ok c ∧ ∀ s, Contract.runHook c.before none s = (.ok (), s) := ⟨_, rfl, fun _ ↦ rfl⟩
  refine ⟨hvalue, c, hbuild, fun s hs ↦ ?_⟩
  have hdispatch : c.dispatch none "Pack" [] s = (.ok ("[\"crate\",null]", crates), s) := by
    obtain ⟨g, hg, hdispatch⟩ := Contract.dispatch_depot hbuild rfl [] (Nat.le_refl 0) rfl rfl s
    rw [hdispatch]
    exact congrArg (·, s) (hg.respond_value rfl answerSuccess_crates)
  obtain ⟨-, f, hf, -, htyped⟩ :=
    Contract.after_hook_receives hbuild (.tail _ (.head _)) rfl (hbefore s) hdispatch
  obtain ⟨d, hreceived, -, hinvoke⟩ := htyped auditor rfl hvalue
  rw [hinvoke fun _ ↦ hs]
  cases hf
  cases hreceived with
  | read _ hj =>
    cases hjson.symm.trans hj
    exact ⟨hdispatch, rfl⟩

/-! ### Values that are not delivered -/

/-- **A value that does not fit the parameter is a breach.** The body of the hook does not run. -/
theorem Contract.breach_of_toDatum? [ContextType κ] {c : Contract κ} {name function text : String}
    {steps : List (Registration κ)} {h : TypedHandler κ} {t : DataType} {value : Value}
    {document : Option Document} {args : List String} {s s₁ s₂ : Session κ}
    (hbuild : build name steps = .ok c) (hhook : .hook .after h.toHandler ∈ steps)
    (ht : h.params = [t]) (hbefore : runHook c.before none s = (.ok (), s₁))
    (hdispatch : c.dispatch document function args s₁ = (.ok (text, value), s₂))
    (hvalue : value.toDatum? t = none) :
    c.invoke document function args s =
      (.error (.breach (.argumentType value.declared t.ty)), s₂) := by
  obtain ⟨f, hf, -, -, hinvoke⟩ := invoke_of_build hbuild hhook ht hbefore hdispatch
  have hinspected := Function.inspected_of_ofHandler hf
  have htaken : takeParams h.params [value] = .error (.argumentType value.declared t.ty) := by
    rw [ht, takeParams, hvalue]
  have hgiven : (h.takesContext && !f.usesContext) = false := by
    rw [hinspected.usesContext]
    cases h.takesContext <;> rfl
  rw [hinvoke]
  unfold Function.perform
  rw [hinspected.run]
  unfold TypedHandler.run
  dsimp only
  rw [hgiven, htaken]
  rfl

/-- That many lists, each inside another one, around an empty list. -/
def Json.nested : ℕ → Json
  | 0 => .list []
  | n + 1 => .list [nested n]

theorem Json.depth_nested (n : ℕ) : (nested n).depth = n + 1 := by
  induction n with
  | zero => rfl
  | succ n ih =>
    rw [nested, depth, depthItems, depthItems, ih]
    rfl

theorem Json.wellFormed_nested (n : ℕ) : (nested n).WellFormed := by
  induction n with
  | zero => exact trivial
  | succ n ih => exact ⟨ih, trivial⟩

theorem Json.write_nested (n : ℕ) : (nested (n + 1)).write = '[' :: (nested n).write ++ [']'] := by
  rw [nested, write, writeItems]

/-- A list of documents is read as deeply as a reader goes. -/
theorem decodeArgument_nested {n : ℕ} (hn : n + 2 ≤ Json.maxDepth) :
    decodeArgument (.list .json) (Json.nested (n + 1)).toText =
      .ok (.typed (.list .json) (.list [.json (.nested n)])) := by
  obtain ⟨room, hroom⟩ := Nat.exists_eq_add_of_le' (Nat.le_of_add_left_le hn : 1 ≤ Json.maxDepth)
  have hdepth : (Json.nested n).depth ≤ room := by
    rw [Json.depth_nested]
    omega
  have hsource : Utf8.source (Json.nested (n + 1)).toText = (Json.nested (n + 1)).write.map some := by
    rw [Json.toText, Utf8.source, String.toList_ofList]
  have hparse : Json.Tree.parse? (Utf8.source (Json.nested (n + 1)).toText) =
      some (.list [Json.tree (.nested n)]) := by
    rw [hsource, (Json.spells_tree _).parse?, Json.nested, Json.tree_list]
    rfl
  have hread : (DataType.list .json).read? (Utf8.source (Json.nested (n + 1)).toText) =
      some (.list [.json (.nested n)]) := by
    rw [DataType.read?, hparse, Option.bind_eq_bind, Option.bind_some, hroom, DataType.decode?,
      DataType.decodeAll?, DataType.decode?, Json.toJson?_tree (Json.wellFormed_nested n) hdepth]
    rfl
  have hvalue : (DataType.list .json).valueOf? (Json.nested (n + 1)).toText =
      some (.typed (.list .json) (.list [.json (.nested n)])) := by
    rw [DataType.valueOf?, hread]
    rfl
  rw [decodeArgument_shaped (by decide) (by rintro _ ⟨⟩) rfl, hvalue]
  rfl

/-- A list of one list of one document, which consists of lists inside one another. -/
def Value.boxed (n : ℕ) : Value :=
  .typed (.list (.list .json)) (.list [.list [.json (.nested n)]])

/-- A list around a document is written like the document that holds the list. -/
theorem Value.write?_boxed (n : ℕ) : (boxed n).write? = some (Json.nested (n + 2)).write := by
  rw [Json.write_nested, Json.write_nested, boxed, write?, Datum.write?, Datum.writeItems?,
    Datum.write?, Datum.writeItems?, Datum.write?]
  rfl

/-- A handler that puts a list of documents into a list. -/
def boxer : TypedHandler TransactionContext where
  takesContext := false
  usesInvocation := false
  params := [.list .json]
  returns := .value (.list (.list .json))
  body data s := (.list [datumAt data 0], s)

/-- A list that has no document is still an answer: its text is not read back. -/
theorem answerSuccess_boxed (n : ℕ) : answerSuccess none ∅ (.list (.list .any)) (.boxed n) =
    .ok ((Json.nested (n + 2)).toText, .boxed n) := by
  have htext : (Value.boxed n).jsonText? = some (Json.nested (n + 2)).toText := by
    rw [Value.jsonText?, Value.write?_boxed]
    rfl
  have hrender : renderSuccess (.list (.list .any)) (.boxed n) =
      .ok (Json.nested (n + 2)).toText := by
    rw [renderSuccess, htext]
    rfl
  rw [answerSuccess, hrender]
  rfl

/-- The auditor is not given what the boxer boxed, where that is one list more than a reader
goes. -/
theorem invoke_boxer {n : ℕ} (hn : n + 2 = Json.maxDepth) : ∃ c,
    Contract.build "Depot" (depot boxer auditor.toHandler) = .ok c ∧ ∀ s,
      c.dispatch none "Pack" [(Json.nested (n + 1)).toText] s =
        (.ok ((Json.nested (n + 2)).toText, .boxed n), s) ∧
      c.invoke none "Pack" [(Json.nested (n + 1)).toText] s =
        (.error (.breach (.argumentType (.list (.list .any)) .any)), s) := by
  obtain ⟨c, hbuild, hbefore⟩ : ∃ c, Contract.build "Depot" (depot boxer auditor.toHandler) =
    .ok c ∧ ∀ s, Contract.runHook c.before none s = (.ok (), s) := ⟨_, rfl, fun _ ↦ rfl⟩
  refine ⟨c, hbuild, fun s ↦ ?_⟩
  have hvalues : readAll boxer.params [(Json.nested (n + 1)).toText] =
      .ok [.typed (.list .json) (.list [.json (.nested n)])] := by
    show acceptArguments ∅ [(.list .json, none)] _ = _
    rw [acceptArguments, acceptArgument, decodeArgument_nested hn.le]
    rfl
  have hdispatch : c.dispatch none "Pack" [(Json.nested (n + 1)).toText] s =
      (.ok ((Json.nested (n + 2)).toText, .boxed n), s) := by
    obtain ⟨f, hf, hdispatch⟩ :=
      Contract.dispatch_depot hbuild rfl [_] (Nat.le_refl 1) hvalues rfl s
    rw [hdispatch]
    exact congrArg (·, s) (hf.respond_value rfl (answerSuccess_boxed n))
  have hdepth : Json.maxDepth < (Json.nested (n + 2)).depth := by
    rw [Json.depth_nested, hn]
    exact Nat.lt_succ_self _
  have hnone : (Value.boxed n).toDatum? .json = none := by
    rw [Value.toDatum?_json (by rintro _ ⟨⟩), Value.toJson?_eq_none_of_write?
      (Json.wellFormed_nested _) (Value.write?_boxed n) hdepth]
    rfl
  exact ⟨hdispatch,
    Contract.breach_of_toDatum? hbuild (.tail _ (.head _)) rfl (hbefore s) hdispatch hnone⟩

/-- **Not every success value is served.** A caller sends a list that is as deep as a reader goes,
and the function answers it boxed. A hook that is to look at the document of that is a breach,
though its handler is a typed one. -/
theorem after_hook_not_served : ∃ c,
    Contract.build "Depot" (depot boxer auditor.toHandler) = .ok c ∧ ∀ s,
      c.dispatch none "Pack" [(Json.nested 126).toText] s =
        (.ok ((Json.nested 127).toText, .boxed 125), s) ∧
      c.invoke none "Pack" [(Json.nested 126).toText] s =
        (.error (.breach (.argumentType (.list (.list .any)) .any)), s) :=
  invoke_boxer rfl

end ContractHost
