import ContractHost.Contract.Context
import ContractHost.Proofs.Contract.Registration
import ContractHost.Proofs.Json.Reading

/-!
# What metadata ask of a response

Metadata may give a schema for the success value of a function. A value **conforms** to a schema
(`Value.Conforms`) when the schema can be used with the components and accepts the document of the
value.

A response under metadata that give such a schema is the response without metadata, provided that
the success value conforms **or is a nil** (`Function.respond_eq_ok_iff`). The second case is an
exception that the schema has no part in: a nil is answered with the empty text before the schema is
looked at, although it has a document like every other value (`Value.toJson?_of_isNil`). So a schema
that does not accept `null` is not enforced on a missing value, and one that cannot be used at all
goes unnoticed (`respond_nil_not_conforms`).
-/

namespace ContractHost

variable {κ : Type} {components : Components} {v : Value}

/-! ### Values that conform to a schema -/

/-- A schema can be used with the components, and accepts the document of a value. -/
def Value.Conforms (components : Components) (s : Json) (v : Value) : Prop :=
  ∃ j schema, v.toJson? = some j ∧ Schema.compile s components = .ok schema ∧
    schema.validate j = []

/-- The document of a nil is `null`, whatever type it is a nil of. -/
theorem Value.toJson?_of_isNil (h : v.isNil = true) : v.toJson? = some .null := by
  have hwrite : v.write? = some (Json.write .null) := by
    rcases v with t | ⟨t, d⟩
    · rw [Value.write?]
    · rw [Value.write?]
      rw [Value.isNil] at h
      unfold Datum.isNil at h
      split at h
      · rw [Datum.write?]
      · rw [Datum.write?]
      · cases h
  rw [Value.toJson?, hwrite]
  exact Json.read?_null

/-- A nil conforms to the schemas that accept `null`. -/
theorem Value.conforms_iff_of_isNil (h : v.isNil = true) {s : Json} :
    v.Conforms components s ↔
      ∃ schema, Schema.compile s components = .ok schema ∧ schema.validate .null = [] := by
  constructor
  · rintro ⟨j, schema, hj, hschema, haccepts⟩
    obtain rfl : j = .null := Option.some.inj (hj.symm.trans (toJson?_of_isNil h))
    exact ⟨schema, hschema, haccepts⟩
  · rintro ⟨schema, hschema, haccepts⟩
    exact ⟨.null, schema, toJson?_of_isNil h, hschema, haccepts⟩

/-- The check of a success value passes exactly the values that conform. -/
theorem checkSuccess_eq_ok_iff {r : Returns} :
    checkSuccess components r v = .ok () ↔ v.Conforms components r.schema := by
  unfold checkSuccess
  constructor
  · intro h
    split at h
    · cases h
    · next j hj =>
      split at h
      · cases h
      · next schema hschema =>
        split at h
        · next haccepts => exact ⟨j, schema, hj, hschema, haccepts⟩
        · cases h
  · rintro ⟨j, schema, hj, hschema, haccepts⟩
    rw [hj]
    dsimp only
    rw [hschema]
    dsimp only
    rw [haccepts]

/-! ### Answers with a success value -/

/-- The raw value of an answer is the success value. -/
theorem answerSuccess_value {metadata : Option Transaction} {t : Ty} {answer : String × Value}
    (h : answerSuccess metadata components t v = .ok answer) : answer.2 = v := by
  unfold answerSuccess at h
  split at h
  · cases h
    rfl
  · split at h
    · cases h
    · split at h
      · cases h
        rfl
      · obtain ⟨-, -, rfl⟩ := Except.map_eq_ok.1 h
        rfl

/-- A nil is answered with the empty text, and no metadata change that. -/
theorem answerSuccess_of_isNil (metadata : Option Transaction) (components : Components) (t : Ty)
    (h : v.isNil = true) : answerSuccess metadata components t v = .ok ("", v) :=
  if_pos h

/-- A schema for the success value refuses what does not conform, unless it is a nil. -/
theorem answerSuccess_eq_ok_iff {tx : Transaction} {r : Returns} (hr : tx.returns = some r) {t : Ty}
    {answer : String × Value} :
    answerSuccess (some tx) components t v = .ok answer ↔
      answerSuccess none ∅ t v = .ok answer ∧
        (v.isNil = true ∨ v.Conforms components r.schema) := by
  by_cases hnil : v.isNil = true
  · rw [answerSuccess_of_isNil _ _ _ hnil, answerSuccess_of_isNil _ _ _ hnil]
    exact ⟨fun h ↦ ⟨h, .inl hnil⟩, fun h ↦ h.1⟩
  · have hconforms : (v.isNil = true ∨ v.Conforms components r.schema) ↔
        v.Conforms components r.schema := or_iff_right hnil
    rw [hconforms, answerSuccess, answerSuccess, if_neg hnil, if_neg hnil]
    cases renderSuccess t v with
    | error e => exact ⟨fun h ↦ (nomatch h), fun h ↦ (nomatch h.1)⟩
    | ok text =>
      simp only [Option.bind_some, hr, Option.bind_none]
      rw [Except.map_eq_ok, ← checkSuccess_eq_ok_iff]
      constructor
      · rintro ⟨⟨⟩, hcheck, rfl⟩
        exact ⟨rfl, hcheck⟩
      · rintro ⟨hanswer, hcheck⟩
        exact ⟨(), hcheck, Except.ok.inj hanswer⟩

/-! ### Responses -/

/-- Outputs with a success value and no error are answered with that value. -/
theorem Function.respond_of_splitOutputs {f : Function κ} {outputs : List Output} {t : Ty}
    {v : Value} (hsuccess : f.returns.success = some t)
    (hsplit : f.splitOutputs outputs = .ok (some v, none)) (metadata : Option Transaction)
    (components : Components) :
    f.respond metadata components outputs =
      (answerSuccess metadata components t v).mapError Failure.error := by
  simp only [respond, hsplit, hsuccess]
  cases answerSuccess metadata components t v <;> rfl

/-- Outputs that are not answered with a success value are answered with the undefined value, or not
at all, and without a look at the metadata. -/
theorem Function.respond_without_value {f : Function κ} {outputs : List Output}
    (h : ∀ t v, f.returns.success = some t → f.splitOutputs outputs ≠ .ok (some v, none)) :
    (∃ e, ∀ metadata components, f.respond metadata components outputs = .error e) ∨
      ∀ metadata components, f.respond metadata components outputs = .ok ("", .undefined) := by
  unfold respond
  rcases hsplit : f.splitOutputs outputs with b | ⟨success, _ | e⟩
  · exact .inl ⟨.breach b, fun _ _ ↦ rfl⟩
  · rcases hsuccess : f.returns.success with _ | t
    · exact .inr fun _ _ ↦ rfl
    · rcases success with _ | v
      · exact .inr fun _ _ ↦ rfl
      · exact absurd hsplit (h t v hsuccess)
  · exact .inl ⟨.error (.transaction e), fun _ _ ↦ rfl⟩

/-- **What a schema for the success value asks of a response.** The response is the one without
metadata, and its raw value conforms to the schema or is a nil. -/
theorem Function.respond_eq_ok_iff (f : Function κ) {tx : Transaction} {r : Returns}
    (hr : tx.returns = some r) (components : Components) (outputs : List Output) (text : String)
    (v : Value) :
    f.respond (some tx) components outputs = .ok (text, v) ↔
      f.respond none ∅ outputs = .ok (text, v) ∧
        (v.isNil = true ∨ v.Conforms components r.schema) := by
  by_cases hvalue : ∃ t w, f.returns.success = some t ∧ f.splitOutputs outputs = .ok (some w, none)
  · obtain ⟨t, w, hsuccess, hsplit⟩ := hvalue
    rw [respond_of_splitOutputs hsuccess hsplit, respond_of_splitOutputs hsuccess hsplit,
      Except.mapError_eq_ok, Except.mapError_eq_ok, answerSuccess_eq_ok_iff hr]
    refine and_congr_right fun hanswer ↦ ?_
    obtain rfl : v = w := answerSuccess_value hanswer
    exact Iff.rfl
  · have hnone : ∀ t w, f.returns.success = some t → f.splitOutputs outputs ≠ .ok (some w, none) :=
      fun t w hsuccess hsplit ↦ hvalue ⟨t, w, hsuccess, hsplit⟩
    rcases respond_without_value hnone with ⟨e, he⟩ | hundefined
    · rw [he, he]
      exact ⟨fun h ↦ (nomatch h), fun h ↦ (nomatch h.1)⟩
    · rw [hundefined, hundefined]
      refine ⟨fun h ↦ ⟨h, .inl ?_⟩, fun h ↦ h.1⟩
      cases h
      rfl

/-- The raw success value among outputs, which is undefined where none is declared. -/
def Function.rawValue (f : Function κ) (outputs : List Output) : Value :=
  if f.returns.success.isSome then
    match outputs with
    | .value v :: _ => v
    | _ => .undefined
  else .undefined

/-- Outputs are split into the raw success value, if one is declared, and the error. -/
theorem Function.splitOutputs_success {f : Function κ} {outputs : List Output}
    {success : Option Value} {e : Option String} (h : f.splitOutputs outputs = .ok (success, e)) :
    success = if f.returns.success.isSome then some (f.rawValue outputs) else none := by
  unfold splitOutputs at h
  split at h
  · cases h
  · split at h
    · cases h
    · next success' rest htake =>
      obtain ⟨e', -, heq⟩ := Except.map_eq_ok.1 h
      cases heq
      unfold takeSuccess at htake
      unfold rawValue
      split at htake
      · next hdeclared =>
        rw [if_pos hdeclared, if_pos hdeclared]
        split at htake
        · cases htake
          rfl
        · cases htake
      · next hdeclared =>
        rw [if_neg hdeclared]
        cases htake
        rfl

/-- A response of a function that declares a success value is the answer with the one among the
outputs. -/
theorem Function.answerSuccess_of_respond {f : Function κ} {metadata : Option Transaction}
    {outputs : List Output} {t : Ty} {answer : String × Value} (ht : f.returns.success = some t)
    (h : f.respond metadata components outputs = .ok answer) :
    answerSuccess metadata components t (f.rawValue outputs) = .ok answer := by
  unfold respond at h
  split at h
  · cases h
  · cases h
  · next success hsplit =>
    have hsuccess := splitOutputs_success hsplit
    rw [ht] at h hsuccess
    obtain rfl : success = some (f.rawValue outputs) := hsuccess
    dsimp only at h
    split at h
    · cases h
    · next answer' hanswer =>
      cases h
      exact hanswer

/-- **The raw value of a response is the one among the outputs**, whatever the metadata. -/
theorem Function.value_of_respond {f : Function κ} {metadata : Option Transaction}
    {outputs : List Output} {text : String}
    (h : f.respond metadata components outputs = .ok (text, v)) : v = f.rawValue outputs := by
  rcases ht : f.returns.success with _ | t
  · unfold respond at h
    rw [ht] at h
    unfold rawValue
    rw [ht]
    split at h <;> cases h
    rfl
  · exact answerSuccess_value (answerSuccess_of_respond ht h)

/-- A handler that looks up a setting and does not find it. -/
def settingFinder : TypedHandler TransactionContext where
  takesContext := false
  usesInvocation := false
  params := []
  returns := .value .json
  body _ s := (.json .null, s)

/-- What metadata say of the handler: it returns a truth value. -/
def settingTransaction : Transaction :=
  ⟨[], some ⟨.object [("type", .string "boolean")]⟩, [], "Setting"⟩

/-- A setting that is found conforms. -/
theorem respond_eq_ok_iff_setting :
    ∃ f : Function TransactionContext, ∃ v,
      Function.ofHandler "Setting" settingFinder.toHandler = .ok f ∧
        f.respond (some settingTransaction) ∅ [.value v] = .ok ("true", v) := by
  have hconforms : (Value.typed .json (.json (.bool true))).Conforms ∅
      (.object [("type", .string "boolean")]) :=
    ⟨.bool true, _, Json.read?_bool true, rfl, rfl⟩
  exact ⟨_, _, rfl, (Function.respond_eq_ok_iff _ rfl ∅ _ _ _).2 ⟨rfl, .inr hconforms⟩⟩

/-- **A missing value is answered whatever the schema**: one for truth values accepts no `null`. -/
theorem respond_nil_not_conforms :
    ∃ f : Function TransactionContext, ∃ v,
      Function.ofHandler "Setting" settingFinder.toHandler = .ok f ∧ f.returns.success.isSome ∧
        f.respond (some settingTransaction) ∅ [.value v] = .ok ("", v) ∧
          ¬ v.Conforms ∅ (.object [("type", .string "boolean")]) := by
  refine ⟨_, .typed .json (.json .null), rfl, rfl, rfl, ?_⟩
  rw [Value.conforms_iff_of_isNil rfl]
  rintro ⟨schema, hschema, haccepts⟩
  cases hschema
  exact absurd haccepts (by decide)

end ContractHost
