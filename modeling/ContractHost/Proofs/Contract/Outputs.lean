import ContractHost.Proofs.Contract.Responses

/-!
# What a list of outputs is answered with

A function declares a success value or none, and an error slot or none. The outputs that fit are
`ReturnShape.slots`: a value where one is declared, then an error slot where one is declared, and
nothing else. **Any other list is a breach, and these never are** (`Function.respond_outcome`).

Among the outputs that fit an error wins: it is the outcome whatever stands in the value slot and
whatever metadata are given. Where the error slot is empty or missing, the outcome is no error of
the function, since an answer fails in three ways only (`answerSuccess_error_cases`): the value
cannot be written, the schema for it cannot be used, or does not accept it.
-/

namespace ContractHost

variable {κ : Type} {components : Components} {metadata : Option Transaction} {t : Ty} {v : Value}

/-! ### Outputs that fit a shape -/

/-- The outputs of a shape with a success value and an error, as far as there are slots for them. -/
def ReturnShape.slots (r : ReturnShape) (v : Value) (e : Option String) : List Output :=
  (if r.success.isSome then [.value v] else []) ++ if r.hasError then [.error e] else []

/-- The raw value that is answered for a success value: the undefined one where none is declared. -/
def ReturnShape.rawValue (r : ReturnShape) (v : Value) : Value :=
  if r.success.isSome then v else .undefined

namespace Function

variable {f : Function κ} {outputs : List Output}

/-- Outputs that fit are split into their slots. -/
theorem splitOutputs_slots (f : Function κ) (v : Value) (e : Option String) :
    f.splitOutputs (f.returns.slots v e) =
      .ok (if f.returns.success.isSome then some v else none,
        if f.returns.hasError then e else none) := by
  obtain ⟨name, usesContext, params, ⟨_ | t, _ | _⟩, run⟩ := f <;> rfl

/-- The value that was taken stood in the first place. -/
theorem takeSuccess_eq_ok {success : Option Value} {rest : List Output}
    (h : f.takeSuccess outputs = .ok (success, rest)) :
    ∃ v, outputs = (if f.returns.success.isSome then [.value v] else []) ++ rest := by
  unfold takeSuccess at h
  split at h
  · next hdeclared =>
    simp only [if_pos hdeclared]
    split at h
    · next v rest' =>
      cases h
      exact ⟨v, rfl⟩
    · cases h
  · next hdeclared =>
    simp only [if_neg hdeclared]
    cases h
    exact ⟨.undefined, rfl⟩

/-- An error slot that was found stood in the only place there was. -/
theorem takeError_eq_ok {e : Option String}
    (hlength : outputs.length = if f.returns.hasError then 1 else 0)
    (h : f.takeError outputs = .ok e) :
    ∃ e, outputs = if f.returns.hasError then [.error e] else [] := by
  unfold takeError at h
  split at h
  · next hdeclared =>
    simp only [if_pos hdeclared] at hlength ⊢
    split at h
    · next e' rest =>
      obtain rfl : rest = [] := List.eq_nil_of_length_eq_zero (Nat.succ_inj.1 hlength)
      exact ⟨e', rfl⟩
    · cases h
  · next hdeclared =>
    simp only [if_neg hdeclared] at hlength ⊢
    exact ⟨none, List.eq_nil_of_length_eq_zero hlength⟩

/-- Outputs that can be split fit. -/
theorem slots_of_splitOutputs {split : Option Value × Option String}
    (h : f.splitOutputs outputs = .ok split) : ∃ v e, outputs = f.returns.slots v e := by
  unfold splitOutputs at h
  split at h
  · cases h
  · next hlength =>
    split at h
    · cases h
    · next success rest htake =>
      obtain ⟨e, herror, -⟩ := Except.map_eq_ok.1 h
      obtain ⟨v, rfl⟩ := takeSuccess_eq_ok htake
      have hrest : rest.length = if f.returns.hasError then 1 else 0 := by
        rw [not_not, ReturnShape.size, List.length_append, apply_ite List.length] at hlength
        exact Nat.add_left_cancel hlength
      obtain ⟨e', rfl⟩ := takeError_eq_ok hrest herror
      exact ⟨v, e', rfl⟩

/-- **Outputs can be split exactly if they fit.** -/
theorem splitOutputs_eq_error_iff : (∃ b, f.splitOutputs outputs = .error b) ↔
    ¬∃ v e, outputs = f.returns.slots v e := by
  constructor
  · rintro ⟨b, hb⟩ ⟨v, e, rfl⟩
    rw [splitOutputs_slots] at hb
    cases hb
  · intro hnot
    rcases hsplit : f.splitOutputs outputs with b | split
    · exact ⟨b, rfl⟩
    · exact absurd (slots_of_splitOutputs hsplit) hnot

/-- A response fails because the outputs cannot be split, because there is an error among them, or
because the answer with the success value fails. -/
theorem respond_error_cases {e : Failure} (h : f.respond metadata components outputs = .error e) :
    (∃ b, f.splitOutputs outputs = .error b ∧ e = .breach b) ∨
      (∃ error, e = .error (.transaction error)) ∨
      ∃ t v e', answerSuccess metadata components t v = .error e' ∧ e = .error e' := by
  unfold respond at h
  rcases hsplit : f.splitOutputs outputs with b | ⟨success, _ | error⟩
  · rw [hsplit] at h
    cases h
    exact .inl ⟨b, rfl, rfl⟩
  · rw [hsplit] at h
    dsimp only at h
    split at h
    · next t v _ =>
      split at h
      · next e' he =>
        cases h
        exact .inr (.inr ⟨t, v, e', he, rfl⟩)
      · cases h
    · cases h
  · rw [hsplit] at h
    cases h
    exact .inr (.inl ⟨error, rfl⟩)

/-- A response is a breach exactly if its outputs cannot be split. -/
theorem respond_eq_breach_iff (metadata : Option Transaction) (components : Components)
    {b : Breach} : f.respond metadata components outputs = .error (.breach b) ↔
      f.splitOutputs outputs = .error b := by
  constructor
  · intro h
    rcases respond_error_cases h with ⟨_, hsplit, heq⟩ | ⟨_, heq⟩ | ⟨_, _, _, _, heq⟩ <;> cases heq
    exact hsplit
  · intro h
    rw [respond, h]

end Function

/-! ### Answers that fail -/

/-- A value is not rendered only if it cannot be written. -/
theorem renderSuccess_eq_error {e : CallError} (h : renderSuccess t v = .error e) :
    e = @CallError.unwritableReturn v.unwritable := by
  unfold renderSuccess at h
  split at h
  · split at h <;> cases h
    rfl
  · cases h

/-- An answer fails because the success value cannot be written or not be read again, or because
there are metadata for it, whose schema cannot be used or does not accept it. -/
theorem answerSuccess_error_cases {e : CallError}
    (h : answerSuccess metadata components t v = .error e) :
    e = @CallError.unwritableReturn v.unwritable ∨ metadata.isSome = true ∧
      ((∃ source, e = .invalidReturnSchema source) ∨
        ∃ violations, e = .returnSchema violations) := by
  unfold answerSuccess at h
  split at h
  · cases h
  · split at h
    · next e' he =>
      cases h
      exact .inl (renderSuccess_eq_error he)
    · split at h
      · cases h
      · next r hr =>
        obtain ⟨tx, htx, -⟩ := Option.bind_eq_some_iff.1 hr
        have hsome : metadata.isSome = true := by rw [htx]; rfl
        have hcheck := Except.map_eq_error.1 h
        unfold checkSuccess at hcheck
        split at hcheck
        · cases hcheck
          exact .inl rfl
        · split at hcheck
          · next source _ =>
            cases hcheck
            exact .inr ⟨hsome, .inl ⟨source, rfl⟩⟩
          · split at hcheck <;> cases hcheck
            exact .inr ⟨hsome, .inr ⟨_, rfl⟩⟩

namespace Function

/-! ### Outcomes -/

/-- An error that the function returned wins over everything else. -/
theorem respond_slots_some {f : Function κ} (hdeclared : f.returns.hasError = true)
    (metadata : Option Transaction) (components : Components) (v : Value) (e : String) :
    f.respond metadata components (f.returns.slots v (some e)) =
      .error (.error (.transaction e)) := by
  rw [respond, splitOutputs_slots, if_pos hdeclared]

/-- Where there is no error, the outputs are split into the success value alone. -/
theorem splitOutputs_slots_of_no_error {f : Function κ} {e : Option String}
    (he : f.returns.hasError = true → e = none) (v : Value) :
    f.splitOutputs (f.returns.slots v e) =
      .ok (if f.returns.success.isSome then some v else none, none) := by
  rw [splitOutputs_slots]
  by_cases hdeclared : f.returns.hasError = true
  · rw [he hdeclared, ite_self]
  · rw [if_neg hdeclared]

/-- Where there is no error, the success value is answered if one is declared. -/
theorem respond_slots_of_success {f : Function κ} (ht : f.returns.success = some t)
    {e : Option String} (he : f.returns.hasError = true → e = none)
    (metadata : Option Transaction) (components : Components) (v : Value) :
    f.respond metadata components (f.returns.slots v e) =
      (answerSuccess metadata components t v).mapError Failure.error := by
  refine respond_of_splitOutputs ht ?_ metadata components
  rw [splitOutputs_slots_of_no_error he, ht]
  rfl

/-- And otherwise the undefined value. -/
theorem respond_slots_of_no_success {f : Function κ} (ht : f.returns.success = none)
    {e : Option String} (he : f.returns.hasError = true → e = none)
    (metadata : Option Transaction) (components : Components) (v : Value) :
    f.respond metadata components (f.returns.slots v e) = .ok ("", .undefined) := by
  rw [respond, splitOutputs_slots_of_no_error he, ht]

/-- **What a list of outputs is answered with**, whatever the metadata. It is a breach exactly if
the outputs are not a value where one is declared, an error slot where one is declared, and nothing
else. If they are, an error in the error slot is the outcome, whatever the value is. Where there is
none the outcome is no error of the function; a raw value that is answered is the one that was
produced, or the undefined one if none is declared; and if that is a nil, it is answered with the
empty text. -/
theorem respond_outcome (f : Function κ) (metadata : Option Transaction) (components : Components) :
    (∀ outputs, (∃ b, f.respond metadata components outputs = .error (.breach b)) ↔
      ¬∃ v e, outputs = f.returns.slots v e) ∧
    (f.returns.hasError = true → ∀ v e, f.respond metadata components
      (f.returns.slots v (some e)) = .error (.error (.transaction e))) ∧
    ∀ v e, (f.returns.hasError = true → e = none) →
      (∀ error, f.respond metadata components (f.returns.slots v e) ≠
        .error (.error (.transaction error))) ∧
      (∀ text w, f.respond metadata components (f.returns.slots v e) = .ok (text, w) →
        w = f.returns.rawValue v) ∧
      ((f.returns.rawValue v).isNil = true →
        f.respond metadata components (f.returns.slots v e) = .ok ("", f.returns.rawValue v)) := by
  refine ⟨fun outputs ↦ ?_, fun hdeclared v e ↦ ?_, fun v e he ↦ ?_⟩
  · simp only [respond_eq_breach_iff]
    exact splitOutputs_eq_error_iff
  · exact respond_slots_some hdeclared metadata components v e
  · rcases ht : f.returns.success with _ | t
    · have hraw : f.returns.rawValue v = .undefined := by rw [ReturnShape.rawValue, ht]; rfl
      rw [respond_slots_of_no_success ht he, hraw]
      refine ⟨fun _ ↦ nofun, fun text w h ↦ ?_, fun _ ↦ rfl⟩
      cases h
      rfl
    · have hraw : f.returns.rawValue v = v := by rw [ReturnShape.rawValue, ht]; rfl
      rw [respond_slots_of_success ht he, hraw]
      refine ⟨fun error h ↦ ?_, fun text w h ↦ ?_, fun hnil ↦ ?_⟩
      · obtain ⟨_, hanswer, heq⟩ := Except.mapError_eq_error.1 h
        cases heq
        rcases answerSuccess_error_cases hanswer with heq | ⟨-, ⟨_, heq⟩ | ⟨_, heq⟩⟩ <;> cases heq
      · exact answerSuccess_value (Except.mapError_eq_ok.1 h)
      · rw [answerSuccess_of_isNil _ _ _ hnil]
        rfl

/-- A function that returns a note or an error. -/
def noteFinder : Function Unit :=
  ⟨"Find", false, [], ⟨some (.scalar .string), true⟩, fun _ s ↦ (.ok [], s)⟩

/-- The slots the wrong way round are a breach. An error wins over an absent note, and a missing one
is kept as it is. -/
theorem respond_outcome_note :
    (∃ b, noteFinder.respond none ∅ [.error none, .value .undefined] = .error (.breach b)) ∧
    noteFinder.respond none ∅ [.value (.absent (.scalar .string)), .error (some "gone")] =
      .error (.error (.transaction "gone")) ∧
    noteFinder.respond none ∅ [.value (.typed (.option .string) .nil), .error none] =
      .ok ("", .typed (.option .string) .nil) := by
  obtain ⟨hbreach, herror, hanswer⟩ := respond_outcome noteFinder none ∅
  refine ⟨(hbreach _).2 ?_, herror rfl _ "gone", (hanswer _ none fun _ ↦ rfl).2.2 rfl⟩
  rintro ⟨v, e, hslots⟩
  cases hslots

end Function

end ContractHost
