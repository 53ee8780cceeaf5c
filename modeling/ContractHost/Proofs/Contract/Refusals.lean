import ContractHost.Proofs.Contract.Outputs

/-!
# What a contract refuses

A contract that has been found may refuse a call for many reasons — too few arguments, an argument
that cannot be read, a value that a schema does not admit, a function that it does not have, an
error of the function itself. Two things it does not say on its own account. That a contract was not
found is for routing to say, which looks for contracts by their names (`Failure.FromRouting`). And a
check against metadata fails only where there are metadata (`CallError.FromMetadata`).

Both are read off one predicate, **the errors that arise** with metadata or without
(`CallError.Arises`). It has one lemma for each layer of a call, from the codec up, whatever the
hooks and functions do and whatever document is enforced: `acceptArguments_arises`,
`Function.call_arises`, and at the top `Contract.invoke_arises`.
-/

namespace ContractHost

variable {κ : Type} {e : CallError} {checked checked' : Prop}

/-! ### Errors by their source -/

/-- The error says that metadata do not fit the function, or that a value does not fit the
metadata. -/
def CallError.FromMetadata : CallError → Prop
  | .metadataParamCount .. | .invalidSchema .. | .paramSchema .. | .invalidReturnSchema _
  | .returnSchema _ => True
  | _ => False

/-- A failure by which routing refuses a call, before any contract sees it. -/
def Failure.FromRouting : Failure → Prop
  | .error (.contractNotFound _) => True
  | _ => False

/-- The errors that a call can end in once its contract is found: those that only metadata bring
about where there is something to check against, and all the others but the one of routing. -/
def CallError.Arises (checked : Prop) : CallError → Prop
  | .contractNotFound _ => False
  | .metadataParamCount .. | .invalidSchema .. | .paramSchema .. | .invalidReturnSchema _
  | .returnSchema _ => checked
  | _ => True

/-- A breach may arise anywhere. -/
def Failure.Arises (checked : Prop) : Failure → Prop
  | .error e => e.Arises checked
  | .breach _ => True

namespace CallError

theorem Arises.mono (h : e.Arises checked) (himp : checked → checked') : e.Arises checked' := by
  cases e <;> first | exact trivial | exact himp h | exact h

/-- Where there is nothing to check against, no error comes from metadata. -/
theorem Arises.not_fromMetadata (h : e.Arises checked) (hchecked : ¬checked) : ¬e.FromMetadata := by
  cases e <;> first | exact id | exact fun _ ↦ hchecked h

end CallError

namespace Failure

variable {e : Failure}

theorem Arises.mono (h : e.Arises checked) (himp : checked → checked') : e.Arises checked' := by
  cases e with
  | error e => exact CallError.Arises.mono h himp
  | breach _ => exact trivial

/-- No error of a contract is that of routing. -/
theorem Arises.not_fromRouting (h : e.Arises checked) : ¬e.FromRouting := by
  rcases e with e | b
  · cases e <;> first | exact id | exact fun _ ↦ h
  · exact id

end Failure

/-! ### Reading arguments -/

theorem decodeArgument_arises {t : DataType} {raw : String}
    (h : decodeArgument t raw = .error e) : e.Arises checked := by
  unfold decodeArgument at h
  split at h
  · split at h <;> cases h
    exact trivial
  · cases h
  · split at h
    · cases h
      exact trivial
    · split at h <;> cases h
      exact trivial

theorem checkArgument_arises {components : Components} {p : Parameter} {t : DataType}
    {raw : String} {v : Value} (hchecked : checked)
    (h : checkArgument components p t raw v = .error e) : e.Arises checked := by
  unfold checkArgument at h
  split at h
  · cases h
    exact trivial
  · split at h
    · cases h
      exact hchecked
    · split at h <;> cases h
      exact hchecked

theorem acceptArguments_arises {components : Components} :
    ∀ {checks : List (DataType × Option Parameter)} {wire : List String},
      (∀ c ∈ checks, c.2.isSome = true → checked) →
      acceptArguments components checks wire = .error e → e.Arises checked
  | [], _, _, h => by cases h
  | _ :: _, [], _, h => by cases h
  | (t, p) :: rest, raw :: wire, hchecks, h => by
    rw [acceptArguments] at h
    split at h
    · next e' he =>
      cases h
      unfold acceptArgument at he
      split at he
      · next hdecode =>
        cases he
        exact decodeArgument_arises hdecode
      · split at he
        · cases he
        · exact checkArgument_arises (hchecks _ List.mem_cons_self rfl) (Except.map_eq_error.1 he)
    · exact acceptArguments_arises (fun c hc ↦ hchecks c (.tail _ hc)) (Except.map_eq_error.1 h)

theorem Function.decodeArguments_arises {f : Function κ} {metadata : Option Transaction}
    {components : Components} {wire : List String}
    (h : f.decodeArguments metadata components wire = .error e) :
    e.Arises (metadata.isSome = true) := by
  unfold decodeArguments at h
  cases metadata with
  | none =>
    simp only [Option.map_none, Option.getD_none, ne_eq, not_true_eq_false, if_false] at h
    split at h
    · cases h
      exact trivial
    · refine acceptArguments_arises (fun c hc hsome ↦ ?_) (Except.map_eq_error.1 h)
      obtain ⟨t, -, rfl⟩ := List.mem_map.1 hc
      cases hsome
  | some tx =>
    dsimp only at h
    split at h
    · cases h
      exact rfl
    · split at h
      · cases h
        exact trivial
      · exact acceptArguments_arises (fun _ _ _ ↦ rfl) (Except.map_eq_error.1 h)

/-! ### Answering -/

theorem answerSuccess_arises {metadata : Option Transaction} {components : Components} {t : Ty}
    {v : Value} (h : answerSuccess metadata components t v = .error e) :
    e.Arises (metadata.isSome = true) := by
  rcases answerSuccess_error_cases h with rfl | ⟨hsome, ⟨_, rfl⟩ | ⟨_, rfl⟩⟩
  · exact trivial
  · exact hsome
  · exact hsome

namespace Function

variable {f : Function κ} {metadata : Option Transaction} {components : Components}
  {s : Session κ}

theorem perform_arises {args : Arguments} {e : Failure}
    (h : (f.perform metadata components args s).1 = .error e) :
    e.Arises (metadata.isSome = true) := by
  unfold perform at h
  split at h
  · cases h
    exact trivial
  · rcases respond_error_cases h with ⟨_, -, rfl⟩ | ⟨_, rfl⟩ | ⟨_, _, _, he, rfl⟩
    · exact trivial
    · exact trivial
    · exact answerSuccess_arises he

theorem call_arises {wire : List String} {e : Failure}
    (h : (f.call metadata components wire s).1 = .error e) : e.Arises (metadata.isSome = true) := by
  unfold call at h
  split at h
  · next he =>
    cases h
    exact decodeArguments_arises he
  · exact perform_arises h

end Function

/-! ### Contracts -/

namespace Contract

variable {c : Contract κ} {s : Session κ} {e : Failure}

/-- Hooks are called without metadata. -/
theorem runHook_arises {hook : Option (Hook κ)} {data : Option Value}
    (h : (runHook hook data s).1 = .error e) : e.Arises False := by
  unfold runHook at h
  split at h
  · cases h
  · split at h
    · next he =>
      cases h
      exact (Function.perform_arises (congrArg Prod.fst he)).mono Bool.noConfusion
    · cases h

theorem dispatch_arises {document : Option Document} {function : String} {args : List String}
    (h : (c.dispatch document function args s).1 = .error e) :
    e.Arises (document.isSome = true) := by
  unfold dispatch at h
  split at h
  · exact (Function.call_arises h).mono Option.isSome_of_isSome_bind
  · split at h
    · exact (Function.perform_arises h).mono Bool.noConfusion
    · cases h
      exact trivial

/-- **What an invocation fails with arises** in a contract, from metadata only if there is a
document. -/
theorem invoke_arises {document : Option Document} {function : String} {args : List String}
    (h : (c.invoke document function args s).1 = .error e) :
    e.Arises (document.isSome = true) := by
  unfold invoke at h
  split at h
  · next he =>
    cases h
    exact (runHook_arises (congrArg Prod.fst he)).mono False.elim
  · split at h
    · next he =>
      cases h
      exact dispatch_arises (congrArg Prod.fst he)
    · split at h
      · next he =>
        cases h
        exact (runHook_arises (congrArg Prod.fst he)).mono False.elim
      · cases h

end Contract

end ContractHost
