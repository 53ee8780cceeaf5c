import ContractHost.Contract.Context
import ContractHost.Proofs.Contract.Registration
import ContractHost.Proofs.Data.Conversion
import ContractHost.Proofs.Types.Validity

/-!
# Arguments that cannot be read

A shape that cannot be read is refused when a function is registered, not when it is called.
Reading an argument looks for arrays without elements once more, but registration has seen every
part of every parameter, and left none of them in (`Function.checkArrayLengths_of_mem_params`). So
that check never fails, and an argument is refused for its text alone: **a dynamic parameter takes
every string, a scalar one refuses what cannot be converted, and any other one what is not written
in the form of its type** (`Function.decodeArgument_refusals`).

```
what the parameter is            reading a string
  dynamic                          decodeArgument_any
  a scalar                         decodeArgument_scalar
  anything else of valid shape     decodeArgument_shaped
```

The type of the context is known by name only. Were it a record, it could also stand inside of a
parameter, and its fields would not be looked at.
-/

namespace ContractHost

variable {κ : Type} {t : DataType}

/-! ### Reading by the kind of parameter -/

/-- A dynamic parameter gets the string itself as a document. -/
theorem decodeArgument_any (h : t.ty = .any) (raw : String) :
    decodeArgument t raw = .ok (.typed .json (.json (.string raw))) := by
  rw [decodeArgument, h]

/-- A scalar parameter gets the string converted. -/
theorem decodeArgument_scalar {s : Scalar} (h : t.ty = .scalar s) (raw : String) :
    decodeArgument t raw = (s.convert raw).mapError CallError.conversion := by
  rw [decodeArgument, h]
  dsimp only
  rcases s.convert raw with _ | _ <;> rfl

/-- Any other parameter gets what the string spells, if its shape can be read at all. -/
theorem decodeArgument_shaped (hany : t.ty ≠ .any) (hscalar : ∀ s, t.ty ≠ .scalar s)
    (hlengths : t.ty.checkArrayLengths = .ok ()) (raw : String) :
    decodeArgument t raw =
      (t.valueOf? raw).elim (.error (.format raw t.ty.display)) Except.ok := by
  unfold decodeArgument
  split
  · next s hs => exact absurd hs (hscalar s)
  · next hs => exact absurd hs hany
  · rw [hlengths]
    dsimp only
    rcases t.valueOf? raw with _ | v <;> rfl

/-- A scalar parameter refuses what cannot be converted. -/
theorem decodeArgument_scalar_eq_error_iff {s : Scalar} (h : t.ty = .scalar s) {raw : String}
    {e : CallError} : decodeArgument t raw = .error e ↔
      (raw ≠ "" ∧ s.read? raw = none) ∧ e = .conversion ⟨raw, s⟩ := by
  rw [decodeArgument_scalar h, Except.mapError_eq_error]
  constructor
  · rintro ⟨e', he', rfl⟩
    obtain ⟨hunread, rfl⟩ := Scalar.convert_eq_error_iff.1 he'
    exact ⟨hunread, rfl⟩
  · rintro ⟨hunread, rfl⟩
    exact ⟨_, Scalar.convert_eq_error_iff.2 ⟨hunread, rfl⟩, rfl⟩

/-- Any other parameter refuses what does not spell a value of its type. -/
theorem decodeArgument_shaped_eq_error_iff (hany : t.ty ≠ .any) (hscalar : ∀ s, t.ty ≠ .scalar s)
    (hlengths : t.ty.checkArrayLengths = .ok ()) {raw : String} {e : CallError} :
    decodeArgument t raw = .error e ↔ t.valueOf? raw = none ∧ e = .format raw t.ty.display := by
  rw [decodeArgument_shaped hany hscalar hlengths]
  rcases t.valueOf? raw with _ | v
  · simp [eq_comm]
  · simp

/-! ### Reading the parameters of a function -/

namespace Function

variable [ContextType κ] {name : String} {h : Handler κ} {f : Function κ}

/-- **No parameter of a registered function has an array without elements** among its parts. -/
theorem checkArrayLengths_of_mem_params (hcontext : ∃ n, contextTy κ = .named n)
    (hf : Function.ofHandler name h = .ok f) (ht : t ∈ f.params) {u : Ty} (hu : u ∈ t.ty.parts) :
    u.checkArrayLengths = .ok () :=
  Ty.checkArrayLengths_of_validate (List.forall_mem_singleton.2 hcontext)
    (validate_of_mem_params hf ht) hu

/-- **What an argument is refused for.** Let the context be known by name only, and a function be
registered. Then no part of a parameter, nor the key of a map among its parts, has an array without
elements, so reading an argument never fails for the type of the parameter. A dynamic parameter
takes every string. A scalar parameter refuses the strings that cannot be converted, and any other
parameter those that do not spell a value of its type, naming the string and the written form of
the type. -/
theorem decodeArgument_refusals (hcontext : ∃ n, contextTy κ = .named n)
    (hf : Function.ofHandler name h = .ok f) (ht : t ∈ f.params) :
    (∀ u ∈ t.ty.parts, u.checkArrayLengths = .ok ()) ∧
    (∀ flavor key value, .map flavor key value ∈ t.ty.parts → key.checkArrayLengths = .ok ()) ∧
    ∀ raw, (∀ e, decodeArgument t raw ≠ .error (.type e)) ∧
      (t.ty = .any → decodeArgument t raw = .ok (.typed .json (.json (.string raw)))) ∧
      (∀ s, t.ty = .scalar s → ∀ e, decodeArgument t raw = .error e ↔
        (raw ≠ "" ∧ s.read? raw = none) ∧ e = .conversion ⟨raw, s⟩) ∧
      (t.ty ≠ .any → (∀ s, t.ty ≠ .scalar s) → ∀ e, decodeArgument t raw = .error e ↔
        t.valueOf? raw = none ∧ e = .format raw t.ty.display) := by
  have hlengths : ∀ u ∈ t.ty.parts, u.checkArrayLengths = .ok () :=
    fun u hu ↦ checkArrayLengths_of_mem_params hcontext hf ht hu
  have hself : t.ty.checkArrayLengths = .ok () := hlengths _ t.ty.mem_parts_self
  refine ⟨hlengths, fun flavor key value hmap ↦ ?_, fun raw ↦ ⟨fun e he ↦ ?_,
    fun hany ↦ decodeArgument_any hany raw, fun s hs e ↦ decodeArgument_scalar_eq_error_iff hs,
    fun hany hscalar e ↦ decodeArgument_shaped_eq_error_iff hany hscalar hself⟩⟩
  · obtain rfl : key = .scalar .string := Ty.key_of_validate
      (List.forall_mem_singleton.2 hcontext) (validate_of_mem_params hf ht) hmap
    rfl
  · by_cases hany : t.ty = .any
    · rw [decodeArgument_any hany] at he
      cases he
    · by_cases hscalar : ∃ s, t.ty = .scalar s
      · obtain ⟨s, hs⟩ := hscalar
        cases ((decodeArgument_scalar_eq_error_iff hs).1 he).2
      · cases ((decodeArgument_shaped_eq_error_iff hany (not_exists.1 hscalar) hself).1 he).2

end Function

/-- A handler that is called with a note, a count and a table of pairs. -/
def tallyHandler : TypedHandler TransactionContext where
  takesContext := true
  usesInvocation := false
  params := [.dynamic, .integer .u8, .map .ordered .string (.array .string 2)]
  returns := .nothing
  body _ s := ((), s)

/-- A count of 256 does not fit, and a pair has two members. -/
theorem Function.decodeArgument_refusals_tally :
    ∃ f : Function TransactionContext,
      Function.ofHandler "Tally" tallyHandler.toHandler = .ok f ∧
      decodeArgument .dynamic "256" = .ok (.typed .json (.json (.string "256"))) ∧
      decodeArgument (.integer .u8) "256" = .error (.conversion ⟨"256", .integer .u8⟩) ∧
      decodeArgument (.map .ordered .string (.array .string 2)) "\x7b\"a\":[\"b\"]\x7d" =
        .error (.format "\x7b\"a\":[\"b\"]\x7d" "BTreeMap<String, [String; 2]>") := by
  have hcontext : ∃ n, contextTy TransactionContext = .named n := ⟨_, rfl⟩
  have hf : Function.ofHandler "Tally" tallyHandler.toHandler =
      .ok ⟨"Tally", true, tallyHandler.params, ⟨none, false⟩, tallyHandler.run⟩ := rfl
  refine ⟨_, hf, ?_, ?_, ?_⟩
  · exact ((decodeArgument_refusals hcontext hf (.head _)).2.2 "256").2.1 rfl
  · exact (((decodeArgument_refusals hcontext hf (.tail _ (.head _))).2.2 "256").2.2.1
      (.integer .u8) rfl _).2 ⟨⟨by decide, by decide⟩, rfl⟩
  · exact (((decodeArgument_refusals hcontext hf (.tail _ (.tail _ (.head _)))).2.2 _).2.2.2
      nofun nofun _).2 ⟨by cbv, rfl⟩

end ContractHost
