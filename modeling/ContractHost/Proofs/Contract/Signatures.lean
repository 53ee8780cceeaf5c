import ContractHost.Contract.Function
import Mathlib.Data.List.Basic

/-!
# Signatures that can be registered

The inspection of a signature is one walk over the inputs, a look at the outputs and a comparison
with the decoders. What it finds is said without the walk: `Signature.Admits context leads types
returns` holds if the inputs are the types of the parameters, with the context in front if it leads,
and the outputs have the shape `returns`. An input that is in the way is an `InputOffence` at its
position, outputs that are in the way are an `OutputOffence`.

**A function is made exactly if the signature is admitted and the decoders read its parameters, and
otherwise the first thing in the way is reported** (`Function.inspect_outcome`): the first input
that offends, then the outputs, then the decoders.

Positions are counted from 1, as in the reports. Only the first input may be the context, so the
walk over the inputs behind it (`plainInputs`) takes the position along, and the induction is over
that list for every position (`plainInputs_eq_ok_iff`, `plainInputs_eq_error_iff`).
-/

namespace ContractHost

variable {name : String} {context : Option Ty} {inputs outputs types : List Ty}
  {returns : ReturnShape} {t : Ty} {e : RegistrationError} {position i : ℕ}

/-! ### Mapped results -/

section Map

variable {ε α β : Type} {f : α → β} {x : Except ε α}

theorem Except.map_eq_ok {b : β} : x.map f = .ok b ↔ ∃ a, x = .ok a ∧ f a = b := by
  cases x <;> simp [Except.map]

theorem Except.map_eq_error {e : ε} : x.map f = .error e ↔ x = .error e := by
  cases x <;> simp [Except.map]

theorem Except.mapError_eq_ok {ε' : Type} {g : ε → ε'} {a : α} :
    x.mapError g = .ok a ↔ x = .ok a := by
  cases x with
  | error e => exact iff_of_false (fun h ↦ by cases h) fun h ↦ by cases h
  | ok b =>
    have hinj : ∀ {ε : Type}, (Except.ok b : Except ε α) = .ok a ↔ b = a :=
      ⟨Except.ok.inj, congrArg _⟩
    exact hinj.trans hinj.symm

theorem Except.mapError_eq_error {ε' : Type} {g : ε → ε'} {e : ε'} :
    x.mapError g = .error e ↔ ∃ e', x = .error e' ∧ g e' = e := by
  cases x with
  | error e' =>
    refine ⟨fun h ↦ ⟨e', rfl, Except.error.inj h⟩, ?_⟩
    rintro ⟨_, ⟨⟩, rfl⟩
    rfl
  | ok a =>
    refine iff_of_false (fun h ↦ by cases h) ?_
    rintro ⟨_, ⟨⟩, -⟩

end Map

/-! ### The first of several errors -/

/-- What is wrong at the first index where something is wrong. -/
def First {ε : Type} (wrong : ℕ → ε → Prop) (e : ε) : Prop :=
  ∃ i, wrong i e ∧ ∀ j < i, ∀ e', ¬ wrong j e'

section First

variable {ε : Type} {wrong : ℕ → ε → Prop} {e : ε}

/-- What is wrong first is wrong at the first index, or behind it. -/
theorem first_iff : First wrong e ↔
    wrong 0 e ∨ (∀ e', ¬ wrong 0 e') ∧ First (fun i ↦ wrong (i + 1)) e := by
  constructor
  · rintro ⟨_ | i, hwrong, hbefore⟩
    · exact .inl hwrong
    · exact .inr ⟨hbefore 0 (Nat.succ_pos i), i, hwrong,
        fun j hj ↦ hbefore (j + 1) (Nat.succ_lt_succ hj)⟩
  · rintro (hwrong | ⟨hnone, i, hwrong, hbefore⟩)
    · exact ⟨0, hwrong, fun j hj ↦ absurd hj (Nat.not_lt_zero j)⟩
    · refine ⟨i + 1, hwrong, fun j hj ↦ ?_⟩
      rcases j with _ | j
      · exact hnone
      · exact hbefore j (Nat.lt_of_succ_lt_succ hj)

theorem not_first (h : ∀ i e', ¬ wrong i e') : ¬ First wrong e :=
  fun ⟨i, hwrong, _⟩ ↦ h i e hwrong

/-- Where something is wrong, something is wrong first. -/
theorem exists_first {i : ℕ} (hwrong : wrong i e) : ∃ e', First wrong e' := by
  induction i using Nat.strongRecOn generalizing e with
  | ind i ih =>
    by_cases hbefore : ∀ j < i, ∀ e', ¬ wrong j e'
    · exact ⟨e, i, hwrong, hbefore⟩
    · push Not at hbefore
      obtain ⟨j, hj, e', hwrong'⟩ := hbefore
      exact ih j hj hwrong'

end First

/-! ### Outputs -/

/-- The outputs that a function may have, with their shape. -/
inductive ReturnShape.Describes : ReturnShape → List Ty → Prop
  | nothing : Describes ⟨none, false⟩ []
  | errorOnly : Describes ⟨none, true⟩ [.error]
  | value {t : Ty} (ht : t.validate [] = .ok ()) : Describes ⟨some t, false⟩ [t]
  | valueOrError {t : Ty} (ht : t.validate [] = .ok ()) : Describes ⟨some t, true⟩ [t, .error]

/-- What is wrong with the outputs of a function. -/
inductive OutputOffence (name : String) : List Ty → RegistrationError → Prop
  | single {t : Ty} {source : TypeError} (ht : t ≠ .error) (h : t.validate [] = .error source) :
      OutputOffence name [t] (.invalidSingleReturn name source)
  | first {t second : Ty} {source : TypeError} (h : t.validate [] = .error source) :
      OutputOffence name [t, second] (.invalidFirstReturn name source)
  | second {t second : Ty} (ht : t.validate [] = .ok ()) (h : second ≠ .error) :
      OutputOffence name [t, second] (.invalidSecondReturn name second)
  | tooMany {outputs : List Ty} (h : 2 < outputs.length) :
      OutputOffence name outputs (.tooManyReturns name outputs.length)

/-- An error alone is no type of a value. -/
theorem validate_error : Ty.error.validate [] = .error (.invalid .error []) :=
  rfl

theorem ne_error_of_validate (h : t.validate [] = .ok ()) : t ≠ .error := by
  rintro rfl
  cases h.symm.trans validate_error

theorem describeOutputs_of_describes (h : returns.Describes outputs) :
    describeOutputs name outputs = .ok returns := by
  rcases h with _ | _ | @⟨t, ht⟩ | ht
  · rfl
  · rfl
  · rcases t
    case error => exact absurd rfl (ne_error_of_validate ht)
    all_goals
      rw [describeOutputs, ht]
      rintro ⟨⟩
  · rw [describeOutputs, ht]
    rfl

theorem describeOutputs_of_offence (h : OutputOffence name outputs e) :
    describeOutputs name outputs = .error e := by
  rcases h with @⟨t, source, ht, h⟩ | h | ⟨ht, h⟩ | h
  · rcases t
    case error => exact absurd rfl ht
    all_goals
      rw [describeOutputs, h]
      rintro ⟨⟩
  · rw [describeOutputs, h]
  · rw [describeOutputs, ht]
    exact if_neg h
  · rcases outputs with _ | ⟨t, _ | ⟨u, _ | ⟨v, rest⟩⟩⟩
    case cons.cons.cons =>
      rw [describeOutputs]
      all_goals simp
    all_goals exact absurd h (by simp)

/-- Outputs have a shape, or something is wrong with them. -/
theorem describes_or_offence (name : String) (outputs : List Ty) :
    (∃ returns : ReturnShape, returns.Describes outputs) ∨ ∃ e, OutputOffence name outputs e := by
  rcases outputs with _ | ⟨t, _ | ⟨u, _ | ⟨v, rest⟩⟩⟩
  · exact .inl ⟨_, .nothing⟩
  · by_cases ht : t = .error
    · exact .inl ⟨⟨none, true⟩, ht ▸ .errorOnly⟩
    · rcases hvalid : t.validate [] with source | ⟨⟩
      · exact .inr ⟨_, .single ht hvalid⟩
      · exact .inl ⟨_, .value hvalid⟩
  · rcases hvalid : t.validate [] with source | ⟨⟩
    · exact .inr ⟨_, .first hvalid⟩
    · by_cases hu : u = .error
      · exact .inl ⟨⟨some t, true⟩, hu ▸ .valueOrError hvalid⟩
      · exact .inr ⟨_, .second hvalid hu⟩
  · exact .inr ⟨_, .tooMany (by simp)⟩

theorem describeOutputs_eq_ok_iff :
    describeOutputs name outputs = .ok returns ↔ returns.Describes outputs := by
  refine ⟨fun h ↦ ?_, describeOutputs_of_describes⟩
  rcases describes_or_offence name outputs with ⟨returns', hdescribes⟩ | ⟨e, hoffence⟩
  · cases h.symm.trans (describeOutputs_of_describes hdescribes)
    exact hdescribes
  · cases h.symm.trans (describeOutputs_of_offence hoffence)

theorem describeOutputs_eq_error_iff :
    describeOutputs name outputs = .error e ↔ OutputOffence name outputs e := by
  refine ⟨fun h ↦ ?_, describeOutputs_of_offence⟩
  rcases describes_or_offence name outputs with ⟨returns, hdescribes⟩ | ⟨e', hoffence⟩
  · cases h.symm.trans (describeOutputs_of_describes hdescribes)
  · cases h.symm.trans (describeOutputs_of_offence hoffence)
    exact hoffence

/-! ### Inputs -/

/-- A type of a parameter: valid, and not the context. -/
def IsParameter (context : Option Ty) (t : Ty) : Prop :=
  context ≠ some t ∧ t.validate context.toList = .ok ()

/-- What is wrong with an input at a position, counted from 1: the context stands behind the first
place, or a type is not valid. -/
inductive InputOffence (name : String) (context : Option Ty) (position : ℕ) (t : Ty) :
    RegistrationError → Prop
  | misplaced (ht : context = some t) (hposition : position ≠ 1) :
      InputOffence name context position t (.contextPosition name position)
  | invalid {source : TypeError} (ht : context ≠ some t)
      (h : t.validate context.toList = .error source) :
      InputOffence name context position t (.invalidParameter name source)

/-- The input at an index offends, where the first input has the given position. -/
def OffendsAt (name : String) (context : Option Ty) (position : ℕ) (inputs : List Ty) (i : ℕ)
    (e : RegistrationError) : Prop :=
  ∃ t, inputs[i]? = some t ∧ InputOffence name context (position + i) t e

/-- The inputs are the types of the parameters, with the context in front if it leads. -/
inductive LedBy (context : Option Ty) : List Ty → Bool → List Ty → Prop
  | context {t : Ty} {types : List Ty} (ht : context = some t) :
      LedBy context (t :: types) true types
  | plain {types : List Ty} : LedBy context types false types

theorem IsParameter.not_offence (ht : IsParameter context t) :
    ¬ InputOffence name context position t e := by
  rintro (⟨hcontext, -⟩ | ⟨-, h⟩)
  · exact ht.1 hcontext
  · cases h.symm.trans ht.2

theorem offendsAt_cons_zero : OffendsAt name context position (t :: inputs) 0 e ↔
    InputOffence name context position t e := by
  rw [OffendsAt, List.getElem?_cons_zero]
  exact ⟨fun ⟨u, hu, h⟩ ↦ Option.some.inj hu ▸ h, fun h ↦ ⟨t, rfl, h⟩⟩

theorem offendsAt_cons_succ : OffendsAt name context position (t :: inputs) (i + 1) e ↔
    OffendsAt name context (position + 1) inputs i e := by
  rw [OffendsAt, OffendsAt, List.getElem?_cons_succ, Nat.add_right_comm, Nat.add_assoc]

theorem not_offendsAt_nil : ¬ OffendsAt name context position [] i e := by
  rintro ⟨t, ht, -⟩
  cases ht

/-- The first offence among inputs is that of the first one, or it comes behind it. -/
theorem first_offendsAt_cons : First (OffendsAt name context position (t :: inputs)) e ↔
    InputOffence name context position t e ∨
      (∀ e', ¬ InputOffence name context position t e') ∧
        First (OffendsAt name context (position + 1) inputs) e := by
  have hsucc : (fun i ↦ OffendsAt name context position (t :: inputs) (i + 1)) =
      OffendsAt name context (position + 1) inputs :=
    funext fun _ ↦ funext fun _ ↦ propext offendsAt_cons_succ
  rw [first_iff, hsucc]
  simp only [offendsAt_cons_zero]

/-- A first input that does not offend leaves the offence to the others. -/
theorem first_offendsAt_cons_of_not (h : ∀ e', ¬ InputOffence name context position t e') :
    First (OffendsAt name context position (t :: inputs)) e ↔
      First (OffendsAt name context (position + 1) inputs) e := by
  rw [first_offendsAt_cons, or_iff_right (h e), and_iff_right h]

/-- An input that is no context offends if its type is not valid. -/
theorem inputOffence_iff_of_ne (ht : context ≠ some t) : InputOffence name context position t e ↔
    ∃ source, t.validate context.toList = .error source ∧ e = .invalidParameter name source := by
  constructor
  · rintro (⟨hcontext, -⟩ | ⟨-, h⟩)
    · exact absurd hcontext ht
    · exact ⟨_, h, rfl⟩
  · rintro ⟨source, h, rfl⟩
    exact .invalid ht h

/-- The context may stand in the first place and nowhere else. -/
theorem inputOffence_context_iff (ht : context = some t) :
    InputOffence name context position t e ↔
      position ≠ 1 ∧ e = .contextPosition name position := by
  constructor
  · rintro (⟨-, hposition⟩ | ⟨hcontext, -⟩)
    · exact ⟨hposition, rfl⟩
    · exact absurd ht hcontext
  · rintro ⟨hposition, rfl⟩
    exact .misplaced ht hposition

/-! ### The walk over the inputs -/

/-- An input that is no context is looked at, and then the others. -/
theorem plainInputs_cons (ht : context ≠ some t) :
    plainInputs name context position (t :: inputs) =
      ((t.validate context.toList).mapError (RegistrationError.invalidParameter name)).bind
        fun _ ↦ (plainInputs name context (position + 1) inputs).map (t :: ·) := by
  rw [plainInputs, if_neg ht]
  rcases t.validate context.toList with _ | _ <;> rfl

theorem plainInputs_eq_ok_iff : plainInputs name context position inputs = .ok types ↔
    types = inputs ∧ ∀ t ∈ inputs, IsParameter context t := by
  induction inputs generalizing position types with
  | nil =>
    rw [plainInputs]
    exact ⟨fun h ↦ ⟨(Except.ok.inj h).symm, List.forall_mem_nil _⟩, fun h ↦ h.1 ▸ rfl⟩
  | cons t rest ih =>
    rw [List.forall_mem_cons]
    by_cases ht : context = some t
    · rw [plainInputs, if_pos ht]
      exact iff_of_false (fun h ↦ by cases h) fun h ↦ h.2.1.1 ht
    · rw [plainInputs_cons ht]
      rcases hvalid : t.validate context.toList with source | ⟨⟩
      · refine iff_of_false (fun h ↦ by cases h) fun h ↦ ?_
        cases hvalid.symm.trans h.2.1.2
      · show (plainInputs name context (position + 1) rest).map (t :: ·) = .ok types ↔ _
        rw [Except.map_eq_ok]
        constructor
        · rintro ⟨types', hrest, rfl⟩
          obtain ⟨rfl, hparameters⟩ := ih.1 hrest
          exact ⟨rfl, ⟨ht, hvalid⟩, hparameters⟩
        · rintro ⟨rfl, -, hparameters⟩
          exact ⟨rest, ih.2 ⟨rfl, hparameters⟩, rfl⟩

/-- If the walk over the other inputs reports their first offence, so does a walk that starts with
an input that is no context. -/
theorem plainInputs_cons_eq_error_iff (ht : context ≠ some t)
    (hrest : plainInputs name context (position + 1) inputs = .error e ↔
      First (OffendsAt name context (position + 1) inputs) e) :
    plainInputs name context position (t :: inputs) = .error e ↔
      First (OffendsAt name context position (t :: inputs)) e := by
  rw [plainInputs_cons ht]
  rcases hvalid : t.validate context.toList with source | ⟨⟩
  · have hoffence : InputOffence name context position t (.invalidParameter name source) :=
      .invalid ht hvalid
    rw [first_offendsAt_cons, inputOffence_iff_of_ne ht]
    refine ⟨fun h ↦ .inl ⟨source, hvalid, (Except.error.inj h).symm⟩, ?_⟩
    rintro (⟨source', hsource', rfl⟩ | ⟨hnone, -⟩)
    · cases hvalid.symm.trans hsource'
      rfl
    · exact absurd hoffence (hnone _)
  · have hparameter : IsParameter context t := ⟨ht, hvalid⟩
    rw [first_offendsAt_cons_of_not fun _ ↦ hparameter.not_offence, ← hrest]
    exact Except.map_eq_error

/-- Behind the first place the walk reports the first input that offends. -/
theorem plainInputs_eq_error_iff (hposition : 1 < position) :
    plainInputs name context position inputs = .error e ↔
      First (OffendsAt name context position inputs) e := by
  induction inputs generalizing position with
  | nil => exact iff_of_false (fun h ↦ by cases h) (not_first fun _ _ ↦ not_offendsAt_nil)
  | cons t rest ih =>
    have hrest := ih (Nat.lt_succ_of_lt hposition)
    by_cases ht : context = some t
    · rw [plainInputs, if_pos ht, first_offendsAt_cons, inputOffence_context_iff ht]
      have hne : position ≠ 1 := Nat.ne_of_gt hposition
      refine ⟨fun h ↦ .inl ⟨hne, (Except.error.inj h).symm⟩, ?_⟩
      rintro (⟨-, rfl⟩ | ⟨hnone, -⟩)
      · rfl
      · exact absurd (.misplaced ht hne) (hnone _)
    · exact plainInputs_cons_eq_error_iff ht hrest

/-- The inputs are the context and plain inputs, or plain inputs only. -/
theorem describeInputs_cases {leads : Bool}
    (h : describeInputs name context inputs = .ok (leads, types)) :
    (leads = true ∧ ∃ t rest, context = some t ∧ inputs = t :: rest ∧
        plainInputs name context 2 rest = .ok types) ∨
      (leads = false ∧ plainInputs name context 1 inputs = .ok types) := by
  rcases inputs with _ | ⟨t, rest⟩
  · cases h
    exact .inr ⟨rfl, rfl⟩
  · rw [describeInputs] at h
    split at h
    · next hcontext =>
      obtain ⟨types', hrest, heq⟩ := Except.map_eq_ok.1 h
      cases heq
      exact .inl ⟨rfl, t, rest, hcontext, rfl, hrest⟩
    · obtain ⟨types', hrest, heq⟩ := Except.map_eq_ok.1 h
      cases heq
      exact .inr ⟨rfl, hrest⟩

theorem describeInputs_eq_ok_iff {leads : Bool} :
    describeInputs name context inputs = .ok (leads, types) ↔
      LedBy context inputs leads types ∧ ∀ t ∈ types, IsParameter context t := by
  constructor
  · intro h
    rcases describeInputs_cases h with ⟨rfl, t, rest, ht, rfl, hplain⟩ | ⟨rfl, hplain⟩
    · obtain ⟨rfl, hparameters⟩ := plainInputs_eq_ok_iff.1 hplain
      exact ⟨.context ht, hparameters⟩
    · obtain ⟨rfl, hparameters⟩ := plainInputs_eq_ok_iff.1 hplain
      exact ⟨.plain, hparameters⟩
  · rintro ⟨hled, hparameters⟩
    have hplain : ∀ position, plainInputs name context position types = .ok types :=
      fun _ ↦ plainInputs_eq_ok_iff.2 ⟨rfl, hparameters⟩
    rcases hled with ht | _
    · rw [describeInputs, if_pos ht, hplain]
      rfl
    · rcases inputs with _ | ⟨t, rest⟩
      · rfl
      · rw [describeInputs, if_neg (hparameters t List.mem_cons_self).1, hplain]
        rfl

/-- **The first input that offends is reported.** -/
theorem describeInputs_eq_error_iff : describeInputs name context inputs = .error e ↔
    First (OffendsAt name context 1 inputs) e := by
  rcases inputs with _ | ⟨t, rest⟩
  · exact iff_of_false (fun h ↦ by cases h) (not_first fun _ _ ↦ not_offendsAt_nil)
  · have hrest : plainInputs name context 2 rest = .error e ↔
        First (OffendsAt name context 2 rest) e := plainInputs_eq_error_iff Nat.one_lt_two
    by_cases ht : context = some t
    · have hnone : ∀ e', ¬ InputOffence name context 1 t e' :=
        fun _ h ↦ ((inputOffence_context_iff ht).1 h).1 rfl
      rw [describeInputs, if_pos ht, Except.map_eq_error, first_offendsAt_cons_of_not hnone, hrest]
    · rw [describeInputs, if_neg ht, Except.map_eq_error]
      exact plainInputs_cons_eq_error_iff ht hrest

/-! ### The whole signature -/

/-- A signature that can be registered: whether the context leads, the types of the parameters, and
what is returned. -/
structure Signature.Admits (s : Signature) (context : Option Ty) (leads : Bool) (types : List Ty)
    (returns : ReturnShape) : Prop where
  inputs : LedBy context s.inputs leads types
  parameters : ∀ t ∈ types, IsParameter context t
  outputs : returns.Describes s.outputs

namespace Function

variable {κ : Type} {signature : Signature} {decoders : List DataType} {run : Body κ}
  {f : Function κ}

theorem inspect_of_inputs (h : describeInputs name context signature.inputs = .error e) :
    inspect name signature context decoders run = .error e := by
  rw [inspect, h]

theorem inspect_of_outputs {leads : Bool}
    (hinputs : describeInputs name context signature.inputs = .ok (leads, types))
    (h : describeOutputs name signature.outputs = .error e) :
    inspect name signature context decoders run = .error e := by
  rw [inspect, hinputs]
  dsimp only
  rw [h]

/-- Where a signature is admitted, the decoders decide. -/
theorem inspect_of_admits {leads : Bool} (h : signature.Admits context leads types returns) :
    inspect name signature context decoders run =
      if decoders.map DataType.ty = types then .ok ⟨name, leads, decoders, returns, run⟩
      else .error (.decoderMismatch name decoders.length types.length) := by
  rw [inspect, describeInputs_eq_ok_iff.2 ⟨h.inputs, h.parameters⟩]
  dsimp only
  rw [describeOutputs_eq_ok_iff.2 h.outputs]

/-- The inputs offend, or they do not and the outputs do, or the signature is admitted. -/
theorem signature_cases (name : String) (signature : Signature) (context : Option Ty) :
    (∃ e, describeInputs name context signature.inputs = .error e) ∨
      (∃ leads types e, describeInputs name context signature.inputs = .ok (leads, types) ∧
        describeOutputs name signature.outputs = .error e) ∨
      ∃ leads types returns, signature.Admits context leads types returns := by
  rcases hinputs : describeInputs name context signature.inputs with e | ⟨leads, types⟩
  · exact .inl ⟨e, rfl⟩
  · rcases houtputs : describeOutputs name signature.outputs with e | returns
    · exact .inr (.inl ⟨leads, types, e, rfl, rfl⟩)
    · obtain ⟨hled, hparameters⟩ := describeInputs_eq_ok_iff.1 hinputs
      exact .inr (.inr ⟨leads, types, returns, hled, hparameters,
        describeOutputs_eq_ok_iff.1 houtputs⟩)

theorem inspect_eq_ok_iff : inspect name signature context decoders run = .ok f ↔
    signature.Admits context f.usesContext f.paramTypes f.returns ∧
      f.name = name ∧ f.params = decoders ∧ f.run = run := by
  constructor
  · intro h
    rcases signature_cases name signature context with
      ⟨e, hinputs⟩ | ⟨leads, types, e, hinputs, houtputs⟩ | ⟨leads, types, returns, hadmits⟩
    · cases h.symm.trans (inspect_of_inputs hinputs)
    · cases h.symm.trans (inspect_of_outputs hinputs houtputs)
    · rw [inspect_of_admits hadmits] at h
      split at h
      · next hdecoders =>
        subst hdecoders
        cases h
        exact ⟨hadmits, rfl, rfl, rfl⟩
      · cases h
  · obtain ⟨name', leads, params, returns, run'⟩ := f
    rintro ⟨hadmits, rfl, rfl, rfl⟩
    rw [inspect_of_admits hadmits]
    exact if_pos rfl

theorem inspect_eq_error_iff : inspect name signature context decoders run = .error e ↔
    First (OffendsAt name context 1 signature.inputs) e ∨
      ((∃ leads types, LedBy context signature.inputs leads types ∧
          ∀ t ∈ types, IsParameter context t) ∧ OutputOffence name signature.outputs e) ∨
      ∃ leads types returns, signature.Admits context leads types returns ∧
        decoders.map DataType.ty ≠ types ∧
        e = .decoderMismatch name decoders.length types.length := by
  constructor
  · intro h
    rcases signature_cases name signature context with
      ⟨e', hinputs⟩ | ⟨leads, types, e', hinputs, houtputs⟩ | ⟨leads, types, returns, hadmits⟩
    · cases h.symm.trans (inspect_of_inputs hinputs)
      exact .inl (describeInputs_eq_error_iff.1 hinputs)
    · cases h.symm.trans (inspect_of_outputs hinputs houtputs)
      exact .inr (.inl ⟨⟨leads, types, describeInputs_eq_ok_iff.1 hinputs⟩,
        describeOutputs_eq_error_iff.1 houtputs⟩)
    · rw [inspect_of_admits hadmits] at h
      split at h
      · cases h
      · next hne =>
        exact .inr (.inr ⟨leads, types, returns, hadmits, hne, (Except.error.inj h).symm⟩)
  · rintro (h | ⟨⟨leads, types, hinputs⟩, h⟩ | ⟨leads, types, returns, hadmits, hne, rfl⟩)
    · exact inspect_of_inputs (describeInputs_eq_error_iff.2 h)
    · exact inspect_of_outputs (describeInputs_eq_ok_iff.2 hinputs)
        (describeOutputs_eq_error_iff.2 h)
    · rw [inspect_of_admits hadmits, if_neg hne]

/-- **What the inspection of a signature finds.** A function is made exactly if the signature is
admitted and the decoders read the types of its parameters, in order; it then tells whether the
context leads, and what the parameters are. Otherwise the report is that of the first input that
offends, else that of the outputs, else that the decoders do not fit. -/
theorem inspect_outcome (name : String) (signature : Signature) (context : Option Ty)
    (decoders : List DataType) (run : Body κ) :
    ((∃ f, inspect name signature context decoders run = .ok f) ↔
      ∃ leads returns, signature.Admits context leads (decoders.map DataType.ty) returns) ∧
    (∀ f, inspect name signature context decoders run = .ok f ↔
      signature.Admits context f.usesContext f.paramTypes f.returns ∧
        f.name = name ∧ f.params = decoders ∧ f.run = run) ∧
    ∀ e, inspect name signature context decoders run = .error e ↔
      First (OffendsAt name context 1 signature.inputs) e ∨
        ((∃ leads types, LedBy context signature.inputs leads types ∧
            ∀ t ∈ types, IsParameter context t) ∧ OutputOffence name signature.outputs e) ∨
        ∃ leads types returns, signature.Admits context leads types returns ∧
          decoders.map DataType.ty ≠ types ∧
          e = .decoderMismatch name decoders.length types.length := by
  refine ⟨⟨?_, ?_⟩, fun f ↦ inspect_eq_ok_iff, fun e ↦ inspect_eq_error_iff⟩
  · rintro ⟨f, hf⟩
    obtain ⟨hadmits, -, rfl, -⟩ := inspect_eq_ok_iff.1 hf
    exact ⟨f.usesContext, f.returns, hadmits⟩
  · rintro ⟨leads, returns, hadmits⟩
    exact ⟨⟨name, leads, decoders, returns, run⟩, inspect_eq_ok_iff.2 ⟨hadmits, rfl, rfl, rfl⟩⟩

end Function

end ContractHost
