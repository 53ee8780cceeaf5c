import ContractHost.Proofs.Contract.Registration
import ContractHost.Proofs.Data.Typing
import Mathlib.Data.List.Forall2

/-!
# Arguments that are accepted

What a wire string is read as for a parameter is a datum of the parameter's type
(`decodeArgument_spec`), with one exception: a dynamic parameter gets the string itself as a
document. Either way it can be taken out of the argument again at the type of the parameter
(`decodeArgument_toDatum?`), so arguments that were accepted fill the parameters
(`takeParams_of_accepted`). Metadata may refuse an argument, but do not change it
(`decodeArgument_of_accept`).
-/

namespace ContractHost

variable {κ : Type}

/-- A value of a data type can be taken out at that type. -/
theorem Value.toDatum?_ofDatum {t : DataType} {d : Datum} (h : Datum.Fits t d) :
    ∃ d', (Value.ofDatum t d).toDatum? t = some d' ∧ Datum.Fits t d' := by
  rcases Value.ofDatum_of_fits h with rfl | hof
  · exact ⟨_, rfl, trivial⟩
  · rw [hof]
    cases t with
    | dynamic => exact ⟨_, rfl, trivial⟩
    | json => exact ⟨d, rfl, h⟩
    | _ => exact ⟨d, by simp [Value.toDatum?], h⟩

/-- Only the scalar types are described as scalars. -/
theorem DataType.eq_of_ty_scalar {t : DataType} {s : Scalar} (h : t.ty = .scalar s) :
    t = .scalar s := by
  cases t <;> simp [DataType.ty] at h
  exact congrArg _ h

/-- Two types are described as dynamic. -/
theorem DataType.eq_of_ty_any {t : DataType} (h : t.ty = .any) : t = .dynamic ∨ t = .json := by
  cases t <;> simp [DataType.ty] at h
  · exact .inl rfl
  · exact .inr rfl

/-- What is read for a parameter: a datum that fits the type, or for the dynamic type the string
itself as a document. -/
theorem decodeArgument_spec {t : DataType} {raw : String} {v : Value}
    (h : decodeArgument t raw = .ok v) :
    (∃ d, Datum.Fits t d ∧ v = .ofDatum t d) ∨
      t = .dynamic ∧ v = .typed .json (.json (.string raw)) := by
  unfold decodeArgument at h
  split at h
  · next s hs =>
    cases DataType.eq_of_ty_scalar hs
    split at h
    · next v' hv =>
      cases h
      obtain ⟨d, rfl, hd⟩ := Scalar.convert_fits hv
      refine .inl ⟨d, hd, ?_⟩
      cases d with
      | dynamic v => cases s <;> exact hd.elim
      | _ => rfl
    · cases h
  · next hs =>
    cases h
    rcases DataType.eq_of_ty_any hs with rfl | rfl
    · exact .inr ⟨rfl, rfl⟩
    · exact .inl ⟨.json (.string raw), trivial, rfl⟩
  · split at h
    · cases h
    · split at h
      · next v' hv =>
        cases h
        obtain ⟨d, hd, rfl⟩ := Option.map_eq_some_iff.1 hv
        obtain ⟨tree, -, hdecode⟩ := Option.bind_eq_some_iff.1 hd
        exact .inl ⟨d, DataType.decode?_fits t hdecode, rfl⟩
      · cases h

/-- **What is read for a parameter can be taken out at its type.** -/
theorem decodeArgument_toDatum? {t : DataType} {raw : String} {v : Value}
    (h : decodeArgument t raw = .ok v) : ∃ d, v.toDatum? t = some d ∧ Datum.Fits t d := by
  rcases decodeArgument_spec h with ⟨d, hd, rfl⟩ | ⟨rfl, rfl⟩
  · exact Value.toDatum?_ofDatum hd
  · exact ⟨_, rfl, trivial⟩

/-- Checking an argument does not change it. -/
theorem decodeArgument_of_accept {components : Components} {t : DataType} {p : Option Parameter}
    {raw : String} {v : Value} (h : acceptArgument components t p raw = .ok v) :
    decodeArgument t raw = .ok v := by
  unfold acceptArgument at h
  split at h
  · cases h
  · next v' hv' =>
    split at h
    · cases h
      exact hv'
    · next p' =>
      obtain ⟨-, -, rfl⟩ := Except.map_eq_ok.1 h
      exact hv'

/-- The arguments that are accepted were read for the parameters, one for each. -/
theorem acceptArguments_spec {components : Components} :
    ∀ {checks : List (DataType × Option Parameter)} {wire : List String} {values : List Value},
      checks.length ≤ wire.length → acceptArguments components checks wire = .ok values →
        List.Forall₂ (fun t v ↦ ∃ raw, decodeArgument t raw = .ok v) (checks.map Prod.fst) values
  | [], wire, values, _, h => by
    cases wire <;> cases h <;> exact .nil
  | (t, p) :: rest, [], values, hlength, _ => absurd hlength (Nat.not_succ_le_zero _)
  | (t, p) :: rest, raw :: wire, values, hlength, h => by
    rw [acceptArguments] at h
    split at h
    · cases h
    · next v hv =>
      have hdecode := decodeArgument_of_accept hv
      obtain ⟨vs, hrest, rfl⟩ := Except.map_eq_ok.1 h
      exact .cons ⟨raw, hdecode⟩ (acceptArguments_spec (Nat.le_of_succ_le_succ hlength) hrest)

/-- **Accepted arguments fill the parameters** with data of their types. -/
theorem takeParams_of_accepted {params : List DataType} {values : List Value}
    (h : List.Forall₂ (fun t v ↦ ∃ raw, decodeArgument t raw = .ok v) params values) :
    ∃ data, takeParams params values = .ok data ∧ List.Forall₂ Datum.Fits params data := by
  induction h with
  | nil => exact ⟨[], rfl, .nil⟩
  | @cons t v ts vs hv _ ih =>
    obtain ⟨raw, hraw⟩ := hv
    obtain ⟨d, hd, hfits⟩ := decodeArgument_toDatum? hraw
    obtain ⟨data, hdata, hall⟩ := ih
    exact ⟨d :: data, by rw [takeParams, hd]; simp only [hdata]; rfl, .cons hfits hall⟩

/-- **Running a typed handler on arguments that fill its parameters.** It produces what its body
returns, unless the body asks for an invocation that the session does not have. -/
theorem TypedHandler.run_of_takeParams {h : TypedHandler κ} {args : Arguments} {data : List Datum}
    (hcontext : args.hasContext = h.takesContext)
    (hdata : takeParams h.params args.values = .ok data) (s : Session κ) :
    (h.run args s = (.error .missingInvocation, s) ∧ h.usesInvocation = true ∧
        s.invocation = none) ∨
      h.run args s = (.ok (h.returns.produce (h.body data s).1), (h.body data s).2) := by
  have hgiven : (h.takesContext && !args.hasContext) = false := by
    rw [hcontext]
    cases h.takesContext <;> rfl
  rw [run, hgiven, hdata]
  by_cases hinvocation : (h.usesInvocation && s.invocation.isNone) = true
  · refine .inl ⟨if_pos hinvocation, ?_⟩
    rwa [Bool.and_eq_true, Option.isNone_iff_eq_none] at hinvocation
  · exact .inr (if_neg hinvocation)

namespace Function

/-- What the arguments of a successful decoding are. -/
theorem decodeArguments_spec {f : Function κ} {metadata : Option Transaction}
    {components : Components} {wire : List String} {args : Arguments}
    (h : f.decodeArguments metadata components wire = .ok args) :
    args.hasContext = f.usesContext ∧
      List.Forall₂ (fun t v ↦ ∃ raw, decodeArgument t raw = .ok v) f.params args.values := by
  simp only [decodeArguments] at h
  split at h
  · cases h
  · next hcount =>
    split at h
    · cases h
    · next hwire =>
      -- With metadata or without, there is one check for each parameter.
      have hchecks : ∃ checks : List (DataType × Option Parameter),
          checks.map Prod.fst = f.params ∧
            (acceptArguments components checks wire).map
              (fun values ↦ (⟨f.usesContext, values⟩ : Arguments)) = .ok args := by
        cases metadata with
        | none =>
          exact ⟨_, by rw [List.map_map]; exact List.map_id _, h⟩
        | some tx =>
          have hlength : tx.parameters.length = f.params.length := by simpa using hcount
          exact ⟨_, List.map_fst_zip (Nat.le_of_eq (by rw [List.length_map, hlength])), h⟩
      obtain ⟨checks, hmap, hvalues⟩ := hchecks
      obtain ⟨values, haccept, rfl⟩ := Except.map_eq_ok.1 hvalues
      refine ⟨rfl, hmap ▸ acceptArguments_spec ?_ haccept⟩
      have := congrArg List.length hmap
      rw [List.length_map] at this
      omega

end Function

/-! ### Calls without metadata -/

/-- What wire strings are read as for parameters, without metadata that could refuse them. -/
def readAll (params : List DataType) (wire : List String) : Except CallError (List Value) :=
  acceptArguments ∅ (params.map fun t ↦ (t, none)) wire

/-- A string parameter takes any string. -/
theorem readAll_string (params : List DataType) (raw : String) (wire : List String) :
    readAll (.string :: params) (raw :: wire) =
      (readAll params wire).map (.typed .string (.string raw) :: ·) := by
  have haccept : acceptArgument ∅ .string none raw = .ok (.typed .string (.string raw)) := by
    by_cases hraw : raw = ""
    · subst hraw
      rfl
    · rw [acceptArgument, decodeArgument]
      simp [DataType.ty, Scalar.convert, Scalar.read?, hraw]
  rw [readAll, List.map_cons, acceptArguments, haccept]
  rfl

namespace Function

variable {f : Function κ} {wire : List String} {s : Session κ}

/-- A call with too few strings is refused. -/
theorem call_of_short (hlength : wire.length < f.params.length) :
    f.call none ∅ wire s =
      (.error (.error (.paramCount f.params.length wire.length)), s) := by
  rw [call, decodeArguments]
  simp [hlength]

/-- A call whose strings cannot be read is refused. -/
theorem call_of_readAll_error (hlength : f.params.length ≤ wire.length) {e : CallError}
    (he : readAll f.params wire = .error e) : f.call none ∅ wire s = (.error (.error e), s) := by
  rw [readAll] at he
  rw [call, decodeArguments]
  simp [Nat.not_lt.2 hlength, he, Except.map]

/-- **A call of a typed handler** answers with what the body returns on the data that its strings
are read as. -/
theorem Inspected.call_of_readAll {h : TypedHandler κ} {name : String} (hf : Inspected h name f)
    (hlength : h.params.length ≤ wire.length) {values : List Value} {data : List Datum}
    (hvalues : readAll h.params wire = .ok values) (hdata : takeParams h.params values = .ok data)
    (hs : h.usesInvocation = true → s.invocation ≠ none) :
    f.call none ∅ wire s =
      (f.respond none ∅ (h.returns.produce (h.body data s).1), (h.body data s).2) := by
  rw [readAll] at hvalues
  have hdecode : f.decodeArguments none ∅ wire = .ok ⟨f.usesContext, values⟩ := by
    rw [decodeArguments, hf.params]
    simp [Nat.not_lt.2 hlength, hvalues, Except.map]
  have hrun : f.run ⟨f.usesContext, values⟩ s =
      (.ok (h.returns.produce (h.body data s).1), (h.body data s).2) := by
    rw [hf.run]
    have hcontext : (⟨f.usesContext, values⟩ : Arguments).hasContext = h.takesContext :=
      hf.usesContext
    rcases h.run_of_takeParams hcontext hdata s with ⟨-, huses, hnone⟩ | hrun
    · exact absurd hnone (hs huses)
    · exact hrun
  rw [call, hdecode]
  dsimp only
  rw [perform, hrun]

end Function

end ContractHost
