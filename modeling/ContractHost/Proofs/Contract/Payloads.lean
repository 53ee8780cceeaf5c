import ContractHost.Proofs.Contract.Arguments
import ContractHost.Proofs.Contract.Parameters
import ContractHost.Proofs.Contract.Responses
import ContractHost.Proofs.Data.RoundTrip

/-!
# Payloads as arguments

What a function answers can be handed to another one: the payload of a value of a discrete type,
sent for a parameter of that type, is read as the value again
(`Function.decodeArgument_of_respond`).

The two ends choose their form by different rules. A response is JSON where the declared type is
rendered as JSON, and empty for a nil; an argument is converted where the declared type is a scalar,
and the empty string is then the zero of that scalar. For a discrete type that is not optional the
rules meet: the type is a scalar or rendered as JSON, no value of it is a nil, and the only scalar
that is rendered as the empty text is the empty string (`Scalar.convert_text`).
-/

namespace ContractHost

variable {κ : Type}

/-! ### Rendering and decoding -/

namespace DataType

/-- Values may be missing. -/
def isOption : DataType → Bool
  | .option _ => true
  | _ => false

variable {t : DataType} {d : Datum}

/-- A discrete type that is not optional is a scalar or rendered as JSON. -/
theorem Discrete.scalar_or_isMarshaling (ht : t.Discrete) (hoption : t.isOption = false) :
    (∃ s, t = .scalar s ∧ s ≠ .single ∧ s ≠ .double) ∨ t.ty.isMarshaling = true := by
  cases t with
  | scalar s =>
    rw [Discrete] at ht
    exact .inl ⟨s, rfl, ht⟩
  | list _ | array _ _ | map _ _ _ | record _ _ => exact .inr rfl
  | option _ => cases hoption
  | signed128 | unsigned128 | char | dynamic | json =>
    rw [Discrete] at ht
    exact ht.elim

/-- No datum of a discrete type that is not optional is a nil. -/
theorem Discrete.isNil_eq_false (ht : t.Discrete) (hoption : t.isOption = false)
    (hfits : Datum.Fits t d) : d.isNil = false := by
  cases d with
  | nil =>
    cases t with
    | option _ => cases hoption
    | scalar s => cases s <;> exact hfits.elim
    | _ => exact hfits.elim
  | json j =>
    cases t with
    | json =>
      rw [Discrete] at ht
      exact ht.elim
    | scalar s => cases s <;> exact hfits.elim
    | _ => exact hfits.elim
  | _ => rfl

/-- A datum of a discrete type is wrapped with its type. -/
theorem Discrete.ofDatum_eq (ht : t.Discrete) (hfits : Datum.Fits t d) :
    Value.ofDatum t d = .typed t d := by
  refine (Value.ofDatum_of_fits hfits).resolve_left ?_
  rintro rfl
  rw [Discrete] at ht
  exact ht

/-- An argument of a valid type that is rendered as JSON is read as JSON. -/
theorem decodeArgument_of_isMarshaling {raw : String} {v : Value}
    (hvalid : t.ty.validate [] = .ok ()) (hmarshal : t.ty.isMarshaling = true)
    (hv : t.valueOf? raw = some v) : decodeArgument t raw = .ok v := by
  have hany : t.ty ≠ .any := by
    intro h
    rw [h] at hmarshal
    cases hmarshal
  have hscalar : ∀ s, t.ty ≠ .scalar s := by
    intro s h
    rw [h] at hmarshal
    cases hmarshal
  have hlengths : t.ty.checkArrayLengths = .ok () :=
    Ty.checkArrayLengths_of_validate Ty.namedOnly_nil hvalid t.ty.mem_parts_self
  rw [decodeArgument_shaped hany hscalar hlengths, hv]
  rfl

/-- **A rendered datum is read back**, with its maps in the order of their keys. -/
theorem decodeArgument_of_renderSuccess {text : String} (hvalid : t.ty.validate [] = .ok ())
    (ht : t.Discrete) (hoption : t.isOption = false) (hfits : Datum.Fits t d)
    (hdepth : d.depth ≤ Json.maxDepth)
    (h : renderSuccess t.ty (.ofDatum t d) = .ok text) :
    decodeArgument t text = .ok (.ofDatum t d.collected) := by
  rw [ht.ofDatum_eq hfits] at h
  rcases ht.scalar_or_isMarshaling hoption with ⟨s, rfl, hs⟩ | hmarshal
  · rw [Datum.Fits] at hfits
    cases h
    rw [collected_of_fits_scalar hfits, ht.ofDatum_eq hfits, decodeArgument, ty]
    dsimp only
    rw [Scalar.convert_text hs hfits]
  · rw [renderSuccess, hmarshal, Bool.true_or, if_pos rfl] at h
    split at h
    · next text' hjson =>
      cases h
      obtain ⟨w, hw, rfl⟩ := Option.map_eq_some_iff.1 hjson
      rw [Value.write?] at hw
      refine decodeArgument_of_isMarshaling hvalid hmarshal ?_
      rw [valueOf?, Utf8.source, String.toList_ofList, read?_of_write? ht hfits hdepth hw]
      rfl
    · cases h

end DataType

/-- An answer with a value that is no nil is the rendered value. -/
theorem renderSuccess_of_answerSuccess {metadata : Option Transaction} {components : Components}
    {t : Ty} {v : Value} {answer : String × Value} (hnil : v.isNil = false)
    (h : answerSuccess metadata components t v = .ok answer) :
    renderSuccess t v = .ok answer.1 := by
  unfold answerSuccess at h
  rw [if_neg (by simp [hnil])] at h
  split at h
  · cases h
  · next text htext =>
    rw [htext]
    split at h
    · cases h
      rfl
    · obtain ⟨-, -, rfl⟩ := Except.map_eq_ok.1 h
      rfl

/-- **Payloads are arguments.** Let a registered function declare a discrete type that is not
optional, and answer a datum of that type with a text. An argument of that type with this text is
the datum again, with its maps in the order of their keys; where they had been in order, it is the
raw value of the answer. -/
theorem Function.decodeArgument_of_respond [ContextType κ] {name : String} {h : Handler κ}
    {f : Function κ} {t : DataType} {d : Datum} {metadata : Option Transaction}
    {components : Components} {rest : List Output} {text : String} {v : Value}
    (hf : Function.ofHandler name h = .ok f) (hreturns : f.returns.success = some t.ty)
    (ht : t.Discrete) (hoption : t.isOption = false) (hfits : Datum.Fits t d)
    (hdepth : d.depth ≤ Json.maxDepth)
    (hrespond : f.respond metadata components (.value (.ofDatum t d) :: rest) = .ok (text, v)) :
    decodeArgument t text = .ok (.ofDatum t d.collected) ∧
      (d.InKeyOrder → decodeArgument t text = .ok v) := by
  have hraw : f.rawValue (.value (.ofDatum t d) :: rest) = .ofDatum t d := by
    rw [rawValue, hreturns]
    rfl
  have hnil : (Value.ofDatum t d).isNil = false := by
    rw [ht.ofDatum_eq hfits]
    exact ht.isNil_eq_false hoption hfits
  have hanswer := answerSuccess_of_respond hreturns hrespond
  rw [hraw] at hanswer
  have hdecode := DataType.decodeArgument_of_renderSuccess (validate_of_ofHandler hf hreturns) ht
    hoption hfits hdepth (renderSuccess_of_answerSuccess hnil hanswer)
  refine ⟨hdecode, fun horder ↦ ?_⟩
  obtain rfl : v = .ofDatum t d := answerSuccess_value hanswer
  rw [Datum.collected_of_inKeyOrder horder] at hdecode
  exact hdecode

/-- A crate: its mark, how many of what are in it, and its lid, which may be missing. -/
def crateType : DataType :=
  .recordOf "Crate" [("mark", .string), ("counts", .map .hashed .string (.integer .i32)),
    ("lid", .option (.recordOf "Lid" [("locked", .bool)]))]

/-- An open crate with the given content. -/
def crateOf (counts : List (MapKey × Datum)) : Datum :=
  .record [("mark", .string "A\"1"), ("counts", .map counts), ("lid", .nil)]

/-- A crate as it happens to be walked, with the pears before the apples. -/
def packedCrate : Datum :=
  crateOf [(.string "pears", .int (-2)), (.string "apples", .int 30)]

/-- A handler that answers a crate. -/
def cratePacker : TypedHandler TransactionContext where
  takesContext := false
  usesInvocation := false
  params := []
  returns := .value crateType
  body _ s := (packedCrate, s)

/-- The text of the crate, pears first, is read as the crate with the apples first. -/
theorem decodeArgument_of_respond_crate :
    ∃ f : Function TransactionContext, ∃ text v,
      Function.ofHandler "Pack" cratePacker.toHandler = .ok f ∧
        f.respond none ∅ [.value (.ofDatum crateType packedCrate)] = .ok (text, v) ∧
        text = "\x7b\"mark\":\"A\\\"1\",\"counts\":\x7b\"pears\":-2,\"apples\":30\x7d,"
          ++ "\"lid\":null\x7d" ∧
        decodeArgument crateType text = .ok (.ofDatum crateType
          (crateOf [(.string "apples", .int 30), (.string "pears", .int (-2))])) := by
  have hdiscrete : crateType.Discrete := by
    simp [crateType, DataType.recordOf, DataType.Discrete, DataType.FieldsDiscrete,
      DataType.shownNames, DataType.isRecord]
  have hentry : ∀ n : Int, IntegerKind.i32.InRange n → ∀ k : String,
      KeyType.string.Fits (.string k) ∧ Datum.Fits (.integer .i32) (.int n) :=
    fun n hn _ ↦ ⟨trivial, by rwa [Datum.Fits]⟩
  have hfits : Datum.Fits crateType packedCrate := by
    refine ⟨rfl, trivial, rfl, ?_, rfl, trivial, trivial⟩
    exact List.forall_mem_cons.2 ⟨hentry _ (by decide) _,
      List.forall_mem_cons.2 ⟨hentry _ (by decide) _, fun _ he ↦ absurd he List.not_mem_nil⟩⟩
  exact ⟨_, _, _, rfl, rfl, rfl, (@Function.decodeArgument_of_respond TransactionContext _ "Pack"
    cratePacker.toHandler _ crateType packedCrate none ∅ [] _ _ rfl rfl hdiscrete rfl hfits
    (by decide) rfl).1⟩

end ContractHost
