import ContractHost.Proofs.Contract.Outputs
import ContractHost.Proofs.Data.Canonical
import ContractHost.Proofs.Types.Validity

/-!
# One payload for static and dynamic returns

A function may declare the type of what it returns, or declare a dynamic value and return the same
thing boxed, or return the document of it. A success value is rendered by the declared type in the
first case, and by what is found in the box in the other ones. **The payload is the same**
(`Function.respond_static_dynamic`): the answers do not differ at all if the value is boxed, and in
the raw value only if it is turned into a document.

```
declared          returned        rendered by
  the type          the value       the type            renderSuccess_of_valid
  a dynamic value   the value       the type in it      renderSuccess_any
  a dynamic value   its document    the document        renderSuccess_document
```

A document has lost the type it came from, and so a plain text has to be found in it again. That is
where a floating-point type would go wrong, whose plain text is not its JSON text. Lists, maps and
records are rendered as JSON in all three cases, and their documents are written as they were
(`Value.write_toJson?`), floating-point numbers apart.
-/

namespace ContractHost

variable {κ : Type} {t : DataType} {d : Datum} {j : Json}

/-! ### Plain texts of documents -/

namespace Json

variable {j' : Json} {w : List Char}

theorem plainText_eq_toText (hnull : j ≠ .null) (hstring : ∀ s, j ≠ .string s) :
    j.plainText = j.toText := by
  unfold plainText
  split
  · exact absurd rfl hnull
  · exact absurd rfl (hstring _)
  · rfl

/-- Documents that are written alike are `null` together and have the same plain text. -/
theorem plainText_congr (h : j.write = j'.write) :
    (j = .null ↔ j' = .null) ∧ j.plainText = j'.plainText := by
  have htree : tree j = tree j' := by rw [tree, tree, h]
  have hnull : j = .null ↔ j' = .null := by
    rw [← tree_eq_null_iff, htree, tree_eq_null_iff]
  have hstring : ∀ s, j = .string s ↔ j' = .string s := fun s ↦ by
    rw [← tree_eq_string_iff, htree, tree_eq_string_iff]
  refine ⟨hnull, ?_⟩
  by_cases hj : j = .null
  · rw [hj, hnull.1 hj]
  · by_cases hs : ∃ s, j = .string s
    · obtain ⟨s, hs⟩ := hs
      rw [hs, (hstring s).1 hs]
    · have hs' : ∀ s, j' ≠ .string s := fun s hs' ↦ hs ⟨s, (hstring s).2 hs'⟩
      rw [plainText_eq_toText hj (not_exists.1 hs), plainText_eq_toText (hj ∘ hnull.2) hs', toText,
        toText, h]

/-- A document whose text starts with a bracket is its own plain text. -/
theorem plainText_of_bracket {c : Char} (hc : c = '[' ∨ c = '\x7b') (h : j.write = c :: w) :
    j ≠ .null ∧ j.plainText = j.toText := by
  rcases j with _ | _ | _ | _ | s | _ | _
  case null =>
    rw [write] at h
    cases h
    exact absurd hc (by decide)
  case string =>
    rw [write] at h
    cases h
    exact absurd hc (by decide)
  all_goals exact ⟨nofun, rfl⟩

end Json

/-! ### Rendering by what is in the box -/

/-- A datum of a type is found in a box with its type, unless the type is described as dynamic. -/
theorem Value.runtime_of_fits (hfits : Datum.Fits t d) :
    t.ty = .any ∨ (Value.ofDatum t d).runtime = t.ty := by
  rcases d with _ | _ | _ | _ | _ | _ | j | _ | _ | _ | _ | _ | v
  case dynamic =>
    rw [hfits.eq_dynamic]
    exact .inl rfl
  case json =>
    rcases t with s | _ | _ | _ | _ | _ | _ | _ | _ | _ | _
    case json => exact .inl rfl
    case scalar => rcases s with _ | _ | _ | _ | _ <;> exact hfits.elim
    all_goals exact hfits.elim
  all_goals exact .inr rfl

/-- **A boxed datum is rendered as its type is.** -/
theorem renderSuccess_any (hfits : Datum.Fits t d) :
    renderSuccess .any (.ofDatum t d) = renderSuccess t.ty (.ofDatum t d) := by
  by_cases hany : t.ty = .any
  · rw [hany]
  · have hruntime := (Value.runtime_of_fits hfits).resolve_left hany
    have hcondition : (Ty.any.isMarshaling ||
        (decide (Ty.any = .any) && (Value.ofDatum t d).runtime.isMarshaling)) =
        (t.ty.isMarshaling || (decide (t.ty = .any) &&
          (Value.ofDatum t d).runtime.isMarshaling)) := by
      rw [hruntime, decide_eq_false hany, decide_eq_true rfl, Bool.false_and, Bool.or_false,
        Bool.true_and]
      rfl
    rw [renderSuccess, renderSuccess, hcondition]

/-- A document is rendered as its plain text. -/
theorem renderSuccess_document (j : Json) :
    renderSuccess .any (.typed .json (.json j)) = .ok j.plainText := by
  rcases j with _ | _ | n | _ | _ | _ | _
  case int => rcases n with _ | _ <;> rfl
  all_goals rfl

/-! ### Rendering by a declared type -/

/-- A type that a signature may use is rendered as JSON, or it is a scalar, or described as
dynamic. -/
theorem DataType.cases_of_validate (hvalid : t.ty.validate [] = .ok ()) :
    t.ty.isMarshaling = true ∨ (∃ s, t = .scalar s) ∨ t = .dynamic ∨ t = .json := by
  cases t with
  | scalar s => exact .inr (.inl ⟨s, rfl⟩)
  | dynamic => exact .inr (.inr (.inl rfl))
  | json => exact .inr (.inr (.inr rfl))
  | list _ | array _ _ | map _ _ _ | record _ _ => exact .inl rfl
  | signed128 | unsigned128 | char => cases hvalid
  | option inner =>
    have hrecord : inner.ty.isRecord = true := Ty.offence?_optional.1
      (Ty.offence?_of_validate Ty.namedOnly_nil hvalid (Ty.mem_parts_self _))
    obtain ⟨name, fields, hinner⟩ := Ty.exists_eq_of_isRecord hrecord
    rw [ty, hinner]
    exact .inl rfl

/-- The text of a list, a map or a record starts with a bracket. -/
theorem Datum.exists_bracket {w : List Char} (hw : d.write? = some w)
    (hd : (∃ items, d = .list items) ∨ (∃ entries, d = .map entries) ∨
      ∃ fields, d = .record fields) : ∃ c rest, (c = '[' ∨ c = '\x7b') ∧ w = c :: rest := by
  rcases hd with ⟨_, rfl⟩ | ⟨_, rfl⟩ | ⟨_, rfl⟩
  all_goals
    rw [write?] at hw
    obtain ⟨body, -, rfl⟩ := Option.map_eq_some_iff.1 hw
  · exact ⟨'[', _, .inl rfl, rfl⟩
  -- Maps and records are both written as objects.
  all_goals exact ⟨'\x7b', _, .inr rfl, rfl⟩

/-- So does the text of a datum of a type that is rendered as JSON, unless it is missing. -/
theorem exists_bracket_of_isMarshaling (hmarshal : t.ty.isMarshaling = true)
    (hfits : Datum.Fits t d) (hnil : d.isNil = false) {w : List Char} (hw : d.write? = some w) :
    ∃ c rest, (c = '[' ∨ c = '\x7b') ∧ w = c :: rest := by
  cases t with
  | scalar _ | signed128 | unsigned128 | char | dynamic | json => cases hmarshal
  | list _ | array _ _ =>
    cases d <;> simp only [Datum.Fits] at hfits
    exact Datum.exists_bracket hw (.inl ⟨_, rfl⟩)
  | map _ _ _ =>
    cases d <;> simp only [Datum.Fits] at hfits
    exact Datum.exists_bracket hw (.inr (.inl ⟨_, rfl⟩))
  | record _ _ =>
    cases d <;> simp only [Datum.Fits] at hfits
    exact Datum.exists_bracket hw (.inr (.inr ⟨_, rfl⟩))
  | option inner =>
    cases d <;> simp only [Datum.Fits] at hfits
    case nil => cases hnil
    case present d =>
      -- What may be missing is a record.
      cases inner <;> simp [DataType.ty, Ty.isMarshaling] at hmarshal
      cases d <;> simp only [Datum.Fits] at hfits
      rw [Datum.write?] at hw
      exact Datum.exists_bracket hw (.inr (.inr ⟨_, rfl⟩))

/-- A scalar that is no floating-point number is written and rendered like a document. -/
theorem Scalar.exists_document {s : Scalar} (hfloat : s ≠ .single ∧ s ≠ .double)
    (hfits : s.Fits d) : ∃ j : Json, j ≠ .null ∧ d.write? = some j.write ∧
      (Value.typed (.scalar s) d).text = j.plainText := by
  cases s <;> cases d <;> simp only [Fits] at hfits
  case bool.bool b => exact ⟨.bool b, Json.noConfusion, rfl, by cases b <;> rfl⟩
  case string.string raw =>
    exact ⟨.string raw, Json.noConfusion, by rw [Json.write, Datum.write?], rfl⟩
  case integer.int k n =>
    refine ⟨.int n, Json.noConfusion, by rw [Json.write, Datum.write?], ?_⟩
    have hplain : (Json.int n).plainText = (Json.int n).toText := rfl
    rw [hplain, Json.toText, Json.write]
    rfl
  case single.single => exact absurd rfl hfloat.1
  case double.double => exact absurd rfl hfloat.2

/-- **A datum is rendered as the plain text of a document that is written like it**, if its type is
neither the dynamic one nor one of floating-point numbers. -/
theorem renderSuccess_of_valid (hvalid : t.ty.validate [] = .ok ())
    (hstatic : t ≠ .dynamic ∧ t ≠ .single ∧ t ≠ .double) (hfits : Datum.Fits t d)
    (hnil : d.isNil = false) (hwrite : d.write? = some j.write) :
    j ≠ .null ∧ renderSuccess t.ty (.typed t d) = .ok j.plainText := by
  rcases DataType.cases_of_validate hvalid with hmarshal | ⟨s, rfl⟩ | rfl | rfl
  · obtain ⟨c, rest, hc, hbracket⟩ := exists_bracket_of_isMarshaling hmarshal hfits hnil hwrite
    obtain ⟨hnull, hplain⟩ := Json.plainText_of_bracket hc hbracket
    refine ⟨hnull, ?_⟩
    rw [renderSuccess, hmarshal, Bool.true_or, if_pos rfl, Value.jsonText?, Value.write?, hwrite,
      hplain]
    rfl
  · rw [Datum.Fits] at hfits
    have hfloat : s ≠ .single ∧ s ≠ .double :=
      ⟨fun h ↦ hstatic.2.1 (congrArg _ h), fun h ↦ hstatic.2.2 (congrArg _ h)⟩
    obtain ⟨j', hnull, hwrite', htext⟩ := Scalar.exists_document hfloat hfits
    obtain ⟨hnull_iff, hplain⟩ := Json.plainText_congr (Option.some.inj (hwrite.symm.trans hwrite'))
    refine ⟨fun h ↦ hnull (hnull_iff.1 h), ?_⟩
    rw [hplain, ← htext]
    rfl
  · exact absurd rfl hstatic.1
  · cases d <;> simp only [Datum.Fits] at hfits
    case json j' =>
      rw [Datum.write?] at hwrite
      obtain ⟨hnull_iff, hplain⟩ := Json.plainText_congr (Option.some.inj hwrite)
      refine ⟨fun h ↦ ?_, ?_⟩
      · rw [hnull_iff.2 h] at hnil
        cases hnil
      · rw [← hplain]
        exact renderSuccess_document j'

/-! ### Answers -/

/-- Answers differ at most in their raw value if the values are nils together, have one document,
and are otherwise rendered the same. -/
theorem answerSuccess_congr (metadata : Option Transaction) (components : Components) {s t : Ty}
    {v w : Value} (hnil : v.isNil = w.isNil)
    (hrender : v.isNil = false → renderSuccess s v = renderSuccess t w)
    (hv : v.toJson? = some j) (hw : w.toJson? = some j) :
    (answerSuccess metadata components s v).map Prod.fst =
      (answerSuccess metadata components t w).map Prod.fst := by
  have hcheck : ∀ r, checkSuccess components r v = checkSuccess components r w := fun r ↦ by
    rw [checkSuccess, checkSuccess, hv, hw]
  rw [answerSuccess, answerSuccess, ← hnil]
  rcases hcase : v.isNil with _ | _
  · rw [if_neg Bool.false_ne_true, if_neg Bool.false_ne_true, hrender hcase]
    rcases renderSuccess t w with _ | text
    · rfl
    · dsimp only
      rcases metadata.bind Transaction.returns with _ | r
      · rfl
      · dsimp only
        rw [hcheck]
        rcases checkSuccess components r w with _ | _ <;> rfl
  · rfl

/-- **A value and its document are answered alike**, if the document holds no numbers but integers,
and the type of the value is neither the dynamic one nor one of floating-point numbers. -/
theorem answerSuccess_document (metadata : Option Transaction) (components : Components)
    (hvalid : t.ty.validate [] = .ok ()) (hstatic : t ≠ .dynamic ∧ t ≠ .single ∧ t ≠ .double)
    (hfits : Datum.Fits t d) (hd : d.WellFormed) (hj : (Value.typed t d).toJson? = some j)
    (hintegral : j.Integral) :
    (answerSuccess metadata components t.ty (.typed t d)).map Prod.fst =
      (answerSuccess metadata components .any (.typed .json (.json j))).map Prod.fst := by
  have hread : (Value.typed .json (.json j)).toJson? = some j := Value.toJson?_document hj
  have hwrite := Value.write_toJson? hd hj hintegral
  rcases hnil : (Value.typed t d).isNil with _ | _
  · obtain ⟨hnull, hrender⟩ := renderSuccess_of_valid hvalid hstatic hfits hnil hwrite
    have hdocument : (Value.typed .json (.json j)).isNil = false := by
      rcases j with _ | _ | _ | _ | _ | _ | _
      case null => exact absurd rfl hnull
      all_goals rfl
    refine answerSuccess_congr _ _ (hnil.trans hdocument.symm) (fun _ ↦ ?_) hj hread
    rw [hrender, renderSuccess_document]
  · obtain rfl : j = .null := by
      rw [Value.toJson?_of_isNil hnil] at hj
      exact (Option.some.inj hj).symm
    rw [answerSuccess_of_isNil _ _ _ hnil, answerSuccess_of_isNil _ _ _ rfl]
    rfl

namespace Function

variable {f g : Function κ}

/-- **Static and dynamic returns render alike.** Let one function declare a type that a signature
may use, another one a dynamic value, and let there be any metadata. If the second one returns a
value of that type boxed, the responses are the same. If it returns the document of the value, they
differ at most in their raw value; this is so where the type is neither the dynamic one nor one of
floating-point numbers, the value is well formed, and the document holds no numbers but integers.
Nothing is asked of floating-point numbers inside the value: those that are finite are in the
document too, and the other ones are written as `null` everywhere. -/
theorem respond_static_dynamic (hf : f.returns.success = some t.ty)
    (hg : g.returns.success = some .any) (hvalid : t.ty.validate [] = .ok ())
    (hfits : Datum.Fits t d) (metadata : Option Transaction) (components : Components) :
    f.respond metadata components (f.returns.slots (.ofDatum t d) none) =
      g.respond metadata components
        (g.returns.slots (.ofDatum .dynamic (.dynamic (.ofDatum t d))) none) ∧
    ∀ j, t ≠ .dynamic → t ≠ .single → t ≠ .double → d.WellFormed →
      (Value.ofDatum t d).toJson? = some j → j.Integral →
        (f.respond metadata components (f.returns.slots (.ofDatum t d) none)).map Prod.fst =
          (g.respond metadata components
            (g.returns.slots (.ofDatum .json (.json j)) none)).map Prod.fst := by
  refine ⟨?_, fun j hdynamic hsingle hdouble hd hj hintegral ↦ ?_⟩
  · have hbox : Value.ofDatum .dynamic (.dynamic (.ofDatum t d)) = .ofDatum t d := rfl
    rw [hbox, respond_slots_of_success hf fun _ ↦ rfl, respond_slots_of_success hg fun _ ↦ rfl,
      answerSuccess, answerSuccess, renderSuccess_any hfits]
  · have hvalue : Value.ofDatum t d = .typed t d :=
      (Value.ofDatum_of_fits hfits).resolve_left hdynamic
    have hdocument : Value.ofDatum .json (.json j) = .typed .json (.json j) := rfl
    have hpayload : ∀ x : Except CallError (String × Value),
        (x.mapError Failure.error).map Prod.fst = (x.map Prod.fst).mapError Failure.error := by
      rintro (_ | _) <;> rfl
    rw [hvalue] at hj
    rw [respond_slots_of_success hf fun _ ↦ rfl, respond_slots_of_success hg fun _ ↦ rfl, hvalue,
      hdocument, hpayload, hpayload, answerSuccess_document _ _ hvalid
        ⟨hdynamic, hsingle, hdouble⟩ hfits hd hj hintegral]

end Function

/-- How many there are of what is in store. -/
def stockType : DataType :=
  .map .hashed .string (.integer .i32)

/-- A stock as it happens to be walked, with the pears before the apples. -/
def stock : Datum :=
  .map [(.string "pears", .int (-2)), (.string "apples", .int 30)]

/-- A handler that answers a stock. -/
def stockTaker : TypedHandler TransactionContext where
  takesContext := false
  usesInvocation := false
  params := []
  returns := .value stockType
  body _ s := (stock, s)

/-- A handler that answers a stock without saying what it is. -/
def stockShower : TypedHandler TransactionContext :=
  { stockTaker with
    returns := .value .dynamic
    body := fun _ s ↦ (.dynamic (.ofDatum stockType stock), s) }

/-- What metadata say of either handler: it returns something. -/
def stockTransaction : Transaction :=
  ⟨[], some ⟨.bool true⟩, [], "Stock"⟩

/-- The document of the stock, with the pears still before the apples. -/
def stockDocument : Json :=
  .object [("pears", .int (-2)), ("apples", .int 30)]

theorem fits_stock : Datum.Fits stockType stock := by
  have hentry : ∀ n : ℤ, IntegerKind.i32.InRange n → ∀ k : String,
      KeyType.string.Fits (.string k) ∧ Datum.Fits (.integer .i32) (.int n) :=
    fun n hn _ ↦ ⟨trivial, by rwa [Datum.Fits]⟩
  exact List.forall_mem_cons.2 ⟨hentry _ (by decide) _,
    List.forall_mem_cons.2 ⟨hentry _ (by decide) _, fun _ he ↦ absurd he List.not_mem_nil⟩⟩

theorem toJson?_stock : (Value.ofDatum stockType stock).toJson? = some stockDocument := by
  have hrange : Json.IntegerRange (-2) ∧ Json.IntegerRange 30 := by decide
  have hdocument : stockDocument.WellFormed := ⟨by decide, hrange.1, hrange.2, trivial⟩
  exact Value.toJson?_of_write? rfl hdocument (by decide)

theorem answerSuccess_stock :
    answerSuccess (some stockTransaction) ∅ stockType.ty (.ofDatum stockType stock) =
      .ok ("\x7b\"pears\":-2,\"apples\":30\x7d", .ofDatum stockType stock) := by
  have hconforms : (Value.ofDatum stockType stock).Conforms ∅ (.bool true) :=
    ⟨stockDocument, _, toJson?_stock, rfl, rfl⟩
  exact (@answerSuccess_eq_ok_iff ∅ _ stockTransaction ⟨.bool true⟩ rfl _ _).2
    ⟨rfl, .inr hconforms⟩

/-- A stock, the same one boxed and its document have one payload. -/
theorem respond_static_dynamic_stock :
    ∃ f g : Function TransactionContext, ∃ text v w,
      Function.ofHandler "Stock" stockTaker.toHandler = .ok f ∧
      Function.ofHandler "Stock" stockShower.toHandler = .ok g ∧
      text = "\x7b\"pears\":-2,\"apples\":30\x7d" ∧
      f.respond (some stockTransaction) ∅ [.value (.ofDatum stockType stock)] = .ok (text, v) ∧
      g.respond (some stockTransaction) ∅
        [.value (.ofDatum .dynamic (.dynamic (.ofDatum stockType stock)))] = .ok (text, v) ∧
      g.respond (some stockTransaction) ∅ [.value (.ofDatum .json (.json stockDocument))] =
        .ok (text, w) := by
  obtain ⟨f, hf, hreturns⟩ : ∃ f, Function.ofHandler "Stock" stockTaker.toHandler = .ok f ∧
      f.returns = ⟨some stockType.ty, false⟩ :=
    ⟨⟨"Stock", false, [], ⟨some stockType.ty, false⟩, stockTaker.run⟩, rfl, rfl⟩
  obtain ⟨g, hg, hreturns'⟩ : ∃ g, Function.ofHandler "Stock" stockShower.toHandler = .ok g ∧
      g.returns = ⟨some .any, false⟩ :=
    ⟨⟨"Stock", false, [], ⟨some .any, false⟩, stockShower.run⟩, rfl, rfl⟩
  have hdeclared : f.returns.success = some stockType.ty := by rw [hreturns]
  have hdynamic : g.returns.success = some .any := by rw [hreturns']
  obtain ⟨hbox, hsame⟩ := Function.respond_static_dynamic hdeclared hdynamic rfl fits_stock
    (some stockTransaction) ∅
  have hstatic : stockType ≠ .dynamic ∧ stockType ≠ .single ∧ stockType ≠ .double := by decide
  have hwellFormed : stock.WellFormed := ⟨by decide, trivial, trivial, trivial⟩
  have hintegral : stockDocument.Integral :=
    have hrange : Json.IntegerRange (-2) ∧ Json.IntegerRange 30 := by decide
    ⟨hrange.1, hrange.2, trivial⟩
  have hpayload := hsame stockDocument hstatic.1 hstatic.2.1 hstatic.2.2 hwellFormed toJson?_stock
    hintegral
  have htext := Function.respond_slots_of_success hdeclared (fun _ ↦ rfl) (some stockTransaction) ∅
    (.ofDatum stockType stock)
  rw [answerSuccess_stock] at htext
  rw [htext] at hbox hpayload
  obtain ⟨⟨text, w⟩, hlast, hw⟩ := Except.map_eq_ok.1 hpayload.symm
  cases hw
  rw [hreturns] at htext
  rw [hreturns'] at hbox hlast
  exact ⟨f, g, _, _, w, hf, hg, rfl, htext, hbox.symm, hlast⟩

end ContractHost
