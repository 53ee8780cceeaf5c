import ContractHost.Proofs.Chaincode.Assembly
import ContractHost.Proofs.Contract.Responses

/-!
# Asking for the metadata document

The system contract is a contract like the others: it is routed to by name, its function goes
through the same codec, and **where a document from outside is enforced, the document speaks about
it too**. Such a document may describe the function that answers with the document wrongly — with a
parameter, or with a success value that is no text — and then the function cannot be called any
more.

`Document.AdmitsMetadata` says that this is not so: what the document says about the function, if it
says anything, holds of it. **The document is served exactly then, as it stands**
(`Chaincode.metadata_served_iff`). A generated document is not enforced, so it is always served; a
document that does not mention the function is served as well (`Document.admitsMetadata_of_silent`).
-/

namespace ContractHost

open Schema

/-- A transaction describes a function without parameters that answers with a text: the schema for
the success value, if there is one, can be used and accepts the text. -/
def Transaction.Admits (components : Components) (text : String) (tx : Transaction) : Prop :=
  tx.parameters = [] ∧ ∀ r, tx.returns = some r →
    ∃ schema, compile r.schema components = .ok schema ∧ schema.validate (.string text) = []

/-- What a document says about the function that answers with the document, if it says anything,
holds of the function. -/
def Document.AdmitsMetadata (d : Document) (text : String) : Prop :=
  ∀ tx, d.transaction? systemName metadataFunction = some tx → tx.Admits d.components text

/-- A document that says nothing about the function admits every text. -/
theorem Document.admitsMetadata_of_silent {d : Document}
    (h : d.transaction? systemName metadataFunction = none) (text : String) :
    d.AdmitsMetadata text := by
  intro tx htx
  cases h.symm.trans htx

/-! ### The function of the system contract -/

/-- The document of a text is the text. -/
theorem Value.toJson?_string (text : String) :
    (Value.typed .string (.string text)).toJson? = some (.string text) := by
  show Json.read? ((Json.writeString text).map some) = some (.string text)
  rw [(Json.spells_string text).read?, Json.Tree.toJson?, Json.text?_pieces]
  rfl

/-- A text conforms to the schemas that accept it. -/
theorem Value.conforms_string_iff {components : Components} {s : Json} {text : String} :
    (Value.typed .string (.string text)).Conforms components s ↔
      ∃ schema, compile s components = .ok schema ∧ schema.validate (.string text) = [] := by
  constructor
  · rintro ⟨j, schema, hj, hschema, haccepts⟩
    obtain rfl : j = .string text := Option.some.inj (hj.symm.trans (toJson?_string text))
    exact ⟨schema, hschema, haccepts⟩
  · rintro ⟨schema, hschema, haccepts⟩
    exact ⟨.string text, schema, toJson?_string text, hschema, haccepts⟩

section Answer

variable {components : Components} {wire : List String}

/-- No argument is looked at, and a parameter that is described is one too many. -/
theorem decodeArguments_metadataAnswer_eq_ok_iff (text : String) (metadata : Option Transaction)
    {args : Arguments} :
    (metadataAnswer text).decodeArguments metadata components wire = .ok args ↔
      args = ⟨false, []⟩ ∧ ∀ tx, metadata = some tx → tx.parameters = [] := by
  cases metadata with
  | none => exact ⟨fun h ↦ ⟨(Except.ok.inj h).symm, nofun⟩, fun h ↦ congrArg Except.ok h.1.symm⟩
  | some tx =>
    obtain ⟨parameters, returns, tag, name⟩ := tx
    cases parameters with
    | nil =>
      refine ⟨fun h ↦ ⟨(Except.ok.inj h).symm, fun _ htx ↦ ?_⟩, fun h ↦ congrArg Except.ok h.1.symm⟩
      cases htx
      rfl
    | cons p rest =>
      refine ⟨fun h ↦ ?_, fun h ↦ ?_⟩
      · cases h
      · cases h.2 _ rfl

/-- **The function renders its text, and a schema for it is a schema for the text.** -/
theorem answerSuccess_string_eq_ok_iff (text : String) (metadata : Option Transaction)
    {answer : String × Value} :
    answerSuccess metadata components (.scalar .string) (.typed .string (.string text)) =
        .ok answer ↔
      answer = (text, .typed .string (.string text)) ∧ ∀ tx, metadata = some tx →
        ∀ r, tx.returns = some r →
          ∃ schema, compile r.schema components = .ok schema ∧
            schema.validate (.string text) = [] := by
  have hplain : answerSuccess none ∅ (.scalar .string) (.typed .string (.string text)) =
      .ok (text, .typed .string (.string text)) := rfl
  have hvalue : ¬(Value.typed .string (.string text)).isNil = true := Bool.false_ne_true
  rcases hreturns : metadata.bind Transaction.returns with _ | r
  · -- Without a schema the answer is the one without metadata.
    have hsame : answerSuccess metadata components (.scalar .string)
        (.typed .string (.string text)) = .ok (text, .typed .string (.string text)) := by
      have hrender : renderSuccess (.scalar .string) (.typed .string (.string text)) = .ok text :=
        rfl
      rw [answerSuccess, if_neg hvalue, hrender]
      dsimp only
      rw [hreturns]
    rw [hsame]
    constructor
    · rintro ⟨⟩
      refine ⟨rfl, fun tx htx r hr ↦ ?_⟩
      rw [htx, Option.bind_some, hr] at hreturns
      cases hreturns
    · rintro ⟨rfl, -⟩
      rfl
  · obtain ⟨tx, rfl, hr⟩ := Option.bind_eq_some_iff.1 hreturns
    rw [answerSuccess_eq_ok_iff hr, hplain, or_iff_right hvalue, Value.conforms_string_iff]
    constructor
    · rintro ⟨⟨⟩, hconforms⟩
      refine ⟨rfl, fun _ htx r' hr' ↦ ?_⟩
      cases htx
      cases hr.symm.trans hr'
      exact hconforms
    · rintro ⟨rfl, hconforms⟩
      exact ⟨rfl, hconforms tx rfl r hr⟩

/-- A call is the check of the text, once the arguments are accepted. -/
theorem call_metadataAnswer (text : String) (metadata : Option Transaction)
    (s : Session TransactionContext) : (metadataAnswer text).call metadata components wire s =
      ((((metadataAnswer text).decodeArguments metadata components wire).bind fun _ ↦
        answerSuccess metadata components (.scalar .string)
          (.typed .string (.string text))).mapError Failure.error, s) := by
  have hrespond : (metadataAnswer text).respond metadata components
      [.value (.ofDatum .string (.string text))] =
        (answerSuccess metadata components (.scalar .string)
          (.typed .string (.string text))).mapError Failure.error :=
    Function.respond_of_splitOutputs rfl rfl metadata components
  rw [Function.call]
  split
  · next e he =>
    rw [he]
    rfl
  · next args hdecode =>
    obtain ⟨rfl, -⟩ := (decodeArguments_metadataAnswer_eq_ok_iff text metadata).1 hdecode
    rw [hdecode]
    show ((metadataAnswer text).respond metadata components
      [.value (.ofDatum .string (.string text))], s) = _
    rw [hrespond]
    rfl

/-- **The function answers with its text exactly if the metadata admit that.** -/
theorem accepts_metadataAnswer (text : String) (metadata : Option Transaction)
    {answer : String × Value} :
    (((metadataAnswer text).decodeArguments metadata components wire).bind fun _ ↦
        answerSuccess metadata components (.scalar .string) (.typed .string (.string text))) =
          .ok answer ↔
      answer = (text, .typed .string (.string text)) ∧
        ∀ tx, metadata = some tx → tx.Admits components text := by
  rcases hdecode : (metadataAnswer text).decodeArguments metadata components wire with e | args
  · refine ⟨nofun, fun h ↦ ?_⟩
    cases hdecode.symm.trans ((decodeArguments_metadataAnswer_eq_ok_iff text metadata).2
      ⟨rfl, fun tx htx ↦ (h.2 tx htx).1⟩)
  · obtain ⟨-, hparameters⟩ := (decodeArguments_metadataAnswer_eq_ok_iff text metadata).1 hdecode
    refine (answerSuccess_string_eq_ok_iff text metadata).trans (and_congr_right fun _ ↦ ?_)
    exact forall₂_congr fun tx htx ↦ (and_iff_right (hparameters tx htx)).symm

/-- A call that the metadata admit is answered with the text; any other one fails. -/
theorem call_metadataAnswer_cases (text : String) (metadata : Option Transaction)
    (s : Session TransactionContext) :
    ((∀ tx, metadata = some tx → tx.Admits components text) ∧
        (metadataAnswer text).call metadata components wire s =
          (.ok (text, .typed .string (.string text)), s)) ∨
      (¬(∀ tx, metadata = some tx → tx.Admits components text) ∧
        ∃ e, (metadataAnswer text).call metadata components wire s = (.error (.error e), s)) := by
  rw [call_metadataAnswer]
  rcases hresult : ((metadataAnswer text).decodeArguments metadata components wire).bind fun _ ↦
      answerSuccess metadata components (.scalar .string) (.typed .string (.string text)) with
    e | answer
  · refine .inr ⟨fun hadmits ↦ ?_, e, rfl⟩
    cases hresult.symm.trans ((accepts_metadataAnswer text metadata).2 ⟨rfl, hadmits⟩)
  · obtain ⟨rfl, hadmits⟩ := (accepts_metadataAnswer text metadata).1 hresult
    exact .inl ⟨hadmits, rfl⟩

end Answer

/-! ### The answer of a chaincode -/

namespace Chaincode

variable {config : Config} {supplied : Option Document} {files : FileView}
  {services : List Service} {c : Chaincode}

/-- A document from outside is served as it is enforced, by the system contract over its text. -/
theorem system_of_assemble (h : assemble config supplied files services = .ok c) :
    (∀ d, c.enforced = some d → c.document = d) ∧
      c.services.get? systemName = some (metadataContract c.document.toText).toService := by
  rcases assemble_cases config supplied files services with
    ⟨e, hassemble, -⟩ | ⟨defaultName, roll, enforced, hassemble, -⟩
  · cases hassemble.symm.trans h
  · cases hassemble.symm.trans h
    refine ⟨fun d hd ↦ ?_, KeyMap.get?_insert_self _ _ _⟩
    obtain rfl : enforced = some d := hd
    rfl

/-- Asking for the document calls the function of the system contract, under what the enforced
document says about it. -/
theorem route_metadata (h : assemble config supplied files services = .ok c)
    (invocation : Invocation) (args : List String) (world : World) :
    ((∀ d, c.enforced = some d → d.AdmitsMetadata c.document.toText) ∧
        c.route invocation (qualify systemName metadataFunction) args world =
          (.ok c.document.toText, world)) ∨
      (¬(∀ d, c.enforced = some d → d.AdmitsMetadata c.document.toText) ∧
        ∃ e, c.route invocation (qualify systemName metadataFunction) args world =
          (.error (.error e), world)) := by
  obtain ⟨-, hsystem⟩ := system_of_assemble h
  rw [route_qualify hsystem (by decide) (by decide)]
  generalize c.document.toText = text
  have hadmits : (∀ tx, (c.enforced.bind fun d ↦ d.transaction? systemName metadataFunction) =
      some tx → tx.Admits ((c.enforced.map Document.components).getD ∅) text) ↔
        ∀ d, c.enforced = some d → d.AdmitsMetadata text := by
    cases c.enforced with
    | none => exact iff_of_true nofun nofun
    | some d =>
      refine ⟨fun hsome d' hd' tx htx ↦ ?_, fun hall tx htx ↦ hall d rfl tx htx⟩
      cases hd'
      exact hsome tx htx
  -- No hook runs, and the function is there, so the contract answers as its function does.
  have hinvoke : ∀ result s, (metadataAnswer text).call
      (c.enforced.bind fun d ↦ d.transaction? systemName metadataFunction)
      ((c.enforced.map Document.components).getD ∅) args
      (.start invocation world.ledger world.journal) = (result, s) →
        (metadataContract text).toService.invoke c.enforced invocation metadataFunction args world =
          (result.map Prod.fst, s.world) := by
    intro result s hcall
    have hget : (metadataContract text).functions.get? metadataFunction =
        some (metadataAnswer text) := KeyMap.get?_insert_self _ _ _
    have hdispatch : (metadataContract text).dispatch c.enforced metadataFunction args
        (.start invocation world.ledger world.journal) = (result, s) := by
      rw [Contract.dispatch, hget]
      exact hcall
    have hbefore : Contract.runHook (metadataContract text).before none
        (.start invocation world.ledger world.journal) =
          (.ok (), .start invocation world.ledger world.journal) := rfl
    have hafter : ∀ v, Contract.runHook (metadataContract text).after (some v) s = (.ok (), s) :=
      fun _ ↦ rfl
    rw [Contract.toService]
    dsimp only
    rw [Contract.invoke, hbefore]
    dsimp only
    rw [hdispatch]
    rcases result with e | ⟨answer, v⟩
    · rfl
    · dsimp only
      rw [hafter]
      rfl
  rw [← hadmits]
  rcases call_metadataAnswer_cases text
      (c.enforced.bind fun d ↦ d.transaction? systemName metadataFunction)
      (.start invocation world.ledger world.journal) with ⟨htx, hcall⟩ | ⟨htx, e, hcall⟩
  · exact .inl ⟨htx, hinvoke _ _ hcall⟩
  · exact .inr ⟨htx, e, hinvoke _ _ hcall⟩

/-- **The metadata document is served exactly if it can be true of the function that serves it.**
Where a document from outside is in force, it is the one that is served. An invocation of the
function, with any arguments, succeeds with exactly the text of the document if no document is in
force or the one in force admits that; otherwise it fails. -/
theorem metadata_served_iff (h : assemble config supplied files services = .ok c) :
    (∀ d, c.enforced = some d → c.document = d) ∧
      ∀ invocation : Invocation, invocation.function = "org.hyperledger.fabric:GetMetadata" →
        ∀ world,
          ((∀ d, c.enforced = some d → d.AdmitsMetadata c.document.toText) →
            c.invoke invocation world =
              (.ok (.success (Utf8.bytes c.document.toText)), world)) ∧
          (¬(∀ d, c.enforced = some d → d.AdmitsMetadata c.document.toText) →
            ∃ e : CallError, c.invoke invocation world = (.ok (.failure e.message), world)) := by
  refine ⟨(system_of_assemble h).1, fun invocation hname world ↦ ?_⟩
  have hqualify : invocation.function = qualify systemName metadataFunction := hname
  rcases route_metadata h invocation invocation.args world with
    ⟨hadmits, hroute⟩ | ⟨hrefuses, e, hroute⟩
  · refine ⟨fun _ ↦ ?_, fun hrefuses ↦ absurd hadmits hrefuses⟩
    rw [invoke, hqualify, hroute]
  · refine ⟨fun hadmits ↦ absurd hadmits hrefuses, fun _ ↦ ⟨e, ?_⟩⟩
    rw [invoke, hqualify, hroute]

end Chaincode

/-! ### Documents for a shop -/

/-- A document about the system contract alone, with a schema for the text of the document. -/
def metadataDocument (s : Json) : Document :=
  ⟨none, KeyMap.empty.insert systemName
    ⟨none, systemName, [⟨[], some ⟨s⟩, [], metadataFunction⟩], false⟩, ∅⟩

/-- The schema of a kind of documents. -/
def kindSchema (kind : String) : Json :=
  .object [("type", .string kind)]

/-- A shop is served with a document that says that the document is a text. -/
theorem metadata_served_iff_shop :
    ∃ c, Chaincode.assemble .default (some (metadataDocument (kindSchema "string")))
          (.ofFiles []) [(shop "Shop").toService] = .ok c ∧
      ∀ invocation : Invocation, invocation.function = "org.hyperledger.fabric:GetMetadata" →
        ∀ world, c.invoke invocation world =
          (.ok (.success (Utf8.bytes c.document.toText)), world) := by
  obtain ⟨c, hassemble, henforced⟩ : ∃ c, Chaincode.assemble .default
      (some (metadataDocument (kindSchema "string"))) (.ofFiles []) [(shop "Shop").toService] =
        .ok c ∧ c.enforced = some (metadataDocument (kindSchema "string")) :=
    ⟨_, rfl, rfl⟩
  obtain ⟨-, hserved⟩ := Chaincode.metadata_served_iff hassemble
  refine ⟨c, hassemble, fun invocation hname world ↦ (hserved invocation hname world).1 ?_⟩
  intro d hd tx htx
  cases henforced.symm.trans hd
  cases htx
  refine ⟨rfl, fun r hr ↦ ?_⟩
  cases hr
  exact ⟨_, rfl, rfl⟩

/-- **A document that says that the document is a number is in force, and cannot be asked for.** -/
theorem metadata_not_served :
    ∃ c, Chaincode.assemble .default (some (metadataDocument (kindSchema "integer")))
          (.ofFiles []) [(shop "Shop").toService] = .ok c ∧
      ∀ invocation : Invocation, invocation.function = "org.hyperledger.fabric:GetMetadata" →
        ∀ world, ∃ e : CallError,
          c.invoke invocation world = (.ok (.failure e.message), world) := by
  obtain ⟨c, hassemble, henforced⟩ : ∃ c, Chaincode.assemble .default
      (some (metadataDocument (kindSchema "integer"))) (.ofFiles []) [(shop "Shop").toService] =
        .ok c ∧ c.enforced = some (metadataDocument (kindSchema "integer")) :=
    ⟨_, rfl, rfl⟩
  refine ⟨c, hassemble, fun invocation hname world ↦ ?_⟩
  have hqualify : invocation.function = qualify systemName metadataFunction := hname
  rcases Chaincode.route_metadata hassemble invocation invocation.args world with
    ⟨hadmits, -⟩ | ⟨-, e, hroute⟩
  · obtain ⟨schema, hschema, haccepts⟩ := (hadmits _ henforced _ rfl).2 _ rfl
    cases hschema
    cases haccepts
  · exact ⟨e, by rw [Chaincode.invoke, hqualify, hroute]⟩

end ContractHost
