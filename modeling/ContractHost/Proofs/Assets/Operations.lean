import ContractHost.Assets.Contract
import ContractHost.Contract.Lifecycle
import ContractHost.Proofs.Assets.Store
import ContractHost.Proofs.Contract.Arguments

/-!
# The operations of the asset contract

What a caller may ask of a store of assets is an `Operation`, and `Store.apply` says what it answers
and what it does to the store. `Assets.attempt` says what the same operation comes to on a ledger,
whatever is kept on it: to a text and a new ledger, or to nothing. On a ledger that represents a
store the two agree (`Represents.attempt`).

The asset contract, asked for a function by its name, **does what the operation does on the ledger**
(`invoke_spec`), and nothing else: the strings of a call are read as the operation reads them, the
hooks do nothing, and what the ledger operations answer is rendered.
-/

namespace ContractHost

namespace Assets

/-! ### What is asked of a store -/

/-- The value that a string spells; the empty string spells zero. -/
def amount? (raw : String) : Option UInt64 :=
  if raw = "" then some 0
  else
    match Scalar.readInteger? false raw.toList with
    | some n => if 0 ≤ n ∧ n < 2 ^ 64 then some (UInt64.ofNat n.toNat) else none
    | none => none

/-- What a call asks of a store. -/
inductive Operation
  /-- Add a new asset, whose value is still a string. -/
  | create (id owner value : String)
  | read (id : String)
  /-- Is the asset there? -/
  | has (id : String)
  /-- Give the asset to a new owner. -/
  | transfer (id owner : String)
  | delete (id : String)
  /-- Answer with the metadata document. -/
  | document
  /-- Nothing that could be done. -/
  | unknown
  deriving DecidableEq, Repr

/-- What a function of the asset contract is asked to do. Arguments beyond those it needs are not
looked at. -/
def Operation.ofFunction (function : String) (args : List String) : Operation :=
  if function = "CreateAsset" then
    match args with
    | id :: owner :: value :: _ => .create id owner value
    | _ => .unknown
  else if function = "ReadAsset" then
    match args with
    | id :: _ => .read id
    | [] => .unknown
  else if function = "AssetExists" then
    match args with
    | id :: _ => .has id
    | [] => .unknown
  else if function = "TransferAsset" then
    match args with
    | id :: owner :: _ => .transfer id owner
    | _ => .unknown
  else if function = "DeleteAsset" then
    match args with
    | id :: _ => .delete id
    | [] => .unknown
  else .unknown

/-- The names of the functions of the contract. -/
def functionNames : List String :=
  ["CreateAsset", "ReadAsset", "AssetExists", "TransferAsset", "DeleteAsset"]

theorem Operation.ofFunction_of_not_mem {function : String} (h : function ∉ functionNames)
    (args : List String) : ofFunction function args = .unknown := by
  simp only [functionNames, List.mem_cons, List.not_mem_nil, or_false, not_or] at h
  obtain ⟨hcreate, hread, hfind, htransfer, hdelete⟩ := h
  unfold ofFunction
  rw [if_neg hcreate, if_neg hread, if_neg hfind, if_neg htransfer, if_neg hdelete]

/-- What a store answers, if the operation succeeds, and what it becomes. `text` is that of the
metadata document. -/
def Store.apply (text : String) (store : Store) : Operation → Option String × Store
  | .create id owner value =>
    match amount? value with
    | none => (none, store)
    | some v =>
      if id = "" ∨ store.contains id then (none, store)
      else (some "", store.insert id ⟨owner, v⟩)
  | .read id =>
    match store.get? id with
    | none => (none, store)
    | some x => (some (Asset.mk id x.owner x.value).toJson.toText, store)
  | .has id =>
    if id = "" then (none, store)
    else (some (if store.contains id then "true" else "false"), store)
  | .transfer id owner =>
    match store.get? id with
    | none => (none, store)
    | some x => (some x.owner, store.insert id { x with owner := owner })
  | .delete id =>
    match store.get? id with
    | none => (none, store)
    | some _ => (some "", store.erase id)
  | .document => (some text, store)
  | .unknown => (none, store)

/-- What an operation comes to on a ledger: to the text that it answers and the ledger that it
leaves, or to nothing, where it fails. `text` is that of the metadata document. -/
def attempt (text : String) (ledger : Ledger) : Operation → Option (String × Ledger)
  | .create id owner value =>
    match amount? value with
    | none => none
    | some v => (create ledger ⟨id, owner, v⟩).toOption.map ("", ·)
  | .read id => (fetch ledger id).toOption.map fun a ↦ (a.toJson.toText, ledger)
  | .has id =>
    (isPresent ledger id).toOption.map fun found ↦ (if found then "true" else "false", ledger)
  | .transfer id owner => (transfer ledger id owner).toOption
  | .delete id => (remove ledger id).toOption.map ("", ·)
  | .document => some (text, ledger)
  | .unknown => none

/-- The ledger after an operation; one that fails leaves the ledger alone. -/
def ledgerAfter (ledger : Ledger) (outcome : Option (String × Ledger)) : Ledger :=
  (outcome.map Prod.snd).getD ledger

/-- **On a ledger that represents a store, an operation does what it does to the store.** -/
theorem Represents.attempt {ledger : Ledger} {store : Store} (h : Represents ledger store)
    (text : String) (operation : Operation) :
    (attempt text ledger operation).map Prod.fst = (store.apply text operation).1 ∧
      Represents (ledgerAfter ledger (Assets.attempt text ledger operation))
        (store.apply text operation).2 := by
  cases operation with
  | create id owner value =>
    rw [Assets.attempt, Store.apply]
    cases amount? value with
    | none => exact ⟨rfl, h⟩
    | some v =>
      dsimp only
      rcases h.create ⟨id, owner, v⟩ with ⟨hrefused, e, he⟩ | ⟨hfree, ledger', hcreate, hkept⟩
      · rw [he, if_pos hrefused]
        exact ⟨rfl, h⟩
      · rw [hcreate, if_neg hfree]
        exact ⟨rfl, hkept⟩
  | read id =>
    rw [Assets.attempt, Store.apply]
    rcases h.fetch id with ⟨hnone, e, he⟩ | ⟨x, hx, -, hfetch⟩
    · rw [hnone, he]
      exact ⟨rfl, h⟩
    · rw [hx, hfetch]
      exact ⟨rfl, h⟩
  | has id =>
    rw [Assets.attempt, Store.apply]
    rcases h.isPresent id with ⟨hid, e, he⟩ | ⟨hid, hpresent⟩
    · rw [if_pos hid, he]
      exact ⟨rfl, h⟩
    · rw [if_neg hid, hpresent]
      exact ⟨rfl, h⟩
  | transfer id owner =>
    rw [Assets.attempt, Store.apply]
    rcases h.transfer id owner with ⟨hnone, e, he⟩ | ⟨x, hx, ledger', htransfer, hkept⟩
    · rw [hnone, he]
      exact ⟨rfl, h⟩
    · rw [hx, htransfer]
      exact ⟨rfl, hkept⟩
  | delete id =>
    rw [Assets.attempt, Store.apply]
    rcases h.remove id with ⟨hnone, e, he⟩ | ⟨x, hx, ledger', hremove, hkept⟩
    · rw [hnone, he]
      exact ⟨rfl, h⟩
    · rw [hx, hremove]
      exact ⟨rfl, hkept⟩
  | document => exact ⟨rfl, h⟩
  | unknown => exact ⟨rfl, h⟩

/-! ### The contract that is built -/

/-- A typed handler that takes the context, as a function. -/
def registered (name : String) (h : TypedHandler TransactionContext) (returns : ReturnShape) :
    Function TransactionContext :=
  ⟨name, true, h.params, returns, h.run⟩

/-- The function that creates an asset. -/
def creator : Function TransactionContext :=
  registered "CreateAsset" createAsset ⟨none, true⟩

/-- The function that reads an asset. -/
def reader : Function TransactionContext :=
  registered "ReadAsset" readAsset ⟨some Asset.dataType.ty, true⟩

/-- The function that looks for an asset. -/
def finder : Function TransactionContext :=
  registered "AssetExists" assetExists ⟨some (.scalar .bool), true⟩

/-- The function that transfers an asset. -/
def transferrer : Function TransactionContext :=
  registered "TransferAsset" transferAsset ⟨some (.scalar .string), true⟩

/-- The function that deletes an asset. -/
def remover : Function TransactionContext :=
  registered "DeleteAsset" deleteAsset ⟨none, true⟩

/-- The asset contract, once it is built. -/
def built : Contract TransactionContext where
  name := contractName
  info := some contractInfo
  isDefault := true
  functions := KeyMap.ofList
    [("CreateAsset", creator), ("ReadAsset", reader), ("AssetExists", finder),
      ("TransferAsset", transferrer), ("DeleteAsset", remover)]
  before := some ⟨registered "BeforeTransaction" beforeAsset ⟨none, false⟩, .before⟩
  unknown := some
    ⟨⟨"UnknownTransaction", false, [], ⟨none, true⟩, unknownAsset.run⟩, .unknown⟩
  after := some ⟨registered "AfterTransaction" afterAsset ⟨none, false⟩, .after⟩

/-- **The asset contract can be built.** -/
theorem contract_eq : contract = .ok built := rfl

/-- The contract has no other functions. -/
theorem get?_functions_of_not_mem {function : String} (h : function ∉ functionNames) :
    built.functions.get? function = none := by
  have hkeys : ∀ f ∈ built.functions.keys, f ∈ functionNames := by decide
  cases hget : built.functions.get? function with
  | none => rfl
  | some f => exact absurd (hkeys _ (KeyMap.exists_get?_iff.1 ⟨f, hget⟩)) h

variable {text : String} {args : List String} {s : Session TransactionContext}

/-! ### Reading the strings of a call -/

/-- The integers of 64 bits without sign. -/
theorem inRange_u64_iff {n : ℤ} : IntegerKind.u64.InRange n ↔ 0 ≤ n ∧ n < 2 ^ 64 := by
  have hleast : IntegerKind.least .u64 = 0 := by decide
  have hgreatest : IntegerKind.greatest .u64 = 2 ^ 64 - 1 := by decide
  rw [IntegerKind.InRange, hleast, hgreatest, Int.le_sub_one_iff]

/-- A value parameter takes the strings that spell a value. -/
theorem readAll_u64 (raw : String) (args : List String) :
    (amount? raw = none ∧ ∃ e, readAll [.integer .u64] (raw :: args) = .error e) ∨
      ∃ v, amount? raw = some v ∧
        readAll [.integer .u64] (raw :: args) = .ok [.typed (.integer .u64) (.int v.toNat)] := by
  rw [readAll, List.map_singleton, acceptArguments, acceptArgument, decodeArgument, amount?]
  dsimp only [DataType.ty]
  rw [Scalar.convert]
  by_cases hraw : raw = ""
  · rw [if_pos hraw, if_pos hraw]
    exact .inr ⟨0, rfl, rfl⟩
  · rw [if_neg hraw, if_neg hraw]
    have hread : (Scalar.integer .u64).read? raw =
        (Scalar.readInteger? false raw.toList).bind fun n ↦
          if IntegerKind.u64.InRange n then some (.int n) else none := rfl
    rw [hread]
    cases hn : Scalar.readInteger? false raw.toList with
    | none => exact .inl ⟨rfl, _, rfl⟩
    | some n =>
      rw [Option.bind_some]
      simp only [inRange_u64_iff]
      by_cases hrange : 0 ≤ n ∧ n < 2 ^ 64
      · rw [if_pos hrange, if_pos hrange]
        have hvalue : ((UInt64.ofNat n.toNat).toNat : ℤ) = n := by
          rw [UInt64.toNat_ofNat']
          omega
        refine .inr ⟨_, rfl, ?_⟩
        rw [hvalue]
        rfl
      · rw [if_neg hrange, if_neg hrange]
        exact .inl ⟨rfl, _, rfl⟩

/-! ### What comes out of a call -/

/-- What a call comes to and what an operation answers: a text, or a failure of the call. -/
inductive Told : Except Failure String → Option String → Prop
  | ok (text : String) : Told (.ok text) (some text)
  | error (e : CallError) : Told (.error (.error e)) none

/-- A call in a session comes to what an operation comes to, and changes nothing but the ledger. -/
def Yields (s : Session TransactionContext)
    (outcome : Except Failure (String × Value) × Session TransactionContext)
    (expected : Option (String × Ledger)) : Prop :=
  ∃ result, outcome = (result, { s with ledger := ledgerAfter s.ledger expected }) ∧
    Told (result.map Prod.fst) (expected.map Prod.fst)

namespace Yields

/-- A call that fails leaves the ledger alone. -/
theorem error (e : CallError) : Yields s (.error (.error e), s) none :=
  ⟨_, rfl, .error e⟩

/-- A call that answers leaves the ledger that it says. -/
theorem ok (ledger : Ledger) (text : String) (v : Value) :
    Yields s (.ok (text, v), { s with ledger := ledger }) (some (text, ledger)) :=
  ⟨_, rfl, .ok text⟩

/-! ### The functions -/

variable {id : String}

/-- A function of one string looks at the first string of a call. -/
theorem call_one {h : TypedHandler TransactionContext} {name : String}
    {f : Function TransactionContext} (hf : Function.Inspected h name f)
    (hparams : h.params = [.string]) (hs : s.invocation ≠ none) :
    f.call none ∅ (id :: args) s =
      (f.respond none ∅ (h.returns.produce (h.body [.string id] s).1),
        (h.body [.string id] s).2) := by
  refine hf.call_of_readAll ?_ (hparams ▸ readAll_string [] id args) (hparams ▸ rfl) fun _ ↦ hs
  rw [hparams]
  exact Nat.le_add_left 1 args.length

/-- A call with too few strings fails. -/
theorem short {f : Function TransactionContext} (hlength : args.length < f.params.length) :
    Yields s (f.call none ∅ args s) none := by
  rw [Function.call_of_short hlength]
  exact .error _

theorem create (hs : s.invocation ≠ none) (args : List String) :
    Yields s (creator.call none ∅ args s)
      (attempt text s.ledger (.ofFunction "CreateAsset" args)) := by
  rcases args with _ | ⟨id, _ | ⟨owner, _ | ⟨raw, args⟩⟩⟩
  · exact short (show 0 < 3 by decide)
  · exact short (show 1 < 3 by decide)
  · exact short (show 2 < 3 by decide)
  show Yields s _ (attempt text s.ledger (.create id owner raw))
  have hinspected : Function.Inspected createAsset _ creator := Function.inspected_of_ofHandler rfl
  have hlength : createAsset.params.length ≤ (id :: owner :: raw :: args).length :=
    Nat.le_add_left 3 args.length
  have hvalues : readAll createAsset.params (id :: owner :: raw :: args) =
      ((readAll [.integer .u64] (raw :: args)).map
        (.typed .string (.string owner) :: ·)).map (.typed .string (.string id) :: ·) := by
    rw [← readAll_string, ← readAll_string]
    rfl
  rw [attempt]
  rcases readAll_u64 raw args with ⟨hamount, e, he⟩ | ⟨v, hamount, hv⟩
  · rw [he] at hvalues
    rw [hamount, Function.call_of_readAll_error (f := creator) hlength hvalues]
    exact .error e
  · rw [hv] at hvalues
    have hbody : createAsset.body [.string id, .string owner, .int v.toNat] s =
        settle s (Assets.create s.ledger ⟨id, owner, v⟩) := by
      show settle s (Assets.create s.ledger ⟨id, owner, UInt64.ofNat (v.toNat : ℤ).toNat⟩) = _
      rw [Int.toNat_natCast, UInt64.ofNat_toNat]
    rw [hamount, hinspected.call_of_readAll hlength hvalues rfl (fun _ ↦ hs), hbody]
    dsimp only
    cases Assets.create s.ledger ⟨id, owner, v⟩ with
    | error e => exact .error _
    | ok ledger => exact .ok ledger _ _

theorem read (hs : s.invocation ≠ none) (args : List String) :
    Yields s (reader.call none ∅ args s)
      (attempt text s.ledger (.ofFunction "ReadAsset" args)) := by
  rcases args with _ | ⟨id, args⟩
  · exact short (show 0 < 1 by decide)
  show Yields s _ (attempt text s.ledger (.read id))
  have hinspected : Function.Inspected readAsset _ reader := Function.inspected_of_ofHandler rfl
  have hbody : readAsset.body [.string id] s =
      Assets.answer s ((Assets.fetch s.ledger id).map Asset.toDatum) := rfl
  rw [attempt, call_one hinspected rfl hs, hbody]
  cases Assets.fetch s.ledger id with
  | error e => exact .error _
  | ok a => exact .ok _ _ _

theorem has (hs : s.invocation ≠ none) (args : List String) :
    Yields s (finder.call none ∅ args s)
      (attempt text s.ledger (.ofFunction "AssetExists" args)) := by
  rcases args with _ | ⟨id, args⟩
  · exact short (show 0 < 1 by decide)
  show Yields s _ (attempt text s.ledger (.has id))
  have hinspected : Function.Inspected assetExists _ finder := Function.inspected_of_ofHandler rfl
  have hbody : assetExists.body [.string id] s =
      Assets.answer s ((Assets.isPresent s.ledger id).map Datum.bool) := rfl
  rw [attempt, call_one hinspected rfl hs, hbody]
  cases Assets.isPresent s.ledger id with
  | error e => exact .error _
  | ok found => exact .ok _ _ _

theorem transfer (hs : s.invocation ≠ none) (args : List String) :
    Yields s (transferrer.call none ∅ args s)
      (attempt text s.ledger (.ofFunction "TransferAsset" args)) := by
  rcases args with _ | ⟨id, _ | ⟨owner, args⟩⟩
  · exact short (show 0 < 2 by decide)
  · exact short (show 1 < 2 by decide)
  show Yields s _ (attempt text s.ledger (.transfer id owner))
  have hinspected : Function.Inspected transferAsset _ transferrer :=
    Function.inspected_of_ofHandler rfl
  have hvalues : readAll transferAsset.params (id :: owner :: args) =
      .ok [.typed .string (.string id), .typed .string (.string owner)] :=
    (readAll_string [.string] id _).trans (by rw [readAll_string]; rfl)
  have hlength : transferAsset.params.length ≤ (id :: owner :: args).length :=
    Nat.le_add_left 2 args.length
  rw [attempt, hinspected.call_of_readAll hlength hvalues rfl (fun _ ↦ hs)]
  dsimp only [transferAsset]
  have hid : stringAt [.string id, .string owner] 0 = id := rfl
  have howner : stringAt [.string id, .string owner] 1 = owner := rfl
  rw [hid, howner]
  cases Assets.transfer s.ledger id owner with
  | error e => exact .error _
  | ok found => exact .ok found.2 _ _

theorem delete (hs : s.invocation ≠ none) (args : List String) :
    Yields s (remover.call none ∅ args s)
      (attempt text s.ledger (.ofFunction "DeleteAsset" args)) := by
  rcases args with _ | ⟨id, args⟩
  · exact short (show 0 < 1 by decide)
  show Yields s _ (attempt text s.ledger (.delete id))
  have hinspected : Function.Inspected deleteAsset _ remover := Function.inspected_of_ofHandler rfl
  have hbody : deleteAsset.body [.string id] s = settle s (Assets.remove s.ledger id) := rfl
  rw [attempt, call_one hinspected rfl hs, hbody]
  cases Assets.remove s.ledger id with
  | error e => exact .error _
  | ok ledger => exact .ok ledger _ _

/-- **What the contract runs does what is asked of the ledger.** -/
theorem dispatch (text : String) (hs : s.invocation ≠ none) (function : String)
    (args : List String) :
    Yields s (built.dispatch none function args s)
      (attempt text s.ledger (.ofFunction function args)) := by
  by_cases hknown : function ∈ functionNames
  · simp only [functionNames, List.mem_cons, List.not_mem_nil, or_false] at hknown
    rcases hknown with rfl | rfl | rfl | rfl | rfl
    · exact create hs args
    · exact read hs args
    · exact has hs args
    · exact transfer hs args
    · exact delete hs args
  · rw [Contract.dispatch, get?_functions_of_not_mem hknown,
      Operation.ofFunction_of_not_mem hknown]
    exact .error _

end Yields

/-! ### Invocations -/

/-- The hooks of the contract do nothing. -/
theorem runHook_before (hs : s.invocation ≠ none) :
    Contract.runHook built.before none s = (.ok (), s) := by
  obtain ⟨context, _ | invocation, ledger, journal⟩ := s
  · exact absurd rfl hs
  · rfl

theorem runHook_after (hs : s.invocation ≠ none) (v : Value) :
    Contract.runHook built.after (some v) s = (.ok (), s) := by
  obtain ⟨context, _ | invocation, ledger, journal⟩ := s
  · exact absurd rfl hs
  · rfl

/-- **An invocation of the asset contract does what is asked of its ledger**, and changes nothing
else. -/
theorem invoke_spec (hs : s.invocation ≠ none) (text : String) (function : String)
    (args : List String) :
    ∃ answer, built.invoke none function args s =
        (answer, { s with
          ledger := ledgerAfter s.ledger (attempt text s.ledger (.ofFunction function args)) }) ∧
      Told answer ((attempt text s.ledger (.ofFunction function args)).map Prod.fst) := by
  obtain ⟨result, hdispatch, htold⟩ := Yields.dispatch text hs function args
  refine ⟨_, ?_, htold⟩
  rw [Contract.invoke, runHook_before hs]
  dsimp only
  rw [hdispatch]
  rcases result with e | ⟨answer, v⟩
  · rfl
  · dsimp only
    rw [runHook_after (s := { s with ledger := ledgerAfter s.ledger _ }) hs]
    rfl

end Assets

end ContractHost
