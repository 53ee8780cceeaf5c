import ContractHost.Chaincode.Routing
import ContractHost.Proofs.Chaincode.Enrolment
import Mathlib.Data.List.TakeDrop
import Mathlib.Data.List.TakeWhile

/-!
# Qualified names

An invocation names a function by the name of its contract, a separator and its own name. Routing
splits such a name at the first separator (`splitName_eq_iff`), so a qualified name is understood
as it was meant exactly when there is no separator in the name of the contract
(`splitName_qualify_iff`). Separators in the name of the function do no harm.

Building a contract refuses a blank name, and so does registering a function, but nothing refuses a
separator. **Where the names of contracts have no separator, every function is addressable and has a
qualified name of its own** (`Chaincode.functions_addressable`). A contract with a separator in its
name is served, and yet its functions are out of reach (`Chaincode.route_separated_name`); worse, a
contract whose name is `a` and one whose name is `a:b` may share qualified names (`qualify_assoc`),
and a call that is meant for the second one runs in the first one.
-/

namespace ContractHost

/-! ### Names -/

/-- The name of a function together with the name of its contract. -/
def qualify (contract function : String) : String :=
  contract ++ ":" ++ function

theorem toList_qualify (contract function : String) :
    (qualify contract function).toList = contract.toList ++ separator :: function.toList := by
  rw [qualify, String.toList_append, String.toList_append, List.append_assoc]
  rfl

/-- A contract whose name is itself qualified shares qualified names with another contract. -/
theorem qualify_assoc (a b c : String) : qualify (qualify a b) c = qualify a (qualify b c) := by
  simp only [qualify, String.append_assoc]

variable {defaultName name contract function contract' function' : String}

/-- A name without a separator belongs to the default contract. -/
theorem splitName_unqualified (h : separator ∉ name.toList) :
    splitName defaultName name = (defaultName, name) := by
  have hplain : ∀ c ∈ name.toList, decide (c ≠ separator) = true :=
    fun c hc ↦ decide_eq_true fun heq ↦ h (heq ▸ hc)
  have hspan : name.toList.span (· ≠ separator) = (name.toList, []) := by
    rw [List.span_eq_takeWhile_dropWhile, List.takeWhile_eq_self_iff.2 hplain,
      List.dropWhile_eq_nil_iff.2 hplain]
  rw [splitName, hspan]

/-- A qualified name is split where it was put together. -/
theorem splitName_qualify (h : separator ∉ contract.toList) :
    splitName defaultName (qualify contract function) = (contract, function) := by
  have hplain : ∀ c ∈ contract.toList, decide (c ≠ separator) = true :=
    fun c hc ↦ decide_eq_true fun heq ↦ h (heq ▸ hc)
  have hspan : (qualify contract function).toList.span (· ≠ separator) =
      (contract.toList, separator :: function.toList) := by
    rw [toList_qualify, List.span_eq_takeWhile_dropWhile, List.takeWhile_append_of_pos hplain,
      List.dropWhile_append_of_pos hplain, List.takeWhile_cons_of_neg (by decide),
      List.dropWhile_cons_of_neg (by decide), List.append_nil]
  rw [splitName, hspan]
  dsimp only
  rw [String.ofList_toList, String.ofList_toList]

/-- A name with a separator is a qualified one, of a contract without a separator. -/
theorem exists_qualify_eq (h : separator ∈ name.toList) :
    ∃ contract function, separator ∉ contract.toList ∧ name = qualify contract function := by
  obtain ⟨before, after, heq, hbefore⟩ := List.eq_append_cons_of_mem h
  refine ⟨.ofList before, .ofList after, ?_, ?_⟩
  · rw [String.toList_ofList]
    exact hbefore
  · rw [← String.toList_inj, toList_qualify, String.toList_ofList, String.toList_ofList]
    exact heq

/-- **Names are split at the first separator**, and without one they belong to the default
contract. -/
theorem splitName_eq_iff : splitName defaultName name = (contract, function) ↔
    (separator ∉ name.toList ∧ contract = defaultName ∧ function = name) ∨
      (separator ∉ contract.toList ∧ name = qualify contract function) := by
  constructor
  · intro h
    by_cases hname : separator ∈ name.toList
    · obtain ⟨contract', function', hplain, rfl⟩ := exists_qualify_eq hname
      rw [splitName_qualify hplain] at h
      cases h
      exact .inr ⟨hplain, rfl⟩
    · rw [splitName_unqualified hname] at h
      cases h
      exact .inl ⟨hname, rfl, rfl⟩
  · rintro (⟨hname, rfl, rfl⟩ | ⟨hplain, rfl⟩)
    · exact splitName_unqualified hname
    · exact splitName_qualify hplain

/-- A qualified name is understood exactly if its contract has no separator. -/
theorem splitName_qualify_iff :
    splitName defaultName (qualify contract function) = (contract, function) ↔
      separator ∉ contract.toList := by
  refine ⟨fun h ↦ ?_, splitName_qualify⟩
  rcases splitName_eq_iff.1 h with ⟨hname, -, -⟩ | ⟨hplain, -⟩
  · rw [toList_qualify] at hname
    exact absurd (List.mem_append_right _ List.mem_cons_self) hname
  · exact hplain

/-- Without separators in the names of contracts, a qualified name stands for one function of one
contract. -/
theorem qualify_inj (h : separator ∉ contract.toList) (h' : separator ∉ contract'.toList)
    (heq : qualify contract function = qualify contract' function') :
    contract = contract' ∧ function = function' := by
  have hsplit : splitName "" (qualify contract function) = (contract, function) :=
    splitName_qualify h
  rw [heq, splitName_qualify h'] at hsplit
  exact Prod.mk.inj hsplit.symm

/-! ### Routing -/

namespace Chaincode

variable {c : Chaincode} {s : Service} {invocation : Invocation} {args : List String}
  {world : World}

/-- A qualified name is routed to its function. -/
theorem route_qualify (hs : c.services.get? contract = some s)
    (hplain : separator ∉ contract.toList) (hfunction : function ≠ "") :
    c.route invocation (qualify contract function) args world =
      s.invoke c.enforced invocation function args world := by
  rw [route, splitName_qualify hplain]
  dsimp only
  rw [hs]
  exact if_neg hfunction

/-- A name without a separator is routed like the one that is qualified by the default contract. -/
theorem route_unqualified (hdefault : separator ∉ c.defaultName.toList)
    (hname : separator ∉ name.toList) :
    c.route invocation name args world =
      c.route invocation (qualify c.defaultName name) args world := by
  rw [route, route, splitName_unqualified hname, splitName_qualify hdefault]

/-- A contract whose name has a separator is never looked for under that name. -/
theorem route_separated_name (hplain : separator ∉ contract.toList)
    (hnone : c.services.get? contract = none) (rest : String) :
    c.route invocation (qualify (qualify contract rest) function) args world =
      (.error (.error (.contractNotFound contract)), world) := by
  rw [qualify_assoc, route, splitName_qualify hplain]
  dsimp only
  rw [hnone]

end Chaincode

/-! ### Functions that are served -/

/-- The service of a contract that was built. -/
def Service.Built (s : Service) : Prop :=
  ∃ (κ : Type) (_ : ContextType κ) (name : String) (steps : List (Registration κ))
    (c : Contract κ), Contract.build name steps = .ok c ∧ s = c.toService

theorem Service.built_toService {κ : Type} [ContextType κ] {steps : List (Registration κ)}
    {c : Contract κ} (h : Contract.build name steps = .ok c) : c.toService.Built :=
  ⟨κ, inferInstance, name, steps, c, h, rfl⟩

/-- No function of a contract that was built has the empty name. -/
theorem Service.Built.ne_empty {s : Service} (hs : s.Built)
    (hfunction : s.outline.functions.contains function = true) : function ≠ "" := by
  obtain ⟨κ, _, name, steps, c, hbuild, rfl⟩ := hs
  obtain ⟨outline, houtline⟩ := Option.isSome_iff_exists.1 hfunction
  obtain ⟨f, hf, -⟩ := Option.map_eq_some_iff.1 ((KeyMap.get?_map _ _ _).symm.trans houtline)
  have hblank := Contract.isBlank_of_build hbuild hf
  rintro rfl
  cases hblank

/-- **Every function is addressable where the names of contracts have no separator.** Let a
chaincode be put together from contracts that were built. A function of such a contract, or of the
system contract, is run under its qualified name; a name without a separator means the default
contract; and no two functions share a qualified name. -/
theorem Chaincode.functions_addressable {c : Chaincode} {config : Config}
    {supplied : Option Document} {files : FileView} {services : List Service}
    (hbuilt : ∀ s ∈ services, s.Built) (h : assemble config supplied files services = .ok c) :
    ∃ system, systemContract c.document.toText = .ok system ∧
      (∀ s ∈ system.toService :: services, separator ∉ s.name.toList → ∀ function,
        s.outline.functions.contains function = true → ∀ invocation args world,
          c.route invocation (qualify s.name function) args world =
            s.invoke c.enforced invocation function args world) ∧
      (separator ∉ c.defaultName.toList → ∀ name, separator ∉ name.toList →
        ∀ invocation args world, c.route invocation name args world =
          c.route invocation (qualify c.defaultName name) args world) ∧
      ∀ s ∈ system.toService :: services, ∀ s' ∈ system.toService :: services,
        separator ∉ s.name.toList → separator ∉ s'.name.toList → ∀ function function',
          qualify s.name function = qualify s'.name function' → s = s' ∧ function = function' := by
  obtain ⟨roll, system, hassembled⟩ := assemble_eq_ok h
  have hserved := hassembled.get?_services
  refine ⟨system, hassembled.built, fun s hs hplain function hfunction invocation args world ↦ ?_,
    fun hdefault name hname invocation args world ↦ route_unqualified hdefault hname,
    fun s hs s' hs' hplain hplain' function function' heq ↦ ?_⟩
  · have hs' : s.Built := by
      rcases List.mem_cons.1 hs with rfl | hs
      · exact Service.built_toService hassembled.built
      · exact hbuilt s hs
    exact route_qualify (hserved s hs) hplain (hs'.ne_empty hfunction)
  · obtain ⟨hname, hfunctions⟩ := qualify_inj hplain hplain' heq
    have hget := hserved s hs
    rw [hname, hserved s' hs'] at hget
    exact ⟨(Option.some.inj hget).symm, hfunctions⟩

/-! ### A shop and its branch -/

/-- A handler that says that a shop is open. -/
def opener : TypedHandler TransactionContext where
  takesContext := false
  usesInvocation := false
  params := []
  returns := .value .string
  body _ s := (.string "open", s)

/-- A shop whose only function says that it is open. -/
def shop (name : String) : Contract TransactionContext :=
  { Contract.empty name with
    functions := KeyMap.empty.insert "Open" ⟨"Open", false, [], ⟨some (.scalar .string), false⟩,
      opener.run⟩ }

theorem build_shop (name : String) (h : Text.isBlank name = false) :
    Contract.build name [.function "Open" opener.toHandler] = .ok (shop name) := by
  show (if Text.isBlank name = true then Except.error RegistrationError.blankContractName
    else .ok (shop name)) = _
  rw [h]
  rfl

/-- The shop is asked under its qualified name whether it is open. -/
theorem functions_addressable_shop :
    ∃ c, Chaincode.assemble .default none (.ofFiles []) [(shop "Shop").toService] = .ok c ∧
      ∀ invocation world, (c.route invocation "Shop:Open" [] world).1 = .ok "open" := by
  have hbuilt : ∀ s ∈ [(shop "Shop").toService], s.Built := fun s hs ↦
    List.mem_singleton.1 hs ▸ Service.built_toService (build_shop "Shop" rfl)
  obtain ⟨c, hassemble, henforced⟩ : ∃ c, Chaincode.assemble .default none (.ofFiles [])
      [(shop "Shop").toService] = .ok c ∧ c.enforced = none := ⟨_, rfl, rfl⟩
  obtain ⟨system, -, hroute, -⟩ := Chaincode.functions_addressable hbuilt hassemble
  have hopen := hroute (shop "Shop").toService (.tail _ (.head _)) (by decide) "Open" rfl
  refine ⟨c, hassemble, fun invocation world ↦ ?_⟩
  rw [show "Shop:Open" = qualify (shop "Shop").toService.name "Open" from rfl, hopen, henforced]
  rfl

/-- **A branch is served, but it cannot be asked**: its name has a separator, and routing looks for
the contract that has the part before that as its name. -/
theorem functions_addressable_not_branch :
    ∃ c, Chaincode.assemble .default none (.ofFiles []) [(shop "Shop:EU").toService] = .ok c ∧
      Contract.build "Shop:EU" [.function "Open" opener.toHandler] = .ok (shop "Shop:EU") ∧
        ∀ invocation world,
          ((shop "Shop:EU").toService.invoke c.enforced invocation "Open" [] world).1 =
              .ok "open" ∧
            c.route invocation "Shop:EU:Open" [] world =
              (.error (.error (.contractNotFound "Shop")), world) := by
  refine ⟨_, rfl, build_shop "Shop:EU" rfl, fun invocation world ↦ ⟨rfl, ?_⟩⟩
  rw [show "Shop:EU:Open" = qualify (qualify "Shop" "EU") "Open" from rfl]
  exact Chaincode.route_separated_name (by decide) rfl "EU"

end ContractHost
