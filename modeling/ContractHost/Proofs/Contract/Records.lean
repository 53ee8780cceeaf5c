import ContractHost.Contract.Basic
import Mathlib.Data.List.Nodup

/-!
# What a contract records

A registration of a handler claims a **slot** of the contract: a name in the table of functions, or
the place of a hook. A slot holds what its registration made (`Contract.Holds`), and
`Contract.Records` says that a contract holds exactly what a list of registrations put in.

`Contract.Takes` is what one registration does to a contract (`Contract.register_eq_ok_iff`). A
contract that records some registrations and takes another one records that one as well
(`Contract.Records.register`), so **a contract that is built holds exactly what was registered**
(`Contract.records_of_build`).

That the slots are all different is part of what is recorded. It is what makes a name stand for one
handler, whichever of the registrations came first.
-/

namespace ContractHost

variable {κ : Type}

/-! ### Slots -/

/-- A part of a contract that one registration can fill. -/
inductive Slot
  | function (name : String)
  | hook (kind : HookKind)
  deriving DecidableEq, Repr

/-- The registration of a handler for a slot. -/
def Slot.registration : Slot → Handler κ → Registration κ
  | .function name => .function name
  | .hook kind => .hook kind

/-- The slot that a registration claims. -/
def Registration.slot? : Registration κ → Option Slot
  | .function name _ => some (.function name)
  | .hook kind _ => some (.hook kind)
  | .info _ | .makeDefault => none

/-- The information that a registration gives. -/
def Registration.info? : Registration κ → Option Info
  | .info i => some i
  | .function .. | .hook .. | .makeDefault => none

/-- The slots that registrations claim, in order. -/
def slots (steps : List (Registration κ)) : List Slot :=
  steps.filterMap Registration.slot?

section Slots

variable {steps steps' : List (Registration κ)} {r : Registration κ} {s : Slot} {h h' : Handler κ}

theorem slot?_registration (s : Slot) (h : Handler κ) : (s.registration h).slot? = some s := by
  cases s <;> rfl

theorem registration_injective (heq : s.registration h = s.registration h') : h = h' := by
  cases s <;> cases heq <;> rfl

theorem slot?_eq_some_iff : r.slot? = some s ↔ ∃ h, s.registration h = r := by
  constructor
  · intro hs
    rcases r with ⟨_, h⟩ | ⟨_, h⟩ | _ | _ <;> cases hs <;> exact ⟨h, rfl⟩
  · rintro ⟨h, rfl⟩
    exact slot?_registration s h

theorem mem_slots : s ∈ slots steps ↔ ∃ h, s.registration h ∈ steps := by
  rw [slots, List.mem_filterMap]
  constructor
  · rintro ⟨r, hmem, hs⟩
    obtain ⟨h, rfl⟩ := slot?_eq_some_iff.1 hs
    exact ⟨h, hmem⟩
  · rintro ⟨h, hmem⟩
    exact ⟨_, hmem, slot?_registration s h⟩

theorem slots_append : slots (steps ++ steps') = slots steps ++ slots steps' :=
  List.filterMap_append

end Slots

/-! ### One registration -/

variable [ContextType κ]

/-- A registration has nothing wrong with it by itself. -/
inductive Registration.Sound : Registration κ → Prop
  | function {name : String} {h : Handler κ} {f : Function κ} (hblank : Text.isBlank name = false)
      (hf : Function.ofHandler name h = .ok f) : Sound (.function name h)
  | hook {kind : HookKind} {h : Handler κ} {hook : Hook κ}
      (hhook : Hook.ofHandler kind h = .ok hook) : Sound (.hook kind h)
  | info (i : Info) : Sound (.info i)
  | makeDefault : Sound .makeDefault

namespace Contract

variable {name : String} {steps before : List (Registration κ)} {c c' : Contract κ}
  {r : Registration κ}

/-- What becomes of a contract that takes a registration. -/
inductive Takes (c : Contract κ) : Registration κ → Contract κ → Prop
  | function {name : String} {h : Handler κ} {f : Function κ} (hblank : Text.isBlank name = false)
      (hfree : c.functions.get? name = none) (hf : Function.ofHandler name h = .ok f) :
      Takes c (.function name h) { c with functions := c.functions.insert name f }
  | hook {kind : HookKind} {h : Handler κ} {hook : Hook κ} (hfree : c.hook? kind = none)
      (hhook : Hook.ofHandler kind h = .ok hook) : Takes c (.hook kind h) (c.setHook kind hook)
  | info (i : Info) : Takes c (.info i) { c with info := some i }
  | makeDefault : Takes c .makeDefault { c with isDefault := true }

/-- **What one registration does to a contract.** -/
theorem register_eq_ok_iff : c.register r = .ok c' ↔ c.Takes r c' := by
  constructor
  · intro h
    rcases r with ⟨name, handler⟩ | ⟨kind, handler⟩ | i | _
    · rw [register, addFunction] at h
      split at h
      · cases h
      · next hblank =>
        split at h
        · cases h
        · next hfree =>
          split at h
          · cases h
          · next f hf =>
            cases h
            exact .function (Bool.eq_false_iff.2 hblank) (Option.not_isSome_iff_eq_none.1 hfree) hf
    · rw [register, addHook] at h
      split at h
      · cases h
      · next hfree =>
        split at h
        · cases h
        · next hook hhook =>
          cases h
          exact .hook (Option.not_isSome_iff_eq_none.1 hfree) hhook
    · cases h
      exact .info i
    · cases h
      exact .makeDefault
  · rintro (⟨hblank, hfree, hf⟩ | ⟨hfree, hhook⟩ | i | _)
    · rw [register, addFunction, if_neg (Bool.eq_false_iff.1 hblank), KeyMap.contains, hfree, hf]
      rfl
    · rw [register, addHook, hfree, hhook]
      rfl
    · rfl
    · rfl

theorem Takes.sound (h : c.Takes r c') : r.Sound := by
  rcases h with ⟨hblank, -, hf⟩ | ⟨-, hhook⟩ | i | _
  · exact .function hblank hf
  · exact .hook hhook
  · exact .info i
  · exact .makeDefault

section SetHook

variable {ι : Type} {c : Contract ι} (kind : HookKind) (hook : Hook ι)

theorem name_setHook : (c.setHook kind hook).name = c.name := by
  cases kind <;> rfl

theorem info_setHook : (c.setHook kind hook).info = c.info := by
  cases kind <;> rfl

theorem isDefault_setHook : (c.setHook kind hook).isDefault = c.isDefault := by
  cases kind <;> rfl

theorem functions_setHook : (c.setHook kind hook).functions = c.functions := by
  cases kind <;> rfl

theorem hook?_setHook (kind' : HookKind) :
    (c.setHook kind hook).hook? kind' = if kind = kind' then some hook else c.hook? kind' := by
  cases kind <;> cases kind' <;> rfl

end SetHook

/-! ### What a slot holds -/

section Holds

variable {ι α : Type} {s : Slot} {make : Handler ι → Except RegistrationError α} {place : Option α}
  {steps : List (Registration ι)} {r : Registration ι} {h : Handler ι} {x : α}

/-- The place of a slot holds exactly what is made of the handlers that were registered for it. -/
def Holds (s : Slot) (make : Handler ι → Except RegistrationError α)
    (steps : List (Registration ι)) (place : Option α) : Prop :=
  ∀ x, place = some x ↔ ∃ h, s.registration h ∈ steps ∧ make h = .ok x

theorem holds_nil : Holds s make [] none :=
  fun _ ↦ iff_of_false (fun h ↦ by cases h) fun ⟨_, hmem, _⟩ ↦ List.not_mem_nil hmem

/-- A slot is free if nothing was registered for it. -/
theorem Holds.eq_none_iff (hplace : Holds s make steps place)
    (hmade : ∀ h, s.registration h ∈ steps → ∃ x, make h = .ok x) :
    place = none ↔ s ∉ slots steps := by
  rw [mem_slots]
  constructor
  · rintro hnone ⟨h, hmem⟩
    obtain ⟨x, hx⟩ := hmade h hmem
    cases hnone.symm.trans ((hplace x).2 ⟨h, hmem, hx⟩)
  · intro hfree
    refine Option.eq_none_iff_forall_ne_some.2 fun x hx ↦ ?_
    obtain ⟨h, hmem, -⟩ := (hplace x).1 hx
    exact hfree ⟨h, hmem⟩

theorem exists_mem_concat {P : Handler ι → Prop} : (∃ h, s.registration h ∈ steps ++ [r] ∧ P h) ↔
    (∃ h, s.registration h ∈ steps ∧ P h) ∨ ∃ h, s.registration h = r ∧ P h := by
  simp only [List.mem_append, List.mem_singleton, or_and_right, exists_or]

/-- A registration for a slot that was free fills it. -/
theorem Holds.concat_registration (hplace : Holds s make steps none) (hx : make h = .ok x) :
    Holds s make (steps ++ [s.registration h]) (some x) := by
  intro y
  rw [exists_mem_concat, ← hplace y, or_iff_right (fun h ↦ by cases h)]
  constructor
  · rintro ⟨⟩
    exact ⟨h, rfl, hx⟩
  · rintro ⟨h', heq, hy⟩
    rw [registration_injective heq, hx] at hy
    exact congrArg _ (Except.ok.inj hy)

/-- A registration for something else leaves a slot alone. -/
theorem Holds.concat_of_ne (hplace : Holds s make steps place) (hr : r.slot? ≠ some s) :
    Holds s make (steps ++ [r]) place := by
  intro x
  rw [exists_mem_concat, ← hplace x, or_iff_left]
  rintro ⟨h, heq, -⟩
  exact hr (slot?_eq_some_iff.2 ⟨h, heq⟩)

end Holds

/-! ### What a contract holds -/

/-- A contract holds exactly what registrations put in: the functions and the hooks, each made from
its own handler, and the last information. -/
structure Records (c : Contract κ) (name : String) (steps : List (Registration κ)) : Prop where
  name : c.name = name
  function : ∀ n, Holds (.function n) (Function.ofHandler n) steps (c.functions.get? n)
  hook : ∀ kind, Holds (.hook kind) (Hook.ofHandler kind) steps (c.hook? kind)
  info : c.info = (steps.filterMap Registration.info?).getLast?
  isDefault : c.isDefault = true ↔ .makeDefault ∈ steps
  sound : ∀ r ∈ steps, r.Sound
  nodup : (slots steps).Nodup

theorem records_empty (name : String) : (empty name : Contract κ).Records name [] where
  name := rfl
  function _ := holds_nil
  hook kind := by cases kind <;> exact holds_nil
  info := rfl
  isDefault := by simp [empty]
  sound := List.forall_mem_nil _
  nodup := List.nodup_nil

namespace Records

/-- Every handler that was registered as a function made one. -/
theorem exists_function (hc : c.Records name steps) {n : String} {h : Handler κ}
    (hmem : .function n h ∈ steps) : ∃ f, Function.ofHandler n h = .ok f := by
  rcases hc.sound _ hmem with ⟨-, hf⟩
  exact ⟨_, hf⟩

/-- Every handler that was registered as a hook made one. -/
theorem exists_hook (hc : c.Records name steps) {kind : HookKind} {h : Handler κ}
    (hmem : .hook kind h ∈ steps) : ∃ hook, Hook.ofHandler kind h = .ok hook := by
  rcases hc.sound _ hmem with _ | hhook
  exact ⟨_, hhook⟩

theorem get?_eq_none_iff (hc : c.Records name steps) {n : String} :
    c.functions.get? n = none ↔ .function n ∉ slots steps :=
  (hc.function n).eq_none_iff fun _ ↦ hc.exists_function

theorem hook?_eq_none_iff (hc : c.Records name steps) {kind : HookKind} :
    c.hook? kind = none ↔ .hook kind ∉ slots steps :=
  (hc.hook kind).eq_none_iff fun _ ↦ hc.exists_hook

theorem function_concat (hc : c.Records name steps) (h : c.Takes r c') (n : String) :
    Holds (.function n) (Function.ofHandler n) (steps ++ [r]) (c'.functions.get? n) := by
  have hplace := hc.function n
  rcases h with @⟨n', handler, f, -, hfree, hf⟩ | _ | _ | _
  · show Holds _ _ _ ((c.functions.insert n' f).get? n)
    rw [KeyMap.get?_insert]
    by_cases hname : n' = n
    · subst hname
      rw [hfree] at hplace
      rw [if_pos rfl]
      exact hplace.concat_registration hf
    · rw [if_neg hname]
      refine hplace.concat_of_ne ?_
      rintro ⟨⟩
      exact hname rfl
  · rw [functions_setHook]
    exact hplace.concat_of_ne fun h ↦ by cases h
  · exact hplace.concat_of_ne fun h ↦ by cases h
  · exact hplace.concat_of_ne fun h ↦ by cases h

theorem hook_concat (hc : c.Records name steps) (h : c.Takes r c') (kind : HookKind) :
    Holds (.hook kind) (Hook.ofHandler kind) (steps ++ [r]) (c'.hook? kind) := by
  have hplace := hc.hook kind
  rcases h with _ | @⟨kind', handler, hook, hfree, hhook⟩ | _ | _
  case hook =>
    rw [hook?_setHook]
    by_cases hkind : kind' = kind
    · subst hkind
      rw [hfree] at hplace
      rw [if_pos rfl]
      exact hplace.concat_registration hhook
    · rw [if_neg hkind]
      refine hplace.concat_of_ne ?_
      rintro ⟨⟩
      exact hkind rfl
  all_goals
    cases kind <;> exact hplace.concat_of_ne fun h ↦ by cases h

theorem nodup_concat (hc : c.Records name steps) (h : c.Takes r c') :
    (slots (steps ++ [r])).Nodup := by
  have hconcat : ∀ s, s ∉ slots steps → (slots steps ++ [s]).Nodup := fun s hs ↦
    List.concat_eq_append ▸ hc.nodup.concat hs
  rw [slots_append]
  rcases h with ⟨-, hfree, -⟩ | ⟨hfree, -⟩ | i | _
  · exact hconcat _ (hc.get?_eq_none_iff.1 hfree)
  · exact hconcat _ (hc.hook?_eq_none_iff.1 hfree)
  · exact (List.append_nil _).symm ▸ hc.nodup
  · exact (List.append_nil _).symm ▸ hc.nodup

/-- **A registration that is taken is recorded.** -/
theorem register (hc : c.Records name steps) (h : c.Takes r c') :
    c'.Records name (steps ++ [r]) where
  name := by
    rw [← hc.name]
    rcases h with _ | _ | _ | _
    case hook => exact name_setHook _ _
    all_goals rfl
  function := hc.function_concat h
  hook := hc.hook_concat h
  info := by
    rw [List.filterMap_append]
    rcases h with _ | _ | i | _
    · simp [Registration.info?, hc.info]
    · simp [Registration.info?, hc.info, info_setHook]
    · simp [Registration.info?]
    · simp [Registration.info?, hc.info]
  isDefault := by
    rw [List.mem_append, ← hc.isDefault]
    rcases h with _ | _ | i | _
    · simp
    · simp [isDefault_setHook]
    · simp
    · simp
  sound := List.forall_mem_append.2 ⟨hc.sound, List.forall_mem_singleton.2 h.sound⟩
  nodup := hc.nodup_concat h

/-- **What was registered is what the contract holds.** -/
theorem registerAll (hc : c.Records name before) (h : c.registerAll steps = .ok c') :
    c'.Records name (before ++ steps) := by
  induction steps generalizing c before with
  | nil =>
    cases h
    exact (List.append_nil before).symm ▸ hc
  | cons r rest ih =>
    rw [Contract.registerAll] at h
    split at h
    · cases h
    · next middle hr =>
      rw [← List.singleton_append, ← List.append_assoc]
      exact ih (hc.register (register_eq_ok_iff.1 hr)) h

end Records

theorem records_of_build (h : build name steps = .ok c) :
    c.Records name steps ∧ Text.isBlank name = false := by
  unfold build at h
  split at h
  · cases h
  · next c₁ hc₁ =>
    have hrecords : c₁.Records name steps := (records_empty name).registerAll hc₁
    split at h
    · cases h
    · next hblank =>
      cases h
      exact ⟨hrecords, hrecords.name ▸ Bool.eq_false_iff.2 hblank⟩

end Contract

end ContractHost
