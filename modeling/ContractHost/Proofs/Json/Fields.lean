import ContractHost.Json.Reader
import Mathlib.Data.List.Forall2
import Mathlib.Data.List.Induction
import Mathlib.Data.List.Nodup

/-!
# Fields whose names repeat

`Json.collect` is what becomes of the fields of an object as they are written: a name that repeats
keeps its first place and takes its last value. It loses no name (`mem_names_collect`), makes up no
field (`mem_of_mem_collect`), leaves no name twice (`nodup_collect`), changes nothing where none
repeats (`collect_eq_self`), and does the same to two lists that agree in their names
(`forall₂_collect`).
-/

namespace ContractHost

namespace Json

variable {fields : List (String × Json)} {name : String}

theorem collect_append (fields : List (String × Json)) (k : String) (v : Json) :
    collect (fields ++ [(k, v)]) = setField k v (collect fields) := by
  rw [collect, List.foldl_append]
  rfl

theorem names_setField (k : String) (v : Json) (fields : List (String × Json)) :
    (setField k v fields).map Prod.fst =
      if k ∈ fields.map Prod.fst then fields.map Prod.fst else fields.map Prod.fst ++ [k] := by
  induction fields with
  | nil => rfl
  | cons f rest ih =>
    obtain ⟨k', v'⟩ := f
    by_cases hk : k' = k
    · subst hk
      rw [setField, if_pos rfl, if_pos (by simp)]
      rfl
    · have hmem : k ∈ ((k', v') :: rest).map Prod.fst ↔ k ∈ rest.map Prod.fst := by
        rw [List.map_cons, List.mem_cons]
        exact ⟨fun h ↦ h.resolve_left (Ne.symm hk), .inr⟩
      rw [setField, if_neg hk, List.map_cons, ih]
      by_cases hrest : k ∈ rest.map Prod.fst
      · rw [if_pos hrest, if_pos (hmem.2 hrest)]
        rfl
      · rw [if_neg hrest, if_neg fun h ↦ hrest (hmem.1 h)]
        rfl

/-- **Collecting loses no name.** -/
theorem mem_names_collect : name ∈ (collect fields).map Prod.fst ↔ name ∈ fields.map Prod.fst := by
  induction fields using List.reverseRecOn with
  | nil => exact Iff.rfl
  | append_singleton rest f ih =>
    obtain ⟨k, v⟩ := f
    rw [collect_append, names_setField, List.map_append, List.mem_append, ← ih]
    split
    · next hk =>
      refine ⟨.inl, fun h ↦ h.elim id fun h ↦ ?_⟩
      rw [List.mem_singleton.1 h]
      exact hk
    · exact List.mem_append

/-- **Collecting leaves no name twice.** -/
theorem nodup_collect (fields : List (String × Json)) : ((collect fields).map Prod.fst).Nodup := by
  induction fields using List.reverseRecOn with
  | nil => exact List.nodup_nil
  | append_singleton rest f ih =>
    obtain ⟨k, v⟩ := f
    rw [collect_append, names_setField]
    split
    · exact ih
    · next hk =>
      refine List.nodup_append.2 ⟨ih, List.pairwise_singleton _ _, fun a ha b hb heq ↦ hk ?_⟩
      rw [← List.mem_singleton.1 hb, ← heq]
      exact ha

theorem mem_of_mem_setField {k : String} {v : Json} {f : String × Json}
    (h : f ∈ setField k v fields) : f = (k, v) ∨ f ∈ fields := by
  induction fields with
  | nil => exact .inl (List.mem_singleton.1 h)
  | cons g rest ih =>
    obtain ⟨k', v'⟩ := g
    rw [setField] at h
    split at h
    · next hk =>
      rw [hk] at h
      exact (List.mem_cons.1 h).imp id (.tail _)
    · rcases List.mem_cons.1 h with rfl | h
      · exact .inr List.mem_cons_self
      · exact (ih h).imp id (.tail _)

/-- **Collecting makes up no field.** -/
theorem mem_of_mem_collect {f : String × Json} (h : f ∈ collect fields) : f ∈ fields := by
  induction fields using List.reverseRecOn with
  | nil => cases h
  | append_singleton rest g ih =>
    obtain ⟨k, v⟩ := g
    rw [collect_append] at h
    rw [List.mem_append, List.mem_singleton]
    exact (mem_of_mem_setField h).symm.imp ih id

theorem setField_of_not_mem {k : String} (v : Json) (h : k ∉ fields.map Prod.fst) :
    setField k v fields = fields ++ [(k, v)] := by
  induction fields with
  | nil => rfl
  | cons f rest ih =>
    obtain ⟨k', v'⟩ := f
    rw [List.map_cons, List.mem_cons, not_or] at h
    rw [setField, if_neg (Ne.symm h.1), ih h.2, List.cons_append]

/-- **Where no name repeats, there is nothing to collect.** -/
theorem collect_eq_self (h : (fields.map Prod.fst).Nodup) : collect fields = fields := by
  induction fields using List.reverseRecOn with
  | nil => rfl
  | append_singleton rest f ih =>
    obtain ⟨k, v⟩ := f
    rw [List.map_append, List.map_singleton, List.nodup_append] at h
    rw [collect_append, ih h.1]
    exact setField_of_not_mem v fun hk ↦ h.2.2 k hk k List.mem_cons_self rfl

@[simp] theorem field?_append (name : String) (fields fields' : List (String × Json)) :
    field? name (fields ++ fields') = (field? name fields).or (field? name fields') := by
  induction fields with
  | nil => rfl
  | cons f rest ih =>
    obtain ⟨k, v⟩ := f
    rw [List.cons_append, field?, field?, ih]
    split <;> rfl

/-- A name has a value if it is among the names. -/
theorem exists_field?_iff : (∃ v, field? name fields = some v) ↔ name ∈ fields.map Prod.fst := by
  induction fields with
  | nil => simp [field?]
  | cons f rest ih =>
    obtain ⟨k, v⟩ := f
    rw [List.map_cons, List.mem_cons, ← ih, field?]
    by_cases hk : k = name
    · rw [if_pos hk]
      exact iff_of_true ⟨v, rfl⟩ (.inl hk.symm)
    · rw [if_neg hk]
      exact ⟨.inr, fun h ↦ h.resolve_left (Ne.symm hk)⟩

theorem mem_of_field? {v : Json} (h : field? name fields = some v) : (name, v) ∈ fields := by
  induction fields with
  | nil => cases h
  | cons f rest ih =>
    obtain ⟨k, w⟩ := f
    by_cases hk : k = name
    · rw [field?, if_pos hk] at h
      cases h
      exact hk ▸ List.mem_cons_self
    · rw [field?, if_neg hk] at h
      exact List.mem_cons_of_mem _ (ih h)

/-- Where no name repeats, a field is found by its name. -/
theorem field?_of_mem (hnodup : (fields.map Prod.fst).Nodup) {v : Json} (h : (name, v) ∈ fields) :
    field? name fields = some v := by
  obtain ⟨w, hw⟩ := exists_field?_iff.2 (List.mem_map_of_mem h)
  have heq := List.inj_on_of_nodup_map hnodup h (mem_of_field? hw) rfl
  rw [hw, (Prod.mk.inj heq).2]

/-! ### Two lists with the same names -/

/-- Two fields have one name, and their values are related. -/
def SameName (R : Json → Json → Prop) (f g : String × Json) : Prop :=
  f.1 = g.1 ∧ R f.2 g.2

variable {R : Json → Json → Prop} {fields' : List (String × Json)}

theorem forall₂_setField {k : String} {v w : Json} (hv : R v w)
    (h : List.Forall₂ (SameName R) fields fields') :
    List.Forall₂ (SameName R) (setField k v fields) (setField k w fields') := by
  induction h with
  | nil => exact .cons ⟨rfl, hv⟩ .nil
  | @cons f g rest rest' hfg hrest ih =>
    obtain ⟨name, x⟩ := f
    obtain ⟨_, y⟩ := g
    obtain ⟨rfl, hxy⟩ := hfg
    rw [setField, setField]
    split
    · exact .cons ⟨rfl, hv⟩ hrest
    · exact .cons ⟨rfl, hxy⟩ ih

/-- **Lists that agree in their names are collected alike.** -/
theorem forall₂_collect (h : List.Forall₂ (SameName R) fields fields') :
    List.Forall₂ (SameName R) (collect fields) (collect fields') := by
  have hfold : ∀ {acc acc' : List (String × Json)}, List.Forall₂ (SameName R) acc acc' →
      List.Forall₂ (SameName R) (fields.foldl (fun acc f ↦ setField f.1 f.2 acc) acc)
        (fields'.foldl (fun acc f ↦ setField f.1 f.2 acc) acc') := by
    induction h with
    | nil => exact fun hacc ↦ hacc
    | @cons f g _ _ hfg _ ih =>
      obtain ⟨name, x⟩ := f
      obtain ⟨_, y⟩ := g
      obtain ⟨rfl, hxy⟩ := hfg
      exact fun hacc ↦ ih (forall₂_setField hxy hacc)
  exact hfold .nil

theorem names_eq_of_forall₂ (h : List.Forall₂ (SameName R) fields fields') :
    fields.map Prod.fst = fields'.map Prod.fst := by
  induction h with
  | nil => rfl
  | cons hfg _ ih => rw [List.map_cons, List.map_cons, ih, hfg.1]

/-- Where no name repeats, the values of a name are related. -/
theorem related_of_forall₂ (h : List.Forall₂ (SameName R) fields fields')
    (hnodup : (fields'.map Prod.fst).Nodup) {v w : Json} (hv : field? name fields = some v)
    (hw : (name, w) ∈ fields') : R v w := by
  induction h with
  | nil => cases hw
  | @cons f g _ rest' hfg _ ih =>
    obtain ⟨k, x⟩ := f
    obtain ⟨_, y⟩ := g
    obtain ⟨rfl, hxy⟩ := hfg
    rw [List.map_cons, List.nodup_cons] at hnodup
    rw [field?] at hv
    rcases List.mem_cons.1 hw with heq | hw
    · cases heq
      rw [if_pos rfl] at hv
      cases hv
      exact hxy
    · have hne : k ≠ name := by
        rintro rfl
        exact hnodup.1 (List.mem_map.2 ⟨_, hw, rfl⟩)
      rw [if_neg hne] at hv
      exact ih hnodup.2 hv hw

end Json

end ContractHost
