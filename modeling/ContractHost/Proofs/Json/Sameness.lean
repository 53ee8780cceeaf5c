import ContractHost.Proofs.Json.RoundTrip
import ContractHost.Proofs.Number.Nearest
import Mathlib.Data.List.Perm.Subperm

/-!
# Sameness of documents

Two documents are compared by going through both, with the fields of objects looked up by their
names (`Json.same`). What this decides is said here of the documents alone.

Documents are **equal up to the order of fields** (`Json.Reordered`) if they differ in nothing else,
at any depth. That order is no part of sameness, whether or not names repeat
(`Json.Reordered.same_eq`).

Documents are **alike** (`Json.Alike`) if, beyond that, zeros differ in sign: numbers are compared by
their values, and a zero has one value whatever its sign. In a well-formed document every number is
in normal form, so that numbers of one value are equal or zeros, and no object names a field twice.
**Well-formed documents are the same exactly if they are alike** (`Json.same_iff_alike`).
-/

namespace ContractHost

namespace Json

/-! ### Equality up to the order of fields -/

/-- Equality up to the order of fields, at any depth: lists agree at each index, objects have the
same names in any order and agree under each name. -/
inductive Reordered : Json → Json → Prop
  | refl (j : Json) : Reordered j j
  | list {items items' : List Json} (hlength : items.length = items'.length)
      (h : ∀ (i : ℕ) (hi : i < items.length) (hi' : i < items'.length),
        Reordered items[i] items'[i]) : Reordered (.list items) (.list items')
  | object {fields fields' : List (String × Json)}
      (hnames : (fields.map Prod.fst).Perm (fields'.map Prod.fst))
      (h : ∀ name v v', (name, v) ∈ fields → (name, v') ∈ fields' → Reordered v v') :
      Reordered (.object fields) (.object fields')

variable {j j' : Json} {fields fields' : List (String × Json)}

/-- An object whose fields are put into another order. -/
theorem Reordered.of_perm (hnodup : (fields.map Prod.fst).Nodup) (h : fields.Perm fields') :
    Reordered (.object fields) (.object fields') := by
  refine .object (h.map _) fun name v v' hv hv' ↦ ?_
  have heq := List.inj_on_of_nodup_map hnodup hv (h.mem_iff.2 hv') rfl
  rw [(Prod.mk.inj heq).2]
  exact .refl v'

/-- A name that both objects have or neither, with values that are related where they are. -/
theorem field?_of_names {R : Json → Json → Prop}
    (hnames : (fields.map Prod.fst).Perm (fields'.map Prod.fst))
    (h : ∀ name v v', (name, v) ∈ fields → (name, v') ∈ fields' → R v v') (name : String) :
    (field? name fields = none ∧ field? name fields' = none) ∨
      ∃ v v', field? name fields = some v ∧ field? name fields' = some v' ∧ R v v' := by
  have hboth : (∃ v, field? name fields = some v) ↔ ∃ v, field? name fields' = some v := by
    rw [exists_field?_iff, exists_field?_iff]
    exact hnames.mem_iff
  cases hv : field? name fields with
  | none =>
    refine .inl ⟨rfl, Option.eq_none_iff_forall_ne_some.2 fun v' hv' ↦ ?_⟩
    obtain ⟨v, hsome⟩ := hboth.2 ⟨v', hv'⟩
    cases hv.symm.trans hsome
  | some v =>
    obtain ⟨v', hv'⟩ := hboth.1 ⟨v, hv⟩
    exact .inr ⟨v, v', rfl, hv', h name v v' (mem_of_field? hv) (mem_of_field? hv')⟩

/-! ### Sameness -/

theorem sameItems_congr {items items' : List Json} (hlength : items.length = items'.length)
    (h : ∀ (i : ℕ) (hi : i < items.length) (hi' : i < items'.length) (o : Json),
      o.same items[i] = o.same items'[i]) (os : List Json) :
    sameItems os items = sameItems os items' := by
  induction os generalizing items items' with
  | nil => cases items <;> cases items' <;> first | rfl | cases hlength
  | cons o os ih =>
    cases items with
    | nil =>
      obtain rfl : items' = [] := List.eq_nil_of_length_eq_zero hlength.symm
      rfl
    | cons v items =>
      obtain ⟨v', items', rfl⟩ := List.exists_cons_of_length_eq_add_one hlength.symm
      have hhead : o.same v = o.same v' := h 0 (Nat.zero_lt_succ _) (Nat.zero_lt_succ _) o
      have htail := ih (Nat.succ.inj hlength) fun i hi hi' o ↦
        h (i + 1) (Nat.succ_lt_succ hi) (Nat.succ_lt_succ hi') o
      rw [sameItems, sameItems, hhead, htail]

theorem fieldsIn_congr (hnames : (fields.map Prod.fst).Perm (fields'.map Prod.fst))
    (h : ∀ name v v', (name, v) ∈ fields → (name, v') ∈ fields' → ∀ o : Json,
      o.same v = o.same v') (os : List (String × Json)) :
    fieldsIn os fields = fieldsIn os fields' := by
  induction os with
  | nil => rfl
  | cons f rest ih =>
    obtain ⟨name, o⟩ := f
    rw [fieldsIn, fieldsIn, ih]
    rcases field?_of_names hnames h name with ⟨hnone, hnone'⟩ | ⟨v, v', hv, hv', hsame⟩
    · rw [hnone, hnone']
    · simp only [hv, hv', hsame o]

/-- **The order of fields is no part of sameness.** -/
theorem Reordered.same_eq (h : Reordered j j') : ∀ o : Json, o.same j = o.same j' := by
  induction h with
  | refl => exact fun _ ↦ rfl
  | list hlength _ ih =>
    intro o
    cases o with
    | list os => exact sameItems_congr hlength ih os
    | _ => rfl
  | @object fields fields' hnames _ ih =>
    intro o
    cases o with
    | object os =>
      have hlength : fields.length = fields'.length := by
        rw [← List.length_map (f := Prod.fst), hnames.length_eq, List.length_map]
      rw [same, same, hlength, fieldsIn_congr hnames ih]
    | _ => rfl

/-! ### Documents that are the same -/

/-- Equality up to the order of fields and the sign of zeros, at any depth. -/
inductive Alike : Json → Json → Prop
  | refl (j : Json) : Alike j j
  | zero {x : BinaryNumber} (hx : x.significand = 0) (negative : Bool) :
      Alike (.float x) (.float { x with negative := negative })
  | list {items items' : List Json} (hlength : items.length = items'.length)
      (h : ∀ (i : ℕ) (hi : i < items.length) (hi' : i < items'.length),
        Alike items[i] items'[i]) : Alike (.list items) (.list items')
  | object {fields fields' : List (String × Json)}
      (hnames : (fields.map Prod.fst).Perm (fields'.map Prod.fst))
      (h : ∀ name v v', (name, v) ∈ fields → (name, v') ∈ fields' → Alike v v') :
      Alike (.object fields) (.object fields')

/-- Lists are the same item by item. -/
theorem sameItems_iff {items items' : List Json} : sameItems items items' = true ↔
    items.length = items'.length ∧ ∀ (i : ℕ) (hi : i < items.length) (hi' : i < items'.length),
      items[i].same items'[i] = true := by
  induction items generalizing items' with
  | nil =>
    cases items' with
    | nil => exact iff_of_true rfl ⟨rfl, fun _ hi ↦ absurd hi (Nat.not_lt_zero _)⟩
    | cons _ _ => exact iff_of_false Bool.false_ne_true fun h ↦ by cases h.1
  | cons v rest ih =>
    cases items' with
    | nil => exact iff_of_false Bool.false_ne_true fun h ↦ by cases h.1
    | cons v' rest' =>
      rw [sameItems, Bool.and_eq_true, ih]
      constructor
      · rintro ⟨hhead, hlength, hrest⟩
        refine ⟨congrArg Nat.succ hlength, fun i hi hi' ↦ ?_⟩
        cases i with
        | zero => exact hhead
        | succ i => exact hrest i (Nat.lt_of_succ_lt_succ hi) (Nat.lt_of_succ_lt_succ hi')
      · rintro ⟨hlength, hall⟩
        exact ⟨hall 0 (Nat.zero_lt_succ _) (Nat.zero_lt_succ _), Nat.succ.inj hlength,
          fun i hi hi' ↦ hall (i + 1) (Nat.succ_lt_succ hi) (Nat.succ_lt_succ hi')⟩

/-- Every field on the left is the same as that of its name on the right. -/
theorem fieldsIn_iff : fieldsIn fields fields' = true ↔
    ∀ name v, (name, v) ∈ fields → ∃ w, field? name fields' = some w ∧ v.same w = true := by
  induction fields with
  | nil => exact iff_of_true rfl fun _ _ h ↦ absurd h List.not_mem_nil
  | cons f rest ih =>
    obtain ⟨k, v⟩ := f
    have hall : (∀ name u, (name, u) ∈ (k, v) :: rest →
          ∃ w, field? name fields' = some w ∧ u.same w = true) ↔
        (∃ w, field? k fields' = some w ∧ v.same w = true) ∧
          ∀ name u, (name, u) ∈ rest → ∃ w, field? name fields' = some w ∧ u.same w = true := by
      simp only [List.mem_cons, Prod.mk.injEq, or_imp, forall_and, and_imp, forall_eq_apply_imp_iff,
        forall_eq]
    rw [fieldsIn, Bool.and_eq_true, ih, hall]
    refine and_congr_left fun _ ↦ ?_
    cases field? k fields' <;> simp

/-- **A well-formed document is the same as itself.** -/
theorem same_self (hj : j.WellFormed) : j.same j = true := by
  induction j using induction_on_parts with
  | null => rfl
  | bool b => exact beq_self_eq_true b
  | int n => exact beq_self_eq_true n
  | float x => exact (BinaryNumber.same_iff x x).2 rfl
  | string s => exact beq_self_eq_true s
  | list items ih =>
    rw [WellFormed, wellFormedItems_iff] at hj
    rw [same, sameItems_iff]
    refine ⟨rfl, fun i hi _ ↦ ?_⟩
    have hmem := List.getElem_mem hi
    exact ih _ hmem (hj _ hmem)
  | object fields ih =>
    rw [WellFormed, wellFormedFields_iff] at hj
    rw [same, beq_self_eq_true, Bool.true_and, fieldsIn_iff]
    exact fun name v hv ↦ ⟨v, field?_of_mem hj.1 hv, ih _ hv (hj.2 _ hv)⟩

/-- Well-formed documents that are alike are the same. -/
theorem Alike.same (h : Alike j j') (hj : j.WellFormed) (hj' : j'.WellFormed) :
    j.same j' = true := by
  induction h with
  | refl => exact same_self hj
  | @zero x hx negative =>
    refine (BinaryNumber.same_iff _ _).2 ?_
    have hzero : ∀ b, (BinaryNumber.mk b x.significand x.exponent).magnitude = 0 := fun b ↦ by
      rw [BinaryNumber.magnitude, hx, Nat.cast_zero, zero_mul]
    rw [BinaryNumber.value_eq, BinaryNumber.value_eq, hzero, hzero]
    simp
  | @list items items' hlength _ ih =>
    rw [WellFormed, wellFormedItems_iff] at hj hj'
    rw [Json.same, sameItems_iff]
    exact ⟨hlength, fun i hi hi' ↦
      ih i hi hi' (hj _ (List.getElem_mem hi)) (hj' _ (List.getElem_mem hi'))⟩
  | @object fields fields' hnames _ ih =>
    rw [WellFormed, wellFormedFields_iff] at hj hj'
    have hlength : fields.length = fields'.length := by
      rw [← List.length_map (f := Prod.fst), hnames.length_eq, List.length_map]
    rw [Json.same, hlength, beq_self_eq_true, Bool.true_and, fieldsIn_iff]
    intro name v hv
    obtain ⟨w, hw⟩ := exists_field?_iff.2 (hnames.mem_iff.1 (List.mem_map_of_mem hv))
    have hmem := mem_of_field? hw
    exact ⟨w, hw, ih name v w hv hmem (hj.2 _ hv) (hj'.2 _ hmem)⟩

/-- Well-formed documents that are the same are alike. -/
theorem alike_of_same (hj : j.WellFormed) (hj' : j'.WellFormed) (hsame : j.same j' = true) :
    Alike j j' := by
  induction j using induction_on_parts generalizing j' with
  | null => cases j' <;> first | exact .refl _ | cases hsame
  | bool b =>
    cases j' <;> simp [same] at hsame
    exact hsame ▸ .refl _
  | int n =>
    cases j' <;> simp [same] at hsame
    exact hsame ▸ .refl _
  | string s =>
    cases j' <;> simp [same] at hsame
    exact hsame ▸ .refl _
  | float x =>
    cases j' <;> simp only [same, Bool.false_eq_true] at hsame
    next y =>
    have hvalue := (BinaryNumber.same_iff x y).1 hsame
    rcases BinaryFormat.eq_or_zero_of_value (by decide) hj hj' hvalue with rfl | ⟨hzero, hy⟩
    · exact .refl _
    · rw [hy]
      exact .zero hzero _
  | list items ih =>
    cases j' <;> simp only [same, Bool.false_eq_true] at hsame
    next items' =>
    rw [WellFormed, wellFormedItems_iff] at hj hj'
    obtain ⟨hlength, hall⟩ := sameItems_iff.1 hsame
    refine .list hlength fun i hi hi' ↦ ?_
    have hmem := List.getElem_mem hi
    exact ih _ hmem (hj _ hmem) (hj' _ (List.getElem_mem hi')) (hall i hi hi')
  | object fields ih =>
    cases j' <;> simp only [same, Bool.false_eq_true, Bool.and_eq_true, beq_iff_eq] at hsame
    next fields' =>
    rw [WellFormed, wellFormedFields_iff] at hj hj'
    have hall := fieldsIn_iff.1 hsame.2
    -- No name repeats on the left, so names that are all on the right, and not fewer, are the same.
    have hsub : fields.map Prod.fst ⊆ fields'.map Prod.fst := by
      intro name hname
      obtain ⟨⟨_, v⟩, hv, rfl⟩ := List.mem_map.1 hname
      obtain ⟨w, hw, -⟩ := hall _ v hv
      exact exists_field?_iff.1 ⟨w, hw⟩
    have hnames := (List.subperm_of_subset hj.1 hsub).perm_of_length_le (by simp [hsame.1])
    refine .object hnames fun name v v' hv hv' ↦ ?_
    obtain ⟨w, hw, hvw⟩ := hall name v hv
    obtain rfl : w = v' := Option.some.inj (hw.symm.trans (field?_of_mem hj'.1 hv'))
    exact ih _ hv (hj.2 _ hv) (hj'.2 _ hv') hvw

/-- **Sameness is equality up to the order of fields and the sign of zeros.** -/
theorem same_iff_alike (hj : j.WellFormed) (hj' : j'.WellFormed) :
    j.same j' = true ↔ j.Alike j' :=
  ⟨alike_of_same hj hj', fun h ↦ h.same hj hj'⟩

end Json

end ContractHost
