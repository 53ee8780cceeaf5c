import ContractHost.Proofs.Types.Validity

/-!
# Types that are allowed in addition

A caller may allow further types, whatever they are: besides names also records, options and even
collections. What this does to a check is said by one equivalence (`Ty.validate_eq_ok_iff_valid`):

```
validate allowed t = .ok ()   ↔   Valid (admitted allowed) t
```

Of the types that are allowed, arrays, lists and maps are left out (`Ty.admitted`). They are judged
by what they hold before anybody looks whether they are allowed, so that listing one has no effect.
All other types are accepted for being listed, and what is inside them is not looked at.

So the rules for collections are the same with and without an allow-list, and what is accepted stays
accepted when the list grows (`Ty.validate_allowed`). The rule for maps is easily forgotten: a map
that is listed, but not keyed by strings, is refused (`Ty.validate_listed_map`).

In contrast to `Ty.validate_outcome`, nothing is asked of the types that are allowed. The report of
an error is left out: it shows the whole allow-list, so it is a different one in a larger list.
-/

namespace ContractHost

namespace Ty

variable {allowed larger : List Ty} {t : Ty}

/-! ### What listing a type does -/

/-- The types that are judged by what they hold: arrays, lists and maps. -/
def isCollection : Ty → Bool
  | .array .. | .list _ | .map .. => true
  | _ => false

/-- The types of an allow-list that are accepted for being listed. -/
def admitted (allowed : List Ty) : List Ty :=
  allowed.filter fun t ↦ !t.isCollection

theorem mem_admitted : t ∈ admitted allowed ↔ t ∈ allowed ∧ t.isCollection = false := by
  rw [admitted, List.mem_filter, Bool.not_eq_true']

theorem admitted_subset (h : allowed ⊆ larger) : admitted allowed ⊆ admitted larger := by
  intro t ht
  rw [mem_admitted] at ht ⊢
  exact ht.imp_left (@h t)

/-- Where more types are allowed, more descriptions are valid. -/
theorem Valid.mono (h : allowed ⊆ larger) (hvalid : Valid allowed t) : Valid larger t := by
  induction hvalid with
  | scalar s => exact .scalar s
  | any => exact .any
  | allowed hmem => exact .allowed (h hmem)
  | array hn _ ih => exact .array hn ih
  | list _ ih => exact .list ih
  | map _ ih => exact .map ih
  | record _ ih => exact .record ih
  | optional _ ih => exact .optional ih

/-! ### Collections among valid descriptions -/

/-- A collection is not valid for being listed. -/
theorem not_mem_admitted (h : t.isCollection = true) : t ∉ admitted allowed := by
  intro hmem
  rw [(mem_admitted.1 hmem).2] at h
  exact Bool.false_ne_true h

theorem valid_array_iff {elem : Ty} {n : Nat} :
    Valid (admitted allowed) (.array elem n) ↔ 0 < n ∧ Valid (admitted allowed) elem := by
  refine ⟨fun h ↦ ?_, fun h ↦ .array h.1 h.2⟩
  rcases h with _ | _ | hmem | ⟨hn, helem⟩
  · exact absurd hmem (not_mem_admitted rfl)
  · exact ⟨hn, helem⟩

theorem valid_list_iff {elem : Ty} :
    Valid (admitted allowed) (.list elem) ↔ Valid (admitted allowed) elem := by
  refine ⟨fun h ↦ ?_, .list⟩
  rcases h with _ | _ | hmem | _ | helem
  · exact absurd hmem (not_mem_admitted rfl)
  · exact helem

theorem valid_map_iff {flavor : MapFlavor} {key value : Ty} :
    Valid (admitted allowed) (.map flavor key value) ↔
      key = .scalar .string ∧ Valid (admitted allowed) value := by
  constructor
  · intro h
    rcases h with _ | _ | hmem | _ | _ | hvalue
    · exact absurd hmem (not_mem_admitted rfl)
    · exact ⟨rfl, hvalue⟩
  · rintro ⟨rfl, hvalue⟩
    exact .map hvalue

/-! ### What is accepted -/

/-- The fields of a record are accepted if each of them is. -/
theorem validateFields_eq_ok_iff {fields : List (String × Ty)} :
    validateFields allowed fields = .ok () ↔ ∀ f ∈ fields, f.2.validate allowed = .ok () := by
  induction fields with
  | nil => exact iff_of_true rfl fun _ h ↦ absurd h List.not_mem_nil
  | cons f rest ih =>
    rw [validateFields, List.forall_mem_cons, ← ih]
    rcases f.2.validate allowed with _ | _ <;> simp

/-- **A type that is listed is accepted as it is**, if it is no collection. -/
theorem validate_of_mem (h : t ∈ allowed) (hcollection : t.isCollection = false) :
    t.validate allowed = .ok () := by
  rcases t with _ | _ | _ | _ | _ | _ | _ | inner | _
  case array | list | map => cases hcollection
  case scalar | any => rfl
  case error | named => exact if_pos h
  case record => rw [validate, if_pos h]
  case optional =>
    rcases hrecord : inner.isRecord with _ | _
    · rw [validate_optional hrecord, if_pos h]
    · obtain ⟨name, fields, rfl⟩ := exists_eq_of_isRecord hrecord
      rw [validate, if_pos h]

/-- What is valid is accepted. -/
theorem validate_of_valid (h : Valid (admitted allowed) t) : t.validate allowed = .ok () := by
  induction h with
  | scalar _ | any => rfl
  | allowed hmem => exact validate_of_mem (mem_admitted.1 hmem).1 (mem_admitted.1 hmem).2
  | array hn _ ih => rw [validate, if_neg (Nat.ne_of_gt hn), ih]
  | list _ ih => rw [validate, ih]
  | map _ ih => rw [validate, if_pos rfl, ih]
  | record _ ih => rw [validate, validateFields_eq_ok_iff.2 ih, ite_self]
  | optional _ ih => rw [validate, ih, ite_self]

/-- What is accepted is valid. -/
theorem valid_of_validate (h : t.validate allowed = .ok ()) : Valid (admitted allowed) t := by
  induction t using Ty.induction with
  | scalar s => exact .scalar s
  | any => exact .any
  | error =>
    have hvalidate : Ty.error.validate allowed =
        if .error ∈ allowed then .ok () else .error (.invalid .error allowed) := rfl
    rw [hvalidate] at h
    split at h
    · next hmem => exact .allowed (mem_admitted.2 ⟨hmem, rfl⟩)
    · cases h
  | array elem n ih =>
    rw [validate] at h
    split at h
    · cases h
    · next hn => exact .array (Nat.pos_of_ne_zero hn) (ih h)
  | list elem ih =>
    rw [validate] at h
    exact .list (ih h)
  | map flavor key value ih =>
    rw [validate] at h
    split at h
    · next hkey => exact hkey ▸ .map (ih h)
    · cases h
  | record name fields ih =>
    rw [validate] at h
    split at h
    · next hmem => exact .allowed (mem_admitted.2 ⟨hmem, rfl⟩)
    · exact .record fun f hf ↦ ih f hf (validateFields_eq_ok_iff.1 h f hf)
  | optional inner ih =>
    by_cases hmem : .optional inner ∈ allowed
    · exact .allowed (mem_admitted.2 ⟨hmem, rfl⟩)
    · rcases hrecord : inner.isRecord with _ | _
      · rw [validate_optional hrecord, if_neg hmem] at h
        cases h
      · obtain ⟨name, fields, rfl⟩ := exists_eq_of_isRecord hrecord
        rw [validate, if_neg hmem] at h
        exact .optional (ih h)
  | named name =>
    have hvalidate : (Ty.named name).validate allowed =
        if .named name ∈ allowed then .ok () else .error (.invalid (.named name) allowed) := rfl
    rw [hvalidate] at h
    split at h
    · next hmem => exact .allowed (mem_admitted.2 ⟨hmem, rfl⟩)
    · cases h

/-- **What is accepted where some types are allowed in addition**, for every allow-list. -/
theorem validate_eq_ok_iff_valid : t.validate allowed = .ok () ↔ Valid (admitted allowed) t :=
  ⟨valid_of_validate, validate_of_valid⟩

/-- **What an allow-list does.** What is accepted are the valid descriptions, where collections
count as not listed. So a type that is listed is accepted whatever is inside it, if it is no
collection. An array is accepted exactly if it has elements and they are accepted, a list exactly if
its elements are, and a map exactly if it is keyed by strings and its values are, listed or not. In
a larger list all that is accepted stays accepted. -/
theorem validate_allowed (allowed : List Ty) :
    (∀ t : Ty, t.validate allowed = .ok () ↔ Valid (admitted allowed) t) ∧
    (∀ t ∈ allowed, t.isCollection = false → t.validate allowed = .ok ()) ∧
    (∀ elem n, (array elem n).validate allowed = .ok () ↔
      0 < n ∧ elem.validate allowed = .ok ()) ∧
    (∀ elem, (list elem).validate allowed = .ok () ↔ elem.validate allowed = .ok ()) ∧
    (∀ flavor key value, (map flavor key value).validate allowed = .ok () ↔
      key = .scalar .string ∧ value.validate allowed = .ok ()) ∧
    ∀ larger, allowed ⊆ larger →
      ∀ t : Ty, t.validate allowed = .ok () → t.validate larger = .ok () := by
  refine ⟨fun _ ↦ validate_eq_ok_iff_valid, fun _ ↦ validate_of_mem, fun _ _ ↦ ?_, fun _ ↦ ?_,
    fun _ _ _ ↦ ?_, fun larger hsubset t hvalid ↦ ?_⟩
  · rw [validate_eq_ok_iff_valid, validate_eq_ok_iff_valid, valid_array_iff]
  · rw [validate_eq_ok_iff_valid, validate_eq_ok_iff_valid, valid_list_iff]
  · rw [validate_eq_ok_iff_valid, validate_eq_ok_iff_valid, valid_map_iff]
  · rw [validate_eq_ok_iff_valid] at hvalid ⊢
    exact hvalid.mono (admitted_subset hsubset)

/-- A parcel, whose weight has a type that no signature may use. -/
def parcel : Ty :=
  .record "Parcel" [("weight", .named "i128")]

/-- The parcel is accepted because it is listed, and so are lists of it. A list of weights is not,
although it is listed. -/
theorem validate_allowed_parcel :
    parcel.validate [parcel, .list (.named "i128")] = .ok () ∧
      (list parcel).validate [parcel, .list (.named "i128")] = .ok () ∧
      (list (.named "i128")).validate [parcel, .list (.named "i128")] ≠ .ok () := by
  obtain ⟨-, hlisted, -, -, -, hmono⟩ := validate_allowed [parcel]
  obtain ⟨-, -, -, hlist, -⟩ := validate_allowed [parcel, .list (.named "i128")]
  have hparcel : parcel.validate [parcel, .list (.named "i128")] = .ok () :=
    hmono _ (by simp) _ (hlisted parcel List.mem_cons_self rfl)
  refine ⟨hparcel, (hlist parcel).2 hparcel, fun h ↦ ?_⟩
  exact absurd ((hlist _).1 h) (by decide)

/-- **A map that is listed is refused** where it is not keyed by strings, although it is neither an
array nor a list. -/
theorem validate_listed_map :
    map .hashed (.scalar (.integer .i32)) .any ∈ [map .hashed (.scalar (.integer .i32)) .any] ∧
      (∀ elem n, map .hashed (.scalar (.integer .i32)) .any ≠ .array elem n) ∧
      (∀ elem, map .hashed (.scalar (.integer .i32)) .any ≠ .list elem) ∧
      (map .hashed (.scalar (.integer .i32)) .any).validate
        [map .hashed (.scalar (.integer .i32)) .any] =
          .error (.mapKey (.scalar (.integer .i32))) :=
  ⟨List.mem_cons_self, fun _ _ ↦ nofun, fun _ ↦ nofun, rfl⟩

end Ty

end ContractHost
