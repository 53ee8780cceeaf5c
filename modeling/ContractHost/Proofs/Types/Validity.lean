import ContractHost.Types.Validity
import Mathlib.Data.List.Basic

/-!
# Valid descriptions and the first offence

`Ty.Valid` is the set of descriptions that a signature may use: the least one that holds the scalar
types, the dynamic type and the types that are allowed in addition, and is closed under arrays with
elements, lists, maps keyed by strings, records and optional records.

The checks of a description walk over its parts in the order in which they are written
(`Ty.parts`), each part before its own parts, and look at every part by itself. So both of them are
a search for the first error in that list (`Ty.firstError`):

```
validate allowed t    = firstError (offence? allowed) t.parts
checkArrayLengths t   = firstError emptiness? t.parts
```

The rest is about lists. **A description is accepted exactly if it is valid, and otherwise the first
part that offends is reported** (`Ty.validate_outcome`). And since an array without elements is an
offence wherever it stands, what is valid has none among its parts
(`Ty.checkArrayLengths_of_validate`).

The types that are allowed in addition are known by name only, as a context is (`Ty.NamedOnly`). A
record that is allowed would be accepted without a look at its fields.
-/

namespace ContractHost

namespace Ty

variable {allowed : List Ty} {check : Ty → Option TypeError} {ts us : List Ty} {t u : Ty}
  {e : TypeError}

/-! ### Valid descriptions -/

/-- The descriptions that a signature may use where some are allowed in addition. -/
inductive Valid (allowed : List Ty) : Ty → Prop
  | scalar (s : Scalar) : Valid allowed (.scalar s)
  | any : Valid allowed .any
  | allowed {t : Ty} (h : t ∈ allowed) : Valid allowed t
  | array {elem : Ty} {n : Nat} (hn : 0 < n) (h : Valid allowed elem) :
      Valid allowed (.array elem n)
  | list {elem : Ty} (h : Valid allowed elem) : Valid allowed (.list elem)
  | map {flavor : MapFlavor} {value : Ty} (h : Valid allowed value) :
      Valid allowed (.map flavor (.scalar .string) value)
  | record {name : String} {fields : List (String × Ty)}
      (h : ∀ f ∈ fields, Valid allowed f.2) : Valid allowed (.record name fields)
  | optional {name : String} {fields : List (String × Ty)}
      (h : Valid allowed (.record name fields)) : Valid allowed (.optional (.record name fields))

/-- All of these types are known by name only. -/
def NamedOnly (allowed : List Ty) : Prop :=
  ∀ t ∈ allowed, ∃ name, t = .named name

theorem namedOnly_nil : NamedOnly [] :=
  fun _ h ↦ absurd h List.not_mem_nil

theorem NamedOnly.record_not_mem (h : NamedOnly allowed) (name : String)
    (fields : List (String × Ty)) : .record name fields ∉ allowed := by
  intro hmem
  obtain ⟨_, ⟨⟩⟩ := h _ hmem

theorem NamedOnly.optional_not_mem (h : NamedOnly allowed) (inner : Ty) :
    .optional inner ∉ allowed := by
  intro hmem
  obtain ⟨_, ⟨⟩⟩ := h _ hmem

theorem NamedOnly.error_not_mem (h : NamedOnly allowed) : .error ∉ allowed := by
  intro hmem
  obtain ⟨_, ⟨⟩⟩ := h _ hmem

/-! ### Parts -/

mutual

/-- A description and all its parts in the order in which they are written, each before its own
parts. The key of a map is no part: it is judged with the map. -/
def parts : Ty → List Ty
  | .array elem n => .array elem n :: elem.parts
  | .list elem => .list elem :: elem.parts
  | .map flavor key value => .map flavor key value :: value.parts
  | .record name fields => .record name fields :: partsOfFields fields
  | .optional inner => .optional inner :: inner.parts
  | .scalar s => [.scalar s]
  | .any => [.any]
  | .error => [.error]
  | .named name => [.named name]

/-- The parts of the fields of a record, from left to right. -/
def partsOfFields : List (String × Ty) → List Ty
  | [] => []
  | (_, t) :: rest => t.parts ++ partsOfFields rest

end

theorem mem_partsOfFields {fields : List (String × Ty)} :
    u ∈ partsOfFields fields ↔ ∃ f ∈ fields, u ∈ f.2.parts := by
  induction fields with
  | nil => simp [partsOfFields]
  | cons f rest ih => simp [partsOfFields, ih]

/-- Induction over a description. The fields of a record come with their membership. -/
theorem induction {P : Ty → Prop} (scalar : ∀ s, P (.scalar s)) (any : P .any) (error : P .error)
    (array : ∀ elem n, P elem → P (.array elem n)) (list : ∀ elem, P elem → P (.list elem))
    (map : ∀ flavor key value, P value → P (.map flavor key value))
    (record : ∀ name fields, (∀ f ∈ fields, P f.2) → P (.record name fields))
    (optional : ∀ inner, P inner → P (.optional inner)) (named : ∀ name, P (.named name)) (t : Ty) :
    P t :=
  @Ty.rec P (fun fields ↦ ∀ f ∈ fields, P f.2) (fun f ↦ P f.2) scalar any error array list
    (fun flavor key value _ hvalue ↦ map flavor key value hvalue) record optional named
    (fun _ hf ↦ absurd hf List.not_mem_nil)
    (fun _ _ hhead htail ↦ List.forall_mem_cons.2 ⟨hhead, htail⟩) (fun _ _ ht ↦ ht) t

/-- A description is a part of itself. -/
theorem mem_parts_self (t : Ty) : t ∈ t.parts := by
  rcases t with _ | _ | _ | _ | _ | _ | _ | _ | _
  all_goals exact List.mem_cons_self

/-- **A part of a part is a part.** -/
theorem parts_subset (h : u ∈ t.parts) : u.parts ⊆ t.parts := by
  induction t using Ty.induction with
  | scalar _ | any | error | named _ =>
    rw [parts, List.mem_singleton] at h
    rw [h]
    exact List.Subset.refl _
  | array _ _ ih | list _ ih | map _ _ _ ih | optional _ ih =>
    rw [parts, List.mem_cons] at h
    rcases h with rfl | h
    · exact List.Subset.refl _
    · rw [parts]
      exact List.subset_cons_of_subset _ (ih h)
  | record name fields ih =>
    rw [parts, List.mem_cons] at h
    rcases h with rfl | h
    · exact List.Subset.refl _
    · obtain ⟨f, hf, hu⟩ := mem_partsOfFields.1 h
      rw [parts]
      exact fun v hv ↦ .tail _ (mem_partsOfFields.2 ⟨f, hf, ih f hf hu hv⟩)

/-! ### The first error among parts -/

/-- Check descriptions from left to right, and report the first error. -/
def firstError (check : Ty → Option TypeError) (ts : List Ty) : Except TypeError Unit :=
  match ts.findSome? check with
  | none => .ok ()
  | some e => .error e

theorem firstError_eq_ok_iff : firstError check ts = .ok () ↔ ∀ t ∈ ts, check t = none := by
  rw [← List.findSome?_eq_none_iff, firstError]
  rcases ts.findSome? check with _ | _ <;> simp

theorem firstError_eq_error_iff : firstError check ts = .error e ↔
    ∃ before t after, ts = before ++ t :: after ∧ (∀ u ∈ before, check u = none) ∧
      check t = some e := by
  have hfind : firstError check ts = .error e ↔ ts.findSome? check = some e := by
    rw [firstError]
    rcases ts.findSome? check with _ | _ <;> simp
  rw [hfind, List.findSome?_eq_some_iff]
  refine exists_congr fun before ↦ exists_congr fun t ↦ exists_congr fun after ↦ ?_
  exact and_congr_right fun _ ↦ and_comm

theorem firstError_cons_of_some (h : check t = some e) :
    firstError check (t :: ts) = .error e := by
  rw [firstError, List.findSome?_cons, h]

theorem firstError_cons_of_none (h : check t = none) :
    firstError check (t :: ts) = firstError check ts := by
  rw [firstError, List.findSome?_cons, h, firstError]

/-- The second of two lists matters if there is no error in the first. -/
theorem firstError_append (check : Ty → Option TypeError) (ts us : List Ty) :
    firstError check (ts ++ us) = (firstError check ts).bind fun _ ↦ firstError check us := by
  rw [firstError, firstError, List.findSome?_append]
  rcases ts.findSome? check with _ | e
  · rfl
  · rfl

/-- A check of fields that goes on only after a field without an error is a search of their parts,
if the check of each field is. -/
theorem eq_firstError_partsOfFields {walk : List (String × Ty) → Except TypeError Unit}
    {judge : Ty → Except TypeError Unit} (hnil : walk [] = .ok ())
    (hcons : ∀ name t rest, walk ((name, t) :: rest) = (judge t).bind fun _ ↦ walk rest)
    {fields : List (String × Ty)} (h : ∀ f ∈ fields, judge f.2 = firstError check f.2.parts) :
    walk fields = firstError check (partsOfFields fields) := by
  induction fields with
  | nil => exact hnil
  | cons f rest ih =>
    obtain ⟨hf, hrest⟩ := List.forall_mem_cons.1 h
    rw [hcons, partsOfFields, firstError_append, hf, ih hrest]

/-! ### Offences -/

/-- The type is a record. -/
def isRecord : Ty → Bool
  | .record .. => true
  | _ => false

theorem exists_eq_of_isRecord (h : t.isRecord = true) : ∃ name fields, t = .record name fields := by
  unfold isRecord at h
  split at h
  · exact ⟨_, _, rfl⟩
  · cases h

/-- What is wrong with a part of a description by itself: an array without elements, a map that is
not keyed by strings, the place of a failure, a type known by name that is not allowed, and an
option of something else than a record. -/
def offence? (allowed : List Ty) : Ty → Option TypeError
  | .array _ n => if n = 0 then some .zeroLengthArray else none
  | .map _ key _ => if key = .scalar .string then none else some (.mapKey key)
  | .error => some (.invalid .error allowed)
  | .named name => if .named name ∈ allowed then none else some (.invalid (.named name) allowed)
  | .optional inner => if inner.isRecord then none else some (.invalid (.optional inner) allowed)
  | .scalar _ | .any | .list _ | .record .. => none

theorem offence?_array {elem : Ty} {n : Nat} :
    offence? allowed (.array elem n) = none ↔ 0 < n := by
  rw [offence?, ite_eq_right_iff, Nat.pos_iff_ne_zero]
  simp

theorem offence?_map {flavor : MapFlavor} {key value : Ty} :
    offence? allowed (.map flavor key value) = none ↔ key = .scalar .string := by
  simp [offence?]

theorem offence?_named {name : String} :
    offence? allowed (.named name) = none ↔ .named name ∈ allowed := by
  simp [offence?]

theorem offence?_optional : offence? allowed (.optional t) = none ↔ t.isRecord = true := by
  simp [offence?]

/-- An array without elements. -/
def emptiness? : Ty → Option TypeError
  | .array _ n => if n = 0 then some .zeroLengthArray else none
  | _ => none

/-- An array without elements is an offence. -/
theorem emptiness?_of_offence? (h : offence? allowed t = none) : emptiness? t = none := by
  rcases t with _ | _ | _ | ⟨elem, n⟩ | _ | _ | _ | _ | _
  case array => exact h
  all_goals rfl

/-- An option of something else than a record has to be allowed itself. -/
theorem validate_optional (h : t.isRecord = false) : (Ty.optional t).validate allowed =
    if .optional t ∈ allowed then .ok () else .error (.invalid (.optional t) allowed) := by
  rcases t with _ | _ | _ | _ | _ | _ | _ | _ | _
  case record => cases h
  all_goals rfl

/-- **A check of a description reports its first offence.** -/
theorem validate_eq_firstError (h : NamedOnly allowed) (t : Ty) :
    t.validate allowed = firstError (offence? allowed) t.parts := by
  induction t using Ty.induction with
  | scalar _ | any => rfl
  | error =>
    have hvalidate : Ty.error.validate allowed = .error (.invalid .error allowed) :=
      if_neg h.error_not_mem
    rw [hvalidate]
    rfl
  | array elem n ih =>
    rw [validate, parts]
    split
    · next hn => exact (firstError_cons_of_some (if_pos hn)).symm
    · next hn => rw [ih, firstError_cons_of_none (offence?_array.2 (Nat.pos_of_ne_zero hn))]
  | list elem ih => rw [validate, parts, ih, firstError_cons_of_none rfl]
  | map flavor key value ih =>
    rw [validate, parts]
    split
    · next hkey => rw [ih, firstError_cons_of_none (offence?_map.2 hkey)]
    · next hkey => exact (firstError_cons_of_some (if_neg hkey)).symm
  | record name fields ih =>
    rw [validate, if_neg (h.record_not_mem _ _), parts, firstError_cons_of_none rfl]
    refine eq_firstError_partsOfFields rfl (fun _ t rest ↦ ?_) ih
    rw [validateFields]
    rcases t.validate allowed with _ | _ <;> rfl
  | optional inner ih =>
    rw [parts]
    rcases hrecord : inner.isRecord with _ | _
    · have hoffence : offence? allowed (.optional inner) =
          some (.invalid (.optional inner) allowed) := by simp [offence?, hrecord]
      rw [validate_optional hrecord, if_neg (h.optional_not_mem _),
        firstError_cons_of_some hoffence]
    · obtain ⟨name, fields, rfl⟩ := exists_eq_of_isRecord hrecord
      rw [validate, if_neg (h.optional_not_mem _), ih, firstError_cons_of_none rfl]
  | named name =>
    have hvalidate : (Ty.named name).validate allowed =
        if .named name ∈ allowed then .ok () else .error (.invalid (.named name) allowed) := rfl
    rw [hvalidate, parts]
    split
    · next hmem =>
      rw [firstError_cons_of_none (offence?_named.2 hmem)]
      rfl
    · next hmem => exact (firstError_cons_of_some (if_neg hmem)).symm

/-- **The search for arrays without elements reports the first one.** -/
theorem checkArrayLengths_eq_firstError (t : Ty) :
    t.checkArrayLengths = firstError emptiness? t.parts := by
  induction t using Ty.induction with
  | scalar _ | any | error | named _ => rfl
  | array elem n ih =>
    rw [checkArrayLengths, parts]
    split
    · next hn => exact (firstError_cons_of_some (if_pos hn)).symm
    · next hn => rw [ih, firstError_cons_of_none (if_neg hn)]
  | list _ ih | map _ _ _ ih | optional _ ih =>
    rw [checkArrayLengths, parts, ih, firstError_cons_of_none rfl]
  | record name fields ih =>
    rw [checkArrayLengths, parts, firstError_cons_of_none rfl]
    refine eq_firstError_partsOfFields rfl (fun _ t rest ↦ ?_) ih
    rw [checkFieldArrayLengths]
    rcases t.checkArrayLengths with _ | _ <;> rfl

/-! ### What is accepted -/

/-- **A description is valid exactly if none of its parts offends.** -/
theorem valid_iff (h : NamedOnly allowed) :
    Valid allowed t ↔ ∀ u ∈ t.parts, offence? allowed u = none := by
  constructor
  · intro hvalid
    induction hvalid with
    | scalar _ | any =>
      rw [parts]
      exact (List.forall_mem_singleton).2 rfl
    | allowed hmem =>
      obtain ⟨name, rfl⟩ := h _ hmem
      rw [parts]
      exact List.forall_mem_singleton.2 (offence?_named.2 hmem)
    | array hn _ ih =>
      rw [parts]
      exact List.forall_mem_cons.2 ⟨offence?_array.2 hn, ih⟩
    | list _ ih | optional _ ih =>
      rw [parts]
      exact List.forall_mem_cons.2 ⟨rfl, ih⟩
    | map _ ih =>
      rw [parts]
      exact List.forall_mem_cons.2 ⟨offence?_map.2 rfl, ih⟩
    | record _ ih =>
      rw [parts]
      refine List.forall_mem_cons.2 ⟨rfl, fun u hu ↦ ?_⟩
      obtain ⟨f, hf, hu⟩ := mem_partsOfFields.1 hu
      exact ih f hf u hu
  · intro hnone
    induction t using Ty.induction with
    | scalar s => exact .scalar s
    | any => exact .any
    | error =>
      have herror := hnone .error List.mem_cons_self
      cases herror
    | array elem n ih =>
      rw [parts, List.forall_mem_cons, offence?_array] at hnone
      exact .array hnone.1 (ih hnone.2)
    | list elem ih =>
      rw [parts, List.forall_mem_cons] at hnone
      exact .list (ih hnone.2)
    | map flavor key value ih =>
      rw [parts, List.forall_mem_cons, offence?_map] at hnone
      obtain ⟨rfl, hvalue⟩ := hnone
      exact .map (ih hvalue)
    | record name fields ih =>
      rw [parts, List.forall_mem_cons] at hnone
      exact .record fun f hf ↦ ih f hf fun u hu ↦ hnone.2 u (mem_partsOfFields.2 ⟨f, hf, hu⟩)
    | optional inner ih =>
      rw [parts, List.forall_mem_cons, offence?_optional] at hnone
      obtain ⟨name, fields, rfl⟩ := exists_eq_of_isRecord hnone.1
      exact .optional (ih hnone.2)
    | named name =>
      rw [parts, List.forall_mem_singleton, offence?_named] at hnone
      exact .allowed hnone

/-- A type that does not belong is told by its written form. -/
theorem message_invalid (t : Ty) (allowed : List Ty) : ∃ rest,
    (TypeError.invalid t allowed).message =
      "Type " ++ t.display ++ " is not valid. Expected a struct" ++ rest := by
  have hnone : " is not valid. Expected a struct or one of the basic types " =
      " is not valid. Expected a struct" ++ " or one of the basic types " := rfl
  have hsome : " is not valid. Expected a struct, one of the basic types " =
      " is not valid. Expected a struct" ++ ", one of the basic types " := rfl
  rcases allowed with _ | ⟨u, us⟩
  · rw [TypeError.message, hnone]
    simp only [String.append_assoc]
    exact ⟨_, rfl⟩
  · rw [TypeError.message, hsome]
    · simp only [String.append_assoc]
      exact ⟨_, rfl⟩
    · nofun

/-- **What is accepted, and what is reported otherwise.** Let the types that are allowed in addition
be known by name only. A description is accepted exactly if it is valid. An error is reported
exactly if it is the offence of the first part that offends; its text tells the part, or the key of
a map, by the written form. -/
theorem validate_outcome (h : NamedOnly allowed) (t : Ty) :
    (t.validate allowed = .ok () ↔ Valid allowed t) ∧
    (∀ e, t.validate allowed = .error e ↔ ∃ before u after, t.parts = before ++ u :: after ∧
      (∀ v ∈ before, offence? allowed v = none) ∧ offence? allowed u = some e) ∧
    (∀ key, (TypeError.mapKey key).message =
      "Map key type " ++ key.display ++ " is not valid. Expected String") ∧
    ∀ u, ∃ rest, (TypeError.invalid u allowed).message =
      "Type " ++ u.display ++ " is not valid. Expected a struct" ++ rest := by
  rw [validate_eq_firstError h, valid_iff h]
  exact ⟨firstError_eq_ok_iff, fun e ↦ firstError_eq_error_iff, fun key ↦ rfl,
    fun u ↦ message_invalid u allowed⟩

/-- A shelf that keeps a session, which is allowed by its name, and three more fields. Two of them
offend, and the map would not if its arrays had elements. -/
def shelf : Ty :=
  .record "Shelf" [("session", .named "Session"), ("label", .scalar .string),
    ("boxes", .map .hashed (.scalar .string) (.list (.array .any 0))),
    ("spare", .optional (.scalar .bool))]

/-- The array without elements stands before the option, so it is what is reported. -/
theorem validate_outcome_shelf : NamedOnly [.named "Session"] ∧
    shelf.validate [.named "Session"] = .error .zeroLengthArray ∧
      ¬ Valid [.named "Session"] shelf := by
  have hnamed : NamedOnly [.named "Session"] := List.forall_mem_singleton.2 ⟨_, rfl⟩
  obtain ⟨haccepted, hreported, -⟩ := validate_outcome hnamed shelf
  have herror : shelf.validate [.named "Session"] = .error .zeroLengthArray :=
    (hreported _).2 ⟨[shelf, .named "Session", .scalar .string,
        .map .hashed (.scalar .string) (.list (.array .any 0)), .list (.array .any 0)],
      .array .any 0, [.any, .optional (.scalar .bool), .scalar .bool], rfl, by decide, rfl⟩
  refine ⟨hnamed, herror, fun hvalid ↦ ?_⟩
  rw [haccepted.2 hvalid] at herror
  cases herror

/-! ### The parts of what is valid -/

/-- The parts of what is accepted do not offend. -/
theorem offence?_of_validate (h : NamedOnly allowed) (hvalid : t.validate allowed = .ok ())
    (hu : u ∈ t.parts) : offence? allowed u = none := by
  rw [validate_eq_firstError h, firstError_eq_ok_iff] at hvalid
  exact hvalid u hu

/-- What is valid has maps that are keyed by strings only. -/
theorem key_of_validate (h : NamedOnly allowed) (hvalid : t.validate allowed = .ok ())
    {flavor : MapFlavor} {key value : Ty} (hmap : .map flavor key value ∈ t.parts) :
    key = .scalar .string :=
  offence?_map.1 (offence?_of_validate h hvalid hmap)

/-- **What is valid has no arrays without elements** among its parts. -/
theorem checkArrayLengths_of_validate (h : NamedOnly allowed) (hvalid : t.validate allowed = .ok ())
    (hu : u ∈ t.parts) : u.checkArrayLengths = .ok () := by
  rw [checkArrayLengths_eq_firstError, firstError_eq_ok_iff]
  exact fun v hv ↦ emptiness?_of_offence? (offence?_of_validate h hvalid (parts_subset hu hv))

end Ty

end ContractHost
