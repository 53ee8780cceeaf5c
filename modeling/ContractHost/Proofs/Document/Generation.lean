import ContractHost.Document.Describe
import ContractHost.Json.Reader
import Mathlib.Data.List.Forall2
import Mathlib.Data.Nat.Notation
import Mathlib.Data.Option.Defs

/-!
# Generated schemas

Describing types fills a table of components that all descriptions share, and a record that is
already in the table is not looked at again. That is sound as long as records of one name are the
same everywhere: `Ty.records` lists the records that a type mentions, and `Consistent` says that a
list of records has one record for each name.

`Ty.DescribedBy` is what a generated schema is, read off the finished table and without the order in
which the table was filled. **Describing a type yields such a schema** (`Ty.schema_spec`): what is
in the table stays there (`Components.Grows`), and every component is that of a known record
(`Components.Sound`). The rest of the module carries this from types to the entries of contracts.
-/

namespace ContractHost

/-! ### Records that a type mentions -/

/-- The name and the fields of a record. -/
abbrev RecordType := String × List (String × Ty)

namespace Ty

mutual

/-- The records inside a type whose values are described, from the outside in. -/
def records : Ty → List RecordType
  | .array elem _ => records elem
  | .list elem => records elem
  | .map _ _ value => records value
  | .optional inner => records inner
  | .record name fields => (name, fields) :: recordsOfFields fields
  | .scalar _ | .any | .error | .named _ => []

/-- The records inside the fields of a record. -/
def recordsOfFields : List (String × Ty) → List RecordType
  | [] => []
  | (_, t) :: rest => records t ++ recordsOfFields rest

end

mutual

/-- A record inside a type is no larger than the type. -/
theorem sizeOf_lt_of_mem_records : ∀ {t : Ty} {r : RecordType}, r ∈ records t →
    sizeOf r.2 < sizeOf t
  | .array elem _, r, h => by
    rw [records] at h
    have := sizeOf_lt_of_mem_records h
    simp only [array.sizeOf_spec]
    omega
  | .list elem, r, h => by
    rw [records] at h
    have := sizeOf_lt_of_mem_records h
    simp only [list.sizeOf_spec]
    omega
  | .map _ _ value, r, h => by
    rw [records] at h
    have := sizeOf_lt_of_mem_records h
    simp only [map.sizeOf_spec]
    omega
  | .optional inner, r, h => by
    rw [records] at h
    have := sizeOf_lt_of_mem_records h
    simp only [optional.sizeOf_spec]
    omega
  | .record name fields, r, h => by
    rw [records] at h
    simp only [record.sizeOf_spec]
    rcases List.mem_cons.1 h with rfl | h
    · show sizeOf fields < _
      omega
    · have := sizeOf_lt_of_mem_recordsOfFields h
      omega
  | .scalar _, _, h | .any, _, h | .error, _, h | .named _, _, h => by
    rw [records] at h
    cases h

/-- A record inside the fields of a record has fewer fields in all. -/
theorem sizeOf_lt_of_mem_recordsOfFields : ∀ {fields : List (String × Ty)} {r : RecordType},
    r ∈ recordsOfFields fields → sizeOf r.2 < sizeOf fields
  | [], _, h => by
    rw [recordsOfFields] at h
    cases h
  | (_, t) :: rest, r, h => by
    rw [recordsOfFields] at h
    simp only [List.cons.sizeOf_spec, Prod.mk.sizeOf_spec]
    rcases List.mem_append.1 h with h | h
    · have := sizeOf_lt_of_mem_records h
      omega
    · have := sizeOf_lt_of_mem_recordsOfFields h
      omega

end

end Ty

/-- Records of one name have the same fields. -/
def Consistent (known : List RecordType) : Prop :=
  ∀ r ∈ known, ∀ r' ∈ known, r.1 = r'.1 → r.2 = r'.2

instance : DecidablePred Consistent := fun known ↦
  inferInstanceAs (Decidable (∀ r ∈ known, ∀ r' ∈ known, r.1 = r'.1 → r.2 = r'.2))

/-- Where records are consistent, none has a record of its own name inside. -/
theorem Consistent.not_mem_of_fields {known : List RecordType} (hknown : Consistent known)
    {name : String} {fields : List (String × Ty)} (hname : (name, fields) ∈ known)
    (hsub : Ty.recordsOfFields fields ⊆ known) :
    name ∉ (Ty.recordsOfFields fields).map Prod.fst := by
  intro hmem
  obtain ⟨r, hr, hrname⟩ := List.mem_map.1 hmem
  have hfields : r.2 = fields := hknown r (hsub hr) (name, fields) hname hrname
  have hlt := Ty.sizeOf_lt_of_mem_recordsOfFields hr
  rw [hfields] at hlt
  exact absurd hlt (Nat.lt_irrefl _)

/-! ### What a generated schema is -/

namespace Ty

variable (components : Components)

mutual

/-- A schema is the one generated for a type, given the components that were generated. -/
def DescribedBy : Ty → Json → Prop
  | .scalar s, j => j = s.schema
  | .array elem n, j => ∃ items, DescribedBy elem items ∧
      j = .object [("type", .string "array"), ("items", items), ("minItems", .int n),
        ("maxItems", .int n)]
  | .list elem, j => ∃ items, DescribedBy elem items ∧
      j = .object [("type", .string "array"), ("items", items)]
  | .map _ _ value, j => ∃ values, DescribedBy value values ∧
      j = .object [("type", .string "object"), ("additionalProperties", values)]
  | .optional inner, j => ∃ s, DescribedBy inner s ∧
      j = .object [("anyOf", .list [s, .object [("type", .string "null")]])]
  | .record name fields, j => j = referenceSchema name ∧ ∃ described,
      FieldsDescribedBy fields described ∧
      components.get? name =
        some (recordSchema name (Json.collect described) (requiredNames fields))
  | .any, j | .error, j | .named _, j => j = .object []

/-- The schemas are those generated for the fields of a record, under the names of the fields. -/
def FieldsDescribedBy : List (String × Ty) → List (String × Json) → Prop
  | [], [] => True
  | (name, t) :: rest, (k, s) :: described =>
    k = name ∧ DescribedBy t s ∧ FieldsDescribedBy rest described
  | _, _ => False

end

end Ty

/-! ### The table of components -/

namespace Components

/-- What is in a table of components stays there, and only components of some names are added. -/
structure Grows (names : List String) (components components' : Components) : Prop where
  keeps : ∀ {name c}, components.get? name = some c → components'.get? name = some c
  others : ∀ name, name ∉ names → components'.get? name = components.get? name

variable {names names' : List String} {c₁ c₂ c₃ : Components}

theorem Grows.refl (names : List String) (components : Components) :
    Grows names components components :=
  ⟨id, fun _ _ ↦ rfl⟩

theorem Grows.trans (h : Grows names c₁ c₂) (h' : Grows names' c₂ c₃) :
    Grows (names ++ names') c₁ c₃ := by
  refine ⟨fun hc ↦ h'.keeps (h.keeps hc), fun name hname ↦ ?_⟩
  rw [List.mem_append, not_or] at hname
  rw [h'.others name hname.2, h.others name hname.1]

/-- A component of a new name may be added. -/
theorem Grows.insert (h : Grows names c₁ c₂) {name : String} (c : Json)
    (hnew : c₁.get? name = none) : Grows (name :: names) c₁ (c₂.insert name c) := by
  refine ⟨fun {name' c'} hc ↦ ?_, fun name' hname' ↦ ?_⟩
  · rw [KeyMap.get?_insert_of_ne]
    · exact h.keeps hc
    · rintro rfl
      cases hnew.symm.trans hc
  · rw [List.mem_cons, not_or] at hname'
    rw [KeyMap.get?_insert_of_ne _ _ (Ne.symm hname'.1)]
    exact h.others name' hname'.2

/-- A component of a new name, put into a table that has grown, was not there before. -/
theorem Grows.insert_keeps (h : Grows names c₁ c₂) {name : String} {c : Json}
    (hnew : c₁.get? name = none) (hnames : name ∉ names) {name' : String} {c' : Json}
    (hc : c₂.get? name' = some c') : (c₂.insert name c).get? name' = some c' := by
  rw [KeyMap.get?_insert_of_ne]
  · exact hc
  · rintro rfl
    rw [h.others _ hnames, hnew] at hc
    cases hc

end Components

namespace Ty

variable {components components' : Components}

mutual

/-- What a schema describes does not change while the table grows. -/
theorem DescribedBy.mono
    (hkeeps : ∀ {name c}, components.get? name = some c → components'.get? name = some c) :
    ∀ {t : Ty} {j : Json}, t.DescribedBy components j → t.DescribedBy components' j
  | .scalar _, _, h => by
    rw [DescribedBy] at h ⊢
    exact h
  | .array elem _, _, h => by
    rw [DescribedBy] at h ⊢
    exact h.imp fun _ hs ↦ ⟨DescribedBy.mono hkeeps hs.1, hs.2⟩
  | .list elem, _, h => by
    rw [DescribedBy] at h ⊢
    exact h.imp fun _ hs ↦ ⟨DescribedBy.mono hkeeps hs.1, hs.2⟩
  | .map _ _ value, _, h => by
    rw [DescribedBy] at h ⊢
    exact h.imp fun _ hs ↦ ⟨DescribedBy.mono hkeeps hs.1, hs.2⟩
  | .optional inner, _, h => by
    rw [DescribedBy] at h ⊢
    exact h.imp fun _ hs ↦ ⟨DescribedBy.mono hkeeps hs.1, hs.2⟩
  | .record name fields, _, h => by
    rw [DescribedBy] at h ⊢
    exact ⟨h.1, h.2.imp fun _ hs ↦ ⟨FieldsDescribedBy.mono hkeeps hs.1, hkeeps hs.2⟩⟩
  | .any, _, h => by
    rw [DescribedBy] at h ⊢
    exact h
  | .error, _, h => by
    rw [DescribedBy] at h ⊢
    exact h
  | .named _, _, h => by
    rw [DescribedBy] at h ⊢
    exact h

theorem FieldsDescribedBy.mono
    (hkeeps : ∀ {name c}, components.get? name = some c → components'.get? name = some c) :
    ∀ {fields : List (String × Ty)} {described : List (String × Json)},
      FieldsDescribedBy components fields described → FieldsDescribedBy components' fields described
  | [], [], _ => trivial
  | (_, t) :: rest, (_, s) :: described, h => by
    rw [FieldsDescribedBy] at h ⊢
    exact ⟨h.1, DescribedBy.mono hkeeps h.2.1, FieldsDescribedBy.mono hkeeps h.2.2⟩
  | [], _ :: _, h => by
    rw [FieldsDescribedBy] at h
    · exact h.elim
    all_goals nofun
  | _ :: _, [], h => by
    rw [FieldsDescribedBy] at h
    · exact h.elim
    all_goals nofun

end

end Ty

/-- Every component is that of a known record, and describes it. -/
def Components.Sound (known : List RecordType) (components : Components) : Prop :=
  ∀ name c, components.get? name = some c → ∃ fields described, (name, fields) ∈ known ∧
    Ty.FieldsDescribedBy components fields described ∧
    c = recordSchema name (Json.collect described) (Ty.requiredNames fields)

theorem Components.sound_empty (known : List RecordType) : Components.Sound known ∅ := by
  intro name c h
  rw [KeyMap.get?_empty] at h
  cases h

/-! ### Describing types -/

/-- What describing does to the table of components: it stays sound and grows. -/
structure Extends (known : List RecordType) (names : List String) (c₁ c₂ : Components) : Prop where
  sound : c₂.Sound known
  grows : c₁.Grows names c₂

namespace Extends

variable {known : List RecordType} {names names' : List String} {c₁ c₂ c₃ : Components}

theorem refl (h : c₁.Sound known) (names : List String) : Extends known names c₁ c₁ :=
  ⟨h, .refl names c₁⟩

theorem trans (h : Extends known names c₁ c₂) (h' : Extends known names' c₂ c₃) :
    Extends known (names ++ names') c₁ c₃ :=
  ⟨h'.sound, h.grows.trans h'.grows⟩

/-- The component of a record may be added after the components of its fields. -/
theorem insert (h : Extends known names c₁ c₂) {name : String} {fields : List (String × Ty)}
    {described : List (String × Json)} (hnew : c₁.get? name = none) (hnames : name ∉ names)
    (hknown : (name, fields) ∈ known) (hdescribed : Ty.FieldsDescribedBy c₂ fields described) :
    Extends known (name :: names) c₁
      (c₂.insert name
        (recordSchema name (Json.collect described) (Ty.requiredNames fields))) := by
  refine ⟨fun name' c hc ↦ ?_, h.grows.insert _ hnew⟩
  have hkeeps : ∀ {name' c'}, c₂.get? name' = some c' → (c₂.insert name
      (recordSchema name (Json.collect described) (Ty.requiredNames fields))).get? name' =
        some c' := fun hc ↦ h.grows.insert_keeps hnew hnames hc
  rw [KeyMap.get?_insert] at hc
  split at hc
  · next heq =>
    cases hc
    subst heq
    exact ⟨fields, described, hknown, hdescribed.mono hkeeps, rfl⟩
  · obtain ⟨fields', described', hmem, hd, rfl⟩ := h.sound name' c hc
    exact ⟨fields', described', hmem, hd.mono hkeeps, rfl⟩

end Extends

namespace Ty

/-- The names of the records inside a type. -/
def recordNames (t : Ty) : List String :=
  (records t).map Prod.fst

/-- What describing a type does. -/
structure Describes (known : List RecordType) (t : Ty) (components : Components) (s : Json)
    (components' : Components) : Prop where
  table : Extends known t.recordNames components components'
  schema : t.DescribedBy components' s

mutual

/-- **Describing a type** yields a schema of that type, and a table that is sound and has grown. -/
theorem schema_spec {known : List RecordType} (hknown : Consistent known) :
    ∀ (t : Ty) (components : Components), records t ⊆ known → components.Sound known →
      Describes known t components (t.schema components).1 (t.schema components).2
  | .scalar s, components, _, hsound => by
    rw [schema]
    exact ⟨.refl hsound _, by rw [DescribedBy]⟩
  | .array elem n, components, hsub, hsound => by
    rw [records] at hsub
    have h := schema_spec hknown elem components hsub hsound
    rw [schema]
    exact ⟨h.table, by rw [DescribedBy]; exact ⟨_, h.schema, rfl⟩⟩
  | .list elem, components, hsub, hsound => by
    rw [records] at hsub
    have h := schema_spec hknown elem components hsub hsound
    rw [schema]
    exact ⟨h.table, by rw [DescribedBy]; exact ⟨_, h.schema, rfl⟩⟩
  | .map _ _ value, components, hsub, hsound => by
    rw [records] at hsub
    have h := schema_spec hknown value components hsub hsound
    rw [schema]
    exact ⟨h.table, by rw [DescribedBy]; exact ⟨_, h.schema, rfl⟩⟩
  | .optional inner, components, hsub, hsound => by
    rw [records] at hsub
    have h := schema_spec hknown inner components hsub hsound
    rw [schema]
    exact ⟨h.table, by rw [DescribedBy]; exact ⟨_, h.schema, rfl⟩⟩
  | .record name fields, components, hsub, hsound => by
    rw [records, List.cons_subset] at hsub
    rw [schema]
    cases hget : components.get? name with
    | some c =>
      rw [if_pos (by rw [KeyMap.contains, hget]; rfl)]
      obtain ⟨fields', described, hmem, hdescribed, rfl⟩ := hsound name c hget
      cases hknown (name, fields) hsub.1 (name, fields') hmem rfl
      exact ⟨.refl hsound _, by rw [DescribedBy]; exact ⟨rfl, described, hdescribed, hget⟩⟩
    | none =>
      rw [if_neg (by rw [KeyMap.contains, hget]; decide)]
      obtain ⟨described, hproperties, hext, hdescribed⟩ :=
        properties_spec hknown fields [] components hsub.2 hsound
      have hnames := hknown.not_mem_of_fields hsub.1 hsub.2
      have hinsert := hext.insert hget hnames hsub.1 hdescribed
      dsimp only
      rw [hproperties]
      refine ⟨?_, ?_⟩
      · rw [recordNames, records]
        exact hinsert
      · rw [DescribedBy]
        refine ⟨rfl, described, hdescribed.mono ?_, KeyMap.get?_insert_self _ _ _⟩
        exact hext.grows.insert_keeps hget hnames
  | .any, components, _, hsound => by
    rw [schema]
    exact ⟨.refl hsound _, by rw [DescribedBy]⟩
  | .error, components, _, hsound => by
    rw [schema]
    exact ⟨.refl hsound _, by rw [DescribedBy]⟩
  | .named _, components, _, hsound => by
    rw [schema]
    exact ⟨.refl hsound _, by rw [DescribedBy]⟩

/-- Describing the fields of a record. -/
theorem properties_spec {known : List RecordType} (hknown : Consistent known) :
    ∀ (fields : List (String × Ty)) (done : List (String × Json)) (components : Components),
      recordsOfFields fields ⊆ known → components.Sound known →
      ∃ described, (properties fields done components).1 =
          described.foldl (fun acc (k, v) ↦ Json.setField k v acc) done ∧
        Extends known ((recordsOfFields fields).map Prod.fst) components
          (properties fields done components).2 ∧
        FieldsDescribedBy (properties fields done components).2 fields described
  | [], done, components, _, hsound => by
    rw [properties]
    exact ⟨[], rfl, .refl hsound _, trivial⟩
  | (name, t) :: rest, done, components, hsub, hsound => by
    rw [recordsOfFields, List.append_subset] at hsub
    have ht := schema_spec hknown t components hsub.1 hsound
    obtain ⟨described, hproperties, hext, hdescribed⟩ := properties_spec hknown rest
      (Json.setField name (t.schema components).1 done) (t.schema components).2 hsub.2
      ht.table.sound
    rw [properties]
    refine ⟨(name, (t.schema components).1) :: described, hproperties, ?_, ?_⟩
    · rw [recordsOfFields, List.map_append]
      exact ht.table.trans hext
    · rw [FieldsDescribedBy]
      exact ⟨rfl, ht.schema.mono hext.grows.keeps, hdescribed⟩

end

end Ty

/-! ### Describing functions and contracts -/

/-- The records that types mention. -/
def recordsOf (types : List Ty) : List RecordType :=
  types.flatMap Ty.records

/-- The types that a document describes for a function. -/
def FunctionOutline.types (f : FunctionOutline) : List Ty :=
  f.params ++ f.success.toList

/-- The types that a document describes for a contract. -/
def ContractOutline.types (c : ContractOutline) : List Ty :=
  c.functions.entries.flatMap fun e ↦ e.2.types

/-- A transaction is the one generated for a function. -/
structure Transaction.Describes (components : Components) (name : String) (f : FunctionOutline)
    (tx : Transaction) : Prop where
  name : tx.name = name
  parameters : List.Forall₂ (fun t p ↦ t.DescribedBy components p.schema) f.params tx.parameters
  returns : Option.Rel (fun t r ↦ t.DescribedBy components r.schema) f.success tx.returns

/-- An entry has one transaction for each function of a contract. -/
def ContractEntry.Describes (components : Components) (c : ContractOutline)
    (entry : ContractEntry) : Prop :=
  List.Forall₂ (fun e tx ↦ Transaction.Describes components e.1 e.2 tx) c.functions.entries
    entry.transactions

section Growth

variable {c₁ c₂ : Components}

theorem Transaction.Describes.mono {name : String} {f : FunctionOutline} {tx : Transaction}
    (hkeeps : ∀ {name c}, c₁.get? name = some c → c₂.get? name = some c)
    (h : Transaction.Describes c₁ name f tx) : Transaction.Describes c₂ name f tx := by
  have hreturns : ∀ {success : Option Ty} {returns : Option Returns},
      Option.Rel (fun t r ↦ t.DescribedBy c₁ r.schema) success returns →
        Option.Rel (fun t r ↦ t.DescribedBy c₂ r.schema) success returns := by
    rintro _ _ (hr | _)
    · exact .some (hr.mono hkeeps)
    · exact .none
  exact ⟨h.name, h.parameters.imp fun _ _ hp ↦ hp.mono hkeeps, hreturns h.returns⟩

theorem ContractEntry.Describes.mono {c : ContractOutline} {entry : ContractEntry}
    (hkeeps : ∀ {name c}, c₁.get? name = some c → c₂.get? name = some c)
    (h : ContractEntry.Describes c₁ c entry) : ContractEntry.Describes c₂ c entry :=
  h.imp fun _ _ htx ↦ htx.mono hkeeps

end Growth

section Describe

variable {known : List RecordType} (hknown : Consistent known)
include hknown

theorem Ty.schemas_spec : ∀ (types : List Ty) (components : Components),
    recordsOf types ⊆ known → components.Sound known →
      Extends known ((recordsOf types).map Prod.fst) components (schemas types components).2 ∧
        List.Forall₂ (fun t s ↦ t.DescribedBy (schemas types components).2 s) types
          (schemas types components).1
  | [], components, _, hsound => by
    rw [schemas]
    exact ⟨.refl hsound _, .nil⟩
  | t :: rest, components, hsub, hsound => by
    rw [recordsOf, List.flatMap_cons, List.append_subset] at hsub
    have ht := schema_spec hknown t components hsub.1 hsound
    obtain ⟨hext, hrest⟩ := Ty.schemas_spec rest (t.schema components).2 hsub.2 ht.table.sound
    rw [schemas]
    refine ⟨?_, .cons (ht.schema.mono hext.grows.keeps) hrest⟩
    rw [recordsOf, List.flatMap_cons, List.map_append]
    exact ht.table.trans hext

/-- **Describing a function** yields a transaction that describes it. -/
theorem Transaction.describe_spec (name : String) (f : FunctionOutline) (components : Components)
    (hsub : recordsOf f.types ⊆ known) (hsound : components.Sound known) :
    Extends known ((recordsOf f.types).map Prod.fst) components
        (Transaction.describe name f.params f.success components).2 ∧
      Transaction.Describes (Transaction.describe name f.params f.success components).2 name f
        (Transaction.describe name f.params f.success components).1 := by
  obtain ⟨params, success⟩ := f
  have hsplit : recordsOf (FunctionOutline.types ⟨params, success⟩) =
      recordsOf params ++ recordsOf success.toList := List.flatMap_append
  rw [hsplit, List.append_subset] at hsub
  obtain ⟨hext, hschemas⟩ := Ty.schemas_spec hknown params components hsub.1 hsound
  -- A parameter is named after its position, which the induction moves.
  have hparameters : ∀ {types : List Ty} {ss : List Json} {components : Components}
      (named : ℕ → Json → Parameter), (∀ i s, (named i s).schema = s) →
      List.Forall₂ (fun t s ↦ t.DescribedBy components s) types ss →
      List.Forall₂ (fun t p ↦ t.DescribedBy components p.schema) types (ss.mapIdx named) := by
    intro types ss components named hnamed h
    induction h generalizing named with
    | nil => exact .nil
    | cons ht _ ih =>
      rw [List.mapIdx_cons]
      exact .cons ((hnamed 0 _).symm ▸ ht) (ih _ fun i s ↦ hnamed (i + 1) s)
  rw [hsplit, List.map_append]
  cases success with
  | none =>
    show Extends known _ components (Ty.schemas params components).2 ∧
      Transaction.Describes (Ty.schemas params components).2 name ⟨params, none⟩ _
    exact ⟨hext.trans (.refl hext.sound _), rfl, hparameters _ (fun _ _ ↦ rfl) hschemas, .none⟩
  | some t =>
    have hsubt : Ty.records t ⊆ known := by
      have := hsub.2
      rwa [show (some t).toList = [t] from rfl, recordsOf, List.flatMap_singleton] at this
    have ht := Ty.schema_spec hknown t (Ty.schemas params components).2 hsubt hext.sound
    show Extends known _ components (t.schema (Ty.schemas params components).2).2 ∧
      Transaction.Describes (t.schema (Ty.schemas params components).2).2 name ⟨params, some t⟩ _
    refine ⟨?_, rfl, hparameters _ (fun _ _ ↦ rfl) ?_, .some ht.schema⟩
    · rw [show (some t).toList = [t] from rfl, recordsOf, recordsOf, List.flatMap_singleton]
      exact hext.trans ht.table
    · exact hschemas.imp fun _ _ hs ↦ hs.mono ht.table.grows.keeps

theorem ContractOutline.describeAll_spec : ∀ (functions : List (String × FunctionOutline))
    (components : Components), recordsOf (functions.flatMap fun e ↦ e.2.types) ⊆ known →
      components.Sound known →
      Extends known ((recordsOf (functions.flatMap fun e ↦ e.2.types)).map Prod.fst) components
          (describeAll functions components).2 ∧
        List.Forall₂ (fun e tx ↦
          Transaction.Describes (describeAll functions components).2 e.1 e.2 tx) functions
          (describeAll functions components).1
  | [], components, _, hsound => by
    rw [describeAll]
    exact ⟨.refl hsound _, .nil⟩
  | (name, f) :: rest, components, hsub, hsound => by
    have hsplit : recordsOf (((name, f) :: rest).flatMap fun e ↦ e.2.types) =
        recordsOf f.types ++ recordsOf (rest.flatMap fun e ↦ e.2.types) := by
      rw [recordsOf, List.flatMap_cons, List.flatMap_append]
      rfl
    rw [hsplit, List.append_subset] at hsub
    obtain ⟨hext, htx⟩ := Transaction.describe_spec hknown name f components hsub.1 hsound
    obtain ⟨hext', hrest⟩ := ContractOutline.describeAll_spec rest _ hsub.2 hext.sound
    rw [hsplit, List.map_append, describeAll]
    exact ⟨hext.trans hext', .cons (htx.mono hext'.grows.keeps) hrest⟩

/-- **Describing a contract** yields an entry that describes it. -/
theorem ContractOutline.describe_spec (c : ContractOutline) (components : Components)
    (hsub : recordsOf c.types ⊆ known) (hsound : components.Sound known) :
    Extends known ((recordsOf c.types).map Prod.fst) components (c.describe components).2 ∧
      ContractEntry.Describes (c.describe components).2 c (c.describe components).1 :=
  describeAll_spec hknown c.functions.entries components hsub hsound

end Describe

/-- **The transaction of a function is found under the name of the function.** -/
theorem ContractEntry.Describes.find? {components : Components} {c : ContractOutline}
    {entry : ContractEntry} (h : ContractEntry.Describes components c entry) {name : String}
    {f : FunctionOutline} (hf : c.functions.get? name = some f) :
    ∃ tx, entry.transactions.find? (fun tx ↦ tx.name == name) = some tx ∧
      Transaction.Describes components name f tx := by
  unfold ContractEntry.Describes at h
  unfold KeyMap.get? at hf
  generalize c.functions.entries = functions at h hf
  generalize entry.transactions = transactions at h
  induction h with
  | nil => cases hf
  | @cons e tx functions transactions htx _ ih =>
    obtain ⟨name', f'⟩ := e
    rw [KeyMap.lookup] at hf
    have hname : tx.name = name' := htx.name
    by_cases heq : name' = name
    · rw [if_pos heq] at hf
      cases hf
      subst heq
      exact ⟨tx, List.find?_cons_of_pos (by rw [hname]; exact beq_self_eq_true _), htx⟩
    · rw [if_neg heq] at hf
      rw [List.find?_cons_of_neg (by rw [hname]; exact fun h ↦ heq (beq_iff_eq.1 h))]
      exact ih hf

end ContractHost
