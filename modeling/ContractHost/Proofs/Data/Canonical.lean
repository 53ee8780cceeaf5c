import ContractHost.Proofs.Data.Writing
import ContractHost.Proofs.Json.Canonical

/-!
# Values whose document is written like the value

A value is turned into a document by writing it and reading the text. **If the value is well formed
and its document holds no numbers but integers, the document is written as the same text**
(`Value.write_toJson?`): the fields of a record and the entries of a map keep their order, and the
documents inside the value are written as they were.

A value is well formed (`Datum.WellFormed`) if what stands in it could stand in a program: no record
has two fields of one name, no map two keys that are written alike, and the documents are well
formed. Nothing is asked of a dynamic value inside another one, since it is written through its
document to begin with.
-/

namespace ContractHost

open Json (commas memberText)

/-! ### Well-formed data -/

mutual

/-- No two keys of a map inside a datum are written alike, no record has two fields of one name, and
the documents inside the datum are well formed. -/
def Datum.WellFormed : Datum → Prop
  | .json j => j.WellFormed
  | .list items => Datum.WellFormedItems items
  | .map entries => (entries.map fun e ↦ e.1.write).Nodup ∧ Datum.WellFormedEntries entries
  | .present d => d.WellFormed
  | .record fields => (fields.map Prod.fst).Nodup ∧ Datum.WellFormedFields fields
  | .bool _ | .string _ | .int _ | .single _ | .double _ | .char _ | .nil | .dynamic _ => True

/-- Every item of a list is well formed. -/
def Datum.WellFormedItems : List Datum → Prop
  | [] => True
  | d :: rest => d.WellFormed ∧ Datum.WellFormedItems rest

/-- Every value of a map is well formed. -/
def Datum.WellFormedEntries : List (MapKey × Datum) → Prop
  | [] => True
  | (_, d) :: rest => d.WellFormed ∧ Datum.WellFormedEntries rest

/-- Every field of a record is well formed. -/
def Datum.WellFormedFields : List (String × Datum) → Prop
  | [] => True
  | (_, d) :: rest => d.WellFormed ∧ Datum.WellFormedFields rest

end

/-! ### Texts of data -/

/-- A floating-point number is written as a canonical text, also where it is not finite. -/
theorem FloatValue.canonical_writeJson (fmt : BinaryFormat) {layout : FloatLayout}
    (hlayout : layout.marksFraction = true) (x : FloatValue) :
    Json.Canonical (x.writeJson fmt layout) := by
  have hnull : Json.Canonical ['n', 'u', 'l', 'l'] := by
    have hwrite := Json.canonical_null
    rwa [Json.write] at hwrite
  cases x with
  | finite y => exact Json.canonical_writeNumber hlayout fmt y
  | nan | infinity _ => exact hnull

namespace Datum

/-- Where the keys of a map are written differently, the names of the members are different. -/
theorem names_of_writesEntry {entries : List (MapKey × Datum)} {members : List (String × List Char)}
    (h : List.Forall₂ WritesEntry entries members)
    (hkeys : (entries.map fun e ↦ e.1.write).Nodup) : (members.map Prod.fst).Nodup := by
  have hsame : (members.map Prod.fst).map Json.writeString = entries.map fun e ↦ e.1.write := by
    clear hkeys
    induction h with
    | nil => rfl
    | cons he _ ih => rw [List.map_cons, List.map_cons, List.map_cons, ih, he.1]
  exact List.Nodup.of_map Json.writeString (hsame ▸ hkeys)

mutual

/-- **A well-formed datum is written as a canonical text.** -/
theorem canonical_write? : ∀ {d : Datum} {w : List Char}, d.WellFormed → d.write? = some w →
    Json.Canonical w
  | .bool b, _, _, hw => by
    cases hw
    exact Json.canonical_bool b
  | .string s, _, _, hw => by
    cases hw
    exact Json.canonical_string s
  | .int n, _, _, hw => by
    cases hw
    exact Json.canonical_writeInt n
  | .single x, _, _, hw => by
    cases hw
    exact x.canonical_writeJson _ rfl
  | .double x, _, _, hw => by
    cases hw
    exact x.canonical_writeJson _ rfl
  | .char c, _, _, hw => by
    cases hw
    exact Json.canonical_string _
  | .json j, _, hd, hw => by
    cases hw
    exact Json.canonical_write hd
  | .nil, _, _, hw => by
    cases hw
    exact Json.canonical_null
  | .present d, _, hd, hw => by
    rw [WellFormed] at hd
    rw [write?] at hw
    exact canonical_write? hd hw
  | .list items, _, hd, hw => by
    rw [WellFormed] at hd
    rw [write?] at hw
    obtain ⟨body, hbody, rfl⟩ := Option.map_eq_some_iff.1 hw
    obtain ⟨ws, rfl, hws⟩ := writeItems?_spec hbody
    exact Json.canonical_list (canonical_items hd hws)
  | .map entries, _, hd, hw => by
    rw [WellFormed] at hd
    rw [write?] at hw
    obtain ⟨body, hbody, rfl⟩ := Option.map_eq_some_iff.1 hw
    obtain ⟨members, rfl, hmembers⟩ := writeEntries?_spec hbody
    exact Json.canonical_object (names_of_writesEntry hmembers hd.1)
      (canonical_entries hd.2 hmembers)
  | .record fields, _, hd, hw => by
    rw [WellFormed] at hd
    rw [write?] at hw
    obtain ⟨body, hbody, rfl⟩ := Option.map_eq_some_iff.1 hw
    rw [writeFields?_eq] at hbody
    obtain ⟨members, rfl, hmembers⟩ := writeEntries?_spec hbody
    have hkeys : ((fields.map Prod.fst).map Json.writeString).Nodup :=
      hd.1.map fun _ _ ↦ Json.writeString_inj
    refine Json.canonical_object (names_of_writesEntry hmembers ?_)
      (canonical_fields hd.2 (List.forall₂_map_left_iff.1 hmembers))
    rw [List.map_map] at hkeys ⊢
    exact hkeys
  | .dynamic v, _, _, hw => by
    -- What is written is a document that was read, so it is well formed.
    rw [write?] at hw
    split at hw
    · cases hw
    · obtain ⟨j, hj, rfl⟩ := Option.map_eq_some_iff.1 hw
      obtain ⟨tree, -, hread⟩ := Option.bind_eq_some_iff.1 hj
      exact Json.canonical_write (Json.wellFormed_of_toJson? hread).1

theorem canonical_items : ∀ {items : List Datum} {ws : List (List Char)}, WellFormedItems items →
    List.Forall₂ (fun d w ↦ d.write? = some w) items ws → ∀ w ∈ ws, Json.Canonical w
  | [], _, _, .nil => nofun
  | d :: rest, _, h, .cons hd hrest => by
    rw [WellFormedItems] at h
    exact List.forall_mem_cons.2 ⟨canonical_write? h.1 hd, canonical_items h.2 hrest⟩

theorem canonical_entries : ∀ {entries : List (MapKey × Datum)}
    {members : List (String × List Char)}, WellFormedEntries entries →
    List.Forall₂ WritesEntry entries members → ∀ m ∈ members, Json.Canonical m.2
  | [], _, _, .nil => nofun
  | (k, d) :: rest, _, h, .cons he hrest => by
    rw [WellFormedEntries] at h
    exact List.forall_mem_cons.2 ⟨canonical_write? h.1 he.2, canonical_entries h.2 hrest⟩

theorem canonical_fields : ∀ {fields : List (String × Datum)}
    {members : List (String × List Char)}, WellFormedFields fields →
    List.Forall₂ (fun f m ↦ WritesEntry (.string f.1, f.2) m) fields members →
      ∀ m ∈ members, Json.Canonical m.2
  | [], _, _, .nil => nofun
  | (k, d) :: rest, _, h, .cons hf hrest => by
    rw [WellFormedFields] at h
    exact List.forall_mem_cons.2 ⟨canonical_write? h.1 hf.2, canonical_fields h.2 hrest⟩

end

end Datum

/-- **The document of a well-formed value is written like the value**, if it holds no numbers but
integers. -/
theorem Value.write_toJson? {t : DataType} {d : Datum} {j : Json} (hd : d.WellFormed)
    (hj : (Value.typed t d).toJson? = some j) (hintegral : j.Integral) :
    d.write? = some j.write := by
  rw [toJson?, write?] at hj
  obtain ⟨w, hw, hread⟩ := Option.bind_eq_some_iff.1 hj
  rw [hw, (Datum.canonical_write? hd hw).read? hread hintegral]

/-- A value that is written like a document has that document. -/
theorem Value.toJson?_of_write? {v : Value} {j : Json} (hwrite : v.write? = some j.write)
    (hj : j.WellFormed) (hdepth : j.depth ≤ Json.maxDepth) : v.toJson? = some j := by
  rw [toJson?, hwrite, Option.bind_eq_bind, Option.bind_some, (Json.spells_tree j).read?]
  exact Json.toJson?_tree hj hdepth

/-- The document of a value is a document of itself. -/
theorem Value.toJson?_document {v : Value} {j : Json} (h : v.toJson? = some j) :
    (Value.typed .json (.json j)).toJson? = some j := by
  rw [toJson?] at h
  obtain ⟨w, -, hread⟩ := Option.bind_eq_some_iff.1 h
  obtain ⟨tree, -, htree⟩ := Option.bind_eq_some_iff.1 hread
  obtain ⟨hwellFormed, hdepth⟩ := Json.wellFormed_of_toJson? htree
  exact toJson?_of_write? (by rw [write?, Datum.write?]) hwellFormed hdepth

end ContractHost
