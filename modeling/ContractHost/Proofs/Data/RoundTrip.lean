import ContractHost.Proofs.Data.Writing
import ContractHost.Proofs.Json.RoundTrip

/-!
# Reading back what was written

A datum of a **discrete** type (`DataType.Discrete`), one built from truth values, strings and
integers, is written as a text from which the type reads the datum again
(`DataType.reads_back`). Two things are kept apart from the walk over the type:

* Reading a map sorts it. `Datum.collected` is what a datum becomes in this way: no entry is lost
  (`MapKey.collect_perm`), and a datum whose maps list their keys in order is left as it is
  (`Datum.collected_of_inKeyOrder`). A hashed map may be written in any order, so the walk over the
  type asks for none.
* Reading counts the lists and objects that are open. `Datum.depth` is how many a datum needs.

An optional datum is written without a mark of its own, so it is told from its absence only where
its text is not `null`. That is why the optional parts of a discrete type are records.
-/

namespace ContractHost

open Json (Spells SpellsMember Tree commas memberText pieces)

/-! ### The depth of a datum -/

mutual

/-- How many lists and objects are open at once in the text of a datum. -/
def Datum.depth : Datum → Nat
  | .list items => Datum.depthItems items + 1
  | .map entries => Datum.depthEntries entries + 1
  | .record fields => Datum.depthFields fields + 1
  | .present d => d.depth
  | .json j => j.depth
  | .dynamic v => v.depth
  | .bool _ | .string _ | .int _ | .single _ | .double _ | .char _ | .nil => 0

/-- The depth of the deepest item. -/
def Datum.depthItems : List Datum → Nat
  | [] => 0
  | d :: rest => max d.depth (Datum.depthItems rest)

/-- The depth of the deepest value of a map. -/
def Datum.depthEntries : List (MapKey × Datum) → Nat
  | [] => 0
  | (_, d) :: rest => max d.depth (Datum.depthEntries rest)

/-- The depth of the deepest field. -/
def Datum.depthFields : List (String × Datum) → Nat
  | [] => 0
  | (_, d) :: rest => max d.depth (Datum.depthFields rest)

/-- How many lists and objects are open at once in the text of a value. -/
def Value.depth : Value → Nat
  | .absent _ => 0
  | .typed _ d => d.depth

end

/-! ### Maps in the order of their keys -/

mutual

/-- A datum with the entries of every map in the order of their keys, and of entries with the same
key the last one. -/
def Datum.collected : Datum → Datum
  | .list items => .list (Datum.collectedItems items)
  | .map entries => .map (MapKey.collect (Datum.collectedEntries entries))
  | .record fields => .record (Datum.collectedFields fields)
  | .present d => .present d.collected
  | d => d

/-- Items with their maps in order. -/
def Datum.collectedItems : List Datum → List Datum
  | [] => []
  | d :: rest => d.collected :: Datum.collectedItems rest

/-- Entries in their place, with the maps inside them in order. -/
def Datum.collectedEntries : List (MapKey × Datum) → List (MapKey × Datum)
  | [] => []
  | (k, d) :: rest => (k, d.collected) :: Datum.collectedEntries rest

/-- Fields with their maps in order. -/
def Datum.collectedFields : List (String × Datum) → List (String × Datum)
  | [] => []
  | (k, d) :: rest => (k, d.collected) :: Datum.collectedFields rest

end

mutual

/-- Every map inside a datum lists its keys in ascending order, and each of them once. -/
def Datum.InKeyOrder : Datum → Prop
  | .list items => Datum.ItemsInKeyOrder items
  | .map entries => entries.Pairwise (fun a b ↦ a.1.lt b.1 = true) ∧ Datum.EntriesInKeyOrder entries
  | .record fields => Datum.FieldsInKeyOrder fields
  | .present d => d.InKeyOrder
  | _ => True

/-- Every map inside an item is in order. -/
def Datum.ItemsInKeyOrder : List Datum → Prop
  | [] => True
  | d :: rest => d.InKeyOrder ∧ Datum.ItemsInKeyOrder rest

/-- Every map inside the value of an entry is in order. -/
def Datum.EntriesInKeyOrder : List (MapKey × Datum) → Prop
  | [] => True
  | (_, d) :: rest => d.InKeyOrder ∧ Datum.EntriesInKeyOrder rest

/-- Every map inside a field is in order. -/
def Datum.FieldsInKeyOrder : List (String × Datum) → Prop
  | [] => True
  | (_, d) :: rest => d.InKeyOrder ∧ Datum.FieldsInKeyOrder rest

end

theorem MapKey.lt_irrefl (k : MapKey) : k.lt k = false := by
  cases k with
  | bool b => cases b <;> rfl
  | _ => simp [MapKey.lt]

theorem MapKey.lt_asymm {k k' : MapKey} (h : k.lt k' = true) : k'.lt k = false := by
  cases k <;> cases k' <;> simp only [MapKey.lt, decide_eq_true_eq, decide_eq_false_iff_not,
    Bool.and_eq_true, Bool.not_eq_true', Bool.false_eq_true] at h ⊢
  case string.string => exact String.lt_asymm h
  case int.int => exact Int.lt_asymm h
  case bool.bool =>
    rw [h.1, h.2]
    rfl
  case char.char => exact Nat.lt_asymm h

namespace MapKey

/-- An entry that comes after all others is put at the end. -/
theorem insertEntry_of_forall_lt {k : MapKey} {d : Datum} {entries : List (MapKey × Datum)}
    (h : ∀ e ∈ entries, e.1.lt k = true) : insertEntry k d entries = entries ++ [(k, d)] := by
  induction entries with
  | nil => rfl
  | cons e rest ih =>
    obtain ⟨k', d'⟩ := e
    obtain ⟨hlt, hrest⟩ := List.forall_mem_cons.1 h
    have hne : k ≠ k' := by
      rintro rfl
      exact absurd hlt (by simp [lt_irrefl])
    rw [insertEntry, if_neg hne, if_neg (by simp [lt_asymm hlt]), ih hrest]
    rfl

theorem collect_append (entries : List (MapKey × Datum)) (e : MapKey × Datum) :
    collect (entries ++ [e]) = insertEntry e.1 e.2 (collect entries) := by
  rw [collect, List.foldl_append]
  rfl

/-- **Collecting leaves a map as it is whose keys are in order.** -/
theorem collect_of_pairwise {entries : List (MapKey × Datum)}
    (h : entries.Pairwise fun a b ↦ a.1.lt b.1 = true) : collect entries = entries := by
  induction entries using List.reverseRecOn with
  | nil => rfl
  | append_singleton rest e ih =>
    obtain ⟨hrest, -, hlast⟩ := List.pairwise_append.1 h
    rw [collect_append, ih hrest]
    exact insertEntry_of_forall_lt fun a ha ↦ hlast a ha e (List.mem_singleton.2 rfl)

/-- An entry with a new key is added to the others. -/
theorem insertEntry_perm {k : MapKey} {d : Datum} {entries : List (MapKey × Datum)}
    (h : k ∉ entries.map Prod.fst) : (insertEntry k d entries).Perm ((k, d) :: entries) := by
  induction entries with
  | nil => exact .refl _
  | cons e rest ih =>
    obtain ⟨k', d'⟩ := e
    rw [List.map_cons, List.mem_cons, not_or] at h
    rw [insertEntry, if_neg h.1]
    split
    · exact .refl _
    · exact ((ih h.2).cons _).trans (.swap _ _ _)

/-- **Collecting keeps the entries of a map, in whatever order they were listed.** -/
theorem collect_perm {entries : List (MapKey × Datum)} (h : (entries.map Prod.fst).Nodup) :
    (collect entries).Perm entries := by
  induction entries using List.reverseRecOn with
  | nil => exact .refl _
  | append_singleton rest e ih =>
    rw [List.map_append, List.nodup_append] at h
    obtain ⟨hrest, -, hnew⟩ := h
    have hperm := ih hrest
    have hkey : e.1 ∉ (collect rest).map Prod.fst := fun hmem ↦
      hnew _ ((hperm.map Prod.fst).mem_iff.1 hmem) e.1 (List.mem_singleton.2 rfl) rfl
    rw [collect_append]
    exact (insertEntry_perm hkey).trans ((hperm.cons e).trans (List.perm_append_singleton _ _).symm)

end MapKey

namespace Datum

mutual

/-- **A datum whose maps are in order is left as it is.** -/
theorem collected_of_inKeyOrder : ∀ {d : Datum}, d.InKeyOrder → d.collected = d
  | .list items, h => by
    rw [InKeyOrder] at h
    rw [collected, collectedItems_of_inKeyOrder h]
  | .map entries, h => by
    rw [InKeyOrder] at h
    rw [collected, collectedEntries_of_inKeyOrder h.2, MapKey.collect_of_pairwise h.1]
  | .record fields, h => by
    rw [InKeyOrder] at h
    rw [collected, collectedFields_of_inKeyOrder h]
  | .present d, h => by
    rw [InKeyOrder] at h
    rw [collected, collected_of_inKeyOrder h]
  | .bool _, _ | .string _, _ | .int _, _ | .single _, _ | .double _, _ | .char _, _ | .json _, _
  | .nil, _ | .dynamic _, _ => rfl

theorem collectedItems_of_inKeyOrder : ∀ {items : List Datum}, ItemsInKeyOrder items →
    collectedItems items = items
  | [], _ => rfl
  | d :: rest, h => by
    rw [ItemsInKeyOrder] at h
    rw [collectedItems, collected_of_inKeyOrder h.1, collectedItems_of_inKeyOrder h.2]

theorem collectedEntries_of_inKeyOrder : ∀ {entries : List (MapKey × Datum)},
    EntriesInKeyOrder entries → collectedEntries entries = entries
  | [], _ => rfl
  | (_, d) :: rest, h => by
    rw [EntriesInKeyOrder] at h
    rw [collectedEntries, collected_of_inKeyOrder h.1, collectedEntries_of_inKeyOrder h.2]

theorem collectedFields_of_inKeyOrder : ∀ {fields : List (String × Datum)},
    FieldsInKeyOrder fields → collectedFields fields = fields
  | [], _ => rfl
  | (_, d) :: rest, h => by
    rw [FieldsInKeyOrder] at h
    rw [collectedFields, collected_of_inKeyOrder h.1, collectedFields_of_inKeyOrder h.2]

end

end Datum

/-! ### Discrete types -/

namespace DataType

/-- Values are records. -/
def isRecord : DataType → Bool
  | .record .. => true
  | _ => false

mutual

/-- A type is built from truth values, strings and integers: by lists, arrays, maps keyed by
strings, records whose shown fields differ in their names, and optional records. -/
def Discrete : DataType → Prop
  | .scalar s => s ≠ .single ∧ s ≠ .double
  | .list elem => Discrete elem
  | .array elem _ => Discrete elem
  | .map _ key value => key = .string ∧ Discrete value
  | .option inner => inner.isRecord = true ∧ Discrete inner
  | .record _ fields => (shownNames fields).Nodup ∧ FieldsDiscrete fields
  | .signed128 | .unsigned128 | .char | .dynamic | .json => False

/-- Every field has a discrete type. -/
def FieldsDiscrete : List (Field × DataType) → Prop
  | [] => True
  | (_, t) :: rest => Discrete t ∧ FieldsDiscrete rest

end

end DataType

/-! ### Reading back -/

namespace DataType

/-- A text is read as a datum with the maps in order, wherever there is room for its depth. -/
def ReadsBack (t : DataType) (w : List Char) (d : Datum) : Prop :=
  ∃ tree, Spells w tree ∧ ∀ room, d.depth ≤ room → t.decode? room tree = some d.collected

/-- A scalar has no maps in it. -/
theorem collected_of_fits_scalar {s : Scalar} {d : Datum} (h : s.Fits d) : d.collected = d := by
  cases s <;> cases d <;> first | rfl | exact h.elim

/-- A datum that opens a list or an object is read with one less room inside. -/
theorem readsBack_of_succ {t : DataType} {w : List Char} {d : Datum} {inner : Nat} {tree : Tree}
    (hdepth : d.depth = inner + 1) (hspells : Spells w tree)
    (h : ∀ room, inner ≤ room → t.decode? (room + 1) tree = some d.collected) :
    t.ReadsBack w d := by
  refine ⟨tree, hspells, fun room hroom ↦ ?_⟩
  rw [hdepth] at hroom
  obtain ⟨room, rfl⟩ := Nat.exists_eq_add_of_le' (Nat.le_of_add_left_le hroom)
  exact h room (Nat.le_of_succ_le_succ hroom)

theorem readsBack_scalar {s : Scalar} (hs : s ≠ .single ∧ s ≠ .double) {d : Datum} {w : List Char}
    (hfits : s.Fits d) (hw : d.write? = some w) : ReadsBack (.scalar s) w d := by
  unfold ReadsBack
  rw [collected_of_fits_scalar hfits]
  cases s <;> cases d <;> simp only [Scalar.Fits] at hfits <;> rw [Datum.write?] at hw <;> cases hw
  case bool.bool b =>
    refine ⟨_, Json.spells_bool b, fun room _ ↦ ?_⟩
    rw [decode?, Scalar.decode?]
  case string.string s =>
    refine ⟨_, Json.spells_string s, fun room _ ↦ ?_⟩
    rw [decode?, Scalar.decode?, Json.text?_pieces]
    rfl
  case integer.int k n =>
    rw [Json.writeInt_eq_text]
    refine ⟨_, Json.spells_number (Json.Spelling.valid_integer n), fun room _ ↦ ?_⟩
    rw [decode?, Scalar.decode?, Json.int?_integer]
    exact if_pos hfits
  case single.single => exact absurd rfl hs.1
  case double.double => exact absurd rfl hs.2

/-- The items of a list are written as the items of a list of trees, and read back one by one. -/
theorem exists_items {t : DataType} {items : List Datum} {w : List Char}
    (hw : (Datum.list items).write? = some w)
    (hitems : ∀ d ∈ items, ∀ w, d.write? = some w → t.ReadsBack w d) :
    ∃ trees, Spells w (.list trees) ∧ trees.length = items.length ∧
      ∀ room, Datum.depthItems items ≤ room →
        decodeAll? (t.decode? room) trees = some (Datum.collectedItems items) := by
  rw [Datum.write?] at hw
  obtain ⟨body, hbody, rfl⟩ := Option.map_eq_some_iff.1 hw
  obtain ⟨ws, rfl, hws⟩ := Datum.writeItems?_spec hbody
  obtain ⟨trees, hspells, hdecode⟩ : ∃ trees, List.Forall₂ Spells ws trees ∧
      ∀ room, Datum.depthItems items ≤ room →
        decodeAll? (t.decode? room) trees = some (Datum.collectedItems items) := by
    clear hw hbody
    induction hws with
    | nil => exact ⟨[], .nil, fun _ _ ↦ rfl⟩
    | @cons d w items ws hd _ ih =>
      obtain ⟨tree, hspells, hdecode⟩ := hitems d List.mem_cons_self w hd
      obtain ⟨trees, hspellss, hdecodes⟩ := ih fun d hd ↦ hitems d (.tail _ hd)
      refine ⟨tree :: trees, .cons hspells hspellss, fun room hroom ↦ ?_⟩
      rw [Datum.depthItems] at hroom
      rw [decodeAll?, hdecode room (by omega)]
      dsimp only
      rw [hdecodes room (by omega)]
      rfl
  exact ⟨trees, Json.spells_list hspells, (hws.length_eq.trans hspells.length_eq).symm, hdecode⟩

/-- The entries of a map keyed by strings are written as members of an object, and read back one by
one. -/
theorem exists_entries {t : DataType} {entries : List (MapKey × Datum)} {w : List Char}
    (hw : (Datum.map entries).write? = some w) (hkeys : ∀ e ∈ entries, KeyType.string.Fits e.1)
    (hentries : ∀ e ∈ entries, ∀ w, e.2.write? = some w → t.ReadsBack w e.2) :
    ∃ fields, Spells w (.object fields) ∧ ∀ room, Datum.depthEntries entries ≤ room →
      decodeEntries? .string (t.decode? room) fields = some (Datum.collectedEntries entries) := by
  rw [Datum.write?] at hw
  obtain ⟨body, hbody, rfl⟩ := Option.map_eq_some_iff.1 hw
  obtain ⟨members, rfl, hmembers⟩ := Datum.writeEntries?_spec hbody
  obtain ⟨fields, hspells, hdecode⟩ : ∃ fields, List.Forall₂ SpellsMember members fields ∧
      ∀ room, Datum.depthEntries entries ≤ room →
        decodeEntries? .string (t.decode? room) fields = some (Datum.collectedEntries entries) := by
    clear hw hbody
    induction hmembers with
    | nil => exact ⟨[], .nil, fun _ _ ↦ rfl⟩
    | @cons e m entries members he _ ih =>
      obtain ⟨k, d⟩ := e
      obtain ⟨tree, hspells, hdecode⟩ : t.ReadsBack m.2 d :=
        hentries _ List.mem_cons_self m.2 he.2
      obtain ⟨fields, hspellss, hdecodes⟩ :=
        ih (fun e he ↦ hkeys e (.tail _ he)) fun e he ↦ hentries e (.tail _ he)
      have hkey : k = .string m.1 := by
        have := hkeys _ List.mem_cons_self
        cases k <;> simp only [KeyType.Fits] at this
        exact congrArg _ (Json.writeString_inj he.1)
      refine ⟨(pieces m.1, tree) :: fields, .cons ⟨rfl, hspells⟩ hspellss, fun room hroom ↦ ?_⟩
      rw [Datum.depthEntries] at hroom
      rw [decodeEntries?, KeyType.decode?, Json.text?_pieces, hdecode room (by omega)]
      dsimp only [Option.map_some]
      rw [hdecodes room (by omega), hkey]
      rfl
  exact ⟨fields, Json.spells_object hspells, hdecode⟩

/-- An optional record is told from its absence: a record is never written as `null`. -/
theorem decode?_option_of_isRecord {inner : DataType} (h : inner.isRecord = true) {room : Nat}
    {tree : Tree} {d : Datum} (hdecode : inner.decode? room tree = some d) :
    (DataType.option inner).decode? room tree = some (.present d) := by
  cases inner <;> simp only [isRecord, Bool.false_eq_true] at h
  cases tree with
  | null => cases room <;> simp [decode?, Tree.record?] at hdecode
  | _ => simp [decode?, hdecode]

mutual

/-- **What is written of a discrete type is read back.** -/
theorem reads_back : ∀ (t : DataType) {d : Datum} {w : List Char}, t.Discrete → Datum.Fits t d →
    d.write? = some w → t.ReadsBack w d
  | .scalar s, d, w, ht, hfits, hw => by
    rw [Discrete] at ht
    rw [Datum.Fits] at hfits
    exact readsBack_scalar ht hfits hw
  | .list elem, d, w, ht, hfits, hw => by
    cases d <;> simp only [Datum.Fits] at hfits
    rw [Discrete] at ht
    obtain ⟨trees, hspells, -, hdecode⟩ :=
      exists_items hw fun d hd w hw ↦ reads_back elem ht (hfits d hd) hw
    refine readsBack_of_succ (by rw [Datum.depth]) hspells fun room hroom ↦ ?_
    rw [decode?, hdecode room hroom, Datum.collected]
    rfl
  | .array elem n, d, w, ht, hfits, hw => by
    cases d <;> simp only [Datum.Fits] at hfits
    rw [Discrete] at ht
    obtain ⟨trees, hspells, hlength, hdecode⟩ :=
      exists_items hw fun d hd w hw ↦ reads_back elem ht (hfits.2 d hd) hw
    refine readsBack_of_succ (by rw [Datum.depth]) hspells fun room hroom ↦ ?_
    rw [decode?, if_pos (hlength.trans hfits.1), hdecode room hroom, Datum.collected]
    rfl
  | .map _ key value, d, w, ht, hfits, hw => by
    cases d <;> simp only [Datum.Fits] at hfits
    rw [Discrete] at ht
    obtain ⟨rfl, ht⟩ := ht
    obtain ⟨fields, hspells, hdecode⟩ := exists_entries hw (fun e he ↦ (hfits e he).1)
      fun e he w hw ↦ reads_back value ht (hfits e he).2 hw
    refine readsBack_of_succ (by rw [Datum.depth]) hspells fun room hroom ↦ ?_
    rw [decode?, hdecode room hroom, Datum.collected]
    rfl
  | .option inner, d, w, ht, hfits, hw => by
    rw [Discrete] at ht
    cases d <;> simp only [Datum.Fits] at hfits
    · rw [Datum.write?, Json.write] at hw
      cases hw
      refine ⟨_, Json.spells_null, fun room _ ↦ ?_⟩
      rw [decode?]
      rfl
    · rw [Datum.write?] at hw
      obtain ⟨tree, hspells, hdecode⟩ := reads_back inner ht.2 hfits hw
      refine ⟨tree, hspells, fun room hroom ↦ ?_⟩
      rw [Datum.depth] at hroom
      rw [decode?_option_of_isRecord ht.1 (hdecode room hroom), Datum.collected]
  | .record name fields, d, w, ht, hfits, hw => by
    cases d <;> simp only [Datum.Fits] at hfits
    rw [Discrete] at ht
    rw [Datum.write?] at hw
    obtain ⟨body, hbody, rfl⟩ := Option.map_eq_some_iff.1 hw
    rw [Datum.writeFields?_eq] at hbody
    obtain ⟨texts, rfl, htexts⟩ := Datum.writeEntries?_spec hbody
    rw [List.forall₂_map_left_iff] at htexts
    obtain ⟨values, hnames, hspells, hdecode⟩ := exists_values fields ht.2 hfits htexts
    have hslots := Tree.record?_membersOf_names (hnames ▸ ht.1)
    rw [hnames] at hslots
    refine readsBack_of_succ (by rw [Datum.depth]) (Json.spells_object hspells) fun room hroom ↦ ?_
    rw [decode?, hslots]
    dsimp only
    rw [hdecode room hroom, Datum.collected]
    rfl

/-- The fields of a record are written under their names, and read back one by one. -/
theorem exists_values : ∀ (fields : List (Field × DataType)) {data : List (String × Datum)}
    {texts : List (String × List Char)}, FieldsDiscrete fields → Datum.FitsFields fields data →
    List.Forall₂ (fun f m ↦ Datum.WritesEntry (.string f.1, f.2) m) data texts →
      ∃ values : List (String × Tree), values.map Prod.fst = shownNames fields ∧
        List.Forall₂ SpellsMember texts (Tree.membersOf values) ∧
        ∀ room, Datum.depthFields data ≤ room →
          decodeFields? fields room (values.map fun v ↦ .given v.2) =
            some (Datum.collectedFields data)
  | [], data, texts, _, hfits, htexts => by
    cases data <;> simp only [Datum.FitsFields] at hfits
    cases htexts
    exact ⟨[], rfl, .nil, fun _ _ ↦ rfl⟩
  | (⟨name, true⟩, t) :: rest, data, texts, ht, hfits, htexts => by
    rw [FieldsDiscrete] at ht
    rw [Datum.FitsFields] at hfits
    obtain ⟨values, hnames, hspells, hdecode⟩ := exists_values rest ht.2 hfits htexts
    refine ⟨values, hnames, hspells, fun room hroom ↦ ?_⟩
    rw [decodeFields?]
    exact hdecode room hroom
  | (⟨name, false⟩, t) :: rest, data, texts, ht, hfits, htexts => by
    rw [FieldsDiscrete] at ht
    cases htexts with
    | nil => simp only [Datum.FitsFields] at hfits
    | @cons f m data texts hf htexts =>
      obtain ⟨k, d⟩ := f
      rw [Datum.FitsFields] at hfits
      obtain ⟨rfl, hfits, hfitss⟩ := hfits
      obtain ⟨tree, hspells, hdecode⟩ := reads_back t ht.1 hfits hf.2
      obtain ⟨values, hnames, hspellss, hdecodes⟩ := exists_values rest ht.2 hfitss htexts
      have hname : k = m.1 := Json.writeString_inj hf.1
      refine ⟨(k, tree) :: values, congrArg (k :: ·) hnames,
        .cons ⟨congrArg pieces hname, hspells⟩ hspellss, fun room hroom ↦ ?_⟩
      rw [Datum.depthFields] at hroom
      rw [List.map_cons, decodeFields?]
      dsimp only
      rw [hdecode room (by omega)]
      dsimp only
      rw [hdecodes room (by omega)]
      rfl

end

/-- **A text that was written is read as the datum it was written from.** -/
theorem read?_of_write? {t : DataType} {d : Datum} {w : List Char} (ht : t.Discrete)
    (hfits : Datum.Fits t d) (hdepth : d.depth ≤ Json.maxDepth) (hw : d.write? = some w) :
    t.read? (w.map some) = some d.collected := by
  obtain ⟨tree, hspells, hdecode⟩ := t.reads_back ht hfits hw
  rw [read?, hspells.parse?]
  exact hdecode _ hdepth

end DataType

end ContractHost
