import ContractHost.Json.Record
import ContractHost.KeyMap
import ContractHost.Proofs.Json.Fields
import ContractHost.Proofs.Json.Reading

/-!
# Documents read back

A well-formed document is read back from its text as it was (`Json.ofString?_toText`), provided that
it is not nested more deeply than a reader goes. What the text spells is the **tree** of the
document (`Json.tree`); it is put together as the document is, which `tree_list` and `tree_object`
say. So whatever reads trees can be asked what it makes of the tree of a document, and a record
finds its fields there under their names (`record?_tree`).

Nothing but well-formed documents comes out of a reader: **every document that is read is well
formed**, and not nested more deeply than there was room for (`Tree.wellFormed_of_toJson?`).
-/

namespace ContractHost

namespace Json

variable {w : List Char} {t : Tree} {j : Json} {fields : List (String × Json)}

/-! ### Objects and their fields -/

namespace Tree

variable {values : List (String × Tree)} {name : String}

/-- The members of an object with these names and trees. -/
def membersOf (values : List (String × Tree)) : List (List Piece × Tree) :=
  values.map fun v ↦ (pieces v.1, v.2)

theorem named?_membersOf (values : List (String × Tree)) :
    named? (membersOf values) = some values := by
  induction values with
  | nil => rfl
  | cons v rest ih =>
    rw [membersOf, List.map_cons, named?, text?_pieces]
    dsimp only
    rw [← membersOf, ih]
    rfl

/-- Where no name repeats, a name has at most one tree. -/
theorem under_eq_lookup (h : (values.map Prod.fst).Nodup) (name : String) :
    under name values = (KeyMap.lookup name values).toList := by
  induction values with
  | nil => rfl
  | cons v rest ih =>
    obtain ⟨k, t⟩ := v
    rw [List.map_cons, List.nodup_cons] at h
    have hrest := ih h.2
    rw [under] at hrest ⊢
    rw [KeyMap.lookup]
    by_cases hk : k = name
    · subst hk
      have hnone : KeyMap.lookup k rest = none :=
        Option.eq_none_iff_forall_ne_some.2 fun v hv ↦ h.1 (KeyMap.exists_lookup_iff.1 ⟨v, hv⟩)
      rw [hnone] at hrest
      rw [List.filter_cons_of_pos (by simp), List.map_cons, hrest, if_pos rfl]
      rfl
    · rw [List.filter_cons_of_neg (by simpa using hk), if_neg hk]
      exact hrest

/-- What an object gives for a field: the tree under its name. -/
def slotOf (values : List (String × Tree)) (name : String) : Slot :=
  ((KeyMap.lookup name values).map Slot.given).getD .unnamed

/-- **A record finds its fields in an object** under their names. -/
theorem record?_membersOf (h : (values.map Prod.fst).Nodup) (names : List String) :
    (Tree.object (membersOf values)).record? names = some (names.map (slotOf values)) := by
  rw [record?, named?_membersOf, Option.bind_some]
  induction names with
  | nil => rfl
  | cons name names ih =>
    rw [slotsByName?, under_eq_lookup h, List.map_cons, slotOf]
    cases KeyMap.lookup name values with
    | none =>
      dsimp only [Option.map_none, Option.toList_none, Option.getD_none]
      rw [ih]
      rfl
    | some t =>
      dsimp only [Option.map_some, Option.toList_some, Option.getD_some]
      rw [ih]
      rfl

/-- A record with exactly the fields of an object finds all of them. -/
theorem record?_membersOf_names (h : (values.map Prod.fst).Nodup) :
    (Tree.object (membersOf values)).record? (values.map Prod.fst) =
      some (values.map fun v ↦ .given v.2) := by
  rw [record?_membersOf h, List.map_map]
  refine congrArg some (List.map_congr_left fun v hv ↦ ?_)
  have hunder : v.2 ∈ under v.1 values :=
    List.mem_map_of_mem (List.mem_filter.2 ⟨hv, beq_self_eq_true v.1⟩)
  rw [under_eq_lookup h, Option.mem_toList] at hunder
  rw [Function.comp_apply, slotOf, hunder]
  rfl

end Tree

/-! ### The tree of a document -/

/-- The tree that the text of a document spells. -/
def tree (j : Json) : Tree :=
  (Tree.parse? ((write j).map some)).getD .null

theorem tree_eq (h : Spells (write j) t) : tree j = t := by
  rw [tree, h.parse?, Option.getD_some]

theorem spells_tree (j : Json) : Spells (write j) (tree j) := by
  obtain ⟨t, ht, -⟩ := reads_write j
  rw [tree_eq ht]
  exact ht

/-- The members of an object with the trees of its fields. -/
def treeMembers (fields : List (String × Json)) : List (List Piece × Tree) :=
  Tree.membersOf (fields.map fun f ↦ (f.1, tree f.2))

@[simp] theorem tree_null : tree .null = .null :=
  tree_eq (by rw [write]; exact spells_null)

@[simp] theorem tree_bool (b : Bool) : tree (.bool b) = .bool b :=
  tree_eq (spells_bool b)

@[simp] theorem tree_string (s : String) : tree (.string s) = .string (pieces s) :=
  tree_eq (by rw [write]; exact spells_string s)

theorem tree_int (n : ℤ) : tree (.int n) = .number (Spelling.integer n).numeral := by
  refine tree_eq ?_
  rw [write, writeInt_eq_text]
  exact spells_number (Spelling.valid_integer n)

/-- A floating-point number spells a numeral that is no integer. -/
theorem exists_tree_float (x : BinaryNumber) : ∃ s : Spelling,
    s.Says (x.shortest .double .toEven) ∧ tree (.float x) = .number s.numeral ∧
      s.numeral.integral = false := by
  obtain ⟨s, hs, htext, hintegral⟩ :=
    FloatLayout.jsonDouble.exists_spelling (x.shortest .double .toEven)
  have hwrite : write (.float x) = s.text := by rw [write]; exact htext
  refine ⟨s, hs, tree_eq ?_, hintegral rfl⟩
  rw [hwrite]
  exact spells_number hs.valid

@[simp] theorem tree_list (items : List Json) : tree (.list items) = .list (items.map tree) := by
  refine tree_eq ?_
  rw [write, writeItems_eq_commas]
  refine spells_list (List.forall₂_map_left_iff.2 (List.forall₂_map_right_iff.2 ?_))
  exact List.forall₂_same.2 fun j _ ↦ spells_tree j

@[simp] theorem tree_object (fields : List (String × Json)) :
    tree (.object fields) = .object (treeMembers fields) := by
  refine tree_eq ?_
  have hspells : List.Forall₂ SpellsMember (fields.map fun f ↦ (f.1, write f.2))
      (treeMembers fields) := by
    rw [treeMembers, Tree.membersOf, List.map_map]
    refine List.forall₂_map_left_iff.2 (List.forall₂_map_right_iff.2 ?_)
    exact List.forall₂_same.2 fun f _ ↦ ⟨rfl, spells_tree f.2⟩
  have hobject := spells_object hspells
  rw [List.map_map] at hobject
  rw [write, writeFields_eq_commas]
  exact hobject

theorem tree_eq_null_iff : tree j = .null ↔ j = .null := by
  rcases j with _ | _ | n | x | _ | _ | _
  case float =>
    obtain ⟨s, -, htree, -⟩ := exists_tree_float x
    simp [htree]
  all_goals simp [tree_int]

theorem tree_eq_string_iff {s : String} : tree j = .string (pieces s) ↔ j = .string s := by
  refine ⟨fun h ↦ ?_, fun h ↦ h ▸ tree_string s⟩
  rcases j with _ | _ | n | x | s' | _ | _
  case float =>
    obtain ⟨spelling, -, htree, -⟩ := exists_tree_float x
    simp [htree] at h
  case string =>
    have hpieces : pieces s' = pieces s := by simpa using h
    have htext := text?_pieces s'
    rw [hpieces, text?_pieces] at htext
    rw [Option.some.inj htext]
  all_goals simp [tree_int] at h

/-! ### Depth and well-formedness, part by part -/

theorem depth_le_of_mem {items : List Json} (h : j ∈ items) : j.depth ≤ depthItems items := by
  induction items with
  | nil => cases h
  | cons i rest ih =>
    rw [depthItems]
    rcases List.mem_cons.1 h with rfl | h
    · exact le_max_left _ _
    · exact (ih h).trans (le_max_right _ _)

theorem depthItems_le {items : List Json} {n : ℕ} (h : ∀ i ∈ items, i.depth ≤ n) :
    depthItems items ≤ n := by
  induction items with
  | nil => exact n.zero_le
  | cons i rest ih =>
    obtain ⟨hi, hrest⟩ := List.forall_mem_cons.1 h
    rw [depthItems]
    exact max_le hi (ih hrest)

theorem depth_le_of_mem_fields {f : String × Json} (h : f ∈ fields) :
    f.2.depth ≤ depthFields fields := by
  induction fields with
  | nil => cases h
  | cons g rest ih =>
    rw [depthFields]
    rcases List.mem_cons.1 h with rfl | h
    · exact le_max_left _ _
    · exact (ih h).trans (le_max_right _ _)

theorem depthFields_le {n : ℕ} (h : ∀ f ∈ fields, f.2.depth ≤ n) : depthFields fields ≤ n := by
  induction fields with
  | nil => exact n.zero_le
  | cons f rest ih =>
    obtain ⟨hf, hrest⟩ := List.forall_mem_cons.1 h
    rw [depthFields]
    exact max_le hf (ih hrest)

theorem wellFormedItems_iff {items : List Json} :
    WellFormedItems items ↔ ∀ i ∈ items, i.WellFormed := by
  induction items with
  | nil => exact iff_of_true trivial fun _ hi ↦ absurd hi List.not_mem_nil
  | cons i rest ih => rw [WellFormedItems, ih, List.forall_mem_cons]

theorem wellFormedFields_iff : WellFormedFields fields ↔ ∀ f ∈ fields, f.2.WellFormed := by
  induction fields with
  | nil => exact iff_of_true trivial fun _ hf ↦ absurd hf List.not_mem_nil
  | cons f rest ih => rw [WellFormedFields, ih, List.forall_mem_cons]

/-! ### Reading the tree of a document -/

/-- A number that is written reads back. -/
theorem toJson?_tree_float {x : BinaryNumber} (hx : BinaryFormat.double.Normal x) (room : ℕ) :
    (tree (.float x)).toJson? room = some (.float x) := by
  obtain ⟨s, ⟨-, k, hvalue⟩, htree, hintegral⟩ := exists_tree_float x
  have hint : s.numeral.int? = none := by
    rw [Numeral.int?, hintegral, if_neg Bool.false_ne_true]
  have hbinary : s.numeral.value.toBinary .double = .finite x := by
    rw [hvalue, Decimal.toBinary_padded]
    exact BinaryNumber.toBinary_shortest hx .toEven
  rw [htree, Tree.toJson?, ofNumeral?, hint]
  simp only [ofNumeral?.ofDecimal, hbinary]

/-- An integer that is written reads back. -/
theorem toJson?_tree_int {n : ℤ} (hn : IntegerRange n) (room : ℕ) :
    (tree (.int n)).toJson? room = some (.int n) := by
  rw [tree_int, Tree.toJson?, ofNumeral?, int?_integer]
  exact if_pos hn

theorem toItems?_map_tree {items : List Json} {room : ℕ}
    (h : ∀ i ∈ items, (tree i).toJson? room = some i) :
    Tree.toItems? room (items.map tree) = some items := by
  induction items with
  | nil => rw [List.map_nil, Tree.toItems?]
  | cons i rest ih =>
    obtain ⟨hi, hrest⟩ := List.forall_mem_cons.1 h
    rw [List.map_cons, Tree.toItems?, hi]
    dsimp only
    rw [ih hrest]
    rfl

theorem toFields?_treeMembers {room : ℕ} (h : ∀ f ∈ fields, (tree f.2).toJson? room = some f.2) :
    Tree.toFields? room (treeMembers fields) = some fields := by
  induction fields with
  | nil => rw [treeMembers, List.map_nil, Tree.membersOf, List.map_nil, Tree.toFields?]
  | cons f rest ih =>
    obtain ⟨hf, hrest⟩ := List.forall_mem_cons.1 h
    rw [treeMembers, List.map_cons, Tree.membersOf, List.map_cons, Tree.toFields?, text?_pieces, hf]
    dsimp only
    rw [← Tree.membersOf, ← treeMembers, ih hrest]
    rfl

/-- **A well-formed document is read back from its tree**, where there is room for its depth. -/
theorem toJson?_tree {room : ℕ} (hj : j.WellFormed) (hdepth : j.depth ≤ room) :
    (tree j).toJson? room = some j := by
  induction j using induction_on_parts generalizing room with
  | null => rw [tree_null, Tree.toJson?]
  | bool b => rw [tree_bool, Tree.toJson?]
  | int n => exact toJson?_tree_int hj room
  | float x => exact toJson?_tree_float hj room
  | string s =>
    rw [tree_string, Tree.toJson?, text?_pieces]
    rfl
  | list items ih =>
    rw [WellFormed, wellFormedItems_iff] at hj
    cases room with
    | zero => exact absurd hdepth (Nat.not_succ_le_zero _)
    | succ room =>
      have hall : ∀ i ∈ items, (tree i).toJson? room = some i := fun i hi ↦
        ih i hi (hj i hi) ((depth_le_of_mem hi).trans (Nat.le_of_succ_le_succ hdepth))
      rw [tree_list, Tree.toJson?, toItems?_map_tree hall]
      rfl
  | object fields ih =>
    rw [WellFormed, wellFormedFields_iff] at hj
    cases room with
    | zero => exact absurd hdepth (Nat.not_succ_le_zero _)
    | succ room =>
      have hall : ∀ f ∈ fields, (tree f.2).toJson? room = some f.2 := fun f hf ↦
        ih f hf (hj.2 f hf) ((depth_le_of_mem_fields hf).trans (Nat.le_of_succ_le_succ hdepth))
      rw [tree_object, Tree.toJson?, toFields?_treeMembers hall]
      exact congrArg some (congrArg object (collect_eq_self hj.1))

/-- **A document that is written is read as it was.** -/
theorem ofString?_toText (hj : j.WellFormed) (hdepth : j.depth ≤ maxDepth) :
    ofString? j.toText = some j := by
  have hsource : Utf8.source j.toText = (write j).map some := by
    rw [toText, Utf8.source, String.toList_ofList]
  rw [ofString?, hsource, (spells_tree j).read?]
  exact toJson?_tree hj hdepth

/-! ### What comes out of a reader -/

theorem ofNumeral?_spec {n : Numeral} (h : ofNumeral? n = some j) :
    j.WellFormed ∧ j.depth = 0 := by
  have hdecimal : ofNumeral?.ofDecimal n.value = some j → j.WellFormed ∧ j.depth = 0 := by
    intro h
    unfold ofNumeral?.ofDecimal at h
    split at h
    · next x hx =>
      cases h
      exact ⟨Decimal.normal_of_toBinary hx, rfl⟩
    · cases h
  unfold ofNumeral? at h
  split at h
  · split at h
    · next hrange =>
      cases h
      exact ⟨hrange, rfl⟩
    · exact hdecimal h
  · exact hdecimal h

/-- **Every document that is read is well formed**, and has room. -/
theorem wellFormed_of_toJson? : ∀ {t : Tree} {room : ℕ} {j : Json}, t.toJson? room = some j →
    j.WellFormed ∧ j.depth ≤ room
  | .null, room, j, h => by
    rw [Tree.toJson?] at h
    cases h
    exact ⟨trivial, room.zero_le⟩
  | .bool b, room, j, h => by
    rw [Tree.toJson?] at h
    cases h
    exact ⟨trivial, room.zero_le⟩
  | .number n, room, j, h => by
    rw [Tree.toJson?] at h
    obtain ⟨hj, hdepth⟩ := ofNumeral?_spec h
    exact ⟨hj, hdepth ▸ room.zero_le⟩
  | .string s, room, j, h => by
    rw [Tree.toJson?] at h
    obtain ⟨s, -, rfl⟩ := Option.map_eq_some_iff.1 h
    exact ⟨trivial, room.zero_le⟩
  | .list trees, 0, j, h => by
    rw [Tree.toJson?] at h
    cases h
  | .list trees, room + 1, j, h => by
    rw [Tree.toJson?] at h
    obtain ⟨items, hitems, rfl⟩ := Option.map_eq_some_iff.1 h
    have hread := toItems?_spec hitems
    have hall : ∀ i ∈ items, i.WellFormed ∧ i.depth ≤ room := by
      intro i hi
      obtain ⟨k, hk, rfl⟩ := List.mem_iff_getElem.1 hi
      have hk' : k < trees.length := hread.length_eq ▸ hk
      have := List.sizeOf_lt_of_mem (List.getElem_mem hk')
      exact wellFormed_of_toJson? (List.forall₂_iff_get.1 hread |>.2 k hk' hk)
    exact ⟨wellFormedItems_iff.2 fun i hi ↦ (hall i hi).1,
      Nat.succ_le_succ (depthItems_le fun i hi ↦ (hall i hi).2)⟩
  | .object members, 0, j, h => by
    rw [Tree.toJson?] at h
    cases h
  | .object members, room + 1, j, h => by
    rw [Tree.toJson?] at h
    obtain ⟨fields, hfields, rfl⟩ := Option.map_eq_some_iff.1 h
    have hread := toFields?_spec hfields
    have hall : ∀ f ∈ fields, f.2.WellFormed ∧ f.2.depth ≤ room := by
      intro f hf
      obtain ⟨i, hi, rfl⟩ := List.mem_iff_getElem.1 hf
      have hi' : i < members.length := hread.length_eq ▸ hi
      have := List.sizeOf_lt_of_mem (List.getElem_mem hi')
      exact wellFormed_of_toJson? (List.forall₂_iff_get.1 hread |>.2 i hi' hi).2
    exact ⟨⟨nodup_collect fields, wellFormedFields_iff.2 fun f hf ↦
        (hall f (mem_of_mem_collect hf)).1⟩,
      Nat.succ_le_succ (depthFields_le fun f hf ↦ (hall f (mem_of_mem_collect hf)).2)⟩
termination_by t => sizeOf t
decreasing_by
  · simp only [Tree.list.sizeOf_spec, List.get_eq_getElem] at *
    omega
  · have hsize : sizeOf members[i].2 < sizeOf members[i] := by
      obtain ⟨k, v⟩ := members[i]
      simp only [Prod.mk.sizeOf_spec]
      omega
    simp only [Tree.object.sizeOf_spec, List.get_eq_getElem] at *
    omega

/-! ### Fields of a document in its tree -/

/-- What the tree of an object gives for a field: the tree of the value under that name. -/
def slot (fields : List (String × Json)) (name : String) : Slot :=
  ((field? name fields).map fun j ↦ Slot.given (tree j)).getD .unnamed

theorem field?_eq_lookup (name : String) (fields : List (String × Json)) :
    field? name fields = KeyMap.lookup name fields := by
  induction fields with
  | nil => rfl
  | cons f rest ih => rw [field?, KeyMap.lookup, ih]

/-- **A record finds its fields in the tree of an object** under their names. -/
theorem record?_tree (hnodup : (fields.map Prod.fst).Nodup) (names : List String) :
    (tree (.object fields)).record? names = some (names.map (slot fields)) := by
  have hnames : (fields.map fun f ↦ (f.1, tree f.2)).map Prod.fst = fields.map Prod.fst := by
    rw [List.map_map]
    rfl
  rw [tree_object, treeMembers, Tree.record?_membersOf (hnames ▸ hnodup)]
  refine congrArg some (List.map_congr_left fun name _ ↦ ?_)
  rw [Tree.slotOf, KeyMap.lookup_map, slot, field?_eq_lookup, Option.map_map]
  rfl

end Json

end ContractHost
