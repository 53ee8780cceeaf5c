import ContractHost.Proofs.Data.RoundTrip
import ContractHost.Proofs.Json.Nesting
import ContractHost.Proofs.Number.Finite

/-!
# Values that have a document

A value is turned into a document by writing it and reading the text (`Value.toJson?`). Two things
can stand in the way: a number too large for a document, and lists and objects nested more deeply
than a reader goes. The first never happens to the numbers that a value can hold
(`Datum.Representable`), whatever their format. So **a value that is nested no more deeply than a
reader goes has a document** (`Value.exists_toJson?`), and **a value without a document is told by
the column of a bracket** (`Value.toJson?_eq_none_iff`), which the message about it names.

Both are read off one account of writing (`Datum.Written`). Either a datum has a text, and the text
decides by itself how much room a reader needs (`Json.Denotes`); or there is an obstacle in it, a
dynamic value whose own text is nested too deeply. A dynamic value is read and written again on the
way, and that may drop fields of one name; so the depth of a datum bounds the depth of its text, and
says no more about it.
-/

namespace ContractHost

open Json (Spells SpellsMember Tree commas memberText pieces)

/-! ### Texts of documents -/

namespace Json

variable {w : List Char} {n : ℕ}

/-- A text stands for a document with `n` lists and objects inside one another. A reader finds one
if it has room for so many, and only then; a scan of the text comes to the same. -/
structure Denotes (w : List Char) (n : ℕ) : Prop where
  nests : Nests w n
  tree : ∃ t, Spells w t ∧ (∀ room, n ≤ room → ∃ j, t.toJson? room = some j ∧ j.depth ≤ n) ∧
    ∀ room, room < n → t.toJson? room = none

namespace Denotes

/-- A text that stands for a document of moderate depth is read as a well-formed one. -/
theorem exists_read? (h : Denotes w n) (hn : n ≤ maxDepth) :
    ∃ j, read? (w.map some) = some j ∧ j.WellFormed ∧ j.depth ≤ n := by
  obtain ⟨t, hspells, hread, -⟩ := h.tree
  obtain ⟨j, hj, hdepth⟩ := hread maxDepth hn
  exact ⟨j, hspells.read?.trans hj, (wellFormed_of_toJson? hj).1, hdepth⟩

/-- One that is nested too deeply is not read. -/
theorem read?_eq_none (h : Denotes w n) (hn : maxDepth < n) : read? (w.map some) = none := by
  obtain ⟨t, hspells, -, hnone⟩ := h.tree
  exact hspells.read?.trans (hnone maxDepth hn)

theorem excessColumn?_eq_none (h : Denotes w n) (hn : n ≤ maxDepth) : excessColumn? w = none := by
  have hpasses := h.nests.passes 1 [] hn
  rw [List.append_nil] at hpasses
  rw [excessColumn?, hpasses, excess?]

/-- And a scan of it stops at one of its columns. -/
theorem exists_excessColumn? (h : Denotes w n) (hn : maxDepth < n) :
    ∃ column, excessColumn? w = some column := by
  obtain ⟨column, hcolumn, -⟩ := h.nests.stops 1 [] hn
  rw [List.append_nil] at hcolumn
  exact ⟨column, hcolumn⟩

end Denotes

/-- A text that opens nothing stands for a document if the tree that it spells does. -/
theorem denotes_leaf {t : Tree} {j : Json} (hnests : Nests w 0) (hspells : Spells w t)
    (hdepth : j.depth = 0) (hj : ∀ room, t.toJson? room = some j) : Denotes w 0 :=
  ⟨hnests, t, hspells, fun room _ ↦ ⟨j, hj room, hdepth.le⟩,
    fun _ h ↦ absurd h (Nat.not_lt_zero _)⟩

theorem denotes_null : Denotes (write .null) 0 := by
  have hspells : Spells (write .null) .null := by
    rw [write]
    exact spells_null
  exact denotes_leaf nests_null hspells rfl (j := .null) fun room ↦ by rw [Tree.toJson?]

theorem denotes_bool (b : Bool) : Denotes (write (.bool b)) 0 :=
  denotes_leaf (nests_bool b) (spells_bool b) rfl (j := .bool b) fun room ↦ by rw [Tree.toJson?]

theorem denotes_string (s : String) : Denotes (writeString s) 0 :=
  denotes_leaf (nests_writeString s) (spells_string s) rfl (j := .string s) fun room ↦ by
    rw [Tree.toJson?, text?_pieces]
    rfl

/-- A numeral stands for a document if it is not too large to be read. -/
theorem denotes_numeral {s : Spelling} (hs : s.Valid)
    (h : ∃ x, s.numeral.value.toBinary .double = .finite x) : Denotes s.text 0 := by
  obtain ⟨x, hx⟩ := h
  have hdecimal : ofNumeral?.ofDecimal s.numeral.value = some (.float x) := by
    rw [ofNumeral?.ofDecimal, hx]
  have hnumeral : ∃ j, ofNumeral? s.numeral = some j := by
    unfold ofNumeral?
    split
    · split
      · exact ⟨_, rfl⟩
      · exact ⟨_, hdecimal⟩
    · exact ⟨_, hdecimal⟩
  obtain ⟨j, hj⟩ := hnumeral
  exact denotes_leaf (nests_spelling hs) (spells_number hs) (ofNumeral?_spec hj).2 fun room ↦ by
    rw [Tree.toJson?, hj]

/-- An integer of 128 bits stands for a number, which is no integer if it is out of range. -/
theorem denotes_writeInt {i : ℤ} (hi : i.natAbs < 2 ^ 128) : Denotes (writeInt i) 0 := by
  rw [writeInt_eq_text]
  refine denotes_numeral (Spelling.valid_integer i) (Decimal.exists_toBinary ?_)
  have hmagnitude : (Spelling.integer i).numeral.value.magnitude = i.natAbs := by
    simp [Decimal.magnitude, Spelling.numeral, Spelling.integer, Spelling.exponentValue?,
      digitsValue_toDigits]
  rw [hmagnitude]
  calc (i.natAbs : ℚ) < (2 ^ 128 : ℕ) := by exact_mod_cast hi
    _ = 2 ^ (128 : ℤ) := by rw [Nat.cast_pow, Nat.cast_ofNat]; exact (zpow_natCast _ _).symm
    _ ≤ 2 ^ (1023 : ℤ) := zpow_le_zpow_right₀ one_le_two (by decide)

/-- A decimal that is not too large stands for a number, however it is laid out. -/
theorem denotes_layout (layout : FloatLayout) {d : Decimal}
    (hd : ∃ x, d.toBinary .double = .finite x) : Denotes (layout.write d) 0 := by
  obtain ⟨s, ⟨hs, k, hvalue⟩, htext, -⟩ := layout.exists_spelling d
  rw [htext]
  refine denotes_numeral hs ?_
  rw [hvalue, Decimal.toBinary_padded]
  exact hd

/-! ### Lists and objects -/

/-- Trees are read one by one if there is room for the deepest of them, and only then. -/
theorem exists_toItems? {ws : List (List Char)} {ns : List ℕ} (h : List.Forall₂ Denotes ws ns) :
    ∃ trees, List.Forall₂ Spells ws trees ∧
      (∀ room, deepest ns ≤ room → ∃ items, Tree.toItems? room trees = some items ∧
        ∀ i ∈ items, i.depth ≤ deepest ns) ∧
      ∀ room, room < deepest ns → Tree.toItems? room trees = none := by
  induction h with
  | nil =>
    exact ⟨[], .nil, fun _ _ ↦ ⟨[], by rw [Tree.toItems?], nofun⟩,
      fun _ h ↦ absurd h (Nat.not_lt_zero _)⟩
  | @cons w n ws ns hw _ ih =>
    obtain ⟨t, hspells, hread, hnone⟩ := hw.tree
    obtain ⟨trees, hspellss, hreads, hnones⟩ := ih
    refine ⟨t :: trees, .cons hspells hspellss, fun room hroom ↦ ?_, fun room hroom ↦ ?_⟩
    · obtain ⟨j, hj, hdepth⟩ := hread room ((le_max_left _ _).trans hroom)
      obtain ⟨items, hitems, hdepths⟩ := hreads room ((le_max_right _ _).trans hroom)
      refine ⟨j :: items, ?_, List.forall_mem_cons.2 ⟨hdepth.trans (le_max_left _ _),
        fun i hi ↦ (hdepths i hi).trans (le_max_right _ _)⟩⟩
      rw [Tree.toItems?, hj]
      dsimp only
      rw [hitems]
      rfl
    · rw [Tree.toItems?]
      rcases Nat.lt_or_ge room n with hlt | hle
      · rw [hnone room hlt]
      · obtain ⟨j, hj, -⟩ := hread room hle
        rw [hj]
        dsimp only
        rw [hnones room ((lt_max_iff.1 hroom).resolve_left (Nat.not_lt.2 hle))]
        rfl

/-- A list of texts that stand for documents stands for a list. -/
theorem denotes_list {ws : List (List Char)} {ns : List ℕ} (h : List.Forall₂ Denotes ws ns) :
    Denotes ('[' :: commas ws ++ [']']) (deepest ns + 1) := by
  have hnests := nests_commas (h.imp fun _ _ hw ↦ hw.nests)
  obtain ⟨trees, hspells, hread, hnone⟩ := exists_toItems? h
  refine ⟨hnests.enclosed (.inl rfl) (.inl rfl), _, spells_list hspells, fun room hroom ↦ ?_,
    fun room hroom ↦ ?_⟩
  · obtain ⟨room, rfl⟩ := Nat.exists_eq_add_of_le' (Nat.le_of_add_left_le hroom)
    obtain ⟨items, hitems, hdepths⟩ := hread room (Nat.le_of_succ_le_succ hroom)
    refine ⟨.list items, by rw [Tree.toJson?, hitems]; rfl, ?_⟩
    exact Nat.succ_le_succ (depthItems_le hdepths)
  · cases room with
    | zero => rw [Tree.toJson?]
    | succ room =>
      rw [Tree.toJson?, hnone room (Nat.lt_of_succ_lt_succ hroom)]
      rfl

/-- Members spell their names and what their texts spell, and are read where those are. -/
theorem spellsMember_zip {members : List (String × List Char)} {trees : List Tree}
    (h : List.Forall₂ (fun m t ↦ Spells m.2 t) members trees) :
    List.Forall₂ SpellsMember members ((members.map fun m ↦ pieces m.1).zip trees) ∧
      ∀ room, Tree.toFields? room ((members.map fun m ↦ pieces m.1).zip trees) =
        (Tree.toItems? room trees).map (members.map Prod.fst).zip := by
  induction h with
  | nil => exact ⟨.nil, fun room ↦ by rw [List.zip_nil_right, Tree.toFields?, Tree.toItems?]; rfl⟩
  | @cons m t members trees hm _ ih =>
    refine ⟨.cons ⟨rfl, hm⟩ ih.1, fun room ↦ ?_⟩
    rw [List.map_cons, List.zip_cons_cons, Tree.toFields?, Tree.toItems?, text?_pieces]
    rcases t.toJson? room with _ | j
    · rfl
    · dsimp only
      rw [ih.2]
      rcases Tree.toItems? room trees with _ | items <;> rfl

/-- Members whose texts stand for documents stand for an object. -/
theorem denotes_object {members : List (String × List Char)} {ns : List ℕ}
    (h : List.Forall₂ (fun m n ↦ Denotes m.2 n) members ns) :
    Denotes ('\x7b' :: commas (members.map memberText) ++ ['\x7d']) (deepest ns + 1) := by
  have hnests : Nests (commas (members.map memberText)) (deepest ns) :=
    nests_commas (List.forall₂_map_left_iff.2 (h.imp fun _ _ hm ↦ hm.nests.member))
  obtain ⟨trees, hspells, hread, hnone⟩ := exists_toItems? (List.forall₂_map_left_iff.2 h)
  obtain ⟨hmembers, hfields⟩ := spellsMember_zip (List.forall₂_map_left_iff.1 hspells)
  refine ⟨hnests.enclosed (.inr rfl) (.inr rfl), _, spells_object hmembers, fun room hroom ↦ ?_,
    fun room hroom ↦ ?_⟩
  · obtain ⟨room, rfl⟩ := Nat.exists_eq_add_of_le' (Nat.le_of_add_left_le hroom)
    obtain ⟨items, hitems, hdepths⟩ := hread room (Nat.le_of_succ_le_succ hroom)
    refine ⟨.object (collect _), by rw [Tree.toJson?, hfields, hitems]; rfl, ?_⟩
    exact Nat.succ_le_succ (depthFields_le fun f hf ↦
      hdepths f.2 (List.of_mem_zip (mem_of_mem_collect hf)).2)
  · cases room with
    | zero => rw [Tree.toJson?]
    | succ room =>
      rw [Tree.toJson?, hfields, hnone room (Nat.lt_of_succ_lt_succ hroom)]
      rfl

theorem depthItems_eq_deepest (items : List Json) : depthItems items = deepest (items.map depth) := by
  induction items with
  | nil => rfl
  | cons j rest ih => rw [depthItems, ih]; rfl

theorem depthFields_eq_deepest (fields : List (String × Json)) :
    depthFields fields = deepest (fields.map fun f ↦ f.2.depth) := by
  induction fields with
  | nil => rfl
  | cons f rest ih => rw [depthFields, ih]; rfl

/-- **A well-formed document is written as a text that stands for a document as deep as it is.** -/
theorem denotes_write {j : Json} (hj : j.WellFormed) : Denotes (write j) j.depth := by
  induction j using induction_on_parts with
  | null => exact denotes_null
  | bool b => exact denotes_bool b
  | int n =>
    have hrange : -2 ^ 63 ≤ n ∧ n < 2 ^ 64 := hj
    rw [write]
    exact denotes_writeInt (by omega)
  | float x =>
    have hfinite := BinaryNumber.toBinary_shortest hj FloatLayout.jsonDouble.tie
    rw [write]
    exact denotes_layout .jsonDouble ⟨x, hfinite⟩
  | string s =>
    rw [write]
    exact denotes_string s
  | list items ih =>
    rw [WellFormed, wellFormedItems_iff] at hj
    rw [write, writeItems_eq_commas, depth, depthItems_eq_deepest]
    exact denotes_list (List.forall₂_map_left_iff.2 (List.forall₂_map_right_iff.2
      (List.forall₂_same.2 fun i hi ↦ ih i hi (hj i hi))))
  | object fields ih =>
    rw [WellFormed, wellFormedFields_iff] at hj
    rw [write, writeFields_eq_commas, depth, depthFields_eq_deepest]
    have hmembers : List.Forall₂ (fun m n ↦ Denotes m.2 n)
        (fields.map fun f ↦ (f.1, write f.2)) (fields.map fun f ↦ f.2.depth) :=
      List.forall₂_map_left_iff.2 (List.forall₂_map_right_iff.2
        (List.forall₂_same.2 fun f hf ↦ ih f hf (hj.2 f hf)))
    have hobject := denotes_object hmembers
    rwa [List.map_map] at hobject

end Json

open Json (Denotes deepest)

/-! ### What a value can hold -/

/-- A floating-point number that is finite is a normal one of its format. -/
def FloatValue.Normal (fmt : BinaryFormat) : FloatValue → Prop
  | .finite x => fmt.Normal x
  | .nan | .infinity _ => True

mutual

/-- The numbers inside a datum are numbers of the machine: integers of at most 128 bits, and
floating-point numbers in normal form. The documents inside it are well formed. -/
def Datum.Representable : Datum → Prop
  | .int n => n.natAbs < 2 ^ 128
  | .single x => x.Normal .single
  | .double x => x.Normal .double
  | .json j => j.WellFormed
  | .list items => Datum.RepresentableItems items
  | .map entries => Datum.RepresentableEntries entries
  | .present d => d.Representable
  | .record fields => Datum.RepresentableFields fields
  | .dynamic v => v.Representable
  | .bool _ | .string _ | .char _ | .nil => True

/-- Every item of a list is representable. -/
def Datum.RepresentableItems : List Datum → Prop
  | [] => True
  | d :: rest => d.Representable ∧ Datum.RepresentableItems rest

/-- Every value of a map is representable. -/
def Datum.RepresentableEntries : List (MapKey × Datum) → Prop
  | [] => True
  | (_, d) :: rest => d.Representable ∧ Datum.RepresentableEntries rest

/-- Every field of a record is representable. -/
def Datum.RepresentableFields : List (String × Datum) → Prop
  | [] => True
  | (_, d) :: rest => d.Representable ∧ Datum.RepresentableFields rest

/-- What a value holds is representable. -/
def Value.Representable : Value → Prop
  | .absent _ => True
  | .typed _ d => d.Representable

end

/-- A floating-point number that is not finite is written as `null`. -/
theorem FloatValue.denotes_writeJson {fmt : BinaryFormat} {x : FloatValue} (layout : FloatLayout)
    (h : ∀ y, x = .finite y → ∃ z, (y.shortest fmt layout.tie).toBinary .double = .finite z) :
    Json.Denotes (x.writeJson fmt layout) 0 := by
  cases x with
  | finite y => exact Json.denotes_layout layout (h y rfl)
  | nan =>
    have hnull := Json.denotes_null
    rwa [Json.write] at hnull
  | infinity _ =>
    have hnull := Json.denotes_null
    rwa [Json.write] at hnull

namespace Datum

/-! ### Writing -/

/-- Texts of the items make up the text of a list. -/
theorem writeItems?_of_forall₂ {items : List Datum} {ws : List (List Char)}
    (h : List.Forall₂ (fun d w ↦ d.write? = some w) items ws) :
    writeItems? items = some (commas ws) := by
  induction h with
  | nil => rfl
  | @cons d w items ws hd hrest ih =>
    cases hrest with
    | nil => rwa [writeItems?]
    | cons _ _ =>
      rw [writeItems?, hd, ih, Json.commas_cons (List.cons_ne_nil _ _)]
      exact List.cons_ne_nil _ _

/-- Texts of the entries make up the text of a map. -/
theorem writeEntries?_of_forall₂ {entries : List (MapKey × Datum)}
    {members : List (String × List Char)} (h : List.Forall₂ WritesEntry entries members) :
    writeEntries? entries = some (commas (members.map memberText)) := by
  induction h with
  | nil => rfl
  | @cons e m entries members he hrest ih =>
    obtain ⟨k, d⟩ := e
    cases hrest with
    | nil =>
      rw [writeEntries?, he.2, Option.map_some, he.text]
      rfl
    | @cons _ m' _ members _ _ =>
      have hne : (m' :: members).map memberText ≠ [] := List.cons_ne_nil _ _
      rw [writeEntries?, he.2, ih, List.map_cons (a := m), Json.commas_cons hne, ← he.text]
      exact List.cons_ne_nil _ _

/-- What is written part by part is written in every part. -/
theorem exists_write?_of_mem {items : List Datum} {ws : List (List Char)}
    (h : List.Forall₂ (fun d w ↦ d.write? = some w) items ws) :
    ∀ d ∈ items, ∃ w, d.write? = some w := by
  induction h with
  | nil => exact nofun
  | cons hd _ ih => exact List.forall_mem_cons.2 ⟨⟨_, hd⟩, ih⟩

theorem writeItems?_eq_none {items : List Datum} {d : Datum} (hd : d ∈ items)
    (hnone : d.write? = none) : writeItems? items = none := by
  by_contra hsome
  obtain ⟨body, hbody⟩ := Option.ne_none_iff_exists'.1 hsome
  obtain ⟨ws, -, hws⟩ := writeItems?_spec hbody
  obtain ⟨w, hw⟩ := exists_write?_of_mem hws d hd
  cases hnone.symm.trans hw

theorem writeEntries?_eq_none {entries : List (MapKey × Datum)} {d : Datum}
    (hd : d ∈ entries.map Prod.snd) (hnone : d.write? = none) : writeEntries? entries = none := by
  by_contra hsome
  obtain ⟨body, hbody⟩ := Option.ne_none_iff_exists'.1 hsome
  obtain ⟨members, -, hmembers⟩ := writeEntries?_spec hbody
  have hws : List.Forall₂ (fun d w ↦ d.write? = some w) (entries.map Prod.snd)
      (members.map Prod.snd) :=
    List.forall₂_map_left_iff.2 (List.forall₂_map_right_iff.2 (hmembers.imp fun _ _ h ↦ h.2))
  obtain ⟨w, hw⟩ := exists_write?_of_mem hws d hd
  cases hnone.symm.trans hw

/-- A name for each entry, beside the text of its value. -/
theorem exists_members {entries : List (MapKey × Datum)} {ws : List (List Char)}
    (h : List.Forall₂ (fun e w ↦ e.2.write? = some w) entries ws) :
    ∃ members : List (String × List Char), List.Forall₂ WritesEntry entries members ∧
      members.map Prod.snd = ws := by
  induction h with
  | nil => exact ⟨[], .nil, rfl⟩
  | @cons e w entries ws he _ ih =>
    obtain ⟨members, hmembers, rfl⟩ := ih
    obtain ⟨name, hname⟩ := e.1.exists_write_eq
    exact ⟨(name, w) :: members, .cons ⟨hname, he⟩ hmembers, rfl⟩

/-! ### Texts and obstacles -/

/-- What becomes of a datum that is written. Either there is a text, of a document no deeper than
the datum. Or there is an obstacle, and the datum is deeper than a reader goes. -/
inductive Written (d : Datum) : Prop
  | text {w : List Char} {n : ℕ} (hw : d.write? = some w) (hnone : d.obstacle? = none)
      (hdenotes : Denotes w n) (hn : n ≤ d.depth)
  | obstacle {column : ℕ} (hw : d.write? = none) (hcolumn : d.obstacle? = some column)
      (hdepth : Json.maxDepth < d.depth)

/-- Of several data all have texts, or one has none, and then there is a first obstacle. -/
theorem parts_written {ds : List Datum} (h : ∀ d ∈ ds, d.Written) :
    (∃ ws ns, List.Forall₂ (fun d w ↦ d.write? = some w) ds ws ∧ List.Forall₂ Denotes ws ns ∧
      deepest ns ≤ depthItems ds ∧ obstacleItems? ds = none) ∨
    ∃ d ∈ ds, d.write? = none ∧ Json.maxDepth < depthItems ds ∧
      ∃ column, obstacleItems? ds = some column := by
  induction ds with
  | nil => exact .inl ⟨[], [], .nil, .nil, le_rfl, by rw [obstacleItems?]⟩
  | cons d rest ih =>
    obtain ⟨hd, hrest⟩ := List.forall_mem_cons.1 h
    rw [obstacleItems?, depthItems]
    cases hd with
    | obstacle hw hcolumn hdepth =>
      rw [hcolumn]
      exact .inr ⟨d, List.mem_cons_self, hw, hdepth.trans_le (le_max_left _ _), _, rfl⟩
    | text hw hnone hdenotes hn =>
      rw [hnone]
      rcases ih hrest with ⟨ws, ns, hws, hns, hle, hnone⟩ | ⟨d', hd', hw', hdepth, column, hcolumn⟩
      · exact .inl ⟨_, _, .cons hw hws, .cons hdenotes hns, max_le_max hn hle, hnone⟩
      · exact .inr ⟨d', .tail _ hd', hw', hdepth.trans_le (le_max_right _ _), column, hcolumn⟩

theorem written_list {items : List Datum} (h : ∀ d ∈ items, d.Written) : (list items).Written := by
  rcases parts_written h with ⟨ws, ns, hws, hns, hle, hnone⟩ | ⟨d, hd, hw, hdepth, _, hcolumn⟩
  · have hwrite : (list items).write? = some ('[' :: commas ws ++ [']']) := by
      rw [write?, writeItems?_of_forall₂ hws]
      rfl
    exact .text hwrite (by rwa [obstacle?]) (Json.denotes_list hns)
      (by rw [depth]; exact Nat.succ_le_succ hle)
  · exact .obstacle (by rw [write?, writeItems?_eq_none hd hw]; rfl) (by rwa [obstacle?])
      (by rw [depth]; exact Nat.lt_succ_of_lt hdepth)

theorem obstacleEntries?_eq (entries : List (MapKey × Datum)) :
    obstacleEntries? entries = obstacleItems? (entries.map Prod.snd) := by
  induction entries with
  | nil => rfl
  | cons e rest ih => rw [obstacleEntries?, ih]; rfl

theorem depthEntries_eq (entries : List (MapKey × Datum)) :
    depthEntries entries = depthItems (entries.map Prod.snd) := by
  induction entries with
  | nil => rfl
  | cons e rest ih => rw [depthEntries, ih]; rfl

theorem written_map {entries : List (MapKey × Datum)} (h : ∀ e ∈ entries, e.2.Written) :
    (map entries).Written := by
  rcases parts_written (List.forall_mem_map.2 h) with
    ⟨ws, ns, hws, hns, hle, hnone⟩ | ⟨d, hd, hw, hdepth, _, hcolumn⟩
  · obtain ⟨members, hmembers, rfl⟩ := exists_members (List.forall₂_map_left_iff.1 hws)
    have hwrite : (map entries).write? =
        some ('\x7b' :: commas (members.map memberText) ++ ['\x7d']) := by
      rw [write?, writeEntries?_of_forall₂ hmembers]
      rfl
    exact .text hwrite (by rwa [obstacle?, obstacleEntries?_eq])
      (Json.denotes_object (List.forall₂_map_left_iff.1 hns))
      (by rw [depth, depthEntries_eq]; exact Nat.succ_le_succ hle)
  · exact .obstacle (by rw [write?, writeEntries?_eq_none hd hw]; rfl)
      (by rwa [obstacle?, obstacleEntries?_eq])
      (by rw [depth, depthEntries_eq]; exact Nat.lt_succ_of_lt hdepth)

/-- A record is written like a map with its fields as entries. -/
theorem written_record {fields : List (String × Datum)} (h : ∀ f ∈ fields, f.2.Written) :
    (record fields).Written := by
  have hobstacle : obstacleFields? fields =
      obstacleEntries? (fields.map fun f ↦ (.string f.1, f.2)) := by
    induction fields with
    | nil => rfl
    | cons f rest ih => rw [obstacleFields?, ih (List.forall_mem_cons.1 h).2]; rfl
  have hdepth : depthFields fields = depthEntries (fields.map fun f ↦ (.string f.1, f.2)) := by
    clear hobstacle h
    induction fields with
    | nil => rfl
    | cons f rest ih => rw [depthFields, ih]; rfl
  have hmap : (map (fields.map fun f ↦ (.string f.1, f.2))).Written :=
    written_map (List.forall_mem_map.2 h)
  cases hmap with
  | text hw hnone hdenotes hn =>
    rw [write?, ← writeFields?_eq] at hw
    rw [obstacle?, ← hobstacle] at hnone
    rw [depth, ← hdepth] at hn
    exact .text hw hnone hdenotes hn
  | obstacle hw hcolumn hdeep =>
    rw [write?, ← writeFields?_eq] at hw
    rw [obstacle?, ← hobstacle] at hcolumn
    rw [depth, ← hdepth] at hdeep
    exact .obstacle hw hcolumn hdeep

/-- **What becomes of a value whose document is asked for.** Either there is one, no deeper than the
datum in the value. Or there is none, and a column at which that was found out. -/
theorem Written.toJson?_cases {d : Datum} (h : d.Written) (t : DataType) :
    (∃ j, (Value.typed t d).toJson? = some j ∧ j.WellFormed ∧ j.depth ≤ d.depth ∧
      (Value.typed t d).excessColumn? = none) ∨
    (Value.typed t d).toJson? = none ∧ Json.maxDepth < d.depth ∧
      ∃ column, (Value.typed t d).excessColumn? = some column := by
  rw [Value.toJson?, Value.write?, Value.excessColumn?]
  cases h with
  | obstacle hw hcolumn hdepth =>
    rw [hw]
    exact .inr ⟨rfl, hdepth, _, hcolumn⟩
  | @text w n hw hnone hdenotes hn =>
    rw [hw]
    rcases Nat.lt_or_ge Json.maxDepth n with hlt | hle
    · exact .inr ⟨hdenotes.read?_eq_none hlt, hlt.trans_le hn, hdenotes.exists_excessColumn? hlt⟩
    · obtain ⟨j, hj, hwellFormed, hdepth⟩ := hdenotes.exists_read? hle
      exact .inl ⟨j, hj, hwellFormed, hdepth.trans hn, hdenotes.excessColumn?_eq_none hle⟩

/-- A dynamic value is written through its document. -/
theorem written_dynamic {d : Datum} (t : DataType) (h : d.Written) :
    (dynamic (.typed t d)).Written := by
  have hwrite : (dynamic (.typed t d)).write? = (Value.typed t d).toJson?.map Json.write := by
    rw [write?, Value.toJson?]
    rcases (Value.typed t d).write? with _ | w <;> rfl
  rcases h.toJson?_cases t with ⟨j, hj, hwellFormed, hdepth, hnone⟩ | ⟨hj, hdepth, _, hcolumn⟩
  · exact .text (by rw [hwrite, hj]; rfl) hnone (Json.denotes_write hwellFormed) hdepth
  · exact .obstacle (by rw [hwrite, hj]; rfl) hcolumn hdepth

mutual

/-- **Every representable datum is written, or there is an obstacle.** -/
theorem written : ∀ {d : Datum}, d.Representable → d.Written
  | .bool b, _ => .text rfl rfl (Json.denotes_bool b) le_rfl
  | .string s, _ => .text rfl rfl (Json.denotes_string s) le_rfl
  | .int n, hd => .text rfl rfl (Json.denotes_writeInt hd) le_rfl
  | .single x, hd => by
    refine .text rfl rfl (FloatValue.denotes_writeJson .jsonSingle ?_) le_rfl
    rintro y rfl
    exact BinaryNumber.exists_toBinary_shortest_single hd _
  | .double x, hd => by
    refine .text rfl rfl (FloatValue.denotes_writeJson .jsonDouble ?_) le_rfl
    rintro y rfl
    exact ⟨y, BinaryNumber.toBinary_shortest hd _⟩
  | .char c, _ => .text rfl rfl (Json.denotes_string _) le_rfl
  | .json j, hd => .text rfl rfl (Json.denotes_write hd) le_rfl
  | .nil, _ => .text rfl rfl Json.denotes_null le_rfl
  | .list items, hd => by
    rw [Representable] at hd
    exact written_list (written_items hd)
  | .map entries, hd => by
    rw [Representable] at hd
    exact written_map (written_entries hd)
  | .record fields, hd => by
    rw [Representable] at hd
    exact written_record (written_fields hd)
  | .present d, hd => by
    rw [Representable] at hd
    cases written hd with
    | text hw hnone hdenotes hn => exact .text hw hnone hdenotes hn
    | obstacle hw hcolumn hdepth => exact .obstacle hw hcolumn hdepth
  | .dynamic (.absent _), _ => by
    refine .text (w := Json.write .null) ?_ rfl Json.denotes_null (Nat.zero_le _)
    rw [write?, Value.write?]
    dsimp only
    rw [Json.read?_null]
    rfl
  | .dynamic (.typed t d), hd => by
    rw [Representable, Value.Representable] at hd
    exact written_dynamic t (written hd)

theorem written_items : ∀ {items : List Datum}, RepresentableItems items → ∀ d ∈ items, d.Written
  | [], _ => nofun
  | _ :: _, h => by
    rw [RepresentableItems] at h
    exact List.forall_mem_cons.2 ⟨written h.1, written_items h.2⟩

theorem written_entries : ∀ {entries : List (MapKey × Datum)}, RepresentableEntries entries →
    ∀ e ∈ entries, e.2.Written
  | [], _ => nofun
  | (_, _) :: _, h => by
    rw [RepresentableEntries] at h
    exact List.forall_mem_cons.2 ⟨written h.1, written_entries h.2⟩

theorem written_fields : ∀ {fields : List (String × Datum)}, RepresentableFields fields →
    ∀ f ∈ fields, f.2.Written
  | [], _ => nofun
  | (_, _) :: _, h => by
    rw [RepresentableFields] at h
    exact List.forall_mem_cons.2 ⟨written h.1, written_fields h.2⟩

end

end Datum

namespace Value

theorem toJson?_cases {v : Value} (hv : v.Representable) :
    (∃ j, v.toJson? = some j ∧ j.WellFormed ∧ v.excessColumn? = none) ∨
      v.toJson? = none ∧ Json.maxDepth < v.depth ∧ ∃ column, v.excessColumn? = some column := by
  cases v with
  | absent t => exact .inl ⟨.null, Json.read?_null, trivial, rfl⟩
  | typed t d =>
    rw [Representable] at hv
    rcases (Datum.written hv).toJson?_cases t with ⟨j, hj, hwellFormed, -, hnone⟩ | hnone
    · exact .inl ⟨j, hj, hwellFormed, hnone⟩
    · exact .inr hnone

/-- **A value that is nested no more deeply than a reader goes has a document**, which is well
formed. -/
theorem exists_toJson? {v : Value} (hv : v.Representable) (hdepth : v.depth ≤ Json.maxDepth) :
    ∃ j, v.toJson? = some j ∧ j.WellFormed := by
  rcases toJson?_cases hv with ⟨j, hj, hwellFormed, -⟩ | ⟨-, hlt, -⟩
  · exact ⟨j, hj, hwellFormed⟩
  · exact absurd hdepth (Nat.not_le.2 hlt)

/-- **A value has no document exactly if there is a column at which a reader gives up.** -/
theorem toJson?_eq_none_iff {v : Value} (hv : v.Representable) :
    v.toJson? = none ↔ ∃ column, v.excessColumn? = some column := by
  rcases toJson?_cases hv with ⟨j, hj, -, hnone⟩ | ⟨hnone, -, hcolumn⟩
  · rw [hj, hnone]
    exact iff_of_false nofun nofun
  · exact iff_of_true hnone hcolumn

/-- And the message about such a value names that column. -/
theorem unwritable_of_excessColumn? {v : Value} {column : ℕ}
    (hcolumn : v.excessColumn? = some column) :
    v.unwritable = "recursion limit exceeded at line 1 column " ++ toString column := by
  unfold unwritable
  rw [hcolumn]
  exact congrArg _ (congrArg _ (Option.getD_some ..))

/-- A value that is written like a document nested too deeply has none. -/
theorem toJson?_eq_none_of_write? {v : Value} {j : Json} (hj : j.WellFormed)
    (hw : v.write? = some j.write) (hdepth : Json.maxDepth < j.depth) : v.toJson? = none := by
  rw [toJson?, hw]
  exact (Json.denotes_write hj).read?_eq_none hdepth

end Value

end ContractHost
