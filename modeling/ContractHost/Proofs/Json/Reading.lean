import ContractHost.Json.Reader
import ContractHost.Proofs.Json.Lexing

/-!
# Reading what was written

A text **spells** a tree (`Json.Spells`) if, wherever it stands in a longer text, its tokens take
the parser from expecting a value to having read that tree. Lists and objects are spelled part by
part (`spells_list`, `spells_object`).

`Json.Reads w A` says what matters to those who read the text: it spells a tree, and every document
that the tree stands for has the property `A`. Whether the tree stands for a document at all depends
on how deep it is and on the size of its numbers, and is left open. A document that is written is
read as some document (`reads_write`), by induction on its parts (`induction_on_parts`); what it is
then is left open too.
-/

namespace ContractHost

namespace Json

variable {w : List Char} {t : Tree} {A B : Json → Prop}

attribute [local simp] Tree.expect Tree.accept Tree.toJson? Tree.toItems? Tree.toFields?

/-! ### Spelling a tree -/

/-- The tokens take the parser past a value. -/
def Parses (ts : List Token) (t : Tree) : Prop :=
  ∀ stack rest, Tree.expect stack (ts ++ rest) = Tree.accept t stack rest

/-- A text spells a tree. -/
def Spells (w : List Char) (t : Tree) : Prop :=
  ∃ ts, Lexes w ts ∧ Parses ts t

/-- A value does not start with a closing bracket. -/
theorem Parses.eq_cons {ts : List Token} (h : Parses ts t) :
    ∃ first rest, ts = first :: rest ∧ first ≠ .closeList := by
  have hall : Tree.expect [] ts = some t := by
    have := h [] []
    rw [List.append_nil] at this
    rw [this, Tree.accept]
  rcases ts with _ | ⟨first, rest⟩
  · simp at hall
  · refine ⟨first, rest, rfl, ?_⟩
    rintro rfl
    simp at hall

theorem spells_null : Spells ['n', 'u', 'l', 'l'] .null :=
  ⟨_, lexes_null, fun _ _ ↦ by rw [List.singleton_append, Tree.expect]⟩

theorem spells_bool (b : Bool) : Spells (write (.bool b)) (.bool b) := by
  cases b with
  | true =>
    rw [write]
    exact ⟨_, lexes_true, fun _ _ ↦ by rw [List.singleton_append, Tree.expect]⟩
  | false =>
    rw [write]
    exact ⟨_, lexes_false, fun _ _ ↦ by rw [List.singleton_append, Tree.expect]⟩

theorem spells_string (s : String) : Spells (writeString s) (.string (pieces s)) :=
  ⟨_, lexes_writeString s, fun _ _ ↦ by rw [List.singleton_append, Tree.expect]⟩

theorem spells_number {s : Spelling} (hs : s.Valid) : Spells s.text (.number s.numeral) :=
  ⟨_, lexes_spelling hs, fun _ _ ↦ by rw [List.singleton_append, Tree.expect]⟩

/-! ### Lists and objects -/

/-- Texts with a comma between two. -/
def commas : List (List Char) → List Char
  | [] => []
  | [w] => w
  | w :: rest => w ++ ',' :: commas rest

theorem commas_cons {ws : List (List Char)} (h : ws ≠ []) :
    commas (w :: ws) = w ++ ',' :: commas ws := by
  cases ws with
  | nil => exact absurd rfl h
  | cons _ _ => rw [commas]; exact fun h ↦ nomatch h

/-- The tokens of the items of a list take the parser to the end of the list. -/
theorem parses_items {ws : List (List Char)} {trees : List Tree}
    (h : List.Forall₂ Spells ws trees) (hne : ws ≠ []) :
    ∃ first ts, first ≠ .closeList ∧ Lexes (commas ws) (first :: ts) ∧
      ∀ before stack rest,
        Tree.expect (.items before :: stack) (first :: ts ++ .closeList :: rest) =
          Tree.accept (.list (before.reverse ++ trees)) stack rest := by
  induction h with
  | nil => exact absurd rfl hne
  | @cons w tree ws trees hw hws ih =>
    obtain ⟨head, hlexes, hparses⟩ := hw
    obtain ⟨first, head, rfl, hfirst⟩ := hparses.eq_cons
    by_cases hnil : ws = []
    · subst hnil
      cases hws
      refine ⟨first, head, hfirst, hlexes, fun before stack rest ↦ ?_⟩
      rw [hparses, Tree.accept, List.reverse_cons]
    · obtain ⟨first', ts, -, hlexes', hitems⟩ := ih hnil
      refine ⟨first, head ++ .comma :: first' :: ts, hfirst, ?_, fun before stack rest ↦ ?_⟩
      · rw [commas_cons hnil]
        exact hlexes.comma hlexes'
      · have hsplit : first :: (head ++ .comma :: first' :: ts) ++ .closeList :: rest =
            first :: head ++ .comma :: (first' :: ts ++ .closeList :: rest) := by simp
        rw [hsplit, hparses, Tree.accept, hitems, List.reverse_cons, List.append_assoc]
        rfl

/-- **A list spells the list of what its items spell.** -/
theorem spells_list {ws : List (List Char)} {trees : List Tree}
    (h : List.Forall₂ Spells ws trees) : Spells ('[' :: commas ws ++ [']']) (.list trees) := by
  by_cases hnil : ws = []
  · subst hnil
    cases h
    exact ⟨[.openList, .closeList], lexes_nil.list,
      fun _ _ ↦ by simp⟩
  · obtain ⟨first, ts, hfirst, hlexes, hitems⟩ := parses_items h hnil
    refine ⟨_, hlexes.list, fun stack rest ↦ ?_⟩
    have hopen : Tree.expect stack (.openList :: (first :: ts ++ .closeList :: rest)) =
        Tree.expect (.items [] :: stack) (first :: ts ++ .closeList :: rest) := by
      rw [List.cons_append, Tree.expect]
      rintro rest' heq
      cases heq
      exact hfirst rfl
    have hsplit : .openList :: (first :: ts) ++ [.closeList] ++ rest =
        .openList :: (first :: ts ++ .closeList :: rest) := by simp
    rw [hsplit, hopen, hitems, List.reverse_nil, List.nil_append]

/-- A name and a text, and what they spell. -/
def SpellsMember (m : String × List Char) (f : List Piece × Tree) : Prop :=
  f.1 = pieces m.1 ∧ Spells m.2 f.2

/-- The text of a member of an object. -/
def memberText (m : String × List Char) : List Char :=
  writeString m.1 ++ ':' :: m.2

/-- The tokens of the members of an object take the parser to the end of the object. -/
theorem parses_members {members : List (String × List Char)} {fields : List (List Piece × Tree)}
    (h : List.Forall₂ SpellsMember members fields) (hne : members ≠ []) :
    ∃ name ts, Lexes (commas (members.map memberText)) (.string name :: .colon :: ts) ∧
      ∀ before stack rest,
        Tree.expect (.fields before name :: stack) (ts ++ .closeObject :: rest) =
          Tree.accept (.object (before.reverse ++ fields)) stack rest := by
  induction h with
  | nil => exact absurd rfl hne
  | @cons m f members fields hm hmembers ih =>
    obtain ⟨name, text⟩ := m
    obtain ⟨_, tree⟩ := f
    obtain ⟨rfl, head, hlexes, hparses⟩ := hm
    by_cases hnil : members = []
    · subst hnil
      cases hmembers
      refine ⟨pieces name, head, hlexes.member name, fun before stack rest ↦ ?_⟩
      rw [hparses, Tree.accept, List.reverse_cons]
    · obtain ⟨name', ts, hlexes', hitems⟩ := ih hnil
      refine ⟨pieces name, head ++ .comma :: .string name' :: .colon :: ts, ?_,
        fun before stack rest ↦ ?_⟩
      · rw [List.map_cons, commas_cons fun h ↦ hnil (List.map_eq_nil_iff.1 h)]
        exact (hlexes.member name).comma hlexes'
      · have hsplit : head ++ .comma :: .string name' :: .colon :: ts ++ .closeObject :: rest =
            head ++ .comma :: .string name' :: .colon :: (ts ++ .closeObject :: rest) := by simp
        rw [hsplit, hparses, Tree.accept, hitems, List.reverse_cons, List.append_assoc]
        rfl

/-- **An object spells the object of what its members spell.** -/
theorem spells_object {members : List (String × List Char)} {fields : List (List Piece × Tree)}
    (h : List.Forall₂ SpellsMember members fields) :
    Spells ('\x7b' :: commas (members.map memberText) ++ ['\x7d']) (.object fields) := by
  by_cases hnil : members = []
  · subst hnil
    cases h
    exact ⟨[.openObject, .closeObject], lexes_nil.object,
      fun _ _ ↦ by simp⟩
  · obtain ⟨name, ts, hlexes, hmembers⟩ := parses_members h hnil
    refine ⟨_, hlexes.object, fun stack rest ↦ ?_⟩
    have hsplit : .openObject :: (.string name :: .colon :: ts) ++ [.closeObject] ++ rest =
        .openObject :: .string name :: .colon :: (ts ++ .closeObject :: rest) := by simp
    rw [hsplit, Tree.expect, hmembers, List.reverse_nil, List.nil_append]

/-! ### Reading documents -/

/-- A text spells a tree, and every document that the tree stands for has a property. -/
def Reads (w : List Char) (A : Json → Prop) : Prop :=
  ∃ t, Spells w t ∧ ∀ room j, t.toJson? room = some j → A j

theorem Reads.mono (h : Reads w A) (hAB : ∀ j, A j → B j) : Reads w B :=
  let ⟨t, ht, hA⟩ := h
  ⟨t, ht, fun room j hj ↦ hAB j (hA room j hj)⟩

/-- The tree of a text is the tree that the text spells. -/
theorem Spells.parse? (h : Spells w t) : Tree.parse? (w.map some) = some t := by
  obtain ⟨ts, hlexes, hparses⟩ := h
  have htokens : tokens? (w.map some) = some ts := by
    have := hlexes [] delimited_nil
    rw [List.append_nil] at this
    rw [this]
    simp [tokens?, skipSpace]
  have htree : Tree.ofTokens? ts = some t := by
    have := hparses [] []
    rw [List.append_nil] at this
    rw [Tree.ofTokens?, this, Tree.accept]
  rw [Tree.parse?, htokens]
  exact htree

/-- What is read from a text is the document of the tree that the text spells. -/
theorem Spells.read? (h : Spells w t) : read? (w.map some) = t.toJson? maxDepth := by
  rw [Json.read?, h.parse?]
  rfl

/-- **What is read from a text has the property that the text reads.** -/
theorem Reads.read? {j : Json} (h : Reads w A) (hj : read? (w.map some) = some j) : A j := by
  obtain ⟨t, hspells, hA⟩ := h
  rw [hspells.read?] at hj
  exact hA _ j hj

theorem read?_null : read? ((write .null).map some) = some .null := by
  rw [write, spells_null.read?]
  rfl

theorem read?_bool (b : Bool) : read? ((write (.bool b)).map some) = some (.bool b) := by
  rw [(spells_bool b).read?]
  rfl

theorem reads_null : Reads ['n', 'u', 'l', 'l'] (· = .null) :=
  ⟨_, spells_null, fun room j h ↦ by cases room <;> exact (Option.some.inj h).symm⟩

theorem reads_bool (b : Bool) : Reads (write (.bool b)) (· = .bool b) :=
  ⟨_, spells_bool b, fun room j h ↦ by cases room <;> exact (Option.some.inj h).symm⟩

theorem reads_string (s : String) : Reads (writeString s) (· = .string s) := by
  refine ⟨_, spells_string s, fun room j h ↦ ?_⟩
  rw [Tree.toJson?, text?_pieces] at h
  exact (Option.some.inj h).symm

/-- A numeral is a number. -/
theorem ofNumeral?_isNumber {n : Numeral} {j : Json} (h : ofNumeral? n = some j) :
    j.isNumber = true := by
  have hdecimal : ofNumeral?.ofDecimal n.value = some j → j.isNumber = true := by
    intro h
    unfold ofNumeral?.ofDecimal at h
    split at h
    · cases h
      rfl
    · cases h
  unfold ofNumeral? at h
  split at h
  · split at h
    · cases h
      rfl
    · exact hdecimal h
  · exact hdecimal h

theorem reads_number {s : Spelling} (hs : s.Valid) : Reads s.text fun j ↦ j.isNumber = true := by
  refine ⟨_, spells_number hs, fun room j h ↦ ?_⟩
  rw [Tree.toJson?] at h
  exact ofNumeral?_isNumber h

/-- An integer is read as itself, if a document can hold it. -/
theorem reads_writeInt (n : ℤ) :
    Reads (writeInt n) fun j ↦ j.isNumber = true ∧ (IntegerRange n → j = .int n) := by
  rw [writeInt_eq_text]
  refine ⟨_, spells_number (Spelling.valid_integer n), fun room j h ↦ ?_⟩
  rw [Tree.toJson?] at h
  refine ⟨ofNumeral?_isNumber h, fun hrange ↦ ?_⟩
  rw [ofNumeral?, int?_integer] at h
  dsimp only at h
  rw [if_pos hrange] at h
  exact (Option.some.inj h).symm

/-- A floating-point number is read as a number. -/
theorem reads_writeNumber (layout : FloatLayout) (fmt : BinaryFormat) (x : BinaryNumber) :
    Reads (layout.writeNumber fmt x) fun j ↦ j.isNumber = true := by
  obtain ⟨s, hs, htext, -⟩ := layout.exists_spelling (x.shortest fmt layout.tie)
  rw [FloatLayout.writeNumber, htext]
  exact reads_number hs.valid

/-- The items of a list of trees are read one by one. -/
theorem toItems?_spec : ∀ {trees : List Tree} {room : ℕ} {items : List Json},
    Tree.toItems? room trees = some items →
      List.Forall₂ (fun t j ↦ t.toJson? room = some j) trees items
  | [], room, items, h => by
    rw [Tree.toItems?] at h
    cases h
    exact .nil
  | t :: trees, room, items, h => by
    rw [Tree.toItems?] at h
    split at h
    · cases h
    · next j hj =>
      obtain ⟨rest, hrest, rfl⟩ := Option.map_eq_some_iff.1 h
      exact .cons hj (toItems?_spec hrest)

theorem toFields?_spec : ∀ {trees : List (List Piece × Tree)} {room : ℕ}
    {fields : List (String × Json)}, Tree.toFields? room trees = some fields →
      List.Forall₂ (fun t f ↦ Piece.text? t.1 = some f.1 ∧ t.2.toJson? room = some f.2) trees fields
  | [], room, fields, h => by
    rw [Tree.toFields?] at h
    cases h
    exact .nil
  | (name, t) :: trees, room, fields, h => by
    rw [Tree.toFields?] at h
    split at h
    · next k j hk hj =>
      obtain ⟨rest, hrest, rfl⟩ := Option.map_eq_some_iff.1 h
      exact .cons ⟨hk, hj⟩ (toFields?_spec hrest)
    · cases h

/-- **A list is read item by item**, each from its own text. -/
theorem reads_list_forall₂ {ws : List (List Char)} {R : List Char → Json → Prop}
    (h : ∀ w ∈ ws, Reads w (R w)) :
    Reads ('[' :: commas ws ++ [']']) fun j ↦
      ∃ items, j = .list items ∧ List.Forall₂ R ws items := by
  obtain ⟨trees, hspells, htrees⟩ : ∃ trees, List.Forall₂ Spells ws trees ∧
      List.Forall₂ (fun w (t : Tree) ↦ ∀ room j, t.toJson? room = some j → R w j) ws trees := by
    induction ws with
    | nil => exact ⟨[], .nil, .nil⟩
    | cons w ws ih =>
      obtain ⟨t, ht, hR⟩ := h w List.mem_cons_self
      obtain ⟨trees, hspells, htrees⟩ := ih fun w hw ↦ h w (.tail _ hw)
      exact ⟨t :: trees, .cons ht hspells, .cons hR htrees⟩
  refine ⟨_, spells_list hspells, fun room j hj ↦ ?_⟩
  cases room with
  | zero => rw [Tree.toJson?] at hj; cases hj
  | succ room =>
    rw [Tree.toJson?] at hj
    obtain ⟨items, hitems, rfl⟩ := Option.map_eq_some_iff.1 hj
    refine ⟨items, rfl, ?_⟩
    have hread := toItems?_spec hitems
    clear hitems hj hspells h
    induction htrees generalizing items with
    | nil => cases hread; exact .nil
    | cons hR _ ih =>
      cases hread with
      | cons hi hread => exact .cons (hR room _ hi) (ih _ hread)

/-- The items of a list have what is known of all their texts. -/
theorem reads_list {ws : List (List Char)} (h : ∀ w ∈ ws, Reads w A) :
    Reads ('[' :: commas ws ++ [']']) fun j ↦
      ∃ items, j = .list items ∧ items.length = ws.length ∧ ∀ i ∈ items, A i := by
  refine (reads_list_forall₂ (R := fun _ ↦ A) h).mono ?_
  rintro _ ⟨items, rfl, hitems⟩
  refine ⟨items, rfl, hitems.length_eq.symm, ?_⟩
  clear h
  induction hitems with
  | nil => exact nofun
  | cons hi _ ih => exact List.forall_mem_cons.2 ⟨hi, ih⟩

/-- A member of an object with what is known of the documents it is read as. -/
structure Member where
  name : String
  text : List Char
  property : Json → Prop

/-- A field of a document is what a member of an object was read as. -/
def Member.Read (m : Member) (f : String × Json) : Prop :=
  f.1 = m.name ∧ m.property f.2

/-- **An object is read member by member**, and a name that repeats keeps its last value. -/
theorem reads_object (members : List Member) (h : ∀ m ∈ members, Reads m.text m.property) :
    Reads ('\x7b' :: commas (members.map fun m ↦ memberText (m.name, m.text)) ++ ['\x7d']) fun j ↦
      ∃ fields, j = .object (collect fields) ∧ List.Forall₂ Member.Read members fields := by
  obtain ⟨trees, hspells, htrees⟩ : ∃ trees,
      List.Forall₂ SpellsMember (members.map fun m ↦ (m.name, m.text)) trees ∧
      List.Forall₂ (fun m (t : List Piece × Tree) ↦ t.1 = pieces m.name ∧
        ∀ room j, t.2.toJson? room = some j → m.property j) members trees := by
    induction members with
    | nil => exact ⟨[], .nil, .nil⟩
    | cons m members ih =>
      obtain ⟨t, ht, hA⟩ := h m List.mem_cons_self
      obtain ⟨trees, hspells, htrees⟩ := ih fun m hm ↦ h m (.tail _ hm)
      exact ⟨(pieces m.name, t) :: trees, .cons ⟨rfl, ht⟩ hspells, .cons ⟨rfl, hA⟩ htrees⟩
  have hobject := spells_object hspells
  rw [List.map_map] at hobject
  refine ⟨_, hobject, fun room j hj ↦ ?_⟩
  cases room with
  | zero => rw [Tree.toJson?] at hj; cases hj
  | succ room =>
    rw [Tree.toJson?] at hj
    obtain ⟨fields, hfields, rfl⟩ := Option.map_eq_some_iff.1 hj
    refine ⟨fields, rfl, ?_⟩
    have hread := toFields?_spec hfields
    clear hfields hj hobject hspells h
    induction htrees generalizing fields with
    | nil => cases hread; exact .nil
    | cons ht _ ih =>
      cases hread with
      | cons hf hread =>
        obtain ⟨hname, hA⟩ := ht
        rw [hname, text?_pieces] at hf
        exact .cons ⟨(Option.some.inj hf.1).symm, hA room _ hf.2⟩ (ih _ hread)

/-! ### Documents -/

theorem writeItems_eq_commas (items : List Json) : writeItems items = commas (items.map write) := by
  induction items with
  | nil => rfl
  | cons j rest ih =>
    cases rest with
    | nil => simp [writeItems, commas]
    | cons j' rest =>
      have hne : (j' :: rest).map write ≠ [] := List.cons_ne_nil _ _
      rw [List.map_cons, commas_cons hne, writeItems, ih]
      exact List.cons_ne_nil _ _

theorem writeFields_eq_commas (fields : List (String × Json)) :
    writeFields fields = commas (fields.map fun f ↦ memberText (f.1, write f.2)) := by
  induction fields with
  | nil => rfl
  | cons f rest ih =>
    obtain ⟨k, j⟩ := f
    cases rest with
    | nil => simp [writeFields, commas, memberText]
    | cons f' rest =>
      have hne : (f' :: rest).map (fun f ↦ memberText (f.1, write f.2)) ≠ [] :=
        List.cons_ne_nil _ _
      rw [List.map_cons, commas_cons hne, writeFields, ih, memberText]
      exact List.cons_ne_nil _ _

/-- **Induction on a document.** What holds of a list may rest on what holds of its items, and what
holds of an object on what holds of the values of its fields. -/
@[elab_as_elim]
theorem induction_on_parts {motive : Json → Prop} (null : motive .null)
    (bool : ∀ b, motive (.bool b)) (int : ∀ n, motive (.int n)) (float : ∀ x, motive (.float x))
    (string : ∀ s, motive (.string s))
    (list : ∀ items, (∀ i ∈ items, motive i) → motive (.list items))
    (object : ∀ fields, (∀ f ∈ fields, motive f.2) → motive (.object fields)) :
    ∀ j, motive j
  | .null => null
  | .bool b => bool b
  | .int n => int n
  | .float x => float x
  | .string s => string s
  | .list items => list items fun i hi ↦
    have := List.sizeOf_lt_of_mem hi
    induction_on_parts null bool int float string list object i
  | .object fields => object fields fun f hf ↦
    have := List.sizeOf_lt_of_mem hf
    induction_on_parts null bool int float string list object f.2
termination_by j => sizeOf j
decreasing_by
  · simp only [Json.list.sizeOf_spec]
    omega
  · obtain ⟨k, v⟩ := f
    simp only [Json.object.sizeOf_spec, Prod.mk.sizeOf_spec] at *
    omega

/-- **A document that is written spells a tree.** -/
theorem reads_write (j : Json) : Reads (write j) fun _ ↦ True := by
  induction j using induction_on_parts with
  | null =>
    rw [write]
    exact reads_null.mono fun _ _ ↦ trivial
  | bool b => exact (reads_bool b).mono fun _ _ ↦ trivial
  | int n =>
    rw [write]
    exact (reads_writeInt n).mono fun _ _ ↦ trivial
  | float x =>
    rw [write]
    exact (reads_writeNumber _ _ x).mono fun _ _ ↦ trivial
  | string s =>
    rw [write]
    exact (reads_string s).mono fun _ _ ↦ trivial
  | list items ih =>
    rw [write, writeItems_eq_commas]
    refine (reads_list (A := fun _ ↦ True) fun w hw ↦ ?_).mono fun _ _ ↦ trivial
    obtain ⟨j, hj, rfl⟩ := List.mem_map.1 hw
    exact ih j hj
  | object fields ih =>
    have hmembers := reads_object (fields.map fun f ↦ ⟨f.1, write f.2, fun _ ↦ True⟩)
      fun m hm ↦ by
        obtain ⟨f, hf, rfl⟩ := List.mem_map.1 hm
        exact ih f hf
    rw [List.map_map] at hmembers
    rw [write, writeFields_eq_commas]
    exact hmembers.mono fun _ _ ↦ trivial

end Json

end ContractHost
