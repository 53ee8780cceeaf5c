import ContractHost.Proofs.Json.RoundTrip

/-!
# Texts that are written again as they were

A text is **canonical** (`Json.Canonical`) if every document that is read from it, and that holds no
numbers but integers (`Json.Integral`), is written as that text again. Reading forgets white space,
how a character was escaped, and of several fields of one name all values but the last. What is
written here leaves nothing of that kind to forget: canonical texts are put together to canonical
lists (`canonical_list`), and to canonical objects if no name repeats (`canonical_object`).

Numbers are the reason for the proviso. A number with a fraction may have been written with the
digits of another format, and an integer beyond the 64-bit ranges is read as a number with a
fraction; so both are canonical for want of a document without fractions
(`canonical_writeNumber`, `canonical_writeInt`).
-/

namespace ContractHost

namespace Json

/-! ### Documents without floating-point numbers -/

mutual

/-- All numbers inside a document are integers. Those beyond the 64-bit ranges are not documents:
they are read as floating-point numbers. -/
def Integral : Json → Prop
  | .int n => IntegerRange n
  | .float _ => False
  | .list items => IntegralItems items
  | .object fields => IntegralFields fields
  | .null | .bool _ | .string _ => True

/-- All numbers inside the items of a list are integers. -/
def IntegralItems : List Json → Prop
  | [] => True
  | j :: rest => j.Integral ∧ IntegralItems rest

/-- All numbers inside the values of fields are integers. -/
def IntegralFields : List (String × Json) → Prop
  | [] => True
  | (_, j) :: rest => j.Integral ∧ IntegralFields rest

end

theorem IntegralItems.mem {i : Json} : ∀ {items : List Json}, IntegralItems items → i ∈ items →
    i.Integral
  | _ :: _, h, hi => by
    rw [IntegralItems] at h
    rcases List.mem_cons.1 hi with rfl | hi
    · exact h.1
    · exact h.2.mem hi

theorem IntegralFields.mem {f : String × Json} : ∀ {fields : List (String × Json)},
    IntegralFields fields → f ∈ fields → f.2.Integral
  | (_, _) :: _, h, hf => by
    rw [IntegralFields] at h
    rcases List.mem_cons.1 hf with rfl | hf
    · exact h.1
    · exact h.2.mem hf

/-! ### Canonical texts -/

/-- What is read from a text is written as that text, if it holds no numbers but integers. -/
def Canonical (w : List Char) : Prop :=
  Reads w fun j ↦ j.Integral → j.write = w

theorem canonical_null : Canonical (write .null) := by
  rw [write]
  refine reads_null.mono ?_
  rintro _ rfl -
  rw [write]

theorem canonical_bool (b : Bool) : Canonical (write (.bool b)) := by
  refine (reads_bool b).mono ?_
  rintro _ rfl -
  rfl

theorem canonical_string (s : String) : Canonical (writeString s) := by
  refine (reads_string s).mono ?_
  rintro _ rfl -
  rw [write]

/-- An integer out of range is read as a floating-point number, if at all. -/
theorem canonical_writeInt (n : ℤ) : Canonical (writeInt n) := by
  rw [Canonical, writeInt_eq_text]
  refine ⟨_, spells_number (Spelling.valid_integer n), fun room j h hj ↦ ?_⟩
  rw [Tree.toJson?, ofNumeral?, int?_integer] at h
  dsimp only at h
  split at h
  · cases h
    rw [write, writeInt_eq_text]
  · unfold ofNumeral?.ofDecimal at h
    split at h <;> cases h
    exact hj.elim

/-- A number that is written with its fraction marked is read as a floating-point number. -/
theorem canonical_writeNumber {layout : FloatLayout} (hlayout : layout.marksFraction = true)
    (fmt : BinaryFormat) (x : BinaryNumber) : Canonical (layout.writeNumber fmt x) := by
  obtain ⟨s, hs, htext, hintegral⟩ := layout.exists_spelling (x.shortest fmt layout.tie)
  rw [FloatLayout.writeNumber, htext]
  refine ⟨_, spells_number hs.valid, fun room j h hj ↦ ?_⟩
  have hint : s.numeral.int? = none := by
    rw [Numeral.int?, hintegral hlayout, if_neg Bool.false_ne_true]
  rw [Tree.toJson?, ofNumeral?, hint] at h
  dsimp only at h
  unfold ofNumeral?.ofDecimal at h
  split at h <;> cases h
  exact hj.elim

/-- **A list of canonical texts is canonical.** -/
theorem canonical_list {ws : List (List Char)} (h : ∀ w ∈ ws, Canonical w) :
    Canonical ('[' :: commas ws ++ [']']) := by
  refine (reads_list_forall₂ (R := fun w j ↦ j.Integral → j.write = w) h).mono ?_
  rintro _ ⟨items, rfl, hitems⟩ hintegral
  rw [Integral] at hintegral
  have hwrite : items.map write = ws := by
    clear h
    induction hitems with
    | nil => rfl
    | cons hi _ ih =>
      rw [IntegralItems] at hintegral
      rw [List.map_cons, hi hintegral.1, ih hintegral.2]
  rw [write, writeItems_eq_commas, hwrite]

/-- **An object of canonical texts is canonical** if no name repeats. -/
theorem canonical_object {members : List (String × List Char)}
    (hnames : (members.map Prod.fst).Nodup) (h : ∀ m ∈ members, Canonical m.2) :
    Canonical ('\x7b' :: commas (members.map memberText) ++ ['\x7d']) := by
  have hread := reads_object
    (members.map fun m ↦ ⟨m.1, m.2, fun j ↦ j.Integral → j.write = m.2⟩) fun m hm ↦ by
      obtain ⟨m', hm', rfl⟩ := List.mem_map.1 hm
      exact h m' hm'
  rw [List.map_map] at hread
  refine hread.mono ?_
  rintro _ ⟨fields, rfl, hfields⟩
  rw [List.forall₂_map_left_iff] at hfields
  -- No name repeats among the fields either, so none of them is lost.
  have hsame : fields.map Prod.fst = members.map Prod.fst := by
    clear hread h hnames
    induction hfields with
    | nil => rfl
    | cons hf _ ih => rw [List.map_cons, List.map_cons, ih, hf.1]
  rw [collect_eq_self (hsame ▸ hnames)]
  intro hintegral
  rw [Integral] at hintegral
  have hwrite : (fields.map fun f ↦ memberText (f.1, f.2.write)) = members.map memberText := by
    clear hsame hread h hnames
    induction hfields with
    | nil => rfl
    | @cons m f members fields hf _ ih =>
      obtain ⟨k, j⟩ := f
      rw [IntegralFields] at hintegral
      obtain ⟨rfl, htext⟩ := hf
      rw [List.map_cons, List.map_cons, ih hintegral.2, htext hintegral.1]
  rw [write, writeFields_eq_commas, hwrite]

/-- **The text of a well-formed document is canonical.** -/
theorem canonical_write {j : Json} (hj : j.WellFormed) : Canonical j.write := by
  induction j using induction_on_parts with
  | null => exact canonical_null
  | bool b => exact canonical_bool b
  | int n =>
    rw [write]
    exact canonical_writeInt n
  | float x =>
    rw [write, writeDouble]
    exact canonical_writeNumber rfl _ x
  | string s =>
    rw [write]
    exact canonical_string s
  | list items ih =>
    rw [WellFormed, wellFormedItems_iff] at hj
    rw [write, writeItems_eq_commas]
    refine canonical_list fun w hw ↦ ?_
    obtain ⟨i, hi, rfl⟩ := List.mem_map.1 hw
    exact ih i hi (hj i hi)
  | object fields ih =>
    rw [WellFormed, wellFormedFields_iff] at hj
    have hnames : ((fields.map fun f ↦ (f.1, f.2.write)).map Prod.fst).Nodup := by
      rw [List.map_map]
      exact hj.1
    have hobject := canonical_object hnames fun m hm ↦ by
      obtain ⟨f, hf, rfl⟩ := List.mem_map.1 hm
      exact ih f hf (hj.2 f hf)
    rw [List.map_map] at hobject
    rw [write, writeFields_eq_commas]
    exact hobject

end Json

end ContractHost
