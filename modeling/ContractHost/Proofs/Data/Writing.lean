import ContractHost.Proofs.Data.Typing
import ContractHost.Proofs.Json.Fields
import ContractHost.Proofs.Json.Reading

/-!
# Documents of a type

`Ty.Accepts` says which documents a description admits: it is what a caller may rely on when a value
of the described type is read as a document. The dynamic type, the place of a failure and the types
known by name only admit everything.

**A datum of a type is written as a document of that type** (`DataType.reads_write?`), provided that
the type shows all the fields it describes and the datum has no floating-point number that JSON has
no numeral for. Both provisos are needed: a hidden field is described and not written, and what is
not finite is written as `null`.
-/

namespace ContractHost

/-! ### Documents that a description admits -/

/-- A document is one of a scalar type. -/
def Scalar.Accepts : Scalar → Json → Prop
  | .bool, .bool _ => True
  | .string, .string _ => True
  | .integer k, .int n => k.InRange n
  | .single, j => j.isNumber = true
  | .double, j => j.isNumber = true
  | _, _ => False

namespace Ty

mutual

/-- A document is one that a description admits. -/
def Accepts : Ty → Json → Prop
  | .scalar s, j => s.Accepts j
  | .array elem n, .list items => items.length = n ∧ ∀ i ∈ items, Accepts elem i
  | .list elem, .list items => ∀ i ∈ items, Accepts elem i
  | .map _ _ value, .object fields => ∀ f ∈ fields, Accepts value f.2
  | .optional inner, j => j = .null ∨ Accepts inner j
  | .record _ fields, j => ∃ values, j = .object (Json.collect values) ∧ AcceptsFields fields values
  | .any, _ | .error, _ | .named _, _ => True
  | _, _ => False

/-- Values are what the fields of a record admit, in order. -/
def AcceptsFields : List (String × Ty) → List (String × Json) → Prop
  | [], [] => True
  | (name, t) :: rest, (k, j) :: values => k = name ∧ Accepts t j ∧ AcceptsFields rest values
  | _, _ => False

end

end Ty

/-! ### Data that can be written -/

/-- A floating-point number that is neither infinite nor not-a-number. -/
def FloatValue.IsFinite (x : FloatValue) : Prop :=
  ∃ y, x = .finite y

mutual

/-- Every floating-point number inside a datum is finite. Those inside a document always are. -/
def Datum.Finite : Datum → Prop
  | .single x => x.IsFinite
  | .double x => x.IsFinite
  | .list items => Datum.FiniteItems items
  | .map entries => Datum.FiniteEntries entries
  | .present d => d.Finite
  | .record fields => Datum.FiniteFields fields
  | .dynamic v => v.Finite
  | .bool _ | .string _ | .int _ | .char _ | .json _ | .nil => True

/-- Every item of a list is finite. -/
def Datum.FiniteItems : List Datum → Prop
  | [] => True
  | d :: rest => d.Finite ∧ Datum.FiniteItems rest

/-- Every value of a map is finite. -/
def Datum.FiniteEntries : List (MapKey × Datum) → Prop
  | [] => True
  | (_, d) :: rest => d.Finite ∧ Datum.FiniteEntries rest

/-- Every field of a record is finite. -/
def Datum.FiniteFields : List (String × Datum) → Prop
  | [] => True
  | (_, d) :: rest => d.Finite ∧ Datum.FiniteFields rest

/-- Every floating-point number inside a value is finite. -/
def Value.Finite : Value → Prop
  | .absent _ => True
  | .typed _ d => d.Finite

end

theorem Datum.FiniteItems.mem {d : Datum} : ∀ {items : List Datum}, Datum.FiniteItems items →
    d ∈ items → d.Finite
  | _ :: _, h, hd => by
    rcases List.mem_cons.1 hd with rfl | hd
    · exact h.1
    · exact FiniteItems.mem h.2 hd

theorem Datum.FiniteEntries.mem {e : MapKey × Datum} : ∀ {entries : List (MapKey × Datum)},
    Datum.FiniteEntries entries → e ∈ entries → e.2.Finite
  | (_, _) :: _, h, he => by
    rcases List.mem_cons.1 he with rfl | he
    · exact h.1
    · exact FiniteEntries.mem h.2 he

namespace DataType

mutual

/-- No record inside a data type has a hidden field, so what is described is what is written. -/
def HidesNothing : DataType → Prop
  | .list elem => HidesNothing elem
  | .array elem _ => HidesNothing elem
  | .map _ _ value => HidesNothing value
  | .option inner => HidesNothing inner
  | .record _ fields => FieldsHideNothing fields
  | .scalar _ | .signed128 | .unsigned128 | .char | .dynamic | .json => True

/-- No field is hidden, and no record inside one has a hidden field. -/
def FieldsHideNothing : List (Field × DataType) → Prop
  | [] => True
  | (f, t) :: rest => f.hidden = false ∧ HidesNothing t ∧ FieldsHideNothing rest

end

end DataType

/-! ### Writing part by part -/

open Json (Reads Member commas memberText)

/-- A key of a map is written as a string. -/
theorem MapKey.exists_write_eq (k : MapKey) : ∃ s, k.write = Json.writeString s := by
  have hplain : ∀ cs : List Char, (∀ c ∈ cs, Json.writeChar c = [c]) →
      ∃ s, '"' :: cs ++ ['"'] = Json.writeString s :=
    fun cs h ↦ ⟨String.ofList cs, (Json.writeString_ofList h).symm⟩
  cases k with
  | string s => exact ⟨s, rfl⟩
  | char c => exact ⟨String.singleton c, rfl⟩
  | bool b => cases b <;> exact hplain _ (by simp [Json.writeChar])
  | int n =>
    refine hplain (Json.writeInt n) fun c hc ↦ ?_
    have hdigit : c = '-' ∨ c.isDigit = true := by
      unfold Json.writeInt at hc
      split at hc
      · exact (List.mem_cons.1 hc).imp id Json.isDigit_toDigits
      · exact .inr (Json.isDigit_toDigits hc)
    rcases hdigit with rfl | hdigit
    · decide
    · exact Json.writeChar_of_isDigit hdigit

namespace Datum

theorem writeItems?_spec : ∀ {items : List Datum} {body : List Char},
    writeItems? items = some body →
      ∃ ws, body = commas ws ∧ List.Forall₂ (fun d w ↦ d.write? = some w) items ws
  | [], body, h => by
    rw [writeItems?] at h
    cases h
    exact ⟨[], rfl, .nil⟩
  | [d], body, h => by
    rw [writeItems?] at h
    exact ⟨[body], rfl, .cons h .nil⟩
  | d :: d' :: rest, body, h => by
    rw [writeItems?] at h
    · split at h
      · next a b ha hb =>
        cases h
        obtain ⟨ws, rfl, hws⟩ := writeItems?_spec hb
        have hne : ws ≠ [] := by
          rintro rfl
          cases hws
        exact ⟨a :: ws, (Json.commas_cons hne).symm, .cons ha hws⟩
      · cases h
    · exact fun hnil ↦ nomatch hnil

/-- The name and the text of an entry. -/
def WritesEntry (e : MapKey × Datum) (m : String × List Char) : Prop :=
  e.1.write = Json.writeString m.1 ∧ e.2.write? = some m.2

theorem WritesEntry.text {e : MapKey × Datum} {m : String × List Char} (h : WritesEntry e m) :
    e.1.write ++ ':' :: m.2 = memberText m := by
  rw [memberText, h.1]

theorem writeEntries?_spec : ∀ {entries : List (MapKey × Datum)} {body : List Char},
    writeEntries? entries = some body →
      ∃ members : List (String × List Char), body = commas (members.map memberText) ∧
        List.Forall₂ WritesEntry entries members
  | [], body, h => by
    rw [writeEntries?] at h
    cases h
    exact ⟨[], rfl, .nil⟩
  | [(k, d)], body, h => by
    rw [writeEntries?] at h
    obtain ⟨a, ha, rfl⟩ := Option.map_eq_some_iff.1 h
    obtain ⟨name, hname⟩ := k.exists_write_eq
    have hentry : WritesEntry (k, d) (name, a) := ⟨hname, ha⟩
    exact ⟨[(name, a)], hentry.text, .cons hentry .nil⟩
  | (k, d) :: e' :: rest, body, h => by
    rw [writeEntries?] at h
    · split at h
      · next a b ha hb =>
        cases h
        obtain ⟨members, rfl, hmembers⟩ := writeEntries?_spec hb
        obtain ⟨name, hname⟩ := k.exists_write_eq
        have hentry : WritesEntry (k, d) (name, a) := ⟨hname, ha⟩
        have hne : members.map memberText ≠ [] := by
          intro hnil
          rw [List.map_eq_nil_iff.1 hnil] at hmembers
          cases hmembers
        refine ⟨(name, a) :: members, ?_, .cons hentry hmembers⟩
        rw [List.map_cons, Json.commas_cons hne, ← hentry.text]
      · cases h
    · exact fun hnil ↦ nomatch hnil

/-- The fields of a record are written like the entries of a map keyed by strings. -/
theorem writeFields?_eq (fields : List (String × Datum)) :
    writeFields? fields = writeEntries? (fields.map fun f ↦ (.string f.1, f.2)) := by
  induction fields with
  | nil => rfl
  | cons f rest ih =>
    obtain ⟨k, d⟩ := f
    cases rest with
    | nil => rfl
    | cons f' rest =>
      rw [writeFields?, ih]
      · rfl
      · exact fun hnil ↦ nomatch hnil

end Datum

/-! ### Data of a type -/

/-- Every kind of integer lies in the range of the integers of documents. -/
theorem IntegerKind.InRange.integerRange {k : IntegerKind} {n : Int} (h : k.InRange n) :
    Json.IntegerRange n := by
  unfold IntegerKind.InRange at h
  unfold Json.IntegerRange
  cases k <;> simp only [IntegerKind.least, IntegerKind.greatest, IntegerKind.isSigned,
    IntegerKind.bits] at h <;> norm_num at h <;> omega

theorem FloatValue.IsFinite.reads_writeJson {x : FloatValue} (h : x.IsFinite) (fmt : BinaryFormat)
    (layout : FloatLayout) : Reads (x.writeJson fmt layout) fun j ↦ j.isNumber = true := by
  obtain ⟨y, rfl⟩ := h
  exact Json.reads_writeNumber layout fmt y

theorem Scalar.reads_write? {s : Scalar} {d : Datum} {w : List Char} (hfits : s.Fits d)
    (hfinite : d.Finite) (hw : d.write? = some w) : Reads w s.Accepts := by
  cases s <;> cases d <;> simp only [Scalar.Fits] at hfits <;> rw [Datum.write?] at hw <;> cases hw
  case bool.bool b => exact (Json.reads_bool b).mono fun _ hj ↦ hj ▸ trivial
  case string.string s => exact (Json.reads_string s).mono fun _ hj ↦ hj ▸ trivial
  case integer.int k n =>
    exact (Json.reads_writeInt n).mono fun _ hj ↦ hj.2 hfits.integerRange ▸ hfits
  case single.single x =>
    rw [Datum.Finite] at hfinite
    exact (hfinite.reads_writeJson _ _).mono fun _ hj ↦ hj
  case double.double x =>
    rw [Datum.Finite] at hfinite
    exact (hfinite.reads_writeJson _ _).mono fun _ hj ↦ hj

namespace DataType

/-- Texts of data of one type are read as documents of that type. -/
theorem reads_items {A : Json → Prop} {items : List Datum} {ws : List (List Char)}
    (h : List.Forall₂ (fun d w ↦ d.write? = some w) items ws)
    (hitems : ∀ d ∈ items, ∀ w, d.write? = some w → Reads w A) : ∀ w ∈ ws, Reads w A := by
  induction h with
  | nil => exact fun _ hw ↦ absurd hw List.not_mem_nil
  | cons hd _ ih =>
    exact List.forall_mem_cons.2 ⟨hitems _ List.mem_cons_self _ hd,
      ih fun d hd ↦ hitems d (.tail _ hd)⟩

theorem reads_entries {A : Json → Prop} {entries : List (MapKey × Datum)}
    {members : List (String × List Char)} (h : List.Forall₂ Datum.WritesEntry entries members)
    (hentries : ∀ e ∈ entries, ∀ w, e.2.write? = some w → Reads w A) :
    ∀ m ∈ members, Reads m.2 A := by
  induction h with
  | nil => exact fun _ hm ↦ absurd hm List.not_mem_nil
  | cons he _ ih =>
    exact List.forall_mem_cons.2 ⟨hentries _ List.mem_cons_self _ he.2,
      ih fun e he ↦ hentries e (.tail _ he)⟩

/-- A list is written as a list of documents, one for each item. -/
theorem reads_list {A : Json → Prop} {items : List Datum} {w : List Char}
    (hitems : ∀ d ∈ items, ∀ w, d.write? = some w → Reads w A)
    (hw : (Datum.list items).write? = some w) :
    Reads w fun j ↦ ∃ docs, j = .list docs ∧ docs.length = items.length ∧ ∀ i ∈ docs, A i := by
  rw [Datum.write?] at hw
  obtain ⟨body, hbody, rfl⟩ := Option.map_eq_some_iff.1 hw
  obtain ⟨ws, rfl, hws⟩ := Datum.writeItems?_spec hbody
  refine (Json.reads_list (reads_items hws hitems)).mono ?_
  rintro _ ⟨docs, rfl, hlength, hdocs⟩
  exact ⟨docs, rfl, hlength.trans hws.length_eq.symm, hdocs⟩

/-- A map is written as an object whose fields are the documents of its values. -/
theorem reads_map {A : Json → Prop} {entries : List (MapKey × Datum)} {w : List Char}
    (hentries : ∀ e ∈ entries, ∀ w, e.2.write? = some w → Reads w A)
    (hw : (Datum.map entries).write? = some w) :
    Reads w fun j ↦ ∃ fields, j = .object fields ∧ ∀ f ∈ fields, A f.2 := by
  rw [Datum.write?] at hw
  obtain ⟨body, hbody, rfl⟩ := Option.map_eq_some_iff.1 hw
  obtain ⟨members, rfl, hmembers⟩ := Datum.writeEntries?_spec hbody
  have htexts := reads_entries hmembers hentries
  have hread := Json.reads_object (members.map fun m ↦ ⟨m.1, m.2, A⟩) fun m hm ↦ by
    obtain ⟨m', hm', rfl⟩ := List.mem_map.1 hm
    exact htexts m' hm'
  rw [List.map_map] at hread
  refine hread.mono ?_
  rintro _ ⟨values, rfl, hvalues⟩
  refine ⟨_, rfl, fun f hf ↦ ?_⟩
  have hmem := Json.mem_of_mem_collect hf
  clear hf hread htexts hmembers hbody hw
  rw [List.forall₂_map_left_iff] at hvalues
  -- Each value that is collected was read from the text of one member.
  induction hvalues with
  | nil => cases hmem
  | cons hv _ ih =>
    rcases List.mem_cons.1 hmem with rfl | hmem
    · exact hv.2
    · exact ih hmem

mutual

/-- **A datum of a type is written as a document of that type.** -/
theorem reads_write? : ∀ (t : DataType) {d : Datum} {w : List Char}, t.HidesNothing →
    Datum.Fits t d → d.Finite → d.write? = some w → Reads w t.ty.Accepts
  | .scalar s, d, w, _, hfits, hfinite, hw => by
    rw [Datum.Fits] at hfits
    exact (Scalar.reads_write? hfits hfinite hw).mono fun j hj ↦ by rwa [ty, Ty.Accepts]
  | .signed128, d, w, _, hfits, _, hw => by
    cases d <;> simp only [Datum.Fits] at hfits
    rw [Datum.write?] at hw
    cases hw
    exact (Json.reads_writeInt _).mono fun _ _ ↦ trivial
  | .unsigned128, d, w, _, hfits, _, hw => by
    cases d <;> simp only [Datum.Fits] at hfits
    rw [Datum.write?] at hw
    cases hw
    exact (Json.reads_writeInt _).mono fun _ _ ↦ trivial
  | .char, d, w, _, hfits, _, hw => by
    cases d <;> simp only [Datum.Fits] at hfits
    rw [Datum.write?] at hw
    cases hw
    exact (Json.reads_string _).mono fun _ _ ↦ trivial
  | .dynamic, d, w, _, hfits, _, hw => by
    cases d <;> simp only [Datum.Fits] at hfits
    -- A dynamic value is written through its document, which may be missing.
    rw [Datum.write?] at hw
    split at hw
    · cases hw
    · obtain ⟨j, -, rfl⟩ := Option.map_eq_some_iff.1 hw
      exact (Json.reads_write j).mono fun _ _ ↦ trivial
  | .json, d, w, _, hfits, _, hw => by
    cases d <;> simp only [Datum.Fits] at hfits
    rw [Datum.write?] at hw
    cases hw
    exact (Json.reads_write _).mono fun _ _ ↦ trivial
  | .list elem, d, w, hplain, hfits, hfinite, hw => by
    cases d <;> simp only [Datum.Fits] at hfits
    rw [HidesNothing] at hplain
    rw [Datum.Finite] at hfinite
    have hread := reads_list
      (fun d hd w hw ↦ reads_write? elem hplain (hfits d hd) (hfinite.mem hd) hw) hw
    refine hread.mono ?_
    rintro _ ⟨docs, rfl, -, hdocs⟩
    exact hdocs
  | .array elem n, d, w, hplain, hfits, hfinite, hw => by
    cases d <;> simp only [Datum.Fits] at hfits
    rw [HidesNothing] at hplain
    rw [Datum.Finite] at hfinite
    have hread := reads_list
      (fun d hd w hw ↦ reads_write? elem hplain (hfits.2 d hd) (hfinite.mem hd) hw) hw
    refine hread.mono ?_
    rintro _ ⟨docs, rfl, hlength, hdocs⟩
    exact ⟨hlength.trans hfits.1, hdocs⟩
  | .map _ key value, d, w, hplain, hfits, hfinite, hw => by
    cases d <;> simp only [Datum.Fits] at hfits
    rw [HidesNothing] at hplain
    rw [Datum.Finite] at hfinite
    have hread := reads_map
      (fun e he w hw ↦ reads_write? value hplain (hfits e he).2 (hfinite.mem he) hw) hw
    refine hread.mono ?_
    rintro _ ⟨fields, rfl, hfields⟩
    exact hfields
  | .option inner, d, w, hplain, hfits, hfinite, hw => by
    rw [HidesNothing] at hplain
    cases d <;> simp only [Datum.Fits] at hfits
    · rw [Datum.write?, Json.write] at hw
      cases hw
      exact Json.reads_null.mono fun _ hj ↦ .inl hj
    · rw [Datum.Finite] at hfinite
      rw [Datum.write?] at hw
      exact (reads_write? inner hplain hfits hfinite hw).mono fun _ hj ↦ .inr hj
  | .record name fields, d, w, hplain, hfits, hfinite, hw => by
    cases d <;> simp only [Datum.Fits] at hfits
    rw [HidesNothing] at hplain
    rw [Datum.Finite] at hfinite
    rw [Datum.write?] at hw
    obtain ⟨body, hbody, rfl⟩ := Option.map_eq_some_iff.1 hw
    rw [Datum.writeFields?_eq] at hbody
    obtain ⟨texts, rfl, htexts⟩ := Datum.writeEntries?_spec hbody
    rw [List.forall₂_map_left_iff] at htexts
    obtain ⟨members, rfl, hread, hvalues⟩ := exists_members fields hplain hfits hfinite htexts
    have hobject := Json.reads_object members hread
    rw [← Function.comp_def memberText, ← List.map_map] at hobject
    refine hobject.mono ?_
    rintro _ ⟨values, rfl, hv⟩
    exact ⟨values, rfl, hvalues values hv⟩

/-- The fields of a record are written as members that are read as the record's fields. -/
theorem exists_members : ∀ (fields : List (Field × DataType)) {data : List (String × Datum)}
    {texts : List (String × List Char)}, FieldsHideNothing fields → Datum.FitsFields fields data →
    Datum.FiniteFields data →
    List.Forall₂ (fun f m ↦ Datum.WritesEntry (.string f.1, f.2) m) data texts →
      ∃ members : List Member, members.map (fun m ↦ (m.name, m.text)) = texts ∧
        (∀ m ∈ members, Reads m.text m.property) ∧
        ∀ values, List.Forall₂ Member.Read members values →
          Ty.AcceptsFields (fieldTys fields) values
  | [], data, texts, _, hfits, _, htexts => by
    cases data <;> simp only [Datum.FitsFields] at hfits
    cases htexts
    refine ⟨[], rfl, fun _ hm ↦ absurd hm List.not_mem_nil, fun values hv ↦ ?_⟩
    cases hv
    exact trivial
  | (⟨name, true⟩, t) :: rest, _, _, hplain, _, _, _ => by
    rw [FieldsHideNothing] at hplain
    cases hplain.1
  | (⟨name, false⟩, t) :: rest, data, texts, hplain, hfits, hfinite, htexts => by
    rw [FieldsHideNothing] at hplain
    obtain ⟨-, hplain, hplains⟩ := hplain
    cases htexts with
    | nil => simp only [Datum.FitsFields] at hfits
    | @cons f m data texts hf htexts =>
      obtain ⟨k, d⟩ := f
      rw [Datum.FitsFields] at hfits
      rw [Datum.FiniteFields] at hfinite
      obtain ⟨rfl, hfits, hfitss⟩ := hfits
      obtain ⟨members, rfl, hread, hvalues⟩ := exists_members rest hplains hfitss hfinite.2 htexts
      refine ⟨⟨k, m.2, t.ty.Accepts⟩ :: members, ?_, ?_, ?_⟩
      · have hname : k = m.1 := Json.writeString_inj hf.1
        rw [List.map_cons, hname]
      · exact List.forall_mem_cons.2 ⟨reads_write? t hplain hfits hfinite.1 hf.2, hread⟩
      · rintro _ (_ | ⟨hv, hvs⟩)
        exact ⟨hv.1, hv.2, hvalues _ hvs⟩

end

end DataType

/-- **The document of a value is one of the value's type.** -/
theorem Value.accepts_toJson? {t : DataType} {d : Datum} {j : Json} (hplain : t.HidesNothing)
    (hfits : Datum.Fits t d) (hfinite : (Value.ofDatum t d).Finite)
    (hj : (Value.ofDatum t d).toJson? = some j) : t.ty.Accepts j := by
  rcases Value.ofDatum_of_fits hfits with rfl | hof
  · exact trivial
  · rw [hof] at hfinite hj
    rw [Value.Finite] at hfinite
    rw [Value.toJson?, Value.write?] at hj
    obtain ⟨w, hw, hread⟩ := Option.bind_eq_some_iff.1 hj
    exact (t.reads_write? hplain hfits hfinite hw).read? hread

end ContractHost
