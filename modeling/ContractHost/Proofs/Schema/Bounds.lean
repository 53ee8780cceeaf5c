import ContractHost.Proofs.Json.Numerals
import ContractHost.Proofs.Number.Rounding
import ContractHost.Proofs.Schema.Semantics

/-!
# Reports of violated bounds

A bound that a number violates is reported by a text of its own (`BoundKeyword.report`). No other
keyword has such a text, and no other bound has the same one (`BoundKeyword.report_injective`). So a
report at the path of an instance tells that the bound is violated, also where the report comes from
another schema that the instance is checked against (`violated_of_mem_check`).

Bounds and instances are rounded to the 64-bit format before they are compared (`nearestDouble`).
**A bound is reported exactly if the rounded numbers violate it** (`mem_validate_bound_iff`). That is
so of the integers themselves where one of the two is small enough. In the whole range, rounding may
hide a violation of `minimum` or `maximum` (`validate_ne_minimum`), and may make one up of their
exclusive forms, but not the other way round.
-/

namespace ContractHost

namespace Schema

variable {components : Components} {fields : List (String × Json)} {l : List String} {root : Json}
  {s j : Json} {path : String} {b n : ℤ}

/-! ### The keywords -/

/-- A keyword that bounds a number. -/
inductive BoundKeyword
  | minimum
  | maximum
  | exclusiveMinimum
  | exclusiveMaximum
  deriving DecidableEq, Repr

namespace BoundKeyword

variable {k k' : BoundKeyword}

/-- The keyword as it is written. -/
def name : BoundKeyword → String
  | minimum => "minimum"
  | maximum => "maximum"
  | exclusiveMinimum => "exclusiveMinimum"
  | exclusiveMaximum => "exclusiveMaximum"

/-- What is said of a number that violates the bound. -/
def text : BoundKeyword → String
  | minimum => "Must be greater than or equal to"
  | maximum => "Must be less than or equal to"
  | exclusiveMinimum => "Must be greater than"
  | exclusiveMaximum => "Must be less than"

/-- The bound itself is out of bounds. -/
def isExclusive : BoundKeyword → Bool
  | minimum | maximum => false
  | exclusiveMinimum | exclusiveMaximum => true

/-- The report of a violated bound. -/
def report (k : BoundKeyword) (b : Json) : String :=
  k.text ++ " " ++ b.toText

/-- A number violates a bound. -/
def Violated {α : Type} [LinearOrder α] : BoundKeyword → α → α → Prop
  | minimum, x, b => x < b
  | maximum, x, b => b < x
  | exclusiveMinimum, x, b => x ≤ b
  | exclusiveMaximum, x, b => b ≤ x

instance {α : Type} [LinearOrder α] (k : BoundKeyword) (x b : α) : Decidable (k.Violated x b) :=
  match k with
  | minimum => inferInstanceAs (Decidable (x < b))
  | maximum => inferInstanceAs (Decidable (b < x))
  | exclusiveMinimum => inferInstanceAs (Decidable (x ≤ b))
  | exclusiveMaximum => inferInstanceAs (Decidable (b ≤ x))

end BoundKeyword

theorem mem_boundFault {x : BinaryNumber} {keyword text t : String}
    {holds : BinaryNumber → BinaryNumber → Bool} :
    t ∈ boundFault fields x keyword text holds ↔ ∃ b y, Json.field? keyword fields = some b ∧
      b.toDouble? = some y ∧ holds x y = false ∧ t = text ++ " " ++ b.toText := by
  unfold boundFault
  cases Json.field? keyword fields with
  | none => simp
  | some b =>
    cases hy : b.toDouble? with
    | none => simp [hy]
    | some y => cases hholds : holds x y <;> simp [hy, hholds]

/-- **What is reported of the bounds of a schema.** -/
theorem mem_boundFaults {t : String} :
    t ∈ boundFaults fields j ↔ ∃ (k : BoundKeyword) (b : Json) (x y : BinaryNumber),
      Json.field? k.name fields = some b ∧ j.toDouble? = some x ∧ b.toDouble? = some y ∧
        k.Violated x.value y.value ∧ t = k.report b := by
  unfold boundFaults
  cases hx : j.toDouble? with
  | none => simp
  | some x =>
    have hle : ∀ {x y : BinaryNumber}, x.le y = false ↔ y.value < x.value := fun {x y} ↦ by
      rw [← not_le, ← BinaryNumber.le_iff, Bool.not_eq_true]
    have hlt : ∀ {x y : BinaryNumber}, x.lt y = false ↔ y.value ≤ x.value := fun {x y} ↦ by
      rw [← not_lt, ← BinaryNumber.lt_iff, Bool.not_eq_true]
    simp only [List.mem_append, mem_boundFault, hle, hlt]
    constructor
    · rintro (((⟨b, y, hb, hy, hviolated, rfl⟩ | ⟨b, y, hb, hy, hviolated, rfl⟩) |
        ⟨b, y, hb, hy, hviolated, rfl⟩) | ⟨b, y, hb, hy, hviolated, rfl⟩)
      · exact ⟨.minimum, b, x, y, hb, rfl, hy, hviolated, rfl⟩
      · exact ⟨.maximum, b, x, y, hb, rfl, hy, hviolated, rfl⟩
      · exact ⟨.exclusiveMinimum, b, x, y, hb, rfl, hy, hviolated, rfl⟩
      · exact ⟨.exclusiveMaximum, b, x, y, hb, rfl, hy, hviolated, rfl⟩
    · rintro ⟨k, b, x, y, hb, hx', hy, hviolated, rfl⟩
      cases hx'
      cases k with
      | minimum => exact .inl (.inl (.inl ⟨b, y, hb, hy, hviolated, rfl⟩))
      | maximum => exact .inl (.inl (.inr ⟨b, y, hb, hy, hviolated, rfl⟩))
      | exclusiveMinimum => exact .inl (.inr ⟨b, y, hb, hy, hviolated, rfl⟩)
      | exclusiveMaximum => exact .inr ⟨b, y, hb, hy, hviolated, rfl⟩

/-! ### Telling reports apart -/

end Schema

namespace Json

variable {j : Json} {b : ℤ}

/-- A text spells one numeral. -/
theorem Spelling.numeral_eq {s s' : Spelling} (hs : s.Valid) (hs' : s'.Valid)
    (h : s.text = s'.text) : s.numeral = s'.numeral := by
  have hscan := scanNumeral_text hs delimited_nil
  rw [h, scanNumeral_text hs' delimited_nil] at hscan
  exact (congrArg Prod.fst (Option.some.inj hscan)).symm

theorem exists_spelling_float (x : BinaryNumber) :
    ∃ s : Spelling, s.Valid ∧ write (.float x) = s.text ∧ s.numeral.integral = false := by
  obtain ⟨s, hs, htext, hintegral⟩ :=
    FloatLayout.jsonDouble.exists_spelling (x.shortest .double .toEven)
  rw [write]
  exact ⟨s, hs.valid, htext, hintegral rfl⟩

/-- A number with the text of an integer is that integer. -/
theorem eq_int_of_write_eq (hj : j.isNumber = true) (h : write j = write (.int b)) :
    j = .int b := by
  have hb : write (.int b) = (Spelling.integer b).text := by rw [write, writeInt_eq_text]
  rcases j with _ | _ | n | x | _ | _ | _
  case int =>
    have hn : write (.int n) = (Spelling.integer n).text := by rw [write, writeInt_eq_text]
    have hnumeral := Spelling.numeral_eq (Spelling.valid_integer n) (Spelling.valid_integer b)
      (hn.symm.trans (h.trans hb))
    have hint := int?_integer n
    rw [hnumeral, int?_integer] at hint
    rw [Option.some.inj hint]
  case float =>
    obtain ⟨s, hs, htext, hintegral⟩ := exists_spelling_float x
    have hnumeral := Spelling.numeral_eq hs (Spelling.valid_integer b)
      (htext.symm.trans (h.trans hb))
    rw [hnumeral] at hintegral
    cases hintegral
  all_goals cases hj

/-- The text of a number starts with a minus sign or a digit. -/
theorem head_write_of_isNumber (hj : j.isNumber = true) :
    ∃ c rest, write j = c :: rest ∧ (c = '-' ∨ c.isDigit = true) := by
  obtain ⟨s, hs, htext⟩ : ∃ s : Spelling, s.Valid ∧ write j = s.text := by
    rcases j with _ | _ | n | x | _ | _ | _
    case int => exact ⟨_, Spelling.valid_integer n, by rw [write, writeInt_eq_text]⟩
    case float =>
      obtain ⟨s, hs, htext, -⟩ := exists_spelling_float x
      exact ⟨s, hs, htext⟩
    all_goals cases hj
  obtain ⟨c, whole, hwhole, hc⟩ := hs.whole_eq_cons
  rw [htext, Spelling.text, hwhole]
  cases s.negative with
  | true => exact ⟨'-', _, rfl, .inl rfl⟩
  | false => exact ⟨c, _, rfl, .inr hc⟩

end Json

namespace Schema

variable {components : Components} {fields : List (String × Json)} {l : List String} {root : Json}
  {s j : Json} {path : String} {b n : ℤ}

namespace BoundKeyword

variable {k k' : BoundKeyword}

theorem toList_report (k : BoundKeyword) (b : Json) :
    (k.report b).toList = k.text.toList ++ ' ' :: b.write := by
  simp [report, Json.toText]

/-- **The report of an integer bound is that of no other bound.** -/
theorem report_injective (hj : j.isNumber = true) (h : k'.report j = k.report (.int b)) :
    k' = k ∧ j = .int b := by
  have hlist := congrArg String.toList h
  rw [toList_report, toList_report] at hlist
  obtain ⟨c, rest, hc, hfirst⟩ := Json.head_write_of_isNumber hj
  obtain ⟨d, rest', hd, hfirst'⟩ := Json.head_write_of_isNumber (j := .int b) rfl
  have hletter : ∀ {c : Char}, c = '-' ∨ c.isDigit = true → c ≠ 'o' := by
    rintro _ hfirst rfl
    exact hfirst.elim (by decide) (by decide)
  -- Where the texts of two keywords part, two letters differ, or a letter meets a number.
  have hk : k' = k := by
    rw [hc, hd] at hlist
    cases k' <;> cases k <;> simp [text] at hlist ⊢
    · exact hletter hfirst' hlist.1.symm
    · exact hletter hfirst' hlist.1.symm
    · exact hletter hfirst hlist.1
    · exact hletter hfirst hlist.1
  subst hk
  have hwrite := List.append_cancel_left hlist
  rw [List.cons.injEq] at hwrite
  exact ⟨rfl, Json.eq_int_of_write_eq hj hwrite.2⟩

/-- No other text that may be reported of a number begins like that of a bound. -/
theorem report_ne {t : String} (k : BoundKeyword) (b : Json)
    (h : t.toList.take 6 ≠ ['M', 'u', 's', 't', ' ', 'b']) : k.report b ≠ t := by
  rintro rfl
  refine h ?_
  rw [toList_report]
  cases k <;> simp [text]

/-- No such text, reported alone, is a report of a bound. -/
theorem report_not_mem {t : String} (k : BoundKeyword) (b : Json)
    (h : t.toList.take 6 ≠ ['M', 'u', 's', 't', ' ', 'b']) :
    (⟨path, k.report b⟩ : Violation) ∉ [⟨path, t⟩] := fun hmem ↦
  k.report_ne b h (congrArg Violation.description (List.mem_singleton.1 hmem))

end BoundKeyword

/-! ### What is reported of an integer -/

variable {k : BoundKeyword}

/-- A bound is the only thing that is reported like a bound, of all that is looked at in an integer.
-/
theorem violated_of_mem_localFaults (h : k.report (.int b) ∈ localFaults fields (.int n)) :
    ∃ x y : BinaryNumber, (Json.int n).toDouble? = some x ∧ (Json.int b).toDouble? = some y ∧
      k.Violated x.value y.value := by
  simp only [localFaults, lengthFaults, requiredFaults, List.append_nil, List.mem_append] at h
  rcases h with h | h
  · -- The texts of the choices begin otherwise.
    rw [choiceFaults, List.mem_append] at h
    rcases h with h | h
    · split at h
      · split at h
        · cases h
        · exact absurd (List.mem_singleton.1 h) (k.report_ne _ (by simp))
      · cases h
    · split at h
      · split at h
        · cases h
        · exact absurd (List.mem_singleton.1 h) (k.report_ne _ (by simp))
      · cases h
  · obtain ⟨k', b', x, y, -, hx, hy, hviolated, hreport⟩ := mem_boundFaults.1 h
    have hnumber : b'.isNumber = true := by
      cases b' <;> first | rfl | cases hy
    obtain ⟨rfl, rfl⟩ := BoundKeyword.report_injective hnumber hreport.symm
    exact ⟨x, y, hx, hy, hviolated⟩

/-- A report of a bound that comes from a combination of schemas comes from one under `allOf`: the
texts of the other combinations begin otherwise. -/
theorem mem_of_mem_combine {allOf anyOf oneOf : Option (List (List Violation))}
    {negated : Option (List Violation)}
    (h : ⟨path, k.report j⟩ ∈ combine path allOf anyOf oneOf negated) :
    ∃ results, allOf = some results ∧ ∃ result ∈ results, ⟨path, k.report j⟩ ∈ result := by
  rcases mem_combine.1 h with h | ⟨_, _, _, h⟩ | ⟨_, _, _, h⟩ | ⟨_, h⟩
  · exact h
  · exact absurd (congrArg Violation.description h) (k.report_ne j (by simp))
  · exact absurd (congrArg Violation.description h) (k.report_ne j (by simp))
  · exact absurd (congrArg Violation.description h) (k.report_ne j (by simp))

/-- The text of a violated type restriction begins otherwise than that of a bound. -/
theorem take_typeFault? {t : String} (h : typeFault? fields j = some t) :
    t.toList.take 6 ≠ ['M', 'u', 's', 't', ' ', 'b'] := by
  unfold typeFault? at h
  split at h
  · cases h
  · split at h
    · cases h
    · rw [← Option.some.inj h]
      simp

/-- Of an instance that the type restriction rejects, nothing else is reported. -/
theorem check_of_typeFault? (h : Usable components root l)
    (hs : Reached components root (.object fields)) (hr : reference? fields = none) {t : String}
    (hfault : typeFault? fields j = some t) :
    check components j path (.object fields) = [⟨path, t⟩] := by
  rw [check_eq_judgeStep h hs]
  simp only [judgeStep, hr, hfault]
  rfl

/-- What is reported of an integer that the type restriction admits. An integer has no children. -/
theorem check_int (h : Usable components root l) (hs : Reached components root (.object fields))
    (hr : reference? fields = none) (hfault : typeFault? fields (.int n) = none) (path : String) :
    ∃ anyOf oneOf negated, check components (.int n) path (.object fields) =
      (localFaults fields (.int n)).map (⟨path, ·⟩) ++
        combine path (((Json.field? "allOf" fields).bind Json.asList?).map
          (List.map (check components (.int n) path))) anyOf oneOf negated := by
  have hstep := check_eq_judgeStep h hs (.int n) path
  simp only [judgeStep, hr, hfault, Id.run_bind, Id.run_pure, run_judgeItems, run_judgeFields,
    run_judgeList, run_judgeNot] at hstep
  cases hitems : Json.field? "items" fields <;>
    exact ⟨_, _, _, by rw [hstep, hitems, List.append_nil, List.append_nil]⟩

/-- **A reported bound is violated**, whichever schema it comes from. -/
theorem violated_of_mem_check (h : Usable components root l) (hs : Reached components root s)
    (hmem : ⟨path, k.report (.int b)⟩ ∈ check components (.int n) path s) :
    ∃ x y : BinaryNumber, (Json.int n).toDouble? = some x ∧ (Json.int b).toDouble? = some y ∧
      k.Violated x.value y.value := by
  refine call_induction h (motive := fun s j ↦ j = .int n →
    ⟨path, k.report (.int b)⟩ ∈ check components j path s →
      ∃ x y : BinaryNumber, (Json.int n).toDouble? = some x ∧ (Json.int b).toDouble? = some y ∧
        k.Violated x.value y.value) ?_ s (.int n) hs rfl hmem
  rintro s _ hs hcalls rfl hmem
  rcases h.object_or_bool hs with ⟨fields, rfl⟩ | ⟨truth, rfl⟩
  · cases hr : reference? fields with
    | some r =>
      obtain ⟨t, ht⟩ := h.exists_target hs hr
      rw [check_eq_judgeStep h hs] at hmem
      simp only [judgeStep, calls, hr, ht] at hmem hcalls
      exact hcalls (t, .int n) (by simp) rfl hmem
    | none =>
      cases hfault : typeFault? fields (.int n) with
      | some t =>
        rw [check_of_typeFault? h hs hr hfault] at hmem
        exact absurd hmem (k.report_not_mem _ (take_typeFault? hfault))
      | none =>
        obtain ⟨anyOf, oneOf, negated, hcheck⟩ := check_int h hs hr hfault path
        rw [hcheck, List.mem_append] at hmem
        rcases hmem with hmem | hmem
        · obtain ⟨t, ht, htext⟩ := List.mem_map.1 hmem
          cases congrArg Violation.description htext
          exact violated_of_mem_localFaults ht
        · obtain ⟨results, hresults, result, hresult, hmem⟩ := mem_of_mem_combine hmem
          obtain ⟨schemas, hschemas, rfl⟩ := Option.map_eq_some_iff.1 hresults
          obtain ⟨s', hs', rfl⟩ := List.mem_map.1 hresult
          have hplace := mem_schemasInPlace_of_list (.inl rfl) hschemas hs'
          simp only [calls, hr] at hcalls
          exact hcalls (s', .int n) (List.mem_append_right _ (List.mem_map_of_mem hplace)) rfl hmem
  · rw [check_eq_judgeStep h hs] at hmem
    cases truth with
    | true => cases hmem
    | false => exact absurd hmem (k.report_not_mem _ (by simp))

/-! ### Main result -/

/-- The number of the 64-bit format that an integer is rounded to. -/
def nearestDouble (n : ℤ) : ℚ :=
  (Json.int n).roundedValue?.getD n

theorem exists_toDouble?_of_integerRange (hn : Json.IntegerRange n) :
    ∃ x : BinaryNumber, BinaryFormat.double.ofInt n = .finite x ∧
      (Json.int n).toDouble? = some x ∧ nearestDouble n = x.value := by
  obtain ⟨x, hx⟩ := BinaryFormat.exists_ofInt_of_integerRange hn
  have hdouble : (Json.int n).toDouble? = some x := by rw [Json.toDouble?, hx]
  refine ⟨x, hx, hdouble, ?_⟩
  rw [nearestDouble, Json.roundedValue?, hdouble]
  rfl

namespace BoundKeyword

/-- Rounding makes up no violation of an inclusive bound. -/
theorem violated_of_nearestDouble (hk : k.isExclusive = false) (hn : Json.IntegerRange n)
    (hb : Json.IntegerRange b) (h : k.Violated (nearestDouble n) (nearestDouble b)) :
    k.Violated n b := by
  obtain ⟨x, hx, -, hnx⟩ := exists_toDouble?_of_integerRange hn
  obtain ⟨y, hy, -, hby⟩ := exists_toDouble?_of_integerRange hb
  rw [hnx, hby] at h
  cases k with
  | minimum => exact BinaryFormat.lt_of_ofInt_lt hx hy h
  | maximum => exact BinaryFormat.lt_of_ofInt_lt hy hx h
  | _ => cases hk

/-- Rounding hides no violation of an exclusive bound. -/
theorem nearestDouble_of_violated (hk : k.isExclusive = true) (hn : Json.IntegerRange n)
    (hb : Json.IntegerRange b) (h : k.Violated n b) :
    k.Violated (nearestDouble n) (nearestDouble b) := by
  obtain ⟨x, hx, -, hnx⟩ := exists_toDouble?_of_integerRange hn
  obtain ⟨y, hy, -, hby⟩ := exists_toDouble?_of_integerRange hb
  rw [hnx, hby]
  cases k with
  | exclusiveMinimum => exact BinaryFormat.ofInt_mono h hx hy
  | exclusiveMaximum => exact BinaryFormat.ofInt_mono h hy hx
  | _ => cases hk

/-- Rounding keeps the order of two integers if one of them has at most 53 bits. -/
theorem violated_nearestDouble_iff (hsmall : n.natAbs < 2 ^ 53 ∨ b.natAbs < 2 ^ 53)
    (hn : Json.IntegerRange n) (hb : Json.IntegerRange b) :
    k.Violated (nearestDouble n) (nearestDouble b) ↔ k.Violated n b := by
  obtain ⟨x, hx, -, hnx⟩ := exists_toDouble?_of_integerRange hn
  obtain ⟨y, hy, -, hby⟩ := exists_toDouble?_of_integerRange hb
  have hlt : x.value < y.value ↔ n < b :=
    ⟨BinaryFormat.lt_of_ofInt_lt hx hy, fun h ↦ BinaryFormat.ofInt_lt_ofInt hsmall h hx hy⟩
  have hgt : y.value < x.value ↔ b < n :=
    ⟨BinaryFormat.lt_of_ofInt_lt hy hx, fun h ↦ BinaryFormat.ofInt_lt_ofInt hsmall.symm h hy hx⟩
  rw [hnx, hby]
  cases k with
  | minimum => exact hlt
  | maximum => exact hgt
  | exclusiveMinimum => exact not_lt.symm.trans ((not_congr hgt).trans not_lt)
  | exclusiveMaximum => exact not_lt.symm.trans ((not_congr hlt).trans not_lt)

end BoundKeyword

/-- **A bound is reported exactly if the rounded numbers violate it.** Let a schema hold an integer
bound.

- Without a reference, the bound is reported of an integer exactly if the type restriction admits
  integers and the two numbers, rounded to the 64-bit format, violate the bound.
- With a reference, what is reported is what its target reports, a schema that compiles as well.
- The integers themselves violate the bound exactly if the rounded ones do, where one of the two has
  at most 53 bits.
- Everywhere, a reported `minimum` or `maximum` is violated, and a violated `exclusiveMinimum` or
  `exclusiveMaximum` is reported. -/
theorem mem_validate_bound_iff {schema : Schema}
    (h : compile (.object fields) components = .ok schema)
    (hbound : Json.field? k.name fields = some (.int b)) (hb : Json.IntegerRange b)
    (hn : Json.IntegerRange n) :
    (reference? fields = none →
      (⟨rootPath, k.report (.int b)⟩ ∈ validate schema (.int n) ↔
        (∀ t, Json.field? "type" fields = some t →
          ∃ name, Lists t name ∧ (Json.int n).HasType name) ∧
        k.Violated (nearestDouble n) (nearestDouble b))) ∧
    (∀ r, reference? fields = some r → ∃ t, resolve? components r = some t ∧
      compile t components = .ok ⟨t, components⟩ ∧
      validate schema (.int n) = validate ⟨t, components⟩ (.int n)) ∧
    (n.natAbs < 2 ^ 53 ∨ b.natAbs < 2 ^ 53 →
      (k.Violated (nearestDouble n) (nearestDouble b) ↔ k.Violated n b)) ∧
    (k.isExclusive = false → k.Violated (nearestDouble n) (nearestDouble b) → k.Violated n b) ∧
    (k.isExclusive = true → k.Violated n b → k.Violated (nearestDouble n) (nearestDouble b)) := by
  obtain ⟨rfl, l, husable⟩ := compile_spec h
  refine ⟨fun hr ↦ ?_, fun r hr ↦ ?_, fun hsmall ↦ k.violated_nearestDouble_iff hsmall hn hb,
    fun hk ↦ k.violated_of_nearestDouble hk hn hb, fun hk ↦ k.nearestDouble_of_violated hk hn hb⟩
  · obtain ⟨x, -, hx, hnx⟩ := exists_toDouble?_of_integerRange hn
    obtain ⟨y, -, hy, hby⟩ := exists_toDouble?_of_integerRange hb
    rw [← typeFault?_eq_none_iff, hnx, hby]
    show _ ∈ check components (.int n) rootPath (.object fields) ↔ _
    constructor
    · intro hmem
      refine ⟨?_, ?_⟩
      · cases hfault : typeFault? fields (.int n) with
        | none => rfl
        | some t =>
          rw [check_of_typeFault? husable .root hr hfault] at hmem
          exact absurd hmem (k.report_not_mem _ (take_typeFault? hfault))
      · obtain ⟨x', y', hx', hy', hviolated⟩ := violated_of_mem_check husable .root hmem
        cases hx.symm.trans hx'
        cases hy.symm.trans hy'
        exact hviolated
    · rintro ⟨hfault, hviolated⟩
      obtain ⟨anyOf, oneOf, negated, hcheck⟩ := check_int husable .root hr hfault rootPath
      have hfaults : k.report (.int b) ∈ localFaults fields (.int n) := by
        have hmem := mem_boundFaults.2 ⟨k, .int b, x, y, hbound, hx, hy, hviolated, rfl⟩
        simp only [localFaults, List.mem_append, hmem, true_or, or_true]
      rw [hcheck, List.mem_append]
      exact .inl (List.mem_map_of_mem hfaults)
  · obtain ⟨t, ht⟩ := husable.exists_target .root hr
    refine ⟨t, ht, compile_of_reached h (.target .root hr ht), ?_⟩
    show check components (.int n) rootPath (.object fields) = check components (.int n) rootPath t
    rw [check_eq_judgeStep husable .root]
    simp only [judgeStep, hr, ht]
    rfl

/-- An integer above a maximum, beside a type restriction that admits it. -/
theorem mem_validate_bound_iff_maximum :
    compile (.object [("type", .string "integer"), ("maximum", .int 10)]) ∅ =
        .ok ⟨.object [("type", .string "integer"), ("maximum", .int 10)], ∅⟩ ∧
      ⟨rootPath, BoundKeyword.maximum.report (.int 10)⟩ ∈
        validate ⟨.object [("type", .string "integer"), ("maximum", .int 10)], ∅⟩ (.int 11) := by
  have hcompile :
      compile (.object [("type", .string "integer"), ("maximum", .int 10)]) ∅ = .ok _ := rfl
  obtain ⟨hiff, -, hsmall, -⟩ :=
    mem_validate_bound_iff (k := .maximum) (n := 11) hcompile rfl (by decide) (by decide)
  refine ⟨rfl, (hiff rfl).2 ⟨fun t ht ↦ ?_, (hsmall (.inl (by decide))).2 (by decide)⟩⟩
  cases ht
  exact ⟨"integer", .inl rfl, .integer 11⟩

/-- **Bounds are not exact**: an integer below a minimum that is rounded to it is not reported. -/
theorem validate_ne_minimum :
    compile (.object [("minimum", .int 9007199254740993)]) ∅ =
        .ok ⟨.object [("minimum", .int 9007199254740993)], ∅⟩ ∧
      Json.IntegerRange 9007199254740992 ∧ Json.IntegerRange 9007199254740993 ∧
      BoundKeyword.minimum.Violated (9007199254740992 : ℤ) 9007199254740993 ∧
      validate ⟨.object [("minimum", .int 9007199254740993)], ∅⟩ (.int 9007199254740992) = [] :=
  ⟨rfl, by decide, by decide, by decide, rfl⟩

end Schema

end ContractHost
