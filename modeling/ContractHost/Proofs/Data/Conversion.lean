import ContractHost.Proofs.Data.Typing
import Mathlib.Data.List.Induction
import Mathlib.Data.Nat.Digits.Defs

/-!
# Which strings are scalars

The grammar of integers is said from the side of the number: a natural number is spelled by writing
down a list of digits whose positional value it is (`Scalar.SpellsNatural`), with as many zeros in
front as one likes, and an integer by an optional sign in front of that (`Scalar.SpellsInteger`).
The minus sign is for kinds that have negative integers, so `-0` is no integer of the other kinds.

Two facts make the conversion of an argument exact and canonical (`Scalar.convert_outcome`):

* a string is converted to an integer of a kind exactly if it spells that integer and the kind has
  it, or if it is empty and the integer is 0 (`convert_integer_eq_ok_iff`). The reading computes an
  integer of any size and only then looks at the range, so nothing can wrap or saturate;
* the plain text of a scalar is converted back to it (`convert_text`). This fails for floating-point
  numbers, where not-a-number has many values and one text, so they are left out.
-/

namespace ContractHost

namespace Scalar

variable {isSigned : Bool} {cs : List Char} {n : ℕ} {v : ℤ} {s : Scalar} {raw : String}

/-! ### Digits -/

/-- One or more decimal digits, the most significant one first, and the number they denote. -/
def SpellsNatural (cs : List Char) (n : ℕ) : Prop :=
  ∃ digits : List ℕ, digits ≠ [] ∧ (∀ d ∈ digits, d < 10) ∧ cs = digits.map Nat.digitChar ∧
    n = Nat.ofDigits 10 digits.reverse

/-- A decimal digit is written with the character of its value. -/
theorem exists_digitChar {c : Char} (hc : c.isDigit = true) : ∃ d < 10, c = Nat.digitChar d := by
  have hbounds : 48 ≤ c.toNat ∧ c.toNat ≤ 57 := by
    simpa [Char.isDigit, UInt32.le_iff_toNat_le] using hc
  refine ⟨c.toNat - 48, by omega, Char.toNat_inj.1 ?_⟩
  rw [Nat.toNat_digitChar_of_lt_ten (by omega)]
  omega

/-- Characters that are digits are the characters of a list of digits. -/
theorem exists_map_digitChar (h : ∀ c ∈ cs, c.isDigit = true) :
    ∃ digits : List ℕ, (∀ d ∈ digits, d < 10) ∧ cs = digits.map Nat.digitChar := by
  induction cs with
  | nil => exact ⟨[], nofun, rfl⟩
  | cons c rest ih =>
    obtain ⟨hc, hrest⟩ := List.forall_mem_cons.1 h
    obtain ⟨d, hd, rfl⟩ := exists_digitChar hc
    obtain ⟨digits, hdigits, rfl⟩ := ih hrest
    exact ⟨d :: digits, List.forall_mem_cons.2 ⟨hd, hdigits⟩, rfl⟩

/-- Reading digits from left to right gives their positional value. -/
theorem ofDigitChars_map_digitChar {digits : List ℕ} (h : ∀ d ∈ digits, d < 10) :
    Nat.ofDigitChars 10 (digits.map Nat.digitChar) 0 = Nat.ofDigits 10 digits.reverse := by
  -- The last digit is the one that reading adds last and that a positional value starts with.
  induction digits using List.reverseRecOn with
  | nil => rfl
  | append_singleton digits d ih =>
    obtain ⟨hdigits, hlast⟩ := List.forall_mem_append.1 h
    have hd : d < 10 := hlast d List.mem_cons_self
    have hvalue : d.digitChar.toNat - '0'.toNat = d := by
      rw [Nat.toNat_digitChar_of_lt_ten hd]
      exact Nat.add_sub_cancel_left 48 d
    calc Nat.ofDigitChars 10 ((digits ++ [d]).map Nat.digitChar) 0
        = 10 * Nat.ofDigitChars 10 (digits.map Nat.digitChar) 0 +
            (d.digitChar.toNat - '0'.toNat) := by
          rw [List.map_append, Nat.ofDigitChars_append]
          rfl
      _ = d + 10 * Nat.ofDigits 10 digits.reverse := by rw [hvalue, ih hdigits, Nat.add_comm]
      _ = Nat.ofDigits 10 (digits ++ [d]).reverse := by
          rw [List.reverse_append]
          rfl

theorem readDigits?_eq_some_iff : readDigits? cs = some n ↔ SpellsNatural cs n := by
  rw [readDigits?, Option.ite_none_right_eq_some]
  constructor
  · rintro ⟨⟨hne, hall⟩, hvalue⟩
    obtain ⟨digits, hdigits, rfl⟩ := exists_map_digitChar (List.all_eq_true.1 hall)
    refine ⟨digits, fun hnil ↦ hne (congrArg _ hnil), hdigits, rfl, ?_⟩
    rw [← ofDigitChars_map_digitChar hdigits, Option.some.inj hvalue]
  · rintro ⟨digits, hne, hdigits, rfl, rfl⟩
    refine ⟨⟨fun hnil ↦ hne (List.map_eq_nil_iff.1 hnil), ?_⟩, ?_⟩
    · rw [List.all_map, List.all_eq_true]
      intro d hd
      show d.digitChar.isDigit = true
      rw [Nat.isDigit_digitChar]
      exact decide_eq_true (hdigits d hd)
    · rw [ofDigitChars_map_digitChar hdigits]

/-- A spelled number starts with a digit. -/
theorem SpellsNatural.eq_cons (h : SpellsNatural cs n) :
    ∃ c rest, cs = c :: rest ∧ c.isDigit = true := by
  obtain ⟨_ | ⟨d, digits⟩, hne, hdigits, rfl, -⟩ := h
  · exact absurd rfl hne
  · refine ⟨d.digitChar, digits.map Nat.digitChar, rfl, ?_⟩
    rw [Nat.isDigit_digitChar]
    exact decide_eq_true (hdigits d List.mem_cons_self)

/-! ### Integers -/

/-- An optional sign and digits, and the integer they denote. -/
inductive SpellsInteger (isSigned : Bool) : List Char → ℤ → Prop
  | bare {cs : List Char} {n : ℕ} (h : SpellsNatural cs n) : SpellsInteger isSigned cs n
  | plus {cs : List Char} {n : ℕ} (h : SpellsNatural cs n) : SpellsInteger isSigned ('+' :: cs) n
  | minus {cs : List Char} {n : ℕ} (hsigned : isSigned = true) (h : SpellsNatural cs n) :
      SpellsInteger isSigned ('-' :: cs) (-n)

/-- Without a sign there are only digits. -/
theorem readInteger?_of_isDigit {c : Char} {rest : List Char} (hc : c.isDigit = true) :
    readInteger? isSigned (c :: rest) = (readDigits? (c :: rest)).map Int.ofNat := by
  rw [readInteger?]
  all_goals
    rintro digits ⟨⟩
    exact absurd hc (by decide)

theorem readInteger?_eq_some_iff :
    readInteger? isSigned cs = some v ↔ SpellsInteger isSigned cs v := by
  constructor
  · intro h
    unfold readInteger? at h
    split at h
    · obtain ⟨n, hn, rfl⟩ := Option.map_eq_some_iff.1 h
      exact .plus (readDigits?_eq_some_iff.1 hn)
    · split at h
      · next hsigned =>
        obtain ⟨m, hm, rfl⟩ := Option.map_eq_some_iff.1 h
        obtain ⟨n, hn, ⟨⟩⟩ := Option.bind_eq_some_iff.1 hm
        exact .minus hsigned (readDigits?_eq_some_iff.1 hn)
      · cases h
    · obtain ⟨n, hn, rfl⟩ := Option.map_eq_some_iff.1 h
      exact .bare (readDigits?_eq_some_iff.1 hn)
  · rintro (hn | hn | ⟨hsigned, hn⟩)
    · obtain ⟨c, rest, rfl, hc⟩ := hn.eq_cons
      rw [readInteger?_of_isDigit hc, readDigits?_eq_some_iff.2 hn]
      rfl
    · rw [readInteger?, readDigits?_eq_some_iff.2 hn]
      rfl
    · rw [readInteger?, if_pos hsigned, readDigits?_eq_some_iff.2 hn]
      rfl

/-- No integer is spelled by the empty text. -/
theorem not_spellsInteger_nil : ¬ SpellsInteger isSigned [] v := by
  rw [← readInteger?_eq_some_iff]
  nofun

/-! ### Conversion -/

/-- A conversion fails on a string that is not empty and spells no scalar of the type. -/
theorem convert_eq_error_iff {e : ConversionError} :
    s.convert raw = .error e ↔ (raw ≠ "" ∧ s.read? raw = none) ∧ e = ⟨raw, s⟩ := by
  unfold convert
  split
  · next hempty => simp [hempty]
  · next hne =>
    rcases s.read? raw with _ | d
    · simp [hne, eq_comm]
    · simp

/-- A string that is not empty is converted to the scalar it spells. -/
theorem convert_eq_ok_iff_of_ne {x : Value} (hne : raw ≠ "") :
    s.convert raw = .ok x ↔ ∃ d, x = .typed (.scalar s) d ∧ s.read? raw = some d := by
  rw [convert, if_neg hne]
  rcases s.read? raw with _ | d
  · simp
  · simp [eq_comm]

/-- A string stands for an integer of a kind: it spells the integer, or it is empty and the integer
is 0. -/
def Denotes (k : IntegerKind) (raw : String) (v : ℤ) : Prop :=
  (raw = "" ∧ v = 0) ∨ (SpellsInteger k.isSigned raw.toList v ∧ k.InRange v)

theorem read?_integer_eq_some_iff {k : IntegerKind} {d : Datum} :
    read? raw (.integer k) = some d ↔
      ∃ v, d = .int v ∧ SpellsInteger k.isSigned raw.toList v ∧ k.InRange v := by
  rw [read?, Option.bind_eq_bind, Option.bind_eq_some_iff]
  refine exists_congr fun v ↦ ?_
  rw [readInteger?_eq_some_iff, Option.ite_none_right_eq_some, Option.some.injEq]
  constructor
  · rintro ⟨hspells, hrange, rfl⟩
    exact ⟨rfl, hspells, hrange⟩
  · rintro ⟨rfl, hspells, hrange⟩
    exact ⟨hspells, hrange, rfl⟩

/-- **The conversion of integers is exact.** -/
theorem convert_integer_eq_ok_iff {k : IntegerKind} {x : Value} :
    (Scalar.integer k).convert raw = .ok x ↔
      ∃ v, x = .typed (.scalar (.integer k)) (.int v) ∧ Denotes k raw v := by
  by_cases hempty : raw = ""
  · subst hempty
    constructor
    · intro h
      exact ⟨0, (Except.ok.inj h).symm, .inl ⟨rfl, rfl⟩⟩
    · rintro ⟨v, rfl, ⟨-, rfl⟩ | ⟨hspells, -⟩⟩
      · rfl
      · exact absurd hspells not_spellsInteger_nil
  · rw [convert_eq_ok_iff_of_ne hempty]
    simp only [read?_integer_eq_some_iff]
    constructor
    · rintro ⟨d, rfl, v, rfl, hspells⟩
      exact ⟨v, rfl, .inr hspells⟩
    · rintro ⟨v, rfl, ⟨hnil, -⟩ | hspells⟩
      · exact absurd hnil hempty
      · exact ⟨.int v, rfl, v, rfl, hspells⟩

theorem convert_integer_eq_error_iff {k : IntegerKind} {e : ConversionError} :
    (Scalar.integer k).convert raw = .error e ↔
      (∀ v, ¬ Denotes k raw v) ∧ e = ⟨raw, .integer k⟩ := by
  constructor
  · intro h
    refine ⟨fun v hv ↦ ?_, (convert_eq_error_iff.1 h).2⟩
    cases h.symm.trans (convert_integer_eq_ok_iff.2 ⟨v, rfl, hv⟩)
  · rintro ⟨hnone, rfl⟩
    rcases h : (Scalar.integer k).convert raw with e | x
    · rw [(convert_eq_error_iff.1 h).2]
    · obtain ⟨v, -, hv⟩ := convert_integer_eq_ok_iff.1 h
      exact absurd hv (hnone v)

/-! ### Plain text -/

theorem readDigits?_toDigits (n : ℕ) : readDigits? (Nat.toDigits 10 n) = some n := by
  have hne : Nat.toDigits 10 n ≠ [] := Nat.toDigits_ne_nil
  have hall : (Nat.toDigits 10 n).all Char.isDigit = true :=
    List.all_eq_true.2 fun _ hc ↦ Nat.isDigit_of_mem_toDigits (by decide) (by decide) hc
  rw [readDigits?, if_pos ⟨hne, hall⟩, Nat.ofDigitChars_ten_toDigits]

/-- An integer that is written is spelled, a negative one where the kind has a sign. -/
theorem spellsInteger_writeInt (h : v < 0 → isSigned = true) :
    SpellsInteger isSigned (Json.writeInt v) v := by
  have hspells : SpellsNatural (Nat.toDigits 10 v.natAbs) v.natAbs :=
    readDigits?_eq_some_iff.1 (readDigits?_toDigits _)
  rw [Json.writeInt]
  split
  · next hv =>
    have hneg := SpellsInteger.minus (h hv) hspells
    rwa [Int.ofNat_natAbs_of_nonpos hv.le, neg_neg] at hneg
  · next hv =>
    have hpos : SpellsInteger isSigned (Nat.toDigits 10 v.natAbs) v.natAbs := .bare hspells
    rwa [Int.natAbs_of_nonneg (not_lt.1 hv)] at hpos

theorem isSigned_of_inRange {k : IntegerKind} {n : ℤ} (h : k.InRange n) (hn : n < 0) :
    k.isSigned = true := by
  by_contra hsigned
  have hleast : k.least = 0 := if_neg hsigned
  have := h.1
  omega

/-- **The plain text of a scalar is converted back.** -/
theorem convert_text (hs : s ≠ .single ∧ s ≠ .double) {d : Datum} (h : s.Fits d) :
    s.convert (Value.typed (.scalar s) d).text = .ok (.typed (.scalar s) d) := by
  cases s <;> cases d <;> simp only [Fits] at h
  case bool.bool b => cases b <;> rfl
  case string.string raw =>
    unfold convert
    split
    · next hempty =>
      obtain rfl : raw = "" := hempty
      rfl
    · rfl
  case integer.int k n =>
    refine convert_integer_eq_ok_iff.2 ⟨n, rfl, .inr ⟨?_, h⟩⟩
    rw [Value.text, String.toList_ofList]
    exact spellsInteger_writeInt (isSigned_of_inRange h)
  case single.single => exact absurd rfl hs.1
  case double.double => exact absurd rfl hs.2

/-- The text of what was converted is converted to the same. -/
theorem convert_text_of_convert (hs : s ≠ .single ∧ s ≠ .double) {x : Value}
    (h : s.convert raw = .ok x) : s.convert x.text = .ok x := by
  obtain ⟨d, rfl, hfits⟩ := convert_fits h
  exact convert_text hs hfits

/-- **Conversion is exact and canonical.** For each kind of integer a string is converted to exactly
the integer it stands for, and every other string is refused with an error that tells the string and
the kind. For every scalar type but those of floating-point numbers, the plain text of a value is
converted back to it, so that a string and the text of what it was converted to are converted to the
same. -/
theorem convert_outcome :
    (∀ (k : IntegerKind) (raw : String) (x : Value), (integer k).convert raw = .ok x ↔
      ∃ v, x = .typed (.scalar (.integer k)) (.int v) ∧ Denotes k raw v) ∧
    (∀ (k : IntegerKind) (raw : String) (e : ConversionError), (integer k).convert raw = .error e ↔
      (∀ v, ¬ Denotes k raw v) ∧ e = ⟨raw, .integer k⟩) ∧
    (∀ (k : IntegerKind) (raw : String), (ConversionError.mk raw (.integer k)).message =
      "Cannot convert passed value " ++ raw ++ " to " ++ k.name) ∧
    (∀ s : Scalar, s ≠ .single ∧ s ≠ .double → ∀ d, s.Fits d →
      s.convert (Value.typed (.scalar s) d).text = .ok (.typed (.scalar s) d)) ∧
    ∀ s : Scalar, s ≠ .single ∧ s ≠ .double → ∀ raw x, s.convert raw = .ok x →
      s.convert x.text = .ok x :=
  ⟨fun _ _ _ ↦ convert_integer_eq_ok_iff, fun _ _ _ ↦ convert_integer_eq_error_iff,
    fun _ _ ↦ rfl, fun _ hs _ ↦ convert_text hs, fun _ hs _ _ ↦ convert_text_of_convert hs⟩

/-- Zeros in front of the digits do not matter, and the least integer has no positive
counterpart. -/
example : (integer .i8).convert "-0128" = .ok (.typed (.scalar (.integer .i8)) (.int (-128))) := by
  rfl

end Scalar

end ContractHost
