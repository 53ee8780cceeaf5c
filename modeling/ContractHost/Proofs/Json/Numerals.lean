import ContractHost.Json.Printer
import ContractHost.Json.Token
import ContractHost.Proofs.Number.Shortest
import Mathlib.Tactic.IntervalCases

/-!
# Numerals that are written

Every number that the library writes as JSON is a **spelling** (`Json.Spelling`): a sign, an integer
part without a leading zero, a fraction and an exponent. `scanNumeral_text` says that scanning a
spelling gives back what it spells and stops where it ends, provided that what follows cannot
continue a number (`Json.Delimited`).

- An integer is spelled by its digits, and scanning gives that integer back (`int?_integer`).
- A floating-point number is spelled in each of the four shapes of a layout, and what is spelled is
  the decimal that was chosen for it (`FloatLayout.exists_spelling`).
-/

namespace ContractHost

namespace Json

/-! ### Digits -/

/-- What follows a value inside a text: nothing, or a comma or a closing bracket. -/
def Delimited (rest : Source) : Prop :=
  ∀ c after, rest = c :: after → c = some ',' ∨ c = some ']' ∨ c = some '\x7d'

theorem delimited_nil : Delimited [] :=
  fun _ _ h ↦ nomatch h

theorem delimited_cons {c : Char} {after : Source} (h : c = ',' ∨ c = ']' ∨ c = '\x7d') :
    Delimited (some c :: after) := by
  intro c' after' heq
  cases heq
  rcases h with rfl | rfl | rfl <;> decide

/-- The source does not go on with a digit. -/
def EndsDigits (rest : Source) : Prop :=
  ∀ c after, rest = some c :: after → c.isDigit = false

theorem Delimited.endsDigits {rest : Source} (h : Delimited rest) : EndsDigits rest := by
  rintro c after rfl
  rcases h _ _ rfl with heq | heq | heq <;> cases heq <;> rfl

theorem endsDigits_cons {c : Char} {after : Source} (h : c.isDigit = false) :
    EndsDigits (some c :: after) := by
  intro c' after' heq
  cases heq
  exact h

theorem scanDigits_append {digits : List Char} {rest : Source}
    (hdigits : ∀ c ∈ digits, c.isDigit = true) (hrest : EndsDigits rest) :
    scanDigits (digits.map some ++ rest) = (digits, rest) := by
  induction digits with
  | nil =>
    rcases rest with _ | ⟨_ | c, after⟩
    · rfl
    · rfl
    · simp [scanDigits, hrest c after rfl]
  | cons c digits ih =>
    have hc := hdigits c List.mem_cons_self
    have hscan := ih fun d hd ↦ hdigits d (.tail _ hd)
    simp [scanDigits, hc, hscan]

theorem isDigit_toDigits {n : ℕ} {c : Char} (h : c ∈ Nat.toDigits 10 n) : c.isDigit = true :=
  Nat.isDigit_of_mem_toDigits (by decide) (by decide) h

/-- The digits of a positive number do not start with a zero. -/
theorem toDigits_eq_cons {n : ℕ} (hn : 0 < n) :
    ∃ d rest, Nat.toDigits 10 n = d :: rest ∧ d ≠ '0' := by
  induction n using Nat.strong_induction_on with
  | _ n ih =>
    by_cases hlt : n < 10
    · refine ⟨n.digitChar, [], Nat.toDigits_of_lt_base hlt, ?_⟩
      interval_cases n <;> decide
    · obtain ⟨d, rest, hcons, hd⟩ := ih (n / 10) (by omega) (by omega)
      exact ⟨d, _, by rw [Nat.toDigits_of_base_le (by decide) (by omega), hcons]; rfl, hd⟩

theorem integerPart?_cons {d : Char} {rest : List Char} (hd : d ≠ '0') :
    integerPart? (d :: rest) = true := by
  cases rest with
  | nil => rfl
  | cons e rest => exact bne_iff_ne.2 hd

theorem integerPart?_toDigits (n : ℕ) : integerPart? (Nat.toDigits 10 n) = true := by
  rcases Nat.eq_zero_or_pos n with rfl | hn
  · rw [Nat.toDigits_zero]
    rfl
  · obtain ⟨d, rest, hcons, hd⟩ := toDigits_eq_cons hn
    rw [hcons]
    exact integerPart?_cons hd

theorem integerPart?_take {digits : List Char} {k : ℕ} (h : integerPart? digits = true)
    (hk : 0 < k) : integerPart? (digits.take k) = true := by
  obtain ⟨k, rfl⟩ := Nat.exists_eq_succ_of_ne_zero (Nat.ne_of_gt hk)
  rcases digits with _ | ⟨d, _ | ⟨e, rest⟩⟩
  · cases h
  · rw [List.take_succ_cons, List.take_nil]
    rfl
  · cases k with
    | zero => rfl
    | succ k => exact h

/-! ### Spellings -/

/-- A number as it is written: whether a minus sign is in front, the digits before and after the
point, and the sign and the digits of the exponent. Without digits after it there is no point. -/
structure Spelling where
  negative : Bool
  whole : List Char
  fraction : List Char
  exponent : Option (Bool × List Char)

namespace Spelling

/-- The digits behind a point. -/
def fractionText (s : Spelling) : List Char :=
  if s.fraction = [] then [] else '.' :: s.fraction

/-- The exponent with its sign. -/
def exponentText (s : Spelling) : List Char :=
  match s.exponent with
  | none => []
  | some (negative, digits) => 'e' :: (if negative then '-' else '+') :: digits

/-- The text of a spelling. -/
def text (s : Spelling) : List Char :=
  (if s.negative then ['-'] else []) ++ s.whole ++ s.fractionText ++ s.exponentText

/-- The value of the exponent. -/
def exponentValue? (s : Spelling) : Option ℤ :=
  s.exponent.map fun (negative, digits) ↦
    if negative then -(digitsValue digits : ℤ) else digitsValue digits

/-- What a spelling spells. -/
def numeral (s : Spelling) : Numeral where
  value := ⟨s.negative, digitsValue (s.whole ++ s.fraction),
    s.exponentValue?.getD 0 - s.fraction.length⟩
  integral := s.fraction.isEmpty && s.exponentValue?.isNone

/-- Digits are digits, the integer part has no leading zero, and an exponent is not empty. -/
structure Valid (s : Spelling) : Prop where
  integerPart : integerPart? s.whole = true
  whole : ∀ c ∈ s.whole, c.isDigit = true
  fraction : ∀ c ∈ s.fraction, c.isDigit = true
  exponent : ∀ e, s.exponent = some e → e.2 ≠ [] ∧ ∀ c ∈ e.2, c.isDigit = true

/-- A number has a digit before the point. -/
theorem Valid.whole_eq_cons {s : Spelling} (hs : s.Valid) :
    ∃ c whole, s.whole = c :: whole ∧ c.isDigit = true := by
  have hne : s.whole ≠ [] := by
    intro hnil
    have hpart := hs.integerPart
    rw [hnil] at hpart
    cases hpart
  obtain ⟨c, whole, hwhole⟩ := List.exists_cons_of_ne_nil hne
  exact ⟨c, whole, hwhole, hs.whole c (hwhole ▸ List.mem_cons_self)⟩

end Spelling

theorem scanMinus_append {negative : Bool} {c : Char} {rest : Source} (hc : c.isDigit = true) :
    scanMinus ((if negative then ['-'] else []).map some ++ some c :: rest) =
      (negative, some c :: rest) := by
  cases negative with
  | true => rfl
  | false =>
    show scanMinus (some c :: rest) = (false, some c :: rest)
    unfold scanMinus
    split
    · next heq =>
      cases heq
      exact absurd hc (by decide)
    · rfl

theorem scanFraction_append {s : Spelling} (hs : s.Valid) {rest : Source} (hend : EndsDigits rest)
    (hpoint : ∀ after, rest ≠ some '.' :: after) :
    scanFraction (s.fractionText.map some ++ rest) = some (s.fraction, rest) := by
  unfold Spelling.fractionText
  split
  · next hnil =>
    rw [hnil]
    show scanFraction rest = some ([], rest)
    unfold scanFraction
    split
    · exact absurd rfl (hpoint _)
    · rfl
  · next hne =>
    show scanFraction (some '.' :: (s.fraction.map some ++ rest)) = _
    rw [scanFraction, scanDigits_append hs.fraction hend]
    obtain ⟨c, digits, hcons⟩ := List.exists_cons_of_ne_nil hne
    rw [hcons]

theorem scanExponent_append {s : Spelling} (hs : s.Valid) {rest : Source} (hrest : Delimited rest) :
    scanExponent (s.exponentText.map some ++ rest) = some (s.exponentValue?, rest) := by
  unfold Spelling.exponentText Spelling.exponentValue?
  cases hexponent : s.exponent with
  | none =>
    show scanExponent rest = some (none, rest)
    rcases rest with _ | ⟨_ | c, after⟩
    · rfl
    · rfl
    · have hc : ¬(c = 'e' ∨ c = 'E') := by
        rcases hrest _ _ rfl with heq | heq | heq <;> cases heq <;> decide
      rw [scanExponent, if_neg hc]
  | some e =>
    obtain ⟨negative, digits⟩ := e
    obtain ⟨hne, hdigits⟩ := hs.exponent _ hexponent
    have hsign : scanSign (some (if negative then '-' else '+') :: (digits.map some ++ rest)) =
        (negative, digits.map some ++ rest) := by
      cases negative <;> rfl
    show scanExponent (some 'e' :: some (if negative then '-' else '+') ::
      (digits.map some ++ rest)) = _
    rw [scanExponent, if_pos (.inl rfl), hsign, scanDigits_append hdigits hrest.endsDigits]
    obtain ⟨c, digits, rfl⟩ := List.exists_cons_of_ne_nil hne
    rfl

/-- **Scanning a spelling gives what it spells.** -/
theorem scanNumeral_text {s : Spelling} (hs : s.Valid) {rest : Source} (hrest : Delimited rest) :
    scanNumeral (s.text.map some ++ rest) = some (s.numeral, rest) := by
  -- What stands behind the fraction starts with `e` or ends the number.
  have hexponent : EndsDigits (s.exponentText.map some ++ rest) ∧
      ∀ after, s.exponentText.map some ++ rest ≠ some '.' :: after := by
    unfold Spelling.exponentText
    cases s.exponent with
    | none =>
      refine ⟨hrest.endsDigits, fun after heq ↦ ?_⟩
      rcases hrest _ _ heq with h | h | h <;> cases h
    | some e => exact ⟨endsDigits_cons (by decide), fun after heq ↦ nomatch heq⟩
  have hfraction : EndsDigits (s.fractionText.map some ++ (s.exponentText.map some ++ rest)) := by
    unfold Spelling.fractionText
    split
    · exact hexponent.1
    · exact endsDigits_cons (by decide)
  obtain ⟨c, whole, hwhole, hc⟩ := hs.whole_eq_cons
  have hminus : scanMinus (s.text.map some ++ rest) = (s.negative,
      s.whole.map some ++ (s.fractionText.map some ++ (s.exponentText.map some ++ rest))) := by
    simp only [Spelling.text, List.map_append, List.append_assoc, hwhole, List.map_cons,
      List.cons_append]
    exact scanMinus_append hc
  unfold scanNumeral
  rw [hminus]
  dsimp only
  rw [scanDigits_append hs.whole hfraction]
  dsimp only
  rw [if_pos hs.integerPart, scanFraction_append hs hexponent.1 hexponent.2]
  dsimp only [Option.bind_eq_bind, Option.bind_some]
  rw [scanExponent_append hs hrest]
  rfl

/-! ### Integers -/

/-- The spelling of an integer. -/
def Spelling.integer (n : ℤ) : Spelling :=
  ⟨decide (n < 0), Nat.toDigits 10 n.natAbs, [], none⟩

theorem Spelling.valid_integer (n : ℤ) : (integer n).Valid where
  integerPart := integerPart?_toDigits _
  whole _ := isDigit_toDigits
  fraction _ hc := absurd hc List.not_mem_nil
  exponent _ he := nomatch he

theorem writeInt_eq_text (n : ℤ) : writeInt n = (Spelling.integer n).text := by
  unfold writeInt Spelling.text Spelling.integer
  by_cases hn : n < 0
  · simp [hn, Spelling.fractionText, Spelling.exponentText]
  · simp [hn, Spelling.fractionText, Spelling.exponentText]

/-- **An integer that is written is read back.** -/
theorem int?_integer (n : ℤ) : (Spelling.integer n).numeral.int? = some n := by
  have hvalue : digitsValue (Nat.toDigits 10 n.natAbs ++ []) = n.natAbs := by
    rw [List.append_nil]
    exact Nat.ofDigitChars_ten_toDigits
  simp only [Numeral.int?, Spelling.numeral, Spelling.integer, hvalue]
  rcases lt_or_ge n 0 with hn | hn
  · have habs : -|n| = n := by rw [abs_of_neg hn, neg_neg]
    simp [hn, habs, Spelling.exponentValue?, hn.ne]
  · simp [hn.not_gt, Int.natAbs_of_nonneg hn, Spelling.exponentValue?]

end Json

/-! ### Floating-point numbers -/

namespace Json

theorem digitsValue_toDigits (n : ℕ) : digitsValue (Nat.toDigits 10 n) = n :=
  Nat.ofDigitChars_ten_toDigits

/-- Each zero behind digits makes their value ten times as large. -/
theorem digitsValue_append_replicate (digits : List Char) (n : ℕ) :
    digitsValue (digits ++ List.replicate n '0') = digitsValue digits * 10 ^ n := by
  induction n with
  | zero => rw [List.replicate_zero, List.append_nil, pow_zero, mul_one]
  | succ n ih =>
    rw [List.replicate_succ', ← List.append_assoc, digitsValue, Nat.ofDigitChars_append,
      ← digitsValue, ih, pow_succ, ← mul_assoc]
    exact Nat.mul_comm 10 _

/-- Zeros in front of digits do not count. -/
theorem digitsValue_replicate_append (digits : List Char) (n : ℕ) :
    digitsValue (List.replicate n '0' ++ digits) = digitsValue digits := by
  induction n with
  | zero => rfl
  | succ n ih => exact ih

theorem isDigit_replicate {n : ℕ} {c : Char} (hc : c ∈ List.replicate n '0') :
    c.isDigit = true := by
  rw [List.eq_of_mem_replicate hc]
  rfl

namespace Spelling

/-- A spelling says a decimal, perhaps with zeros at its end. -/
structure Says (s : Spelling) (d : Decimal) : Prop where
  valid : s.Valid
  value : ∃ k, s.numeral.value = d.padded k

/-- A spelling without an exponent. -/
def pointed (whole fraction : List Char) : Spelling :=
  ⟨false, whole, fraction, none⟩

theorem valid_pointed {whole fraction : List Char} (hpart : integerPart? whole = true)
    (hwhole : ∀ c ∈ whole, c.isDigit = true) (hfraction : ∀ c ∈ fraction, c.isDigit = true) :
    (pointed whole fraction).Valid :=
  ⟨hpart, hwhole, hfraction, fun _ he ↦ (Option.some_ne_none _ he.symm).elim⟩

theorem value_pointed (whole fraction : List Char) :
    (pointed whole fraction).numeral.value =
      ⟨false, digitsValue (whole ++ fraction), -(fraction.length : ℤ)⟩ := by
  simp [numeral, pointed, exponentValue?]

theorem text_pointed (whole : List Char) {fraction : List Char} (hfraction : fraction ≠ []) :
    (pointed whole fraction).text = whole ++ '.' :: fraction := by
  simp [text, pointed, fractionText, exponentText, hfraction]

theorem integral_pointed (whole : List Char) {fraction : List Char} (hfraction : fraction ≠ []) :
    (pointed whole fraction).numeral.integral = false := by
  simp [numeral, pointed, hfraction]

/-- A whole number with zeros behind its digits and behind a point. -/
theorem says_whole (coefficient e m : ℕ) :
    (pointed (Nat.toDigits 10 coefficient ++
        List.replicate (if coefficient = 0 then 0 else e) '0') (List.replicate m '0')).Says
      ⟨false, coefficient, e⟩ := by
  refine ⟨valid_pointed ?_ (fun c hc ↦ ?_) fun _ ↦ isDigit_replicate, e + m, ?_⟩
  · split
    · rw [List.replicate_zero, List.append_nil]
      exact integerPart?_toDigits coefficient
    · next hne =>
      obtain ⟨d, rest, hcons, hd⟩ := toDigits_eq_cons (Nat.pos_of_ne_zero hne)
      rw [hcons]
      exact integerPart?_cons hd
  · exact (List.mem_append.1 hc).elim isDigit_toDigits isDigit_replicate
  · have hcoefficient : coefficient * 10 ^ (if coefficient = 0 then 0 else e) =
        coefficient * 10 ^ e := by
      split
      · next hzero => rw [hzero, Nat.zero_mul, Nat.zero_mul]
      · rfl
    rw [value_pointed, digitsValue_append_replicate, digitsValue_append_replicate,
      digitsValue_toDigits, hcoefficient, mul_assoc, ← pow_add, List.length_replicate]
    simp only [Decimal.padded, Decimal.mk.injEq, true_and]
    push_cast
    ring

/-- A number with some of its digits behind the point. -/
theorem says_split {coefficient places : ℕ}
    (h : places < (Nat.toDigits 10 coefficient).length) :
    (pointed ((Nat.toDigits 10 coefficient).take ((Nat.toDigits 10 coefficient).length - places))
        ((Nat.toDigits 10 coefficient).drop
          ((Nat.toDigits 10 coefficient).length - places))).Says
      ⟨false, coefficient, -places⟩ := by
  refine ⟨valid_pointed
    (integerPart?_take (integerPart?_toDigits coefficient) (Nat.sub_pos_of_lt h))
    (fun c hc ↦ isDigit_toDigits (List.mem_of_mem_take hc))
    fun c hc ↦ isDigit_toDigits (List.mem_of_mem_drop hc), 0, ?_⟩
  rw [value_pointed, List.take_append_drop, digitsValue_toDigits, List.length_drop,
    Nat.sub_sub_self h.le]
  simp only [Decimal.padded, pow_zero, mul_one, Nat.cast_zero, sub_zero]

/-- A number with all of its digits behind the point, after zeros. -/
theorem says_below {coefficient places : ℕ}
    (h : (Nat.toDigits 10 coefficient).length ≤ places) :
    (pointed ['0'] (List.replicate (places - (Nat.toDigits 10 coefficient).length) '0' ++
        Nat.toDigits 10 coefficient)).Says ⟨false, coefficient, -places⟩ := by
  refine ⟨valid_pointed rfl (fun c hc ↦ ?_) (fun c hc ↦ ?_), 0, ?_⟩
  · rw [List.mem_singleton.1 hc]
    rfl
  · exact (List.mem_append.1 hc).elim isDigit_replicate isDigit_toDigits
  · have hvalue : digitsValue (['0'] ++ (List.replicate
        (places - (Nat.toDigits 10 coefficient).length) '0' ++ Nat.toDigits 10 coefficient)) =
          coefficient :=
      (digitsValue_replicate_append _ _).trans (digitsValue_toDigits coefficient)
    rw [value_pointed, hvalue, List.length_append, List.length_replicate, Nat.sub_add_cancel h]
    simp only [Decimal.padded, pow_zero, mul_one, Nat.cast_zero, sub_zero]

end Spelling

end Json

namespace FloatLayout

open Json

/-- Digits with a point among them are a spelling. -/
theorem exists_spelling_positional (marksFraction : Bool) (coefficient : ℕ) (exponent : ℤ) :
    ∃ s : Spelling, s.Says ⟨false, coefficient, exponent⟩ ∧
      positionalDigits marksFraction coefficient exponent = s.text ∧
      (marksFraction = true → s.numeral.integral = false) := by
  unfold positionalDigits
  dsimp only
  by_cases hexponent : 0 ≤ exponent
  · obtain ⟨e, rfl⟩ := Int.eq_ofNat_of_zero_le hexponent
    have hzeros : (if coefficient = 0 then [] else List.replicate (e : ℤ).toNat '0') =
        List.replicate (if coefficient = 0 then 0 else e) '0' := by
      split <;> rfl
    refine ⟨_, Spelling.says_whole coefficient e marksFraction.toNat, ?_, ?_⟩
    · rw [if_pos hexponent, hzeros]
      cases marksFraction with
      | false => simp [Spelling.text, Spelling.pointed, Spelling.fractionText,
          Spelling.exponentText]
      | true => exact (Spelling.text_pointed _ (List.cons_ne_nil _ _)).symm
    · rintro rfl
      exact Spelling.integral_pointed _ (List.cons_ne_nil _ _)
  · obtain ⟨places, rfl⟩ : ∃ places : ℕ, exponent = -places :=
      ⟨(-exponent).toNat, by omega⟩
    rw [if_neg hexponent, neg_neg, Int.toNat_natCast]
    by_cases hsome : places < (Nat.toDigits 10 coefficient).length
    · have hdrop : (Nat.toDigits 10 coefficient).drop
          ((Nat.toDigits 10 coefficient).length - places) ≠ [] := by
        rw [← List.length_pos_iff_ne_nil, List.length_drop]
        omega
      rw [if_pos hsome]
      exact ⟨_, Spelling.says_split hsome, (Spelling.text_pointed _ hdrop).symm,
        fun _ ↦ Spelling.integral_pointed _ hdrop⟩
    · have hne : List.replicate (places - (Nat.toDigits 10 coefficient).length) '0' ++
          Nat.toDigits 10 coefficient ≠ [] :=
        List.append_ne_nil_of_right_ne_nil _ Nat.toDigits_ne_nil
      rw [if_neg hsome]
      refine ⟨_, Spelling.says_below (Nat.le_of_not_lt hsome), ?_,
        fun _ ↦ Spelling.integral_pointed _ hne⟩
      rw [Spelling.text_pointed _ hne]
      rfl

/-- A mantissa with an exponent is a spelling. -/
theorem exists_spelling_scientific (coefficient : ℕ) (exponent : ℤ) :
    ∃ s : Spelling, s.Says ⟨false, coefficient, exponent⟩ ∧
      scientificDigits coefficient ((Decimal.digitCount coefficient : ℤ) - 1 + exponent) =
        s.text ∧
      s.numeral.integral = false := by
  have hdigits : ∀ c ∈ Nat.toDigits 10 coefficient, c.isDigit = true := fun _ ↦ isDigit_toDigits
  have hvalue := digitsValue_toDigits coefficient
  have hne : Nat.toDigits 10 coefficient ≠ [] := Nat.toDigits_ne_nil
  obtain ⟨d, rest, hcons⟩ := List.exists_cons_of_ne_nil hne
  have hleading : (Decimal.digitCount coefficient : ℤ) - 1 + exponent =
      rest.length + exponent := by
    rw [Decimal.digitCount, hcons, List.length_cons]
    push_cast
    ring
  rw [hleading]
  generalize hl : (rest.length : ℤ) + exponent = leading
  have hexponent : Nat.toDigits 10 leading.natAbs ≠ [] ∧
      ∀ c ∈ Nat.toDigits 10 leading.natAbs, c.isDigit = true :=
    ⟨Nat.toDigits_ne_nil, fun _ ↦ isDigit_toDigits⟩
  unfold scientificDigits
  rw [hcons] at hdigits hvalue ⊢
  refine ⟨⟨false, [d], rest, some (decide (leading < 0), Nat.toDigits 10 leading.natAbs)⟩,
    ⟨⟨rfl, fun c hc ↦ ?_, fun c hc ↦ hdigits c (.tail _ hc), fun e he ↦ ?_⟩, 0, ?_⟩, ?_, ?_⟩
  · rw [List.mem_singleton.1 hc]
    exact hdigits d List.mem_cons_self
  · cases he
    exact hexponent
  · have hsigned : (if decide (leading < 0) = true then -(leading.natAbs : ℤ)
        else leading.natAbs) = leading := by
      split
      · next hneg => rw [decide_eq_true_eq] at hneg; omega
      · next hpos => rw [decide_eq_true_eq] at hpos; omega
    simp only [Spelling.numeral, Decimal.padded, Spelling.exponentValue?, Option.map_some,
      Option.getD_some, digitsValue_toDigits, hsigned, List.singleton_append, hvalue,
      Decimal.mk.injEq, true_and, pow_zero, mul_one]
    omega
  · cases rest <;> simp [Spelling.text, Spelling.fractionText, Spelling.exponentText]
  · simp [Spelling.numeral, Spelling.exponentValue?]

/-- **What a layout writes is a spelling** of the decimal that is written. A layout that marks
fractions never spells an integer. -/
theorem exists_spelling (layout : FloatLayout) (d : Decimal) :
    ∃ s : Spelling, s.Says d ∧ layout.write d = s.text ∧
      (layout.marksFraction = true → s.numeral.integral = false) := by
  have hbody : ∀ isPositional : Bool, ∃ s : Spelling, s.Says ⟨false, d.coefficient, d.exponent⟩ ∧
      (if isPositional then positionalDigits layout.marksFraction d.coefficient d.exponent
        else scientificDigits d.coefficient
          ((Decimal.digitCount d.coefficient : ℤ) - 1 + d.exponent)) = s.text ∧
      (layout.marksFraction = true → s.numeral.integral = false) := by
    intro isPositional
    cases isPositional with
    | true => exact exists_spelling_positional _ _ _
    | false =>
      obtain ⟨s, hs, htext, hintegral⟩ := exists_spelling_scientific d.coefficient d.exponent
      exact ⟨s, hs, htext, fun _ ↦ hintegral⟩
  obtain ⟨s, ⟨hvalid, k, hk⟩, htext, hintegral⟩ := hbody _
  have hpositive : s.negative = false := congrArg Decimal.negative hk
  refine ⟨{ s with negative := d.negative },
    ⟨⟨hvalid.integerPart, hvalid.whole, hvalid.fraction, hvalid.exponent⟩, k, ?_⟩, ?_, hintegral⟩
  · exact congrArg (fun v : Decimal ↦ { v with negative := d.negative }) hk
  · unfold write
    dsimp only
    rw [htext]
    cases hd : d.negative <;>
      simp [Spelling.text, Spelling.fractionText, Spelling.exponentText, hpositive]

end FloatLayout

end ContractHost
