import ContractHost.Proofs.Number.Rounding

/-!
# The nearest number of a format

`BinaryFormat.round_spec` describes rounding by the last place of what is rounded. Here the same is
said of the numbers of the format: **a rounded number is as near as any other number of the format,
and even if another one is as near** (`BinaryFormat.closest_of_round`).

A number of the format that is a whole number of last places is compared with the rounded one by its
count of last places. Any other has a smaller exponent, so it lies below the power of two that
starts what is rounded, which is a whole number of last places itself. And a number of the other
sign is farther off than zero.

The number that a numeric document is compared as is therefore the closest one of the 64-bit format
(`Json.exists_closest`).
-/

namespace ContractHost

namespace BinaryFormat

variable {fmt : BinaryFormat} {q : ℚ} {e : ℤ} {m n num den : ℕ} {negative : Bool}
  {x y : BinaryNumber}

/-- A number of the format is closest to a rational number: no other one is nearer, and its last bit
is zero if another one is as near. -/
structure Closest (fmt : BinaryFormat) (q : ℚ) (x : BinaryNumber) : Prop where
  normal : fmt.Normal x
  le : ∀ y, fmt.Normal y → |x.value - q| ≤ |y.value - q|
  even : ∀ y, fmt.Normal y → y.value ≠ x.value → |y.value - q| = |x.value - q| →
    Even x.significand

/-- A number of the format is closest to itself. -/
theorem closest_self (hx : fmt.Normal x) : fmt.Closest x.value x where
  normal := hx
  le y _ := by
    rw [sub_self, abs_zero]
    exact abs_nonneg _
  even y _ hne heq := by
    rw [sub_self, abs_zero, abs_eq_zero, sub_eq_zero] at heq
    exact absurd heq hne

/-! ### Counting in last places -/

/-- No integer is nearer than the nearest one, which is even if another one is as near. -/
theorem Nearest.distance_le (h : Nearest q m) (n : ℕ) :
    |m - q| ≤ |n - q| ∧ (n ≠ m → |n - q| = |m - q| → Even m) := by
  by_cases hn : n = m
  · exact ⟨by rw [hn], fun hne ↦ absurd hn hne⟩
  · have hnear : |m - q| ≤ 1 / 2 := abs_le.2 ⟨by linarith [h.upper], by linarith [h.lower]⟩
    have hapart : 1 ≤ |(n : ℚ) - m| := by
      have hne : (n : ℤ) - m ≠ 0 := sub_ne_zero.2 (by exact_mod_cast hn)
      exact_mod_cast Int.one_le_abs hne
    have htriangle : |(n : ℚ) - m| ≤ |n - q| + |m - q| := by
      rw [abs_sub_comm (m : ℚ) q]
      exact abs_sub_le _ _ _
    refine ⟨by linarith, fun _ heq ↦ h.even ?_⟩
    have hhalf : |m - q| = 1 / 2 := by linarith
    rcases abs_eq (by norm_num : (0 : ℚ) ≤ 1 / 2) |>.1 hhalf with hm | hm
    · exact .inl (by linarith)
    · exact .inr (by linarith)

/-- The same of whole numbers of last places. -/
theorem Nearest.distance_mul_le (h : Nearest (q / 2 ^ e) m) (n : ℕ) :
    |m * 2 ^ e - q| ≤ |n * 2 ^ e - q| ∧
      (n ≠ m → |n * 2 ^ e - q| = |m * 2 ^ e - q| → Even m) := by
  have hpos := BinaryNumber.two_zpow_pos e
  have hscale : ∀ k : ℕ, |k * 2 ^ e - q| = |k - q / 2 ^ e| * 2 ^ e := by
    intro k
    rw [← abs_of_pos hpos, ← abs_mul, abs_of_pos hpos, sub_mul, div_mul_cancel₀ _ hpos.ne']
  obtain ⟨hle, heven⟩ := h.distance_le n
  rw [hscale, hscale]
  exact ⟨mul_le_mul_of_nonneg_right hle hpos.le,
    fun hne heq ↦ heven hne (mul_right_cancel₀ hpos.ne' heq)⟩

/-- The significand of a rounded number is even if its count of last places is. -/
theorem even_significand_of_packed (hprecision : 1 < fmt.precision) (hm : Even m)
    (h : fmt.packed negative m e = .finite x) : Even x.significand := by
  unfold packed at h
  split at h
  · split at h
    · cases h
    · cases h
      exact (Nat.even_pow' (by omega)).2 even_two
  · split at h
    · cases h
    · cases h
      exact hm

/-- A number of the format is a whole number of last places of what is rounded, or below the power
of two that starts what is rounded. -/
theorem magnitude_cases (hprecision : 0 < fmt.precision) (hy : fmt.Normal y) (hq : 0 < q) :
    (∃ n : ℕ, y.magnitude = n * 2 ^ fmt.roundingExponent q) ∨
      ∃ n : ℕ, y.magnitude < n * 2 ^ fmt.roundingExponent q ∧
        n * 2 ^ fmt.roundingExponent q ≤ q := by
  obtain ⟨hwidth, hleast, -, -⟩ := hy
  rcases le_or_gt (fmt.roundingExponent q) y.exponent with hle | hlt
  · obtain ⟨k, hk⟩ := Int.le.dest hle
    refine .inl ⟨y.significand * 2 ^ k, ?_⟩
    rw [BinaryNumber.magnitude, ← hk, add_comm, zpow_add₀ two_ne_zero, zpow_natCast]
    push_cast
    exact (mul_assoc _ _ _).symm
  · have hlog : fmt.roundingExponent q = Int.log 2 q - fmt.precision + 1 := by
      unfold roundingExponent at hlt ⊢
      omega
    have hstart : (2 : ℚ) ^ Int.log 2 q =
        (2 ^ (fmt.precision - 1) : ℕ) * 2 ^ fmt.roundingExponent q := by
      rw [Nat.cast_pow, Nat.cast_ofNat, ← zpow_natCast, ← zpow_add₀ two_ne_zero]
      congr 1
      omega
    refine .inr ⟨2 ^ (fmt.precision - 1), ?_, ?_⟩
    · rw [← hstart]
      calc y.magnitude < 2 ^ fmt.precision * 2 ^ y.exponent :=
            mul_lt_mul_of_pos_right (by exact_mod_cast hwidth) (BinaryNumber.two_zpow_pos _)
        _ = 2 ^ ((fmt.precision : ℤ) + y.exponent) := by
            rw [zpow_add₀ two_ne_zero, zpow_natCast]
        _ ≤ 2 ^ Int.log 2 q := zpow_le_zpow_right₀ one_le_two (by omega)
    · rw [← hstart]
      exact two_zpow_log_le hq

/-- **No number of the format is nearer in magnitude than the rounded one.** -/
theorem magnitude_closest (hprecision : 1 < fmt.precision) (hden : 0 < den)
    (h : fmt.round negative num den = .finite x) (hy : fmt.Normal y) :
    |x.magnitude - num / den| ≤ |y.magnitude - num / den| ∧
      (y.magnitude ≠ x.magnitude → |y.magnitude - num / den| = |x.magnitude - num / den| →
        Even x.significand) := by
  by_cases hnum : num = 0
  · rw [round, if_pos hnum] at h
    cases h
    rw [hnum, Nat.cast_zero, zero_div, sub_zero, sub_zero, BinaryNumber.magnitude, zero,
      Nat.cast_zero, zero_mul, abs_zero]
    exact ⟨abs_nonneg _, fun _ _ ↦ Even.zero⟩
  · have hq : (0 : ℚ) < num / den :=
      div_pos (by exact_mod_cast Nat.pos_of_ne_zero hnum) (by exact_mod_cast hden)
    obtain ⟨m, hm, hround⟩ := round_spec fmt negative hnum hden
    rw [hround] at h
    rw [magnitude_of_packed (by omega) h]
    generalize (num : ℚ) / den = q at *
    rcases magnitude_cases (by omega) hy hq with ⟨n, hn⟩ | ⟨n, hbelow, hstart⟩
    · obtain ⟨hle, heven⟩ := hm.distance_mul_le n
      rw [hn]
      exact ⟨hle, fun hne heq ↦ even_significand_of_packed hprecision
        (heven (fun hnm ↦ hne (by rw [hnm])) heq) h⟩
    · have hlt : |m * 2 ^ fmt.roundingExponent q - q| < |y.magnitude - q| := by
        calc |m * 2 ^ fmt.roundingExponent q - q|
            ≤ |n * 2 ^ fmt.roundingExponent q - q| := (hm.distance_mul_le n).1
          _ = q - n * 2 ^ fmt.roundingExponent q := by rw [abs_sub_comm, abs_of_nonneg (by linarith)]
          _ < q - y.magnitude := by linarith
          _ = |y.magnitude - q| := by rw [abs_sub_comm, abs_of_nonneg (by linarith)]
      exact ⟨hlt.le, fun _ heq ↦ absurd heq hlt.ne'⟩

/-! ### Signs -/

/-- The quotient that is rounded, with its sign. -/
def signedQuotient (negative : Bool) (num den : ℕ) : ℚ :=
  if negative then -(num / den) else num / den

/-- Numbers of one sign are as far apart as their magnitudes. -/
theorem distance_of_sign (hsign : y.negative = negative) :
    |y.value - signedQuotient negative num den| = |y.magnitude - num / den| := by
  rw [BinaryNumber.value_eq, signedQuotient, hsign]
  cases negative with
  | false => rfl
  | true => rw [if_pos rfl, if_pos rfl, neg_sub_neg, abs_sub_comm]

/-- A number of the other sign is farther off than zero, by its own magnitude. -/
theorem distance_of_other_sign (hsign : y.negative ≠ negative) :
    |y.value - signedQuotient negative num den| = y.magnitude + num / den := by
  have hsum : 0 ≤ y.magnitude + num / den := add_nonneg y.magnitude_nonneg (by positivity)
  rw [BinaryNumber.value_eq, signedQuotient]
  cases negative with
  | false =>
    rw [Bool.eq_true_of_not_eq_false hsign, if_pos rfl, if_neg Bool.false_ne_true, ← neg_add', abs_neg,
      abs_of_nonneg hsum]
  | true =>
    rw [Bool.eq_false_of_not_eq_true hsign, if_pos rfl, if_neg Bool.false_ne_true, sub_neg_eq_add,
      abs_of_nonneg hsum]

/-- **A rounded number is the closest one of its format.** -/
theorem closest_of_round (hprecision : 1 < fmt.precision)
    (hexponents : fmt.leastExponent ≤ fmt.greatestExponent) (hden : 0 < den)
    (h : fmt.round negative num den = .finite x) :
    fmt.Closest (signedQuotient negative num den) x := by
  have hpos : 0 < fmt.precision := by omega
  have hzero : fmt.Normal (fmt.zero negative) :=
    ⟨Nat.two_pow_pos _, le_rfl, hexponents, .inr rfl⟩
  have hzeroMagnitude : (fmt.zero negative).magnitude = 0 := by
    rw [BinaryNumber.magnitude, zero, Nat.cast_zero, zero_mul]
  -- Zero is as far off as what is rounded is large.
  have hsmall := magnitude_closest hprecision hden h hzero
  have hquotient : |0 - (num : ℚ) / den| = num / den := by
    rw [zero_sub, abs_neg, abs_of_nonneg (by positivity)]
  rw [hzeroMagnitude, hquotient] at hsmall
  have hx : |x.value - signedQuotient negative num den| = |x.magnitude - num / den| :=
    distance_of_sign (negative_of_round h)
  refine ⟨normal_of_round hpos hexponents hden h, fun y hy ↦ ?_, fun y hy hne heq ↦ ?_⟩
  · rw [hx]
    by_cases hsign : y.negative = negative
    · rw [distance_of_sign hsign]
      exact (magnitude_closest hprecision hden h hy).1
    · rw [distance_of_other_sign hsign]
      exact hsmall.1.trans (le_add_of_nonneg_left y.magnitude_nonneg)
  · rw [hx] at heq
    by_cases hsign : y.negative = negative
    · rw [distance_of_sign hsign] at heq
      refine (magnitude_closest hprecision hden h hy).2 (fun hmagnitude ↦ hne ?_) heq
      rw [y.value_eq, x.value_eq, hmagnitude, hsign, negative_of_round h]
    · rw [distance_of_other_sign hsign] at heq
      have hy : y.magnitude = 0 := le_antisymm (by linarith [hsmall.1]) y.magnitude_nonneg
      rw [hy, zero_add] at heq
      refine hsmall.2 (fun hx ↦ hne ?_) heq
      rw [y.value_eq, x.value_eq, hy, ← hx, neg_zero, ite_self, ite_self]

theorem closest_ofInt {n : ℤ} (h : double.ofInt n = .finite x) : double.Closest n x := by
  have hvalue : signedQuotient (decide (n < 0)) n.natAbs 1 = n := by
    rw [signedQuotient, Nat.cast_one, div_one, Nat.cast_natAbs]
    rcases lt_or_ge n 0 with hneg | hpos
    · rw [decide_eq_true hneg, if_pos rfl, abs_of_neg hneg, Int.cast_neg, neg_neg]
    · rw [decide_eq_false hpos.not_gt, if_neg Bool.false_ne_true, abs_of_nonneg hpos]
  rw [← hvalue]
  exact closest_of_round (by decide) (by decide) one_pos h

end BinaryFormat

namespace Json

/-- The exact value of a numeric document. -/
def exactValue? : Json → Option ℚ
  | .int n => some n
  | .float x => some x.value
  | _ => none

/-- **A numeric document is compared as the closest number of the 64-bit format.** -/
theorem exists_closest {j : Json} (hj : j.WellFormed) {q : ℚ} (hq : j.exactValue? = some q) :
    ∃ x, j.toDouble? = some x ∧ BinaryFormat.double.Closest q x := by
  cases j with
  | int n =>
    cases hq
    obtain ⟨x, hx⟩ := BinaryFormat.exists_ofInt_of_integerRange hj
    exact ⟨x, by rw [toDouble?, hx], BinaryFormat.closest_ofInt hx⟩
  | float x =>
    cases hq
    exact ⟨x, rfl, BinaryFormat.closest_self hj⟩
  | _ => cases hq

end Json

end ContractHost
