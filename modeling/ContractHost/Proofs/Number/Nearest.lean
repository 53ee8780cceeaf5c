import ContractHost.Proofs.Number.Value
import Mathlib.Data.Int.Log
import Mathlib.Data.Rat.Floor
import Mathlib.Algebra.Ring.Parity

/-!
# Rounding to the nearest number

`BinaryFormat.round` takes two naturals and goes by their bits. What it does is said here of the
rational number that the two naturals stand for:

```
roundingExponent fmt q    the exponent of the last place of q in the format
Nearest (q / 2 ^ e) m     m is the integer nearest to q counted in last places, a half going to even
packed negative m e       the number m · 2 ^ e, with the carry, or infinity
```

`round_spec` is the only place where the bits are looked at. Everything else rests on it:

* `round_congr`: rounding depends on the quotient alone, since a rational number has one nearest
  integer;
* `magnitude_mono`: rounding is monotone. Where two numbers have the same last place this is
  monotonicity of the nearest integer; where they do not, a power of two lies between them;
* `round_self`: a normal number is rounded to itself;
* `exists_round`: nothing far below the bounds of a format is rounded to infinity.
-/

namespace ContractHost

namespace BinaryNumber

/-- The absolute value of a binary number. -/
def magnitude (x : BinaryNumber) : ℚ :=
  x.significand * 2 ^ x.exponent

theorem magnitude_nonneg (x : BinaryNumber) : 0 ≤ x.magnitude :=
  mul_nonneg (Nat.cast_nonneg _) (two_zpow_pos _).le

theorem value_eq (x : BinaryNumber) :
    x.value = if x.negative then -x.magnitude else x.magnitude := by
  rw [value, signed, magnitude]
  split
  · rw [Int.cast_neg, Int.cast_natCast, neg_mul]
  · rw [Int.cast_natCast]

theorem abs_value (x : BinaryNumber) : |x.value| = x.magnitude := by
  rw [value_eq]
  split
  · rw [abs_neg, abs_of_nonneg x.magnitude_nonneg]
  · exact abs_of_nonneg x.magnitude_nonneg

/-- A quotient that is brought to an exponent. -/
theorem scaled_quotient (num den : ℕ) (e : ℤ) :
    ((num * 2 ^ (-e).toNat : ℕ) : ℚ) / ((den * 2 ^ e.toNat : ℕ) : ℚ) = num / den / 2 ^ e := by
  have hscale : (2 : ℚ) ^ e = 2 ^ e.toNat / 2 ^ (-e).toNat := by
    rw [eq_div_iff (by positivity), ← zpow_natCast, ← zpow_natCast, ← zpow_add₀ two_ne_zero]
    congr 1
    omega
  rw [hscale]
  push_cast
  rw [div_div_eq_mul_div, div_mul_eq_mul_div, div_div]

theorem quotient_eq_magnitude (x : BinaryNumber) :
    (x.quotient.1 : ℚ) / (x.quotient.2 : ℚ) = x.magnitude := by
  have h := scaled_quotient x.significand 1 (-x.exponent)
  rw [neg_neg, one_mul, Nat.cast_one, div_one, zpow_neg, div_inv_eq_mul] at h
  exact h

end BinaryNumber

namespace BinaryFormat

variable {fmt : BinaryFormat} {q q' : ℚ} {m m' num den num' den' : ℕ} {negative negative' : Bool}
  {x y : BinaryNumber}

/-! ### The nearest integer -/

/-- An integer is nearest to a rational number, and even if another one is as near. -/
structure Nearest (q : ℚ) (m : ℕ) : Prop where
  lower : (m : ℚ) - 1 / 2 ≤ q
  upper : q ≤ m + 1 / 2
  even : q = m - 1 / 2 ∨ q = m + 1 / 2 → Even m

/-- **The nearest integer is monotone.** -/
theorem Nearest.mono (h : Nearest q m) (h' : Nearest q' m') (hq : q ≤ q') : m ≤ m' := by
  by_contra hlt
  have hstep : (m' : ℚ) + 1 ≤ m := by exact_mod_cast not_le.1 hlt
  -- The two numbers can only be the midpoint between two neighbours, and one of these is odd.
  have hlower := h.lower
  have hupper := h'.upper
  have hmid : q = m - 1 / 2 := by linarith
  have hmid' : q' = m' + 1 / 2 := by linarith
  have hsucc : m = m' + 1 := by
    have : (m : ℚ) = m' + 1 := by linarith
    exact_mod_cast this
  have heven := h.even (.inl hmid)
  rw [hsucc, Nat.even_add_one] at heven
  exact heven (h'.even (.inr hmid'))

theorem Nearest.unique (h : Nearest q m) (h' : Nearest q m') : m = m' :=
  le_antisymm (h.mono h' le_rfl) (h'.mono h le_rfl)

theorem nearest_natCast (m : ℕ) : Nearest m m where
  lower := by linarith
  upper := by linarith
  even h := by rcases h with h | h <;> linarith

/-- Less than a half above an integer that integer is nearest. -/
theorem nearest_below {r : ℚ} (hr : 0 ≤ r) (hlow : r < 1 / 2) : Nearest (m + r) m where
  lower := by linarith
  upper := by linarith
  even h := by rcases h with h | h <;> linarith

/-- More than a half above an integer the next one is nearest. -/
theorem nearest_above {r : ℚ} (hr : r < 1) (hhigh : 1 / 2 < r) : Nearest (m + r) (m + 1) where
  lower := by push_cast; linarith
  upper := by push_cast; linarith
  even h := by push_cast at h; rcases h with h | h <;> linarith

/-- Of the two integers around a midpoint the even one is nearest. -/
theorem nearest_between {n : ℕ} (hn : n = m ∨ n = m + 1) (heven : Even n) :
    Nearest (m + 1 / 2) n := by
  rcases hn with rfl | rfl
  · exact ⟨by linarith, le_rfl, fun _ ↦ heven⟩
  · exact ⟨by push_cast; linarith, by push_cast; linarith, fun _ ↦ heven⟩

/-- The quotient that is rounded goes to its nearest integer. -/
theorem nearest_roundQuotient (hden : 0 < den) : Nearest (num / den) (roundQuotient num den) := by
  have hpos : (0 : ℚ) < den := by exact_mod_cast hden
  have hsplit : (num : ℚ) / den = (num / den : ℕ) + (num % den : ℕ) / den := by
    rw [div_eq_iff hpos.ne', add_mul, div_mul_cancel₀ _ hpos.ne', mul_comm]
    exact_mod_cast (Nat.div_add_mod num den).symm
  have hrest : (0 : ℚ) ≤ (num % den : ℕ) / den := by positivity
  have hless : ((num % den : ℕ) : ℚ) / den < 1 := by
    rw [div_lt_one hpos]
    exact_mod_cast Nat.mod_lt num hden
  rw [hsplit]
  unfold roundQuotient
  dsimp only
  split
  · next hlow =>
    refine nearest_below hrest ?_
    rw [div_lt_div_iff₀ hpos two_pos]
    exact_mod_cast (by omega : num % den * 2 < 1 * den)
  · next hlow =>
    split
    · next hhigh =>
      refine nearest_above hless ?_
      rw [div_lt_div_iff₀ two_pos hpos]
      exact_mod_cast (by omega : 1 * den < num % den * 2)
    · next hhigh =>
      have hhalf : ((num % den : ℕ) : ℚ) / den = 1 / 2 := by
        rw [div_eq_div_iff hpos.ne' two_ne_zero]
        exact_mod_cast (by omega : num % den * 2 = 1 * den)
      rw [hhalf]
      split
      · next heven => exact nearest_between (.inl rfl) (Nat.even_iff.2 heven)
      · next hodd =>
        refine nearest_between (.inr rfl) (Nat.even_add_one.2 fun heven ↦ hodd ?_)
        exact Nat.even_iff.1 heven

/-! ### The last place -/

/-- The exponent of the last place of a positive number. -/
def roundingExponent (fmt : BinaryFormat) (q : ℚ) : ℤ :=
  max fmt.leastExponent (Int.log 2 q - fmt.precision + 1)

theorem two_zpow_log_le (hq : 0 < q) : (2 : ℚ) ^ Int.log 2 q ≤ q := by
  exact_mod_cast Int.zpow_log_le_self (b := 2) (by decide) hq

theorem lt_two_zpow_log (q : ℚ) : q < (2 : ℚ) ^ (Int.log 2 q + 1) := by
  exact_mod_cast Int.lt_zpow_succ_log_self (b := 2) (by decide) q

/-- The binary logarithm is the exponent of the powers of two around a number. -/
theorem log_eq_of_mem {k : ℤ} (hlow : (2 : ℚ) ^ k ≤ q) (hhigh : q < (2 : ℚ) ^ (k + 1)) :
    Int.log 2 q = k := by
  have hq : 0 < q := (BinaryNumber.two_zpow_pos k).trans_le hlow
  have hge : k ≤ Int.log 2 q := (Int.zpow_le_iff_le_log (by decide) hq).1 (by exact_mod_cast hlow)
  have hlt : Int.log 2 q < k + 1 :=
    (Int.lt_zpow_iff_log_lt (by decide) hq).1 (by exact_mod_cast hhigh)
  omega

theorem floorLog2_eq (hnum : num ≠ 0) (hden : 0 < den) :
    floorLog2 num den = Int.log 2 ((num : ℚ) / den) := by
  have hpos : (0 : ℚ) < den := by exact_mod_cast hden
  have hzpow : ∀ k : ℕ, (2 : ℚ) ^ (k : ℤ) = ((2 ^ k : ℕ) : ℚ) := fun k ↦ by
    rw [zpow_natCast, Nat.cast_pow, Nat.cast_ofNat]
  -- The numerator and the denominator lie between two powers each, so the quotient lies between
  -- two powers that are one bit further apart.
  have hnumLow : (2 : ℚ) ^ (Nat.log2 num : ℤ) ≤ num := by
    rw [hzpow]
    exact_mod_cast Nat.log2_self_le hnum
  have hnumHigh : (num : ℚ) < 2 ^ ((Nat.log2 num : ℤ) + 1) := by
    rw [← Nat.cast_succ, hzpow]
    exact_mod_cast Nat.lt_log2_self
  have hdenLow : (2 : ℚ) ^ (Nat.log2 den : ℤ) ≤ den := by
    rw [hzpow]
    exact_mod_cast Nat.log2_self_le hden.ne'
  have hdenHigh : (den : ℚ) < 2 ^ ((Nat.log2 den : ℤ) + 1) := by
    rw [← Nat.cast_succ, hzpow]
    exact_mod_cast Nat.lt_log2_self
  have hlow : (2 : ℚ) ^ ((Nat.log2 num : ℤ) - Nat.log2 den - 1) ≤ num / den := by
    rw [le_div_iff₀ hpos]
    calc (2 : ℚ) ^ ((Nat.log2 num : ℤ) - Nat.log2 den - 1) * den
        ≤ 2 ^ ((Nat.log2 num : ℤ) - Nat.log2 den - 1) * 2 ^ ((Nat.log2 den : ℤ) + 1) :=
          mul_le_mul_of_nonneg_left hdenHigh.le (BinaryNumber.two_zpow_pos _).le
      _ = 2 ^ (Nat.log2 num : ℤ) := by rw [← zpow_add₀ two_ne_zero]; congr 1; ring
      _ ≤ num := hnumLow
  have hhigh : (num : ℚ) / den < 2 ^ ((Nat.log2 num : ℤ) - Nat.log2 den + 1) := by
    rw [div_lt_iff₀ hpos]
    calc (num : ℚ) < 2 ^ ((Nat.log2 num : ℤ) + 1) := hnumHigh
      _ = 2 ^ ((Nat.log2 num : ℤ) - Nat.log2 den + 1) * 2 ^ (Nat.log2 den : ℤ) := by
          rw [← zpow_add₀ two_ne_zero]; congr 1; ring
      _ ≤ 2 ^ ((Nat.log2 num : ℤ) - Nat.log2 den + 1) * den :=
          mul_le_mul_of_nonneg_left hdenLow (BinaryNumber.two_zpow_pos _).le
  -- One comparison says on which side of the power between them it lies.
  have hguess : num * 2 ^ (-((Nat.log2 num : ℤ) - Nat.log2 den)).toNat <
      den * 2 ^ ((Nat.log2 num : ℤ) - Nat.log2 den).toNat ↔
      (num : ℚ) / den < 2 ^ ((Nat.log2 num : ℤ) - Nat.log2 den) := by
    have hscaled := BinaryNumber.scaled_quotient num den ((Nat.log2 num : ℤ) - Nat.log2 den)
    rw [← div_lt_one (BinaryNumber.two_zpow_pos _), ← hscaled, div_lt_one (by positivity),
      Nat.cast_lt]
  unfold floorLog2
  dsimp only
  split
  · next h =>
    refine (log_eq_of_mem hlow ?_).symm
    rw [sub_add_cancel]
    exact hguess.1 h
  · next h => exact (log_eq_of_mem (not_lt.1 fun hlt ↦ h (hguess.2 hlt)) hhigh).symm

/-! ### Rounding -/

/-- The number of that many last places. A significand that is one bit too wide is carried over, and
what is too large is infinity. -/
def packed (fmt : BinaryFormat) (negative : Bool) (m : ℕ) (e : ℤ) : FloatValue :=
  if m = 2 ^ fmt.precision then
    if fmt.greatestExponent < e + 1 then .infinity negative
    else .finite ⟨negative, 2 ^ (fmt.precision - 1), e + 1⟩
  else if fmt.greatestExponent < e then .infinity negative
  else .finite ⟨negative, m, e⟩

/-- **Rounding takes the nearest number of last places.** -/
theorem round_spec (fmt : BinaryFormat) (negative : Bool) (hnum : num ≠ 0) (hden : 0 < den) :
    ∃ m, Nearest ((num : ℚ) / den / 2 ^ fmt.roundingExponent (num / den)) m ∧
      fmt.round negative num den = fmt.packed negative m (fmt.roundingExponent (num / den)) := by
  have hexponent : max fmt.leastExponent (floorLog2 num den - fmt.precision + 1) =
      fmt.roundingExponent (num / den) := by
    rw [floorLog2_eq hnum hden, roundingExponent]
  refine ⟨roundQuotient (num * 2 ^ (-fmt.roundingExponent (num / den)).toNat)
    (den * 2 ^ (fmt.roundingExponent (num / den)).toNat), ?_, ?_⟩
  · rw [← BinaryNumber.scaled_quotient]
    exact nearest_roundQuotient (Nat.mul_pos hden (Nat.two_pow_pos _))
  · unfold round packed
    rw [if_neg hnum, hexponent]
    dsimp only
    split <;> rfl

/-- What rounding yields has the sign it was given. -/
theorem negative_of_round (h : fmt.round negative num den = .finite x) : x.negative = negative := by
  unfold round at h
  split at h
  · cases h
    rfl
  · dsimp only at h
    split at h <;> split at h <;> cases h <;> rfl

/-- A number of last places that is not infinite has the magnitude it says. -/
theorem magnitude_of_packed (hprecision : 0 < fmt.precision) {e : ℤ}
    (h : fmt.packed negative m e = .finite x) : x.magnitude = m * 2 ^ e := by
  unfold packed at h
  split at h
  · next hm =>
    split at h
    · cases h
    · cases h
      have hhalf : (2 : ℚ) ^ fmt.precision = 2 ^ (fmt.precision - 1) * 2 := by
        rw [← pow_succ, Nat.sub_add_cancel hprecision]
      rw [BinaryNumber.magnitude, hm, zpow_add_one₀ two_ne_zero]
      push_cast
      rw [hhalf]
      ring
  · split at h
    · cases h
    · cases h
      rfl

/-- The magnitude of a rounded number, in last places of the number that was rounded. -/
theorem magnitude_of_round (hprecision : 0 < fmt.precision) (hnum : num ≠ 0) (hden : 0 < den)
    (h : fmt.round negative num den = .finite x) :
    ∃ m, Nearest ((num : ℚ) / den / 2 ^ fmt.roundingExponent (num / den)) m ∧
      x.magnitude = m * 2 ^ fmt.roundingExponent (num / den) := by
  obtain ⟨m, hm, hround⟩ := round_spec fmt negative hnum hden
  exact ⟨m, hm, magnitude_of_packed hprecision (hround.symm.trans h)⟩

/-- **Rounding depends on the quotient alone.** -/
theorem round_congr (hden : 0 < den) (hden' : 0 < den')
    (h : (num : ℚ) / den = num' / den') :
    fmt.round negative num den = fmt.round negative num' den' := by
  by_cases hnum : num = 0
  · have hnum' : num' = 0 := by
      rw [hnum, Nat.cast_zero, zero_div, eq_comm, div_eq_zero_iff] at h
      have hne : (den' : ℚ) ≠ 0 := by exact_mod_cast hden'.ne'
      exact_mod_cast h.resolve_right hne
    rw [hnum, hnum', round, round, if_pos rfl, if_pos rfl]
  · have hnum' : num' ≠ 0 := by
      rintro rfl
      rw [Nat.cast_zero, zero_div, div_eq_zero_iff] at h
      have hne : (den : ℚ) ≠ 0 := by exact_mod_cast hden.ne'
      exact hnum (by exact_mod_cast h.resolve_right hne)
    obtain ⟨m, hm, hround⟩ := round_spec fmt negative hnum hden
    obtain ⟨m', hm', hround'⟩ := round_spec fmt negative hnum' hden'
    rw [← h] at hm' hround'
    rw [hround, hround', hm.unique hm']

/-- A positive number is at most a power of two that its last place divides evenly into. -/
theorem Nearest.le_two_zpow {k : ℤ}
    (h : Nearest (q / 2 ^ fmt.roundingExponent q) m) (hk : Int.log 2 q < k)
    (hexponent : fmt.roundingExponent q ≤ k) :
    (m : ℚ) * 2 ^ fmt.roundingExponent q ≤ 2 ^ k := by
  obtain ⟨n, hn⟩ := Int.eq_ofNat_of_zero_le (sub_nonneg.2 hexponent)
  have hpower : (2 : ℚ) ^ k = (2 ^ n : ℕ) * 2 ^ fmt.roundingExponent q := by
    rw [Nat.cast_pow, Nat.cast_ofNat, ← zpow_natCast, ← zpow_add₀ two_ne_zero]
    congr 1
    omega
  have hlt : q ≤ 2 ^ k :=
    (lt_two_zpow_log q).le.trans (zpow_le_zpow_right₀ one_le_two (by omega))
  have hle : m ≤ 2 ^ n := h.mono (nearest_natCast _) <| by
    rw [div_le_iff₀ (BinaryNumber.two_zpow_pos _), ← hpower]
    exact hlt
  rw [hpower]
  exact mul_le_mul_of_nonneg_right (by exact_mod_cast hle) (BinaryNumber.two_zpow_pos _).le

/-- A positive number is rounded to no less than a power of two that is not above it. -/
theorem Nearest.two_zpow_le {k : ℤ} (h : Nearest (q / 2 ^ fmt.roundingExponent q) m)
    (hk : (2 : ℚ) ^ k ≤ q) (hexponent : fmt.roundingExponent q ≤ k) :
    (2 : ℚ) ^ k ≤ m * 2 ^ fmt.roundingExponent q := by
  obtain ⟨n, hn⟩ := Int.eq_ofNat_of_zero_le (sub_nonneg.2 hexponent)
  have hpower : (2 : ℚ) ^ k = (2 ^ n : ℕ) * 2 ^ fmt.roundingExponent q := by
    rw [Nat.cast_pow, Nat.cast_ofNat, ← zpow_natCast, ← zpow_add₀ two_ne_zero]
    congr 1
    omega
  have hle : 2 ^ n ≤ m := (nearest_natCast _).mono h <| by
    rw [le_div_iff₀ (BinaryNumber.two_zpow_pos _), ← hpower]
    exact hk
  rw [hpower]
  exact mul_le_mul_of_nonneg_right (by exact_mod_cast hle) (BinaryNumber.two_zpow_pos _).le

/-- A significand between the bounds of its width gives a normal number. -/
theorem normal_of_packed (hprecision : 0 < fmt.precision) {e : ℤ} (hleast : fmt.leastExponent ≤ e)
    (hwidth : m ≤ 2 ^ fmt.precision)
    (hnormal : 2 ^ (fmt.precision - 1) ≤ m ∨ e = fmt.leastExponent)
    (h : fmt.packed negative m e = .finite x) : fmt.Normal x := by
  unfold packed at h
  split at h
  · split at h
    · cases h
    · next hgreatest =>
      cases h
      exact ⟨Nat.pow_lt_pow_right one_lt_two (Nat.sub_lt hprecision one_pos),
        hleast.trans (Int.lt_succ e).le, not_lt.1 hgreatest, .inl le_rfl⟩
  · next hm =>
    split at h
    · cases h
    · next hgreatest =>
      cases h
      exact ⟨lt_of_le_of_ne hwidth hm, hleast, not_lt.1 hgreatest, hnormal⟩

/-- **Rounding yields normal numbers.** -/
theorem normal_of_round (hprecision : 0 < fmt.precision)
    (hexponents : fmt.leastExponent ≤ fmt.greatestExponent) (hden : 0 < den)
    (h : fmt.round negative num den = .finite x) : fmt.Normal x := by
  by_cases hnum : num = 0
  · rw [round, if_pos hnum] at h
    cases h
    exact ⟨Nat.two_pow_pos _, le_rfl, hexponents, .inr rfl⟩
  · obtain ⟨m, hm, hround⟩ := round_spec fmt negative hnum hden
    have hq : (0 : ℚ) < num / den := by
      have : (0 : ℚ) < num := by exact_mod_cast Nat.pos_of_ne_zero hnum
      have : (0 : ℚ) < den := by exact_mod_cast hden
      positivity
    generalize (num : ℚ) / den = q at hm hround hq
    have hexponent : fmt.roundingExponent q =
        max fmt.leastExponent (Int.log 2 q - fmt.precision + 1) := rfl
    have hscale := BinaryNumber.two_zpow_pos (fmt.roundingExponent q)
    -- The significand has at most the width of the format, and at least that if there is room.
    have hwidth : m ≤ 2 ^ fmt.precision := by
      have hle := hm.le_two_zpow (k := fmt.roundingExponent q + fmt.precision) (by omega) (by omega)
      rw [add_comm, zpow_add₀ two_ne_zero, zpow_natCast, mul_le_mul_iff_of_pos_right hscale] at hle
      exact_mod_cast hle
    refine normal_of_packed hprecision (hexponent ▸ le_max_left _ _) hwidth ?_
      (hround.symm.trans h)
    rcases max_choice fmt.leastExponent (Int.log 2 q - fmt.precision + 1) with hmax | hmax
    · exact .inr (hexponent.trans hmax)
    · refine .inl ?_
      have hlog : Int.log 2 q = (fmt.precision - 1 : ℕ) + fmt.roundingExponent q := by omega
      have hle := hm.two_zpow_le (two_zpow_log_le hq) (by omega)
      rw [hlog, zpow_add₀ two_ne_zero, zpow_natCast, mul_le_mul_iff_of_pos_right hscale] at hle
      exact_mod_cast hle

/-- **Rounding is monotone.** -/
theorem magnitude_mono (hprecision : 0 < fmt.precision) (hden : 0 < den) (hden' : 0 < den')
    (hle : (num : ℚ) / den ≤ num' / den') (h : fmt.round negative num den = .finite x)
    (h' : fmt.round negative' num' den' = .finite y) : x.magnitude ≤ y.magnitude := by
  by_cases hnum : num = 0
  · rw [round, if_pos hnum] at h
    cases h
    rw [BinaryNumber.magnitude, zero, Nat.cast_zero, zero_mul]
    exact y.magnitude_nonneg
  · have hpos : (0 : ℚ) < num / den := by positivity
    have hnum' : num' ≠ 0 := by
      rintro rfl
      rw [Nat.cast_zero, zero_div] at hle
      exact absurd hpos hle.not_gt
    obtain ⟨m, hm, hx⟩ := magnitude_of_round hprecision hnum hden h
    obtain ⟨m', hm', hy⟩ := magnitude_of_round hprecision hnum' hden' h'
    rw [hx, hy]
    generalize (num : ℚ) / den = q at *
    generalize (num' : ℚ) / den' = q' at *
    have hlog : Int.log 2 q ≤ Int.log 2 q' := Int.log_mono_right hpos hle
    have hmono : fmt.roundingExponent q ≤ fmt.roundingExponent q' :=
      max_le_max le_rfl (by omega)
    rcases hmono.eq_or_lt with heq | hlt
    · -- Both numbers have the same last place.
      rw [heq] at hm ⊢
      refine mul_le_mul_of_nonneg_right ?_ (BinaryNumber.two_zpow_pos _).le
      exact_mod_cast hm.mono hm' (div_le_div_of_nonneg_right hle (BinaryNumber.two_zpow_pos _).le)
    · -- The power of two that starts the larger number lies between them.
      have hlog' : fmt.roundingExponent q' = Int.log 2 q' - fmt.precision + 1 := by
        unfold roundingExponent at hlt ⊢
        omega
      have hless : Int.log 2 q < Int.log 2 q' := by
        unfold roundingExponent at hlt
        omega
      calc (m : ℚ) * 2 ^ fmt.roundingExponent q
          ≤ 2 ^ Int.log 2 q' := hm.le_two_zpow hless (by omega)
        _ ≤ m' * 2 ^ fmt.roundingExponent q' :=
          hm'.two_zpow_le (two_zpow_log_le (hpos.trans_le hle)) (by omega)

/-- What is a whole number of last places, and no wider than the format, is not changed. -/
theorem round_exact (hnum : num ≠ 0) (hden : 0 < den)
    (hm : (num : ℚ) / den = m * 2 ^ fmt.roundingExponent (num / den)) :
    fmt.round negative num den = fmt.packed negative m (fmt.roundingExponent (num / den)) := by
  obtain ⟨m', hm', hround⟩ := round_spec fmt negative hnum hden
  have hquotient : (num : ℚ) / den / 2 ^ fmt.roundingExponent (num / den) = m := by
    rw [div_eq_iff (BinaryNumber.two_zpow_pos _).ne']
    exact hm
  rw [hquotient] at hm'
  rw [hround, hm'.unique (nearest_natCast m)]

/-- The last place of a normal number is its exponent. -/
theorem roundingExponent_of_normal (hprecision : 0 < fmt.precision) (hx : fmt.Normal x)
    (hne : x.significand ≠ 0) : fmt.roundingExponent x.magnitude = x.exponent := by
  obtain ⟨hwidth, hleast, -, hnormal⟩ := hx
  have hupper : x.magnitude < 2 ^ (x.exponent + fmt.precision) := by
    rw [BinaryNumber.magnitude, add_comm, zpow_add₀ two_ne_zero, zpow_natCast]
    exact mul_lt_mul_of_pos_right (by exact_mod_cast hwidth) (BinaryNumber.two_zpow_pos _)
  have hpos : 0 < x.magnitude :=
    mul_pos (by exact_mod_cast Nat.pos_of_ne_zero hne) (BinaryNumber.two_zpow_pos _)
  have hlog : Int.log 2 x.magnitude < x.exponent + fmt.precision :=
    (Int.lt_zpow_iff_log_lt (by decide) hpos).1 (by exact_mod_cast hupper)
  rcases hnormal with hfull | hbottom
  · have hlower : (2 : ℚ) ^ (x.exponent + fmt.precision - 1) ≤ x.magnitude := by
      have hsplit : x.exponent + fmt.precision - 1 = ((fmt.precision - 1 : ℕ) : ℤ) + x.exponent := by
        omega
      rw [hsplit, zpow_add₀ two_ne_zero, zpow_natCast]
      exact mul_le_mul_of_nonneg_right (by exact_mod_cast hfull) (BinaryNumber.two_zpow_pos _).le
    have hge : x.exponent + fmt.precision - 1 ≤ Int.log 2 x.magnitude :=
      (Int.zpow_le_iff_le_log (by decide) hpos).1 (by exact_mod_cast hlower)
    unfold roundingExponent
    omega
  · unfold roundingExponent
    omega

/-- **A normal number is rounded to itself.** -/
theorem round_self (hprecision : 0 < fmt.precision) (hx : fmt.Normal x)
    (hne : x.significand ≠ 0) (hnum : num ≠ 0) (hden : 0 < den)
    (h : (num : ℚ) / den = x.magnitude) : fmt.round x.negative num den = .finite x := by
  have hexponent := roundingExponent_of_normal hprecision hx hne
  have hm : (num : ℚ) / den = x.significand * 2 ^ fmt.roundingExponent (num / den) := by
    rw [h, hexponent]
    rfl
  rw [round_exact hnum hden hm, h, hexponent, packed, if_neg hx.1.ne, if_neg hx.2.2.1.not_gt]

/-- **Normal numbers of one value are equal, or zeros of any sign.** -/
theorem eq_or_zero_of_value (hprecision : 0 < fmt.precision) (hx : fmt.Normal x)
    (hy : fmt.Normal y) (h : x.value = y.value) :
    x = y ∨ x.significand = 0 ∧ y = { x with negative := y.negative } := by
  have hmagnitude : x.magnitude = y.magnitude := by
    rw [← x.abs_value, h, y.abs_value]
  have hzero : ∀ {z : BinaryNumber}, z.magnitude = 0 ↔ z.significand = 0 := fun {z} ↦ by
    rw [BinaryNumber.magnitude, mul_eq_zero_iff_right (BinaryNumber.two_zpow_pos _).ne',
      Nat.cast_eq_zero]
  by_cases hnum : x.significand = 0
  · -- A zero is not of full width, so its exponent is the least one.
    have hleast : ∀ {z : BinaryNumber}, fmt.Normal z → z.significand = 0 →
        z.exponent = fmt.leastExponent := fun hz hzero ↦ by
      refine hz.2.2.2.resolve_left fun hfull ↦ ?_
      exact absurd (hzero ▸ hfull) (Nat.not_le.2 (Nat.two_pow_pos _))
    have hnum' : y.significand = 0 := hzero.1 (hmagnitude ▸ hzero.2 hnum)
    have hexponent := (hleast hx hnum).trans (hleast hy hnum').symm
    obtain ⟨_, m, e⟩ := x
    obtain ⟨_, m', e'⟩ := y
    cases hnum.trans hnum'.symm
    cases hexponent
    exact .inr ⟨hnum, rfl⟩
  · have hnum' : y.significand ≠ 0 := fun hy ↦ hnum (hzero.1 (hmagnitude ▸ hzero.2 hy))
    have hpos : 0 < x.magnitude := x.magnitude_nonneg.lt_of_ne' fun hx ↦ hnum (hzero.1 hx)
    have hsign : x.negative = y.negative := by
      rw [x.value_eq, y.value_eq, ← hmagnitude] at h
      cases hxs : x.negative <;> cases hys : y.negative <;> simp [hxs, hys] at h ⊢ <;> linarith
    have hquotient := x.quotient_eq_magnitude
    have hnum₀ : x.quotient.1 ≠ 0 := Nat.mul_ne_zero hnum (Nat.two_pow_pos _).ne'
    have hden : 0 < x.quotient.2 := Nat.two_pow_pos _
    have hroundx := round_self hprecision hx hnum hnum₀ hden hquotient
    have hroundy := round_self hprecision hy hnum' hnum₀ hden (hquotient.trans hmagnitude)
    rw [hsign, hroundy] at hroundx
    exact .inl (FloatValue.finite.inj hroundx).symm

/-- A quotient below half of what the greatest exponent allows is not rounded to infinity. -/
theorem exists_round (hexponent : fmt.leastExponent < fmt.greatestExponent) (hden : 0 < den)
    (h : (num : ℚ) / den < 2 ^ (fmt.greatestExponent + fmt.precision - 1)) :
    ∃ y, fmt.round negative num den = .finite y := by
  by_cases hnum : num = 0
  · exact ⟨_, by rw [round, if_pos hnum]⟩
  · have hpos : (0 : ℚ) < num / den :=
      div_pos (by exact_mod_cast Nat.pos_of_ne_zero hnum) (by exact_mod_cast hden)
    have hlog : Int.log 2 ((num : ℚ) / den) < fmt.greatestExponent + fmt.precision - 1 :=
      (Int.lt_zpow_iff_log_lt (by decide) hpos).1 (by exact_mod_cast h)
    -- The last place leaves one more bit to carry into.
    have hlast : fmt.roundingExponent ((num : ℚ) / den) + 1 ≤ fmt.greatestExponent := by
      unfold roundingExponent
      omega
    obtain ⟨m, -, hround⟩ := round_spec fmt negative hnum hden
    unfold packed at hround
    rw [if_neg (not_lt.2 hlast), if_neg (not_lt.2 (by omega))] at hround
    rw [hround]
    split
    · exact ⟨_, rfl⟩
    · exact ⟨_, rfl⟩

end BinaryFormat

end ContractHost
