import ContractHost.Number.Decimal
import ContractHost.Proofs.Number.Nearest

/-!
# Decimals that read back

A number of the 64-bit format is written as a decimal that reads back as that number
(`BinaryNumber.toBinary_shortest`). The search for a short decimal reads every candidate, so there
is nothing to show of what it finds. What it falls back on is the exact value, and reading that is
exact too (`BinaryNumber.toBinary_exact`).

A decimal may be written with zeros at its end (`Decimal.padded`), and reading does not tell
(`Decimal.toBinary_padded`). Dropping zeros is the way back (`Decimal.exists_eq_padded_trim`).
-/

namespace ContractHost

variable {n k : ℕ} {d : Decimal} {fmt : BinaryFormat} {x : BinaryNumber}

/-! ### Counting digits -/

namespace Decimal

theorem lt_ten_pow_digitCount (n : ℕ) : n < 10 ^ digitCount n :=
  (Nat.length_toDigits_le_iff (by decide) Nat.length_toDigits_pos).1 le_rfl

theorem ten_pow_le (hn : n ≠ 0) (hk : k < digitCount n) : 10 ^ k ≤ n := by
  rcases Nat.eq_zero_or_pos k with rfl | hpos
  · exact Nat.one_le_iff_ne_zero.2 hn
  · by_contra hlt
    exact hk.not_ge ((Nat.length_toDigits_le_iff (by decide) hpos).2 (not_le.1 hlt))

/-- The number of digits is told by the powers of ten around a number. -/
theorem digitCount_eq (hlow : 10 ^ k ≤ n) (hhigh : n < 10 ^ (k + 1)) : digitCount n = k + 1 := by
  have hle : digitCount n ≤ k + 1 :=
    (Nat.length_toDigits_le_iff (by decide) k.succ_pos).2 hhigh
  have hlt : 10 ^ k < 10 ^ digitCount n := hlow.trans_lt (lt_ten_pow_digitCount n)
  exact le_antisymm hle ((Nat.pow_lt_pow_iff_right (by decide)).1 hlt)

theorem digitCount_mul_ten_pow (hn : n ≠ 0) (k : ℕ) :
    digitCount (n * 10 ^ k) = digitCount n + k := by
  obtain ⟨m, hm⟩ := Nat.exists_eq_succ_of_ne_zero (Nat.length_toDigits_pos (b := 10) (n := n)).ne'
  have hm : digitCount n = m + 1 := hm
  rw [hm, Nat.add_right_comm]
  refine digitCount_eq ?_ ?_
  · rw [pow_add]
    exact Nat.mul_le_mul_right _ (ten_pow_le hn (by omega))
  · rw [Nat.add_right_comm, pow_add]
    exact Nat.mul_lt_mul_of_pos_right (hm ▸ lt_ten_pow_digitCount n) (by positivity)

/-! ### The value of a decimal -/

/-- The absolute value of a decimal. -/
def magnitude (d : Decimal) : ℚ :=
  d.coefficient * 10 ^ d.exponent

/-- The quotient that is read. -/
theorem quotient_eq_magnitude (d : Decimal) :
    ((d.coefficient * 10 ^ d.exponent.toNat : ℕ) : ℚ) / ((10 ^ (-d.exponent).toNat : ℕ) : ℚ) =
      d.magnitude := by
  have hscale : (10 : ℚ) ^ d.exponent = 10 ^ d.exponent.toNat / 10 ^ (-d.exponent).toNat := by
    rw [eq_div_iff (by positivity), ← zpow_natCast, ← zpow_natCast, ← zpow_add₀ (by norm_num)]
    congr 1
    omega
  rw [magnitude, hscale]
  push_cast
  ring

/-- The value lies between two powers of ten. -/
theorem magnitude_lt (d : Decimal) :
    d.magnitude < 10 ^ ((digitCount d.coefficient : ℤ) + d.exponent) := by
  rw [magnitude, zpow_add₀ (by norm_num), zpow_natCast]
  exact mul_lt_mul_of_pos_right (by exact_mod_cast lt_ten_pow_digitCount d.coefficient)
    (by positivity)

theorem le_magnitude (hd : d.coefficient ≠ 0) :
    (10 : ℚ) ^ ((digitCount d.coefficient : ℤ) + d.exponent - 1) ≤ d.magnitude := by
  obtain ⟨m, hm⟩ :=
    Nat.exists_eq_succ_of_ne_zero (Nat.length_toDigits_pos (b := 10) (n := d.coefficient)).ne'
  have hm : digitCount d.coefficient = m + 1 := hm
  have hlow : 10 ^ m ≤ d.coefficient := ten_pow_le hd (by omega)
  rw [magnitude, hm, show ((m + 1 : ℕ) : ℤ) + d.exponent - 1 = m + d.exponent by push_cast; ring,
    zpow_add₀ (by norm_num), zpow_natCast]
  exact mul_le_mul_of_nonneg_right (by exact_mod_cast hlow) (by positivity)

/-- What is read is a normal number. -/
theorem normal_of_toBinary (h : d.toBinary .double = .finite x) :
    BinaryFormat.double.Normal x := by
  have hzero : BinaryFormat.double.Normal (BinaryFormat.double.zero d.negative) :=
    ⟨Nat.two_pow_pos _, le_rfl, show (-1074 : ℤ) ≤ 971 by decide, .inr rfl⟩
  unfold toBinary at h
  dsimp only at h
  split at h
  · cases h
    exact hzero
  · split at h
    · cases h
    · split at h
      · cases h
        exact hzero
      · exact BinaryFormat.normal_of_round (by decide) (by decide) (by positivity) h

/-! ### Zeros at the end -/

/-- The same decimal with `k` more zeros at the end of its coefficient. -/
def padded (d : Decimal) (k : ℕ) : Decimal :=
  ⟨d.negative, d.coefficient * 10 ^ k, d.exponent - k⟩

theorem magnitude_padded (d : Decimal) (k : ℕ) : (d.padded k).magnitude = d.magnitude := by
  rw [magnitude, magnitude, padded, Nat.cast_mul, Nat.cast_pow, Nat.cast_ofNat, mul_assoc,
    ← zpow_natCast, ← zpow_add₀ (by norm_num), add_sub_cancel]

/-- **Zeros at the end make no difference to a reader.** -/
theorem toBinary_padded (d : Decimal) (k : ℕ) : (d.padded k).toBinary fmt = d.toBinary fmt := by
  unfold toBinary
  by_cases hd : d.coefficient = 0
  · rw [if_pos (show (d.padded k).coefficient = 0 by rw [padded, hd, Nat.zero_mul]), if_pos hd]
    rfl
  · have hcoefficient : (d.padded k).coefficient ≠ 0 := Nat.mul_ne_zero hd (by positivity)
    have hdigits : (digitCount (d.padded k).coefficient : ℤ) + (d.padded k).exponent =
        digitCount d.coefficient + d.exponent := by
      show ((digitCount (d.coefficient * 10 ^ k) : ℕ) : ℤ) + (d.exponent - k) = _
      rw [digitCount_mul_ten_pow hd, Nat.cast_add]
      omega
    have hround : fmt.round (d.padded k).negative
        ((d.padded k).coefficient * 10 ^ (d.padded k).exponent.toNat)
        (10 ^ (-(d.padded k).exponent).toNat) =
          fmt.round d.negative (d.coefficient * 10 ^ d.exponent.toNat)
            (10 ^ (-d.exponent).toNat) := by
      refine BinaryFormat.round_congr (by positivity) (by positivity) ?_
      rw [quotient_eq_magnitude, quotient_eq_magnitude, magnitude_padded]
    dsimp only
    rw [if_neg hcoefficient, if_neg hd, hdigits, hround]
    rfl

theorem dropZeros_spec (n c : ℕ) (e : ℤ) :
    ∃ k : ℕ, c = (dropZeros n c e).1 * 10 ^ k ∧ (dropZeros n c e).2 = e + k := by
  induction n generalizing c e with
  | zero => exact ⟨0, (Nat.mul_one c).symm, (add_zero e).symm⟩
  | succ n ih =>
    rw [dropZeros]
    split
    · next h =>
      obtain ⟨k, hc, he⟩ := ih (c / 10) (e + 1)
      refine ⟨k + 1, ?_, ?_⟩
      · rw [pow_succ, ← mul_assoc, ← hc]
        omega
      · rw [he, Nat.cast_add, Nat.cast_one]
        ring
    · exact ⟨0, (Nat.mul_one c).symm, (add_zero e).symm⟩

/-- Only zeros at the end are dropped. -/
theorem exists_eq_padded_trim (d : Decimal) : ∃ k, d = d.trim.padded k := by
  obtain ⟨k, hc, he⟩ := dropZeros_spec (digitCount d.coefficient) d.coefficient d.exponent
  refine ⟨k, ?_⟩
  rw [trim, padded]
  dsimp only
  rw [← hc, he, add_sub_cancel_right]

theorem toBinary_trim (d : Decimal) : d.trim.toBinary fmt = d.toBinary fmt := by
  obtain ⟨k, hk⟩ := d.exists_eq_padded_trim
  conv_rhs => rw [hk]
  exact (toBinary_padded _ k).symm

end Decimal

/-! ### Numbers that are written -/

namespace BinaryNumber

theorem magnitude_exact (x : BinaryNumber) : x.exact.magnitude = x.magnitude := by
  show ((x.significand * 2 ^ x.exponent.toNat * 5 ^ (-x.exponent).toNat : ℕ) : ℚ) *
    10 ^ min x.exponent 0 = x.significand * 2 ^ x.exponent
  rcases le_total 0 x.exponent with hexponent | hexponent
  · obtain ⟨m, hm⟩ := Int.eq_ofNat_of_zero_le hexponent
    rw [min_eq_right hexponent, zpow_zero, mul_one, Int.toNat_of_nonpos (neg_nonpos.2 hexponent),
      pow_zero, mul_one, hm, Int.toNat_natCast, zpow_natCast]
    push_cast
    rfl
  · obtain ⟨m, hm⟩ := Int.eq_ofNat_of_zero_le (neg_nonneg.2 hexponent)
    rw [min_eq_left hexponent, Int.toNat_of_nonpos hexponent, pow_zero, mul_one, hm,
      Int.toNat_natCast, ← neg_neg x.exponent, hm, zpow_neg, zpow_neg, zpow_natCast, zpow_natCast]
    push_cast
    rw [mul_assoc]
    congr 1
    rw [show (10 : ℚ) = 2 * 5 by norm_num, mul_pow]
    field_simp

theorem two_zpow_le_ten_zpow {k : ℤ} (hk : 0 ≤ k) : (2 : ℚ) ^ k ≤ 10 ^ k := by
  obtain ⟨n, rfl⟩ := Int.eq_ofNat_of_zero_le hk
  rw [zpow_natCast, zpow_natCast]
  exact pow_le_pow_left₀ (by norm_num) (by norm_num) n

/-- **The exact value reads back.** -/
theorem toBinary_exact (hx : BinaryFormat.double.Normal x) (hne : x.significand ≠ 0) :
    x.exact.toBinary .double = .finite x := by
  obtain ⟨hwidth, hleast, hgreatest, -⟩ := id hx
  have hcoefficient : x.exact.coefficient ≠ 0 :=
    Nat.mul_ne_zero (Nat.mul_ne_zero hne (by positivity)) (by positivity)
  -- The value lies far inside the bounds beyond which it would not be looked at.
  have hlow : (2 : ℚ) ^ (-1074 : ℤ) ≤ x.magnitude := by
    calc (2 : ℚ) ^ (-1074 : ℤ) ≤ 2 ^ x.exponent := zpow_le_zpow_right₀ (by norm_num) hleast
      _ ≤ x.significand * 2 ^ x.exponent :=
        le_mul_of_one_le_left (two_zpow_pos _).le (by exact_mod_cast Nat.one_le_iff_ne_zero.2 hne)
  have hhigh : x.magnitude < (2 : ℚ) ^ (1024 : ℤ) := by
    calc x.magnitude < 2 ^ (53 : ℤ) * 2 ^ x.exponent :=
        mul_lt_mul_of_pos_right (by exact_mod_cast hwidth) (two_zpow_pos _)
      _ ≤ 2 ^ (53 : ℤ) * 2 ^ (971 : ℤ) :=
        mul_le_mul_of_nonneg_left (zpow_le_zpow_right₀ (by norm_num) hgreatest) (by positivity)
      _ = 2 ^ (1024 : ℤ) := by rw [← zpow_add₀ two_ne_zero]; rfl
  rw [← magnitude_exact] at hlow hhigh
  have hbelow := x.exact.magnitude_lt
  have habove := Decimal.le_magnitude hcoefficient
  unfold Decimal.toBinary
  dsimp only
  rw [if_neg hcoefficient, if_neg, if_neg]
  · refine BinaryFormat.round_self (by decide) hx hne
      (Nat.mul_ne_zero hcoefficient (by positivity)) (by positivity) ?_
    rw [Decimal.quotient_eq_magnitude, magnitude_exact]
  · intro hsmall
    have hpower : (10 : ℚ) ^ ((Decimal.digitCount x.exact.coefficient : ℤ) + x.exact.exponent) ≤
        10 ^ (-1074 : ℤ) := zpow_le_zpow_right₀ (by norm_num) hsmall.le
    have hten : (10 : ℚ) ^ (-1074 : ℤ) ≤ 2 ^ (-1074 : ℤ) := by
      rw [zpow_neg, zpow_neg]
      exact inv_anti₀ (by positivity) (two_zpow_le_ten_zpow (by decide))
    exact ((hbelow.trans_le hpower).trans_le hten).not_ge hlow
  · intro hlarge
    have hlarge : (1024 : ℤ) ≤
        (Decimal.digitCount x.exact.coefficient : ℤ) + x.exact.exponent - 1 := by
      have : (971 : ℤ) + 53 < Decimal.digitCount x.exact.coefficient + x.exact.exponent := hlarge
      omega
    have hpower : (10 : ℚ) ^ (1024 : ℤ) ≤
        10 ^ ((Decimal.digitCount x.exact.coefficient : ℤ) + x.exact.exponent - 1) :=
      zpow_le_zpow_right₀ (by norm_num) hlarge
    have hten : (2 : ℚ) ^ (1024 : ℤ) ≤ 10 ^ (1024 : ℤ) := two_zpow_le_ten_zpow (by decide)
    exact ((hten.trans hpower).trans habove).not_gt hhigh

theorem toBinary_of_withDigits {tie : Tie} {count : ℕ}
    (h : x.withDigits fmt tie count = some d) : d.toBinary fmt = .finite x :=
  beq_iff_eq.1 (List.find?_some (p := fun d : Decimal ↦ d.toBinary fmt == .finite x) h)

/-- **A number that is written reads back.** -/
theorem toBinary_shortest (hx : BinaryFormat.double.Normal x) (tie : Tie) :
    (x.shortest .double tie).toBinary .double = .finite x := by
  unfold shortest
  by_cases hzero : x.significand = 0
  · obtain ⟨negative, significand, exponent⟩ := x
    obtain rfl : significand = 0 := hzero
    obtain ⟨-, -, -, hwidth | hleast⟩ := hx
    · exact absurd hwidth (show ¬2 ^ 52 ≤ 0 by decide)
    · obtain rfl : exponent = -1074 := hleast
      rfl
  · rw [if_neg hzero]
    split
    · next d hd =>
      obtain ⟨n, -, hn⟩ := List.exists_of_findSome?_eq_some hd
      rw [Decimal.toBinary_trim]
      exact toBinary_of_withDigits hn
    · rw [Decimal.toBinary_trim]
      exact toBinary_exact hx hzero

end BinaryNumber

end ContractHost
