import ContractHost.Number.Binary
import Mathlib.Algebra.Order.Field.Rat
import Mathlib.Algebra.Order.Field.Power
import Mathlib.Tactic.Positivity
import Mathlib.Tactic.Linarith
import Mathlib.Tactic.Ring
import Mathlib.Tactic.FieldSimp

/-!
# Values of binary numbers

The **value** of a binary number is the rational number it stands for. Comparison of binary numbers
(`BinaryNumber.le`) scales both to one exponent and compares integers; `le_iff`, `lt_iff` and
`same_iff` say that this is comparison of the values, and `isWhole_iff` that the numbers found to be
whole are those whose value is an integer.
-/

namespace ContractHost

namespace BinaryNumber

/-- The significand with its sign. -/
def signed (x : BinaryNumber) : ℤ :=
  if x.negative then -x.significand else x.significand

/-- The rational number that a binary number stands for. -/
def value (x : BinaryNumber) : ℚ :=
  x.signed * 2 ^ x.exponent

theorem scaledTo_eq (x : BinaryNumber) (k : ℤ) :
    x.scaledTo k = x.signed * 2 ^ (x.exponent - k).toNat := by
  rw [scaledTo, signed]
  split
  · exact (Int.neg_mul ..).symm
  · rfl

theorem dvd_signed {x : BinaryNumber} {n : ℕ} : (n : ℤ) ∣ x.signed ↔ n ∣ x.significand := by
  rw [signed]
  split
  · rw [Int.dvd_neg, Int.natCast_dvd_natCast]
  · rw [Int.natCast_dvd_natCast]

theorem two_zpow_pos (k : ℤ) : (0 : ℚ) < 2 ^ k := by positivity

/-- Bringing the exponent down does not change the value. -/
theorem scaledTo_mul (x : BinaryNumber) {k : ℤ} (hk : k ≤ x.exponent) :
    (x.scaledTo k : ℚ) * 2 ^ k = x.value := by
  obtain ⟨n, hn⟩ := Int.le.dest hk
  have hnat : (x.exponent - k).toNat = n := by omega
  rw [scaledTo_eq, value, hnat, ← hn, add_comm k, zpow_add₀ two_ne_zero, zpow_natCast]
  push_cast
  exact mul_assoc ..

/-- **Comparison is by value.** -/
theorem le_iff (x y : BinaryNumber) : x.le y = true ↔ x.value ≤ y.value := by
  rw [le, decide_eq_true_iff, ← x.scaledTo_mul (min_le_left x.exponent y.exponent),
    ← y.scaledTo_mul (min_le_right x.exponent y.exponent),
    mul_le_mul_iff_left₀ (two_zpow_pos _), Int.cast_le]

theorem lt_iff (x y : BinaryNumber) : x.lt y = true ↔ x.value < y.value := by
  rw [lt, Bool.not_eq_true', ← not_iff_not, Bool.not_eq_false, le_iff, not_lt]

theorem same_iff (x y : BinaryNumber) : x.same y = true ↔ x.value = y.value := by
  rw [same, Bool.and_eq_true, le_iff, le_iff, le_antisymm_iff]

/-- **A number is found to be whole when its value is an integer.** -/
theorem isWhole_iff (x : BinaryNumber) : x.isWhole = true ↔ ∃ n : ℤ, x.value = n := by
  rw [isWhole, beq_iff_eq, ← Nat.dvd_iff_mod_eq_zero, ← dvd_signed, value]
  rcases le_or_gt 0 x.exponent with hexp | hexp
  · -- Without places behind the point there is nothing to divide by.
    obtain ⟨n, hn⟩ := Int.eq_ofNat_of_zero_le hexp
    have hzero : (-x.exponent).toNat = 0 := by omega
    rw [hzero, pow_zero, hn, zpow_natCast]
    exact iff_of_true (one_dvd _) ⟨x.signed * 2 ^ n, by push_cast; rfl⟩
  · obtain ⟨n, hn⟩ := Int.eq_ofNat_of_zero_le (Int.neg_nonneg_of_nonpos hexp.le)
    have hnat : (-x.exponent).toNat = n := by omega
    have hpow : (2 : ℚ) ^ x.exponent = (2 ^ n)⁻¹ := by
      rw [show x.exponent = -(n : ℤ) by omega, zpow_neg, zpow_natCast]
    have hne : (2 : ℚ) ^ n ≠ 0 := by positivity
    rw [hnat, hpow]
    constructor
    · rintro ⟨q, hq⟩
      refine ⟨q, ?_⟩
      rw [hq]
      push_cast
      field_simp
    · rintro ⟨m, hm⟩
      refine ⟨m, ?_⟩
      have hsigned : (x.signed : ℚ) = 2 ^ n * m := by
        rw [← hm]
        field_simp
      exact_mod_cast hsigned

end BinaryNumber

end ContractHost
