import ContractHost.Json.Basic
import ContractHost.Proofs.Number.Nearest

/-!
# Rounding integers

Integers are compared with one another after each has been rounded to the 64-bit format. Rounding
keeps the order of integers (`BinaryFormat.ofInt_mono`), though not always the difference between
two of them, and an integer of at most 53 bits is its own value (`BinaryFormat.ofInt_eq_self`).
Bounds are therefore compared exactly where one side is that small (`lt_of_ofInt_lt`,
`ofInt_lt_ofInt`).
-/

namespace ContractHost

namespace BinaryFormat

variable {x y : BinaryNumber} {a b n : ℤ}

theorem negative_of_ofInt (h : double.ofInt n = .finite x) : x.negative = decide (n < 0) :=
  negative_of_round h

/-- The last place of an integer. -/
theorem roundingExponent_natCast (n : ℕ) :
    double.roundingExponent ((n : ℚ) / (1 : ℕ)) = max (-1074) ((Nat.log 2 n : ℤ) - 52) := by
  rw [Nat.cast_one, div_one, roundingExponent, Int.log_natCast]
  show max (-1074) ((Nat.log 2 n : ℤ) - 53 + 1) = _
  congr 1
  omega

/-- An integer of far less than a thousand bits is not rounded to infinity. -/
theorem exists_ofInt (h : n.natAbs < 2 ^ 100) : ∃ x, double.ofInt n = .finite x := by
  refine exists_round (by decide) one_pos ?_
  rw [Nat.cast_one, div_one]
  calc (n.natAbs : ℚ) < (2 ^ 100 : ℕ) := by exact_mod_cast h
    _ = 2 ^ (100 : ℤ) := by rw [Nat.cast_pow, Nat.cast_ofNat]; exact (zpow_natCast _ _).symm
    _ ≤ 2 ^ (1023 : ℤ) := zpow_le_zpow_right₀ one_le_two (by decide)

theorem exists_ofInt_of_integerRange (h : Json.IntegerRange n) :
    ∃ x, double.ofInt n = .finite x := by
  refine exists_ofInt ?_
  unfold Json.IntegerRange at h
  omega

/-- An integer of at most 53 bits, and the next power of two, have their own magnitude. -/
theorem magnitude_ofInt (hn : n.natAbs ≤ 2 ^ 53) (h : double.ofInt n = .finite x) :
    x.magnitude = n.natAbs := by
  by_cases hzero : n.natAbs = 0
  · rw [ofInt, round, if_pos hzero] at h
    cases h
    rw [BinaryNumber.magnitude, zero, hzero, Nat.cast_zero, zero_mul]
  · obtain ⟨m, hm, hx⟩ := magnitude_of_round (by decide) hzero one_pos h
    rw [roundingExponent_natCast] at hm hx
    rw [Nat.cast_one, div_one] at hm
    -- Counted in its last places an integer this small is an integer again.
    obtain ⟨k, hk⟩ : ∃ k : ℕ, (n.natAbs : ℚ) =
        k * 2 ^ max (-1074) ((Nat.log 2 n.natAbs : ℤ) - 52) := by
      rcases hn.eq_or_lt with heq | hlt
      · refine ⟨2 ^ 52, ?_⟩
        rw [heq, Nat.log_pow one_lt_two]
        norm_num
      · have hlog : Nat.log 2 n.natAbs < 53 := Nat.log_lt_of_lt_pow hzero hlt
        refine ⟨n.natAbs * 2 ^ (52 - Nat.log 2 n.natAbs), ?_⟩
        rw [max_eq_right (by omega), Nat.cast_mul, Nat.cast_pow, Nat.cast_ofNat, mul_assoc,
          ← zpow_natCast, ← zpow_add₀ two_ne_zero]
        rw [show ((52 - Nat.log 2 n.natAbs : ℕ) : ℤ) + ((Nat.log 2 n.natAbs : ℤ) - 52) = 0 by omega,
          zpow_zero, mul_one]
    rw [hk, mul_div_cancel_right₀ _ (BinaryNumber.two_zpow_pos _).ne'] at hm
    rw [hx, hk, hm.unique (nearest_natCast k)]

theorem value_ofInt (hn : n.natAbs ≤ 2 ^ 53) (h : double.ofInt n = .finite x) : x.value = n := by
  rw [BinaryNumber.value_eq, negative_of_ofInt h, magnitude_ofInt hn h]
  rcases lt_or_ge n 0 with hneg | hpos
  · rw [decide_eq_true hneg, if_pos rfl, Nat.cast_natAbs, abs_of_neg hneg, Int.cast_neg, neg_neg]
  · rw [decide_eq_false hpos.not_gt, if_neg Bool.false_ne_true, Nat.cast_natAbs,
      abs_of_nonneg hpos]

/-- **An integer of at most 53 bits is its own value in the 64-bit format.** -/
theorem ofInt_eq_self (h : n.natAbs ≤ 2 ^ 53) : ∃ x, double.ofInt n = .finite x ∧ x.value = n := by
  obtain ⟨x, hx⟩ := exists_ofInt (h.trans_lt (by decide))
  exact ⟨x, hx, value_ofInt h hx⟩

/-- **Rounding keeps the order of integers.** -/
theorem ofInt_mono (hab : a ≤ b) (hx : double.ofInt a = .finite x)
    (hy : double.ofInt b = .finite y) : x.value ≤ y.value := by
  have hmagnitude : ∀ {m n : ℤ} {x y : BinaryNumber}, m.natAbs ≤ n.natAbs →
      double.ofInt m = .finite x → double.ofInt n = .finite y → x.magnitude ≤ y.magnitude :=
    fun hle hx hy ↦ magnitude_mono (by decide) one_pos one_pos
      (div_le_div_of_nonneg_right (by exact_mod_cast hle) (Nat.cast_nonneg 1)) hx hy
  rw [x.value_eq, y.value_eq, negative_of_ofInt hx, negative_of_ofInt hy]
  rcases lt_or_ge a 0 with ha | ha
  · rw [decide_eq_true ha, if_pos rfl]
    rcases lt_or_ge b 0 with hb | hb
    · rw [decide_eq_true hb, if_pos rfl]
      exact neg_le_neg (hmagnitude (by omega) hy hx)
    · rw [decide_eq_false hb.not_gt, if_neg Bool.false_ne_true]
      exact (neg_nonpos.2 x.magnitude_nonneg).trans y.magnitude_nonneg
  · rw [decide_eq_false ha.not_gt, decide_eq_false (ha.trans hab).not_gt,
      if_neg Bool.false_ne_true, if_neg Bool.false_ne_true]
    exact hmagnitude (by omega) hx hy

/-- **Integers whose rounded values differ, differ in the same way.** -/
theorem lt_of_ofInt_lt (hx : double.ofInt a = .finite x) (hy : double.ofInt b = .finite y)
    (h : x.value < y.value) : a < b :=
  lt_of_not_ge fun hba ↦ (ofInt_mono hba hy hx).not_gt h

/-- An integer is told from a larger one if one of the two has at most 53 bits: its neighbour on the
side of the other one is then its own value too. -/
theorem ofInt_lt_ofInt (hsmall : a.natAbs < 2 ^ 53 ∨ b.natAbs < 2 ^ 53) (hab : a < b)
    (hx : double.ofInt a = .finite x) (hy : double.ofInt b = .finite y) : x.value < y.value := by
  rcases hsmall with ha | hb
  · obtain ⟨z, hz, hvalue⟩ := ofInt_eq_self (n := a + 1) (by omega)
    calc x.value = a := value_ofInt ha.le hx
      _ < (a + 1 : ℤ) := by exact_mod_cast Int.lt_succ a
      _ = z.value := hvalue.symm
      _ ≤ y.value := ofInt_mono hab hz hy
  · obtain ⟨z, hz, hvalue⟩ := ofInt_eq_self (n := b - 1) (by omega)
    calc x.value ≤ z.value := ofInt_mono (by omega) hx hz
      _ = (b - 1 : ℤ) := hvalue
      _ < b := by exact_mod_cast Int.sub_one_lt_of_le le_rfl
      _ = y.value := (value_ofInt hb.le hy).symm

end BinaryFormat

end ContractHost
