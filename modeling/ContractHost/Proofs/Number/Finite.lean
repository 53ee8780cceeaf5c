import ContractHost.Proofs.Number.Shortest

/-!
# Numbers that are not too large

A decimal is read into the 64-bit format as a finite number unless it is as large as the greatest
numbers of the format (`Decimal.exists_toBinary`). Every number that is written elsewhere stays far
below that: **a number of the 32-bit format is read as a finite number of the 64-bit format**
(`BinaryNumber.exists_toBinary_shortest_single`), and so is an integer of 128 bits.
-/

namespace ContractHost

variable {d : Decimal} {x : BinaryNumber}

namespace Decimal

/-- **A decimal that is not too large is read as a finite number.** -/
theorem exists_toBinary (h : d.magnitude < 2 ^ (1023 : ℤ)) :
    ∃ y, d.toBinary .double = .finite y := by
  unfold toBinary
  dsimp only
  by_cases hd : d.coefficient = 0
  · exact ⟨_, if_pos hd⟩
  · have hcount : ¬(BinaryFormat.double.greatestExponent + BinaryFormat.double.precision : ℤ) <
        digitCount d.coefficient + d.exponent := by
      intro hlarge
      have hlarge : (1023 : ℤ) ≤ digitCount d.coefficient + d.exponent - 1 := by
        have : (971 : ℤ) + 53 < digitCount d.coefficient + d.exponent := hlarge
        omega
      have hpower : (2 : ℚ) ^ (1023 : ℤ) ≤ d.magnitude :=
        calc (2 : ℚ) ^ (1023 : ℤ) ≤ 10 ^ (1023 : ℤ) :=
            BinaryNumber.two_zpow_le_ten_zpow (by decide)
          _ ≤ 10 ^ ((digitCount d.coefficient : ℤ) + d.exponent - 1) :=
            zpow_le_zpow_right₀ (by norm_num) hlarge
          _ ≤ d.magnitude := le_magnitude hd
      exact hpower.not_gt h
    rw [if_neg hd, if_neg hcount]
    split
    · exact ⟨_, rfl⟩
    · refine BinaryFormat.exists_round (by decide) (by positivity) ?_
      rw [quotient_eq_magnitude]
      exact h

/-- A decimal that is read as a finite number of the 32-bit format. -/
theorem magnitude_lt_of_toBinary_single (h : d.toBinary .single = .finite x) :
    d.magnitude < 10 ^ (128 : ℤ) := by
  by_cases hd : d.coefficient = 0
  · rw [magnitude, hd, Nat.cast_zero, zero_mul]
    positivity
  · unfold toBinary at h
    dsimp only at h
    rw [if_neg hd] at h
    split at h
    · cases h
    · next hsmall =>
      have hsmall : (digitCount d.coefficient : ℤ) + d.exponent ≤ 128 := not_lt.1 hsmall
      exact d.magnitude_lt.trans_le (zpow_le_zpow_right₀ (by norm_num) hsmall)

theorem magnitude_trim (d : Decimal) : d.trim.magnitude = d.magnitude := by
  obtain ⟨k, hk⟩ := d.exists_eq_padded_trim
  conv_rhs => rw [hk]
  exact (magnitude_padded _ k).symm

end Decimal

namespace BinaryNumber

theorem magnitude_lt_of_normal_single (hx : BinaryFormat.single.Normal x) :
    x.magnitude < 2 ^ (128 : ℤ) := by
  obtain ⟨hwidth, -, hgreatest, -⟩ := hx
  calc x.magnitude < 2 ^ (24 : ℤ) * 2 ^ x.exponent :=
      mul_lt_mul_of_pos_right (by exact_mod_cast hwidth) (two_zpow_pos _)
    _ ≤ 2 ^ (24 : ℤ) * 2 ^ (104 : ℤ) :=
      mul_le_mul_of_nonneg_left (zpow_le_zpow_right₀ (by norm_num) hgreatest) (by positivity)
    _ = 2 ^ (128 : ℤ) := by rw [← zpow_add₀ two_ne_zero]; rfl

/-- What a number of the 32-bit format is written as. A decimal that was searched for reads back,
and the exact value is what it is. -/
theorem magnitude_shortest_single (hx : BinaryFormat.single.Normal x) (tie : Tie) :
    (x.shortest .single tie).magnitude < 10 ^ (128 : ℤ) := by
  unfold shortest
  split
  · rw [Decimal.magnitude, Nat.cast_zero, zero_mul]
    positivity
  · split
    · next d hd =>
      obtain ⟨n, -, hn⟩ := List.exists_of_findSome?_eq_some hd
      rw [Decimal.magnitude_trim]
      exact Decimal.magnitude_lt_of_toBinary_single (toBinary_of_withDigits hn)
    · rw [Decimal.magnitude_trim, magnitude_exact]
      exact (magnitude_lt_of_normal_single hx).trans_le (two_zpow_le_ten_zpow (by decide))

/-- **A number of the 32-bit format is read into the 64-bit format.** -/
theorem exists_toBinary_shortest_single (hx : BinaryFormat.single.Normal x) (tie : Tie) :
    ∃ y, (x.shortest .single tie).toBinary .double = .finite y := by
  refine Decimal.exists_toBinary ((magnitude_shortest_single hx tie).trans ?_)
  calc (10 : ℚ) ^ (128 : ℤ) = 10 ^ 128 := zpow_natCast _ _
    _ ≤ (2 ^ 4) ^ 128 := pow_le_pow_left₀ (by norm_num) (by norm_num) _
    _ = 2 ^ 512 := (pow_mul _ _ _).symm
    _ < 2 ^ 1023 := pow_lt_pow_right₀ one_lt_two (by norm_num)
    _ = 2 ^ (1023 : ℤ) := (zpow_natCast _ _).symm

end BinaryNumber

end ContractHost
