import ContractHost.Text.Utf8

/-!
# Decoding undoes encoding

A character is encoded as one byte that opens it and up to three that continue it. What opens a
character tells how the decoder goes on (`opening_two`, `opening_three`, `opening_four`); in
particular the range that it leaves for the next byte has room for the byte that is there, which is
where it matters that a character is neither a surrogate nor too large.

**Decoding undoes encoding** and leaves no gap: for one character in front of anything
(`decodeFrom_encodeChar`), and so for a text (`decode_encode`).
-/

namespace ContractHost

namespace Utf8

/-! ### The byte that opens a character -/

theorem opening_two {n : Nat} (hlow : 0x80 ≤ n) (hhigh : n < 0x800) :
    opening (0xC0 + n / 64) = .partly ⟨n / 64, 1, 0x80, 0xBF⟩ := by
  unfold opening
  rw [if_neg (by omega), if_neg (by omega), if_pos (by omega), Nat.add_sub_cancel_left]

theorem opening_three {n : Nat} (hlow : 0x800 ≤ n) (hhigh : n < 0x10000)
    (hvalid : n < 0xD800 ∨ 0xDFFF < n) :
    ∃ least greatest, opening (0xE0 + n / 4096) = .partly ⟨n / 4096, 2, least, greatest⟩ ∧
      least ≤ 0x80 + n / 64 % 64 ∧ 0x80 + n / 64 % 64 ≤ greatest := by
  unfold opening
  rw [if_neg (by omega), if_neg (by omega), if_neg (by omega)]
  -- Two of these bytes restrict what may follow: overlong forms and surrogates are left out.
  by_cases hzero : n / 4096 = 0
  · rw [hzero, if_pos rfl]
    exact ⟨0xA0, 0xBF, rfl, by omega, by omega⟩
  · rw [if_neg (by omega)]
    by_cases hsurrogate : n / 4096 = 13
    · rw [hsurrogate, if_pos rfl]
      exact ⟨0x80, 0x9F, rfl, by omega, by omega⟩
    · rw [if_neg (by omega), if_pos (by omega), Nat.add_sub_cancel_left]
      exact ⟨0x80, 0xBF, rfl, by omega, by omega⟩

theorem opening_four {n : Nat} (hlow : 0x10000 ≤ n) (hhigh : n < 0x110000) :
    ∃ least greatest, opening (0xF0 + n / 262144) = .partly ⟨n / 262144, 3, least, greatest⟩ ∧
      least ≤ 0x80 + n / 4096 % 64 ∧ 0x80 + n / 4096 % 64 ≤ greatest := by
  unfold opening
  rw [if_neg (by omega), if_neg (by omega), if_neg (by omega), if_neg (by omega),
    if_neg (by omega), if_neg (by omega)]
  by_cases hzero : n / 262144 = 0
  · rw [hzero, if_pos rfl]
    exact ⟨0x90, 0xBF, rfl, by omega, by omega⟩
  · rw [if_neg (by omega)]
    by_cases hlast : n / 262144 = 4
    · rw [hlast, if_neg (by decide), if_pos rfl]
      exact ⟨0x80, 0x8F, rfl, by omega, by omega⟩
    · rw [if_pos (by omega), Nat.add_sub_cancel_left]
      exact ⟨0x80, 0xBF, rfl, by omega, by omega⟩

/-! ### Steps of the decoder -/

section Step

variable {b : UInt8} {p : Pending} {rest : List UInt8}

theorem decodeFrom_opening (h : opening b.toNat = .partly p) :
    decodeFrom none (b :: rest) = decodeFrom (some p) rest := by
  rw [decodeFrom, h]

/-- A byte in range that does not complete the character. -/
theorem decodeFrom_more (hrange : p.least ≤ b.toNat ∧ b.toNat ≤ p.greatest) (howed : p.owed ≠ 1) :
    decodeFrom (some p) (b :: rest) =
      decodeFrom (some ⟨p.bits * 64 + (b.toNat - 0x80), p.owed - 1, 0x80, 0xBF⟩) rest := by
  rw [decodeFrom, if_pos hrange]
  exact if_neg howed

/-- A byte in range that completes the character. -/
theorem decodeFrom_last (hrange : p.least ≤ b.toNat ∧ b.toNat ≤ p.greatest) (howed : p.owed = 1) :
    decodeFrom (some p) (b :: rest) =
      some (Char.ofNat (p.bits * 64 + (b.toNat - 0x80))) :: decodeFrom none rest := by
  rw [decodeFrom, if_pos hrange]
  exact if_pos howed

end Step

/-! ### Characters -/

theorem toNat_ofNat {n : Nat} (h : n < 256) : (UInt8.ofNat n).toNat = n := by
  rw [UInt8.toNat_ofNat']
  exact Nat.mod_eq_of_lt h

section Encoded

variable {n : Nat} {rest : List UInt8}

theorem decodeFrom_two (hlow : 0x80 ≤ n) (hhigh : n < 0x800) :
    decodeFrom none (.ofNat (0xC0 + n / 64) :: .ofNat (0x80 + n % 64) :: rest) =
      some (Char.ofNat n) :: decodeFrom none rest := by
  have hfirst : opening (UInt8.ofNat (0xC0 + n / 64)).toNat = .partly ⟨n / 64, 1, 0x80, 0xBF⟩ := by
    rw [toNat_ofNat (by omega), opening_two hlow hhigh]
  have hlast := toNat_ofNat (n := 0x80 + n % 64) (by omega)
  have hbits : n / 64 * 64 + (0x80 + n % 64 - 0x80) = n := by omega
  rw [decodeFrom_opening hfirst, decodeFrom_last (by rw [hlast]; dsimp only; omega) rfl, hlast]
  dsimp only
  rw [hbits]

theorem decodeFrom_three (hlow : 0x800 ≤ n) (hhigh : n < 0x10000)
    (hvalid : n < 0xD800 ∨ 0xDFFF < n) :
    decodeFrom none (.ofNat (0xE0 + n / 4096) :: .ofNat (0x80 + n / 64 % 64) ::
      .ofNat (0x80 + n % 64) :: rest) = some (Char.ofNat n) :: decodeFrom none rest := by
  obtain ⟨least, greatest, hopening, hrange⟩ := opening_three hlow hhigh hvalid
  have hfirst : opening (UInt8.ofNat (0xE0 + n / 4096)).toNat =
      .partly ⟨n / 4096, 2, least, greatest⟩ := by
    rw [toNat_ofNat (by omega), hopening]
  have hsecond := toNat_ofNat (n := 0x80 + n / 64 % 64) (by omega)
  have hlast := toNat_ofNat (n := 0x80 + n % 64) (by omega)
  have hbits : (n / 4096 * 64 + (0x80 + n / 64 % 64 - 0x80)) * 64 + (0x80 + n % 64 - 0x80) =
      n := by omega
  rw [decodeFrom_opening hfirst, decodeFrom_more (by rwa [hsecond]) (Nat.succ_ne_self 1), hsecond,
    decodeFrom_last (by rw [hlast]; dsimp only; omega) rfl, hlast]
  dsimp only
  rw [hbits]

theorem decodeFrom_four (hlow : 0x10000 ≤ n) (hhigh : n < 0x110000) :
    decodeFrom none (.ofNat (0xF0 + n / 262144) :: .ofNat (0x80 + n / 4096 % 64) ::
      .ofNat (0x80 + n / 64 % 64) :: .ofNat (0x80 + n % 64) :: rest) =
      some (Char.ofNat n) :: decodeFrom none rest := by
  obtain ⟨least, greatest, hopening, hrange⟩ := opening_four hlow hhigh
  have hfirst : opening (UInt8.ofNat (0xF0 + n / 262144)).toNat =
      .partly ⟨n / 262144, 3, least, greatest⟩ := by
    rw [toNat_ofNat (by omega), hopening]
  have hsecond := toNat_ofNat (n := 0x80 + n / 4096 % 64) (by omega)
  have hthird := toNat_ofNat (n := 0x80 + n / 64 % 64) (by omega)
  have hlast := toNat_ofNat (n := 0x80 + n % 64) (by omega)
  have hbits : ((n / 262144 * 64 + (0x80 + n / 4096 % 64 - 0x80)) * 64 +
      (0x80 + n / 64 % 64 - 0x80)) * 64 + (0x80 + n % 64 - 0x80) = n := by omega
  rw [decodeFrom_opening hfirst, decodeFrom_more (by rwa [hsecond]) (by dsimp only; omega), hsecond,
    decodeFrom_more (by rw [hthird]; dsimp only; omega) (Nat.succ_ne_self 1), hthird,
    decodeFrom_last (by rw [hlast]; dsimp only; omega) rfl, hlast]
  dsimp only
  rw [hbits]

end Encoded

/-- **Decoding undoes encoding one character.** -/
theorem decodeFrom_encodeChar (c : Char) (rest : List UInt8) :
    decodeFrom none (encodeChar c ++ rest) = some c :: decodeFrom none rest := by
  have hvalid : c.toNat < 0xD800 ∨ 0xDFFF < c.toNat ∧ c.toNat < 0x110000 := c.valid
  have hchar : Char.ofNat c.toNat = c := Char.ofNat_toNat c
  unfold encodeChar
  generalize c.toNat = n at hvalid hchar ⊢
  rw [← hchar]
  dsimp only
  split
  · next hone =>
    show decodeFrom none (UInt8.ofNat n :: rest) = _
    rw [decodeFrom, toNat_ofNat (by omega), opening, if_pos hone]
  · split
    · next hone htwo => exact decodeFrom_two (by omega) htwo
    · split
      · next htwo hthree => exact decodeFrom_three (by omega) hthree (by omega)
      · next hthree => exact decodeFrom_four (by omega) (by omega)

/-- **Decoding undoes encoding.** -/
theorem decode_encode (cs : List Char) : decode (encode cs) = cs.map some := by
  induction cs with
  | nil => rfl
  | cons c cs ih =>
    rw [encode, List.flatMap_cons, decode, decodeFrom_encodeChar, List.map_cons]
    exact congrArg _ ih

end Utf8

end ContractHost
