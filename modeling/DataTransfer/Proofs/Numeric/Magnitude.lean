import DataTransfer.Proofs.Numeric.Correct

/-!
Decimal magnitudes. A value whose decimal magnitude lies outside the format's bounds needs no power
of ten: the exact quotient would overflow, or vanish, just the same.
-/

namespace DataTransfer

namespace Conversion

variable {p : Precision} (negative : Bool) (mode : RoundingMode)

/-- The ratio rounds to an overflow from the second power of two past the largest value on. -/
theorem ofRatio_eq_overflowed {numerator denominator : ℕ} (hn : 0 < numerator)
    (hd : 0 < denominator) (hlarge : (2 : ℚ) ^ (p.bias + 2) ≤ numerator / denominator) :
    ofRatio p negative mode numerator denominator = overflowed p negative mode := by
  have hc := canonical_quantum p hn hd
  have hhi := (scaled_bounds numerator (quantum p numerator denominator) hd).2
  set q := quantum p numerator denominator
  have hq : p.maxQuantum < q := by
    have hlt : (2 : ℚ) ^ ((p.bias + 2 : ℕ) : ℤ) < 2 ^ ((p.significandBits : ℤ) + q) :=
      calc (2 : ℚ) ^ ((p.bias + 2 : ℕ) : ℤ) ≤ numerator / denominator := by rwa [zpow_natCast]
        _ < ((scaled numerator denominator q).quotient + 1) * 2 ^ q := hhi
        _ ≤ 2 ^ p.significandBits * 2 ^ q := by gcongr; exact_mod_cast hc.fits
        _ = 2 ^ ((p.significandBits : ℤ) + q) := by
          rw [zpow_add₀ (by norm_num), zpow_natCast]
    have := (zpow_lt_zpow_iff_right₀ (by norm_num : (1 : ℚ) < 2)).mp hlt
    unfold Precision.maxQuantum
    omega
  have hr : q ≤ (target p (scaled numerator denominator q) q
      (goesUp negative mode (scaled numerator denominator q))).2 := by
    unfold target Precision.carry
    split_ifs <;> simp
  rw [ofRatio, rounded_eq]
  exact if_pos (hq.trans_le hr)

theorem scaled_quantum_of_small {numerator denominator : ℕ} (hn : 0 < numerator)
    (hd : 0 < denominator) (hsmall : (numerator / denominator : ℚ) < 2 ^ (p.minQuantum - 1)) :
    let q := quantum p numerator denominator
    let s := scaled numerator denominator q
    q = p.minQuantum ∧ s.quotient = 0 ∧ s.remainder ≠ 0 ∧ 2 * s.remainder < s.divisor := by
  intro q s
  have hc : p.Canonical s.quotient q := canonical_quantum p hn hd
  have hdiv : s.Divides q (numerator / denominator) :=
    ⟨scaled_remainder_lt _ _ hd, scaled_exact _ _ hd⟩
  have hpos : (0 : ℚ) < numerator / denominator := by positivity
  have hhalf : (2 : ℚ) * (numerator / denominator) < 2 ^ p.minQuantum := by
    rw [zpow_sub_one₀ (by norm_num)] at hsmall
    linarith
  have hm : s.quotient = 0 := by
    by_contra hne
    have hone : (1 : ℚ) ≤ s.quotient := by exact_mod_cast Nat.one_le_iff_ne_zero.mpr hne
    have : (2 : ℚ) ^ p.minQuantum ≤ s.quotient * 2 ^ q :=
      calc (2 : ℚ) ^ p.minQuantum ≤ 1 * 2 ^ q := by
            rw [one_mul]
            exact zpow_le_zpow_right₀ (by norm_num) hc.least
        _ ≤ s.quotient * 2 ^ q := by gcongr
    linarith [hdiv.lower_le]
  have hleast : q = p.minQuantum := by
    by_contra hne
    have hfull := hc.full hne
    have : 0 < 2 ^ (p.significandBits - 1) := by positivity
    omega
  refine ⟨hleast, hm, ?_, ?_⟩
  · rw [Ne, ← hdiv.lower_eq_iff, hm]
    simpa using hpos.ne
  · rw [← hdiv.lt_midpoint_iff, hm, hleast]
    simpa using hhalf

theorem ofRatio_eq_vanished {numerator denominator : ℕ} (hn : 0 < numerator)
    (hd : 0 < denominator) (hsmall : (numerator / denominator : ℚ) < 2 ^ (p.minQuantum - 1)) :
    ofRatio p negative mode numerator denominator = vanished p negative mode := by
  obtain ⟨hleast, hm, hrem, hlt⟩ := scaled_quantum_of_small hn hd hsmall
  rw [ofRatio, rounded_eq]
  set q := quantum p numerator denominator
  set s := scaled numerator denominator q
  have hone : 1 < 2 ^ (p.significandBits - 1) :=
    Nat.one_lt_two_pow (by have := p.one_lt_significandBits; omega)
  have hcarry : p.carry 0 q = (1, q) := if_neg (by have := p.two_pow_significandBits; omega)
  have hmax : ¬ p.maxQuantum < q := by have := p.minQuantum_lt_maxQuantum; omega
  have hup : goesUp negative mode s = mode.tinyToLeast negative := by
    cases mode <;>
      simp [goesUp, RoundingMode.roundsUp, RoundingMode.tinyToLeast, hrem, Nat.compare_eq_lt.mpr hlt]
  have hencode (k : ℕ) (hk : k ≤ 1) :
      encode p negative k q = .ofParts p negative 0 k := if_pos (by omega)
  rw [hup, target, hm, hcarry, vanished]
  cases mode.tinyToLeast negative
  · simp [hmax, hrem, hencode 0, BinaryFloat.zero]
  · simp [hmax, hrem, hencode 1, hone, BinaryFloat.least]

/-! ### Decimal lengths -/

theorem decimalLength_bounds {n : ℕ} (hn : 0 < n) :
    10 ^ (decimalLength n - 1) ≤ n ∧ n < 10 ^ decimalLength n := by
  have hlen : 0 < decimalLength n := Nat.length_toDigits_pos
  constructor
  · rcases Nat.lt_or_ge 1 (decimalLength n) with h | h
    · by_contra hlt
      have : decimalLength n ≤ decimalLength n - 1 :=
        (Nat.length_toDigits_le_iff (by norm_num) (by omega)).mpr (not_le.mp hlt)
      omega
    · rwa [Nat.sub_eq_zero_of_le h, pow_zero]
  · exact (Nat.length_toDigits_le_iff (by norm_num) hlen).mp le_rfl

theorem decimal_bounds {digits : ℕ} (hd : 0 < digits) (exponent : ℤ) :
    (10 : ℚ) ^ ((decimalLength digits : ℤ) + exponent - 1) ≤ digits * 10 ^ exponent ∧
      (digits * 10 ^ exponent : ℚ) < 10 ^ ((decimalLength digits : ℤ) + exponent) := by
  obtain ⟨hlo, hhi⟩ := decimalLength_bounds hd
  have hlen : ((decimalLength digits - 1 : ℕ) : ℤ) = decimalLength digits - 1 := by
    have : 0 < decimalLength digits := Nat.length_toDigits_pos
    omega
  constructor
  · rw [add_sub_right_comm, zpow_add₀ (by norm_num), ← hlen, zpow_natCast]
    gcongr
    exact_mod_cast hlo
  · rw [zpow_add₀ (by norm_num), zpow_natCast]
    gcongr
    exact_mod_cast hhi

end Conversion

namespace Precision

variable (p : Precision)

theorem le_of_overflowMagnitude {x : ℚ} (hx : (10 : ℚ) ^ p.overflowMagnitude ≤ x) :
    (2 : ℚ) ^ (p.bias + 2) ≤ x := by
  have h := p.overflowMagnitude_bound.1
  have hpos : ((p.overflowMagnitude - 1).toNat : ℤ) ≤ p.overflowMagnitude := by
    cases p <;> decide
  calc (2 : ℚ) ^ (p.bias + 2) ≤ 10 ^ (p.overflowMagnitude - 1).toNat := by exact_mod_cast h.le
    _ = (10 : ℚ) ^ ((p.overflowMagnitude - 1).toNat : ℤ) := (zpow_natCast _ _).symm
    _ ≤ 10 ^ p.overflowMagnitude := zpow_le_zpow_right₀ (by norm_num) hpos
    _ ≤ x := hx

theorem lt_of_underflowMagnitude {x : ℚ} (hx : x < (10 : ℚ) ^ (p.underflowMagnitude - 1)) :
    x < 2 ^ (p.minQuantum - 1) := by
  have h := p.underflowMagnitude_bound.1
  have htwo : ((2 - p.minQuantum).toNat : ℤ) = 2 - p.minQuantum := by cases p <;> decide
  have hten : ((-1 - p.underflowMagnitude).toNat : ℤ) = -1 - p.underflowMagnitude := by
    cases p <;> decide
  have hinv : (10 : ℚ) ^ (p.underflowMagnitude + 1) ≤ 2 ^ (p.minQuantum - 2) := by
    have h' : (2 : ℚ) ^ (2 - p.minQuantum) ≤ 10 ^ (-1 - p.underflowMagnitude) := by
      rw [← htwo, ← hten, zpow_natCast, zpow_natCast]
      exact_mod_cast h.le
    rw [show p.underflowMagnitude + 1 = -(-1 - p.underflowMagnitude) by ring,
      show p.minQuantum - 2 = -(2 - p.minQuantum) by ring, zpow_neg, zpow_neg]
    exact inv_anti₀ (by positivity) h'
  calc x < (10 : ℚ) ^ (p.underflowMagnitude - 1) := hx
    _ ≤ 10 ^ (p.underflowMagnitude + 1) := zpow_le_zpow_right₀ (by norm_num) (by omega)
    _ ≤ 2 ^ (p.minQuantum - 2) := hinv
    _ ≤ 2 ^ (p.minQuantum - 1) := zpow_le_zpow_right₀ (by norm_num) (by omega)

end Precision

namespace Conversion

variable (p : Precision) (negative : Bool) (mode : RoundingMode)

/-- `±digits * 10^exponent` rounded as the exact ratio, whatever its magnitude. -/
def ofDecimal (digits : ℕ) (exponent : ℤ) : Conversion p :=
  if 0 ≤ exponent then ofRatio p negative mode (digits * 10 ^ exponent.toNat) 1
  else ofRatio p negative mode digits (10 ^ (-exponent).toNat)

variable {digits : ℕ} (hd : 0 < digits) (exponent : ℤ)
include hd

theorem ofDecimal_eq_ofRatio :
    ∃ n d : ℕ, 0 < n ∧ 0 < d ∧ (digits * 10 ^ exponent : ℚ) = n / d ∧
      ofDecimal p negative mode digits exponent = ofRatio p negative mode n d := by
  unfold ofDecimal
  split_ifs with h
  · obtain ⟨k, rfl⟩ : ∃ k : ℕ, exponent = k := ⟨exponent.toNat, by omega⟩
    exact ⟨digits * 10 ^ k, 1, by positivity, one_pos, by simp, by simp⟩
  · obtain ⟨k, rfl⟩ : ∃ k : ℕ, exponent = -k := ⟨(-exponent).toNat, by omega⟩
    exact ⟨digits, 10 ^ k, hd, by positivity, by simp [div_eq_mul_inv], by simp⟩

theorem ofDecimal_isConversion :
    (ofDecimal p negative mode digits exponent).IsConversion negative mode
      (digits * 10 ^ exponent) := by
  obtain ⟨n, d, hn, hd', hx, heq⟩ := ofDecimal_eq_ofRatio p negative mode hd exponent
  rw [hx, heq]
  exact isConversion_ofRatio hn hd'

theorem ofDecimal_eq_overflowed
    (hm : p.overflowMagnitude < (decimalLength digits : ℤ) + exponent) :
    ofDecimal p negative mode digits exponent = overflowed p negative mode := by
  obtain ⟨n, d, hn, hd', hx, heq⟩ := ofDecimal_eq_ofRatio p negative mode hd exponent
  have hlo := (decimal_bounds hd exponent).1
  rw [heq]
  refine ofRatio_eq_overflowed negative mode hn hd' (p.le_of_overflowMagnitude ?_)
  rw [← hx]
  exact (zpow_le_zpow_right₀ (by norm_num) (by omega)).trans hlo

theorem ofDecimal_eq_vanished
    (hm : (decimalLength digits : ℤ) + exponent < p.underflowMagnitude) :
    ofDecimal p negative mode digits exponent = vanished p negative mode := by
  obtain ⟨n, d, hn, hd', hx, heq⟩ := ofDecimal_eq_ofRatio p negative mode hd exponent
  have hhi := (decimal_bounds hd exponent).2
  rw [heq]
  refine ofRatio_eq_vanished negative mode hn hd' (p.lt_of_underflowMagnitude ?_)
  rw [← hx]
  exact hhi.trans_le (zpow_le_zpow_right₀ (by norm_num) (by omega))

/-- The early decisions are those of the exact ratio. -/
theorem round_eq_ofDecimal :
    round p negative mode digits exponent = ofDecimal p negative mode digits exponent := by
  unfold round
  rw [if_neg hd.ne']
  dsimp only
  split_ifs with hover hunder hexp
  · exact (ofDecimal_eq_overflowed p negative mode hd exponent hover).symm
  · exact (ofDecimal_eq_vanished p negative mode hd exponent hunder).symm
  · rw [ofDecimal, if_pos hexp]
  · rw [ofDecimal, if_neg hexp]

omit hd in
theorem round_isConversion (digits : ℕ) :
    (round p negative mode digits exponent).IsConversion negative mode (digits * 10 ^ exponent) := by
  rcases Nat.eq_zero_or_pos digits with rfl | hd
  · simpa [round] using isConversion_zero
  · rw [round_eq_ofDecimal p negative mode hd]
    exact ofDecimal_isConversion p negative mode hd exponent

omit hd in
/-- Conversion gives the one value that the exact decimal rounds to, and the decisions by decimal
magnitude never change what the exact ratio gives. -/
theorem round_correct (digits : ℕ) :
    (∀ v : BinaryFloat p, v.IsRounding negative mode (digits * 10 ^ exponent) ↔
      v = (round p negative mode digits exponent).value) ∧
    (digits ≠ 0 →
      round p negative mode digits exponent = ofDecimal p negative mode digits exponent) := by
  have h := (round_isConversion p negative mode exponent digits).value
  refine ⟨fun v => ⟨fun hv => hv.unique h, fun hv => hv ▸ h⟩, fun hne => ?_⟩
  exact round_eq_ofDecimal p negative mode (Nat.pos_of_ne_zero hne) exponent

end Conversion

end DataTransfer
