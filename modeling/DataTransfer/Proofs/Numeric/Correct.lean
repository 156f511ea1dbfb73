import DataTransfer.Proofs.Numeric.Quotient

/-!
Conversion rounds correctly: its value is the one that the rounding relation determines, and the
early decisions by decimal magnitude are those of the exact quotient.
-/

namespace DataTransfer

theorem Precision.Canonical.le_largest_iff {p : Precision} {m : ℕ} {q : ℤ} (h : p.Canonical m q) :
    (m * 2 ^ q : ℚ) ≤ p.largest ↔ q ≤ p.maxQuantum := by
  have hfits : m ≤ 2 ^ p.significandBits - 1 := Nat.le_sub_one_of_lt h.fits
  unfold Precision.largest
  constructor
  · intro hle
    by_contra hgt
    have hfull := h.full (by have := p.minQuantum_lt_maxQuantum; omega)
    have htwo := p.two_pow_significandBits
    have hpos : 0 < 2 ^ (p.significandBits - 1) := by positivity
    have hlt : ((2 ^ p.significandBits - 1 : ℕ) : ℚ) < 2 * m := by
      exact_mod_cast (by omega : 2 ^ p.significandBits - 1 < 2 * m)
    have : (m * 2 ^ q : ℚ) > (2 ^ p.significandBits - 1 : ℕ) * 2 ^ p.maxQuantum :=
      calc ((2 ^ p.significandBits - 1 : ℕ) : ℚ) * 2 ^ p.maxQuantum
          < (2 * m : ℚ) * 2 ^ p.maxQuantum := by gcongr
        _ = m * 2 ^ (p.maxQuantum + 1) := by rw [zpow_add_one₀ (by norm_num)]; ring
        _ ≤ m * 2 ^ q := by gcongr <;> [norm_num; omega]
    linarith
  · intro hq
    calc (m * 2 ^ q : ℚ) ≤ (2 ^ p.significandBits - 1 : ℕ) * 2 ^ q := by gcongr
      _ ≤ (2 ^ p.significandBits - 1 : ℕ) * 2 ^ p.maxQuantum := by gcongr; norm_num

theorem RoundingMode.overflowsToInfinity_iff (mode : RoundingMode) (negative : Bool) :
    mode.overflowsToInfinity negative = true ↔ mode.heading negative ≠ .inward := by
  cases mode <;> cases negative <;> decide

namespace Conversion

variable {p : Precision} {negative : Bool} {mode : RoundingMode}

/-- A quotient with remainder stands for `x` at quantum `q`. -/
structure Scaled.Divides (s : Scaled) (q : ℤ) (x : ℚ) : Prop where
  remainder_lt : s.remainder < s.divisor
  exact : x = (s.quotient + s.remainder / s.divisor) * 2 ^ q

section Divides

variable {s : Scaled} {q : ℤ} {x : ℚ} (h : s.Divides q x)
include h

theorem Scaled.Divides.divisor_pos : (0 : ℚ) < s.divisor := by
  exact_mod_cast Nat.zero_lt_of_lt h.remainder_lt

theorem Scaled.Divides.lower_le : s.quotient * 2 ^ q ≤ x := by
  rw [h.exact]
  gcongr
  exact le_add_of_nonneg_right (by positivity)

theorem Scaled.Divides.lt_upper : x < (s.quotient + 1) * 2 ^ q := by
  rw [h.exact]
  gcongr
  rw [div_lt_one h.divisor_pos]
  exact_mod_cast h.remainder_lt

theorem Scaled.Divides.lower_eq_iff : s.quotient * 2 ^ q = x ↔ s.remainder = 0 := by
  have hd := h.divisor_pos
  rw [h.exact, mul_left_inj' (by positivity), eq_comm, add_eq_left, div_eq_zero_iff]
  constructor
  · rintro (h0 | h0)
    · exact_mod_cast h0
    · linarith
  · intro h0
    exact Or.inl (by exact_mod_cast h0)

theorem Scaled.Divides.twice_sub_midpoint :
    2 * x - (s.quotient * 2 ^ q + (s.quotient + 1) * 2 ^ q) =
      (2 * s.remainder - s.divisor) / s.divisor * 2 ^ q := by
  have hd := h.divisor_pos
  rw [h.exact]
  field_simp
  ring

theorem Scaled.Divides.lt_midpoint_iff :
    2 * x < s.quotient * 2 ^ q + (s.quotient + 1) * 2 ^ q ↔ 2 * s.remainder < s.divisor := by
  have hd := h.divisor_pos
  rw [← sub_neg, h.twice_sub_midpoint, ← neg_pos, ← neg_mul, ← neg_div,
    mul_pos_iff_of_pos_right (by positivity), div_pos_iff_of_pos_right hd, neg_pos, sub_neg]
  exact_mod_cast Iff.rfl

theorem Scaled.Divides.midpoint_lt_iff :
    s.quotient * 2 ^ q + (s.quotient + 1) * 2 ^ q < 2 * x ↔ s.divisor < 2 * s.remainder := by
  have hd := h.divisor_pos
  rw [← sub_pos, h.twice_sub_midpoint, mul_pos_iff_of_pos_right (by positivity),
    div_pos_iff_of_pos_right hd, sub_pos]
  exact_mod_cast Iff.rfl

end Divides

/-! ### One rounding step -/

def target (p : Precision) (s : Scaled) (q : ℤ) (up : Bool) : ℕ × ℤ :=
  if up then p.carry s.quotient q else (s.quotient, q)

def goesUp (negative : Bool) (mode : RoundingMode) (s : Scaled) : Bool :=
  mode.roundsUp negative (decide (s.remainder ≠ 0)) (s.quotient % 2 = 1)
    (compare (2 * s.remainder) s.divisor)

theorem rounded_eq (s : Scaled) (q : ℤ) :
    rounded p negative mode s q =
      let (m, r) := target p s q (goesUp negative mode s)
      if p.maxQuantum < r then overflowed p negative mode
      else
        { value := encode p negative m r
          flags :=
            { inexact := decide (s.remainder ≠ 0)
              underflow := decide (s.remainder ≠ 0) && m < 2 ^ (p.significandBits - 1) } } := by
  unfold rounded target goesUp Precision.carry
  dsimp only
  cases mode.roundsUp negative (decide (s.remainder ≠ 0)) (s.quotient % 2 = 1)
    (compare (2 * s.remainder) s.divisor)
  · simp
  · by_cases hc : s.quotient + 1 = 2 ^ p.significandBits <;> simp [hc]

theorem canonical_target {s : Scaled} {q : ℤ} (h : p.Canonical s.quotient q) (up : Bool) :
    p.Canonical (target p s q up).1 (target p s q up).2 := by
  cases up
  · exact h
  · exact h.carry

theorem target_value (s : Scaled) (q : ℤ) (up : Bool) :
    ((target p s q up).1 : ℚ) * 2 ^ (target p s q up).2 =
      if up then ((s.quotient : ℚ) + 1) * 2 ^ q else s.quotient * 2 ^ q := by
  cases up
  · rfl
  · exact p.carry_value s.quotient q

/-- The decision by remainder, parity, sign and mode picks the neighbour that `x` rounds to. -/
theorem rounds_target (negative : Bool) (mode : RoundingMode) {s : Scaled} {q : ℤ} {x : ℚ}
    (hc : p.Canonical s.quotient q) (h : s.Divides q x) :
    p.Rounds (mode.heading negative) x
      (if goesUp negative mode s then (s.quotient + 1) * 2 ^ q else s.quotient * 2 ^ q) := by
  have hlo := h.lower_le
  have hhi := h.lt_upper
  have hexact := h.lower_eq_iff
  have hlt := h.lt_midpoint_iff
  have hgt := h.midpoint_lt_iff
  have inward := hc.rounds_inward hlo hhi
  have outward : p.Rounds .outward x
      (if s.remainder ≠ 0 then (s.quotient + 1) * 2 ^ q else s.quotient * 2 ^ q) := by
    split_ifs with hr
    · exact hc.rounds_outward (lt_of_le_of_ne hlo (mt hexact.mp hr)) hhi
    · rw [← hexact.mpr (by simpa using hr)]
      exact hc.rounds_outward_self
  unfold goesUp
  cases mode with
  | toZero => simpa [RoundingMode.roundsUp, RoundingMode.heading] using inward
  | up =>
    cases negative
    · simpa [RoundingMode.roundsUp, RoundingMode.heading] using outward
    · simpa [RoundingMode.roundsUp, RoundingMode.heading] using inward
  | down =>
    cases negative
    · simpa [RoundingMode.roundsUp, RoundingMode.heading] using inward
    · simpa [RoundingMode.roundsUp, RoundingMode.heading] using outward
  | tiesToEven =>
    simp only [RoundingMode.roundsUp, RoundingMode.heading]
    rcases lt_trichotomy (2 * s.remainder) s.divisor with hr | hr | hr
    · have hhalf := hlt.mpr hr
      simp only [Nat.compare_eq_lt.mpr hr]
      exact hc.rounds_even_lower hlo hhi hhalf.le fun heq => absurd heq hhalf.ne
    · simp only [Nat.compare_eq_eq.mpr hr]
      have heq : 2 * x = s.quotient * 2 ^ q + (s.quotient + 1) * 2 ^ q :=
        le_antisymm (le_of_not_gt (mt hgt.mp (by omega))) (le_of_not_gt (mt hlt.mp (by omega)))
      by_cases hodd : s.quotient % 2 = 1
      · simpa [hodd] using hc.rounds_even_upper hhi heq.ge fun _ => by
          rw [Nat.not_even_iff]; exact hodd
      · simpa [hodd] using hc.rounds_even_lower hlo hhi heq.le fun _ => by
          rw [Nat.even_iff]; omega
    · have hhalf := hgt.mpr hr
      simp only [Nat.compare_eq_gt.mpr hr]
      exact hc.rounds_even_upper hhi hhalf.le fun heq => absurd heq hhalf.ne'
  | tiesAway =>
    simp only [RoundingMode.roundsUp, RoundingMode.heading]
    rcases Nat.lt_or_ge (2 * s.remainder) s.divisor with hr | hr
    · simp only [Nat.compare_eq_lt.mpr hr]
      simpa using hc.rounds_tiesAway_lower hlo hhi (hlt.mpr hr)
    · have hne : compare (2 * s.remainder) s.divisor ≠ .lt := by
        rw [Ne, Nat.compare_eq_lt]
        omega
      have hpos : s.remainder ≠ 0 := by have := h.remainder_lt; omega
      have := hc.rounds_tiesAway_upper hhi (le_of_not_gt (mt hlt.mp (by omega)))
      simpa [hne, hpos] using this

/-- `c` is the conversion of `±x`: the value that `x` rounds to, and exceptions that tell where it
differs from `±x`. -/
structure IsConversion (c : Conversion p) (negative : Bool) (mode : RoundingMode) (x : ℚ) :
    Prop where
  value : c.value.IsRounding negative mode x
  inexact : c.flags.inexact = true ↔ ¬ c.value.Encodes negative x
  overflow : c.flags.overflow = true ↔ ∃ y, p.Rounds (mode.heading negative) x y ∧ p.largest < y
  underflow : c.flags.underflow = true ↔ c.flags.inexact = true ∧ c.value.biasedExponent = 0
  invalid : c.flags.invalid = false

theorem goesUp_eq_false {s : Scaled} (hr : s.remainder = 0) (hd : 0 < s.divisor) :
    goesUp negative mode s = false := by
  have hlt : compare 0 s.divisor = .lt := Nat.compare_eq_lt.mpr hd
  cases mode <;> simp [goesUp, RoundingMode.roundsUp, hr, hlt]

theorem target_eq_iff (negative : Bool) (mode : RoundingMode) {s : Scaled} {q : ℤ} {x : ℚ}
    (h : s.Divides q x) :
    ((if goesUp negative mode s then ((s.quotient : ℚ) + 1) * 2 ^ q else s.quotient * 2 ^ q) = x) ↔
      s.remainder = 0 := by
  have hd : 0 < s.divisor := by have := h.remainder_lt; omega
  constructor
  · intro heq
    by_contra hr
    have hlo := mt h.lower_eq_iff.mp hr
    have hhi := h.lt_upper
    split_ifs at heq
    · linarith
    · exact hlo heq
  · intro hr
    rw [goesUp_eq_false hr hd]
    exact h.lower_eq_iff.mpr hr

theorem biasedExponent_eq_zero_iff {v : BinaryFloat p} {m : ℕ} {q : ℤ}
    (h : v.Encodes negative (m * 2 ^ q)) (hc : p.Canonical m q) :
    v.biasedExponent = 0 ↔ m < 2 ^ (p.significandBits - 1) := by
  rw [h.lead, (h.canonical.unique hc h.magnitude.symm).1]

theorem canonical_largest (p : Precision) : p.Canonical (2 ^ p.significandBits - 1) p.maxQuantum := by
  have htwo := p.two_pow_significandBits
  have hpos : 0 < 2 ^ (p.significandBits - 1) := by positivity
  exact ⟨by omega, p.minQuantum_lt_maxQuantum.le, fun _ => by omega⟩

theorem isConversion_overflowed {x y : ℚ} (hy : p.Rounds (mode.heading negative) x y)
    (hlarge : p.largest < y) : (overflowed p negative mode).IsConversion negative mode x := by
  have hinf := BinaryFloat.isInfinite_infinity (p := p) negative
  have hmax := BinaryFloat.encodes_maxFinite (p := p) negative
  have hmode := mode.overflowsToInfinity_iff negative
  unfold overflowed
  by_cases hin : mode.heading negative = .inward
  · rw [if_neg (mt hmode.mp (not_not_intro hin))]
    have hx : p.largest < x := by
      rw [hin] at hy
      exact hlarge.trans_le hy.2.1
    refine ⟨⟨y, hy, ?_⟩, ?_, ?_, ?_, rfl⟩
    · rw [if_neg hlarge.not_ge, if_pos hin]
      exact hmax
    · simpa using fun henc => hx.ne (hmax.magnitude_unique henc)
    · simpa using ⟨y, hy, hlarge⟩
    · have hne : (BinaryFloat.maxFinite p negative).biasedExponent ≠ 0 := by
        rw [Ne, biasedExponent_eq_zero_iff hmax (canonical_largest p)]
        exact not_lt.mpr ((canonical_largest p).full p.minQuantum_lt_maxQuantum.ne')
      simpa using hne
  · rw [if_pos (hmode.mpr hin)]
    have hexp : (BinaryFloat.infinity p negative).biasedExponent = p.maxBiased + 1 :=
      BinaryFloat.biasedExponent_ofParts negative _ p.maxBiased_lt
    refine ⟨⟨y, hy, ?_⟩, ?_, ?_, ?_, rfl⟩
    · rw [if_neg hlarge.not_ge, if_neg hin]
      exact hinf
    · simpa using fun henc => absurd henc.finite (by rw [hexp]; omega)
    · simpa using ⟨y, hy, hlarge⟩
    · simp [hexp]

/-- A canonical quotient with its remainder is rounded correctly, and the exceptions are right. -/
theorem isConversion_rounded {s : Scaled} {q : ℤ} {x : ℚ} (hc : p.Canonical s.quotient q)
    (h : s.Divides q x) : (rounded p negative mode s q).IsConversion negative mode x := by
  have hround := rounds_target negative mode hc h
  have hself := target_eq_iff negative mode h
  rw [rounded_eq]
  set up := goesUp negative mode s
  have hct := canonical_target hc up
  rw [← target_value] at hround hself
  dsimp only
  set m := (target p s q up).1
  set r := (target p s q up).2
  by_cases hr : p.maxQuantum < r
  · rw [if_pos hr]
    exact isConversion_overflowed hround (not_le.mp (mt hct.le_largest_iff.mp (by omega)))
  · rw [if_neg hr]
    have hle := hct.le_largest_iff.mpr (by omega)
    have henc := BinaryFloat.encodes_encode negative hct (by omega)
    refine ⟨⟨_, hround, by rw [if_pos hle]; exact henc⟩, ?_, ?_, ?_, rfl⟩
    · rw [decide_eq_true_eq, not_iff_not]
      exact hself.symm.trans ⟨fun heq => heq ▸ henc, fun hx => henc.magnitude_unique hx⟩
    · simp only [Bool.false_eq_true, false_iff, not_exists, not_and, not_lt]
      intro y hy
      rw [hy.unique hround]
      exact hle
    · simp only [Bool.and_eq_true, decide_eq_true_eq, biasedExponent_eq_zero_iff henc hct]

theorem isConversion_ofRatio {numerator denominator : ℕ} (hn : 0 < numerator)
    (hd : 0 < denominator) :
    (ofRatio p negative mode numerator denominator).IsConversion negative mode
      (numerator / denominator) :=
  isConversion_rounded (canonical_quantum p hn hd)
    ⟨scaled_remainder_lt _ _ hd, scaled_exact _ _ hd⟩

theorem isConversion_zero :
    ({ value := .zero p negative } : Conversion p).IsConversion negative mode 0 := by
  have hc : p.Canonical 0 p.minQuantum := ⟨by positivity, le_rfl, fun h => absurd rfl h⟩
  have hdiv : (⟨0, 0, 1⟩ : Scaled).Divides p.minQuantum 0 := ⟨by norm_num, by simp⟩
  have hround := rounds_target negative mode hc hdiv
  rw [(target_eq_iff negative mode hdiv).mpr rfl] at hround
  have henc : (BinaryFloat.zero p negative).Encodes negative 0 := by
    have h := BinaryFloat.encodes_subnormal (p := p) (m := 0) negative (by positivity)
    rwa [Nat.cast_zero, zero_mul] at h
  have hpos : 0 ≤ p.largest := by unfold Precision.largest; positivity
  refine ⟨⟨0, hround, by rw [if_pos hpos]; exact henc⟩, by simpa using henc, ?_, by simp, rfl⟩
  simp only [Bool.false_eq_true, false_iff, not_exists, not_and, not_lt]
  intro y hy
  rw [hy.unique hround]
  exact hpos

end Conversion

end DataTransfer
