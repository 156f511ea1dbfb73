import DataTransfer.Proofs.Numeric.Boundary
import DataTransfer.Proofs.Numeric.Magnitude

/-!
The exceptions of a conversion, told by numbers alone. Overflow is decided by the magnitude that the
value would be rounded to if exponents had no bounds; that differs from the magnitudes of the format only
below the least normal one, where nothing overflows.
-/

namespace DataTransfer

/-- `y` is what `x` rounds to among the magnitudes of `S`, of which some are even. -/
def RoundsAmong (S even : ℚ → Prop) (heading : Heading) (x y : ℚ) : Prop :=
  S y ∧
    match heading with
    | .inward => y ≤ x ∧ ∀ z, S z → z ≤ x → z ≤ y
    | .outward => x ≤ y ∧ ∀ z, S z → x ≤ z → y ≤ z
    | .nearestEven =>
      (∀ z, S z → |x - y| ≤ |x - z|) ∧ ∀ z, S z → |x - z| = |x - y| → z ≠ y → even y
    | .nearestOutward =>
      (∀ z, S z → |x - y| ≤ |x - z|) ∧ ∀ z, S z → |x - z| = |x - y| → z ≤ y

namespace RoundsAmong

variable {S T even even' : ℚ → Prop} {heading : Heading} {x y n : ℚ}

theorem le_of_le (h : RoundsAmong S even heading x y) (hn : S n) (hx : x ≤ n) : y ≤ n := by
  have hnearest (hnear : ∀ z, S z → |x - y| ≤ |x - z|) : y ≤ n := by
    by_contra hlt
    have := hnear n hn
    rw [abs_of_nonpos (by linarith : x - y ≤ 0), abs_of_nonpos (by linarith : x - n ≤ 0)] at this
    linarith
  obtain ⟨-, h⟩ := h
  cases heading with
  | inward => exact h.1.trans hx
  | outward => exact h.2 n hn hx
  | nearestEven => exact hnearest h.1
  | nearestOutward => exact hnearest h.1

theorem le_of_ge (h : RoundsAmong S even heading x y) (hn : S n) (hx : n ≤ x) : n ≤ y := by
  have hnearest (hnear : ∀ z, S z → |x - y| ≤ |x - z|) : n ≤ y := by
    by_contra hlt
    have := hnear n hn
    rw [abs_of_nonneg (by linarith : 0 ≤ x - y), abs_of_nonneg (by linarith : 0 ≤ x - n)] at this
    linarith
  obtain ⟨-, h⟩ := h
  cases heading with
  | inward => exact h.2 n hn hx
  | outward => exact hx.trans h.1
  | nearestEven => exact hnearest h.1
  | nearestOutward => exact hnearest h.1

/-- Only the magnitudes from `n` on count for what is above `n`. -/
theorem of_eq_above (h : RoundsAmong S even heading x y) (hS : S n) (hx : n ≤ x)
    (hT : ∀ z, n ≤ z → (S z ↔ T z)) (heven : ∀ z, n ≤ z → even z → even' z) :
    RoundsAmong T even' heading x y := by
  have hy : n ≤ y := h.le_of_ge hS hx
  -- What is below `n` is farther from `x` than `n` is.
  have hbelow {z : ℚ} (hz : z < n) : |x - n| < |x - z| := by
    rw [abs_of_nonneg (by linarith : 0 ≤ x - n), abs_of_nonneg (by linarith : 0 ≤ x - z)]
    linarith
  have hnearest (hnear : ∀ z, S z → |x - y| ≤ |x - z|) (z : ℚ) (hz : T z) : |x - y| ≤ |x - z| := by
    rcases lt_or_ge z n with hlt | hge
    · exact (hnear n hS).trans (hbelow hlt).le
    · exact hnear z ((hT z hge).mpr hz)
  have habove (hnear : ∀ z, S z → |x - y| ≤ |x - z|) {z : ℚ} (hz : T z)
      (heq : |x - z| = |x - y|) : S z := by
    refine (hT z (le_of_not_gt fun hlt => ?_)).mpr hz
    exact ((hnear n hS).trans_lt (hbelow hlt)).ne heq.symm
  obtain ⟨hmem, h⟩ := h
  refine ⟨(hT y hy).mp hmem, ?_⟩
  cases heading with
  | inward =>
    refine ⟨h.1, fun z hz hzx => ?_⟩
    rcases lt_or_ge z n with hlt | hge
    · exact hlt.le.trans hy
    · exact h.2 z ((hT z hge).mpr hz) hzx
  | outward => exact ⟨h.1, fun z hz hxz => h.2 z ((hT z (hx.trans hxz)).mpr hz) hxz⟩
  | nearestEven =>
    exact ⟨hnearest h.1, fun z hz heq hne => heven y hy (h.2 z (habove h.1 hz heq) heq hne)⟩
  | nearestOutward => exact ⟨hnearest h.1, fun z hz heq => h.2 z (habove h.1 hz heq) heq⟩

theorem scale (h : RoundsAmong S even heading x y) {c : ℚ} (hc : 0 < c) (hS : ∀ z, S (z * c) ↔ S z)
    (heven : ∀ z, even z → even (z * c)) : RoundsAmong S even heading (x * c) (y * c) := by
  have hall {P : ℚ → Prop} (hP : ∀ z, P (z * c)) (z : ℚ) : P z := by
    simpa [hc.ne'] using hP (z / c)
  have hdist (z : ℚ) : |x * c - z * c| = |x - z| * c := by
    rw [← sub_mul, abs_mul, abs_of_pos hc]
  have hnearest (hnear : ∀ z, S z → |x - y| ≤ |x - z|) :
      ∀ z, S z → |x * c - y * c| ≤ |x * c - z| := by
    refine hall fun z hz => ?_
    rw [hdist, hdist]
    exact mul_le_mul_of_nonneg_right (hnear z ((hS z).mp hz)) hc.le
  have hequal {z : ℚ} (heq : |x * c - z * c| = |x * c - y * c|) : |x - z| = |x - y| := by
    rw [hdist, hdist] at heq
    exact mul_right_cancel₀ hc.ne' heq
  obtain ⟨hmem, h⟩ := h
  refine ⟨(hS y).mpr hmem, ?_⟩
  cases heading with
  | inward =>
    refine ⟨mul_le_mul_of_nonneg_right h.1 hc.le, hall fun z hz hzx => ?_⟩
    exact mul_le_mul_of_nonneg_right (h.2 z ((hS z).mp hz) (le_of_mul_le_mul_right hzx hc)) hc.le
  | outward =>
    refine ⟨mul_le_mul_of_nonneg_right h.1 hc.le, hall fun z hz hxz => ?_⟩
    exact mul_le_mul_of_nonneg_right (h.2 z ((hS z).mp hz) (le_of_mul_le_mul_right hxz hc)) hc.le
  | nearestEven =>
    refine ⟨hnearest h.1, hall fun z hz heq hne => heven y ?_⟩
    exact h.2 z ((hS z).mp hz) (hequal heq) fun hzy => hne (congrArg (· * c) hzy)
  | nearestOutward =>
    refine ⟨hnearest h.1, hall fun z hz heq => ?_⟩
    exact mul_le_mul_of_nonneg_right (h.2 z ((hS z).mp hz) (hequal heq)) hc.le

end RoundsAmong

namespace Precision

variable (p : Precision)

theorem rounds_iff_among (heading : Heading) (x y : ℚ) :
    p.Rounds heading x y ↔ RoundsAmong p.Representable p.EvenSignificand heading x y := by
  cases heading <;> exact Iff.rfl

/-- The magnitudes of as many significant bits as the format has, with any exponent. -/
def Unbounded (y : ℚ) : Prop := ∃ (m : ℕ) (q : ℤ), m < 2 ^ p.significandBits ∧ y = m * 2 ^ q

def UnboundedEven (y : ℚ) : Prop :=
  ∃ (m : ℕ) (q : ℤ), 2 ^ (p.significandBits - 1) ≤ m ∧ m < 2 ^ p.significandBits ∧ Even m ∧
    y = m * 2 ^ q

/-- `y` is what `x` rounds to in so many significant bits if exponents have no bounds. -/
def RoundsUnbounded : Heading → ℚ → ℚ → Prop := RoundsAmong p.Unbounded p.UnboundedEven

def leastNormal : ℚ := (2 ^ (p.significandBits - 1) : ℕ) * 2 ^ p.minQuantum

theorem canonical_leastNormal : p.Canonical (2 ^ (p.significandBits - 1)) p.minQuantum := by
  have htwo := p.two_pow_significandBits
  have hpos : 0 < 2 ^ (p.significandBits - 1) := by positivity
  exact ⟨by omega, le_rfl, fun _ => le_rfl⟩

theorem leastNormal_le_largest : p.leastNormal ≤ p.largest :=
  p.canonical_leastNormal.le_largest_iff.mpr p.minQuantum_lt_maxQuantum.le

variable {p}

theorem minQuantum_le_of_leastNormal_le {m : ℕ} {q : ℤ} (hm : m < 2 ^ p.significandBits)
    (h : p.leastNormal ≤ m * 2 ^ q) : p.minQuantum ≤ q := by
  by_contra hlt
  have htwo : (2 ^ p.significandBits : ℚ) = 2 * (2 ^ (p.significandBits - 1) : ℕ) := by
    exact_mod_cast p.two_pow_significandBits
  have hbelow : (m * 2 ^ q : ℚ) < p.leastNormal :=
    calc (m * 2 ^ q : ℚ) < 2 ^ p.significandBits * 2 ^ q := by
          gcongr
          exact_mod_cast hm
      _ = (2 ^ (p.significandBits - 1) : ℕ) * 2 ^ (q + 1) := by
          rw [htwo, zpow_add_one₀ (by norm_num)]
          ring
      _ ≤ p.leastNormal := by
          unfold leastNormal
          gcongr
          · norm_num
          · omega
  exact hbelow.not_ge h

theorem representable_iff_unbounded {y : ℚ} (h : p.leastNormal ≤ y) :
    p.Representable y ↔ p.Unbounded y := by
  constructor
  · rintro ⟨m, q, hm, -, rfl⟩
    exact ⟨m, q, hm, rfl⟩
  · rintro ⟨m, q, hm, rfl⟩
    exact ⟨m, q, hm, minQuantum_le_of_leastNormal_le hm h, rfl⟩

theorem evenSignificand_iff_unbounded {y : ℚ} (h : p.leastNormal ≤ y) :
    p.EvenSignificand y ↔ p.UnboundedEven y := by
  constructor
  · rintro ⟨m, q, hc, heven, rfl⟩
    refine ⟨m, q, ?_, hc.fits, heven, rfl⟩
    by_cases hq : q = p.minQuantum
    · subst hq
      exact_mod_cast le_of_mul_le_mul_right h (by positivity)
    · exact hc.full hq
  · rintro ⟨m, q, hfull, hm, heven, rfl⟩
    exact ⟨m, q, ⟨hm, minQuantum_le_of_leastNormal_le hm h, fun _ => hfull⟩, heven, rfl⟩

theorem unbounded_leastNormal : p.Unbounded p.leastNormal :=
  (representable_iff_unbounded le_rfl).mp p.canonical_leastNormal.representable

/-- From the least normal magnitude on, the bounds of the exponents do not count. -/
theorem roundsUnbounded_iff {heading : Heading} {x y : ℚ} (hx : p.leastNormal ≤ x) :
    p.RoundsUnbounded heading x y ↔ p.Rounds heading x y := by
  rw [rounds_iff_among]
  constructor
  · intro h
    exact h.of_eq_above unbounded_leastNormal hx (fun z hz => (representable_iff_unbounded hz).symm)
      fun z hz => (evenSignificand_iff_unbounded hz).mpr
  · intro h
    exact h.of_eq_above p.canonical_leastNormal.representable hx
      (fun z hz => representable_iff_unbounded hz) fun z hz => (evenSignificand_iff_unbounded hz).mp

theorem RoundsUnbounded.scale {heading : Heading} {x y : ℚ} (h : p.RoundsUnbounded heading x y)
    (k : ℤ) : p.RoundsUnbounded heading (x * 2 ^ k) (y * 2 ^ k) := by
  have hshift (m : ℕ) (q k : ℤ) : (m * 2 ^ q * 2 ^ k : ℚ) = m * 2 ^ (q + k) := by
    rw [zpow_add₀ (by norm_num), mul_assoc]
  have hmem (z : ℚ) (k : ℤ) (hz : p.Unbounded z) : p.Unbounded (z * 2 ^ k) := by
    obtain ⟨m, q, hm, rfl⟩ := hz
    exact ⟨m, q + k, hm, hshift m q k⟩
  apply RoundsAmong.scale h (by positivity)
  · refine fun z => ⟨fun hz => ?_, hmem z k⟩
    have hback := hmem _ (-k) hz
    rwa [mul_assoc, ← zpow_add₀ (by norm_num), add_neg_cancel, zpow_zero, mul_one] at hback
  · rintro z ⟨m, q, hfull, hm, heven, rfl⟩
    exact ⟨m, q + k, hfull, hm, heven, hshift m q k⟩

theorem roundsUnbounded_scale {heading : Heading} {x y : ℚ} (k : ℕ) :
    p.RoundsUnbounded heading (x * 2 ^ k) (y * 2 ^ k) ↔ p.RoundsUnbounded heading x y := by
  refine ⟨fun h => ?_, fun h => by simpa using h.scale k⟩
  have hback := h.scale (-k)
  simpa [mul_assoc] using hback

theorem exists_rounds (p : Precision) (heading : Heading) {x : ℚ} (hx : 0 < x) :
    ∃ y, p.Rounds heading x y := by
  have hnum : 0 < x.num.toNat := by
    have := Rat.num_pos.mpr hx
    omega
  have hvalue : (x.num.toNat / x.den : ℚ) = x := by
    have hcast : ((x.num.toNat : ℤ) : ℚ) = x.num := by
      rw [Int.toNat_of_nonneg (Rat.num_pos.mpr hx).le]
    rw [← Int.cast_natCast x.num.toNat, hcast, Rat.num_div_den]
  obtain ⟨mode, rfl⟩ : ∃ mode : RoundingMode, mode.heading false = heading := by
    cases heading with
    | inward => exact ⟨.toZero, rfl⟩
    | outward => exact ⟨.up, rfl⟩
    | nearestEven => exact ⟨.tiesToEven, rfl⟩
    | nearestOutward => exact ⟨.tiesAway, rfl⟩
  have hratio : (Conversion.ofRatio p false mode x.num.toNat x.den).IsConversion false mode
      (x.num.toNat / x.den : ℚ) := Conversion.isConversion_ofRatio hnum x.den_pos
  obtain ⟨y, hy, -⟩ := hratio.value
  exact ⟨y, hvalue ▸ hy⟩

theorem existsUnique_roundsUnbounded (p : Precision) (heading : Heading) {x : ℚ} (hx : 0 ≤ x) :
    ∃ y, ∀ z, p.RoundsUnbounded heading x z ↔ z = y := by
  rcases hx.eq_or_lt with rfl | hpos
  · have hzero : p.Unbounded 0 := ⟨0, 0, by positivity, by simp⟩
    refine ⟨0, fun z => ⟨fun h => ?_, ?_⟩⟩
    · exact le_antisymm (h.le_of_le hzero le_rfl) (h.le_of_ge hzero le_rfl)
    · rintro rfl
      refine ⟨hzero, ?_⟩
      cases heading <;> simp +contextual
  · obtain ⟨k, hk⟩ := pow_unbounded_of_one_lt (p.leastNormal / x) (by norm_num : (1 : ℚ) < 2)
    have hlarge : p.leastNormal ≤ x * 2 ^ k := by
      rw [div_lt_iff₀ hpos] at hk
      linarith
    obtain ⟨y, hy⟩ := p.exists_rounds heading (by positivity : 0 < x * 2 ^ k)
    have hiff (z : ℚ) : p.RoundsUnbounded heading x z ↔ z * 2 ^ k = y := by
      rw [← roundsUnbounded_scale k, roundsUnbounded_iff hlarge]
      exact ⟨fun h => h.unique hy, fun h => h ▸ hy⟩
    exact ⟨y / 2 ^ k, fun z => (hiff z).trans (eq_div_iff (by positivity)).symm⟩

/-- Exponents without bounds overflow the format where its own magnitudes do. -/
theorem rounds_overflow_iff {heading : Heading} {x y : ℚ} (h : p.RoundsUnbounded heading x y) :
    (∃ z, p.Rounds heading x z ∧ p.largest < z) ↔ p.largest < y := by
  rcases le_or_gt p.leastNormal x with hx | hx
  · have hy := (roundsUnbounded_iff hx).mp h
    exact ⟨fun ⟨z, hz, hlt⟩ => hz.unique hy ▸ hlt, fun hlt => ⟨y, hy, hlt⟩⟩
  · have hsmall : y ≤ p.leastNormal := h.le_of_le unbounded_leastNormal hx.le
    constructor
    · rintro ⟨z, hz, hlt⟩
      have hz' := ((p.rounds_iff_among heading x z).mp hz).le_of_le
        p.canonical_leastNormal.representable hx.le
      exact absurd (hz'.trans p.leastNormal_le_largest) hlt.not_ge
    · exact fun hlt => absurd (hsmall.trans p.leastNormal_le_largest) hlt.not_ge

end Precision

def signedMagnitude (negative : Bool) (x : ℚ) : ℚ := if negative then -x else x

namespace BinaryFloat

variable {p : Precision} {negative : Bool} {mode : RoundingMode} {x y : ℚ} {v : BinaryFloat p}

def number? (v : BinaryFloat p) : Option ℚ :=
  if v.biasedExponent ≤ p.maxBiased then
    some (signedMagnitude v.isNegative (v.significand * 2 ^ v.quantum))
  else none

theorem Encodes.number?_eq (h : v.Encodes negative y) : v.number? = some (signedMagnitude negative y) := by
  rw [number?, if_pos h.finite, h.sign, ← h.magnitude]

theorem number?_of_isInfinite (h : v.isInfinite = true) : v.number? = none := by
  rw [number?, if_neg]
  simp only [isInfinite, Bool.and_eq_true, decide_eq_true_eq] at h
  omega

theorem Encodes.number?_eq_iff (h : v.Encodes negative y) :
    v.number? = some (signedMagnitude negative x) ↔ v.Encodes negative x := by
  refine ⟨fun heq => ?_, Encodes.number?_eq⟩
  rw [h.number?_eq, Option.some.injEq] at heq
  have hyx : y = x := by
    cases negative
    · exact heq
    · exact neg_injective heq
  exact hyx ▸ h

theorem IsRounding.number?_eq_iff (h : v.IsRounding negative mode x) :
    v.number? = some (signedMagnitude negative x) ↔ v.Encodes negative x := by
  obtain ⟨y, -, h⟩ := h
  split_ifs at h
  · exact h.number?_eq_iff
  · exact h.number?_eq_iff
  · rw [number?_of_isInfinite h.1]
    refine ⟨nofun, fun henc => ?_⟩
    rw [henc.not_isInfinite] at h
    exact absurd h.1 Bool.false_ne_true

end BinaryFloat

namespace Conversion

variable (p : Precision) (negative : Bool) (mode : RoundingMode)

/-- The exceptions of a conversion are exact. It is inexact just when the number stored is another one,
overflows just when the value does that is rounded without bounds on the exponent, underflows just when it
is inexact and has no normal exponent, and is never invalid. Where the decimal magnitude decides early, the
exact ratio raises the same exceptions. The decimal magnitude is the exact sum of length and exponent, as
it is in signed 64-bit arithmetic for every exponent that a decimal text can have. -/
theorem round_exceptions (digits : ℕ) (exponent : ℤ) :
    ((round p negative mode digits exponent).flags.inexact = true ↔
      (round p negative mode digits exponent).value.number? ≠
        some (signedMagnitude negative (digits * 10 ^ exponent))) ∧
    (∃ y, (∀ z, p.RoundsUnbounded (mode.heading negative) (digits * 10 ^ exponent) z ↔ z = y) ∧
      ((round p negative mode digits exponent).flags.overflow = true ↔ p.largest < y)) ∧
    ((round p negative mode digits exponent).flags.underflow = true ↔
      (round p negative mode digits exponent).flags.inexact = true ∧
        (round p negative mode digits exponent).value.biasedExponent = 0) ∧
    (round p negative mode digits exponent).flags.invalid = false ∧
    (digits ≠ 0 →
      (p.overflowMagnitude < decimalLength digits + exponent →
        (overflowed p negative mode).flags = (ofDecimal p negative mode digits exponent).flags) ∧
      (decimalLength digits + exponent < p.underflowMagnitude →
        (vanished p negative mode).flags = (ofDecimal p negative mode digits exponent).flags)) := by
  have h := round_isConversion p negative mode exponent digits
  obtain ⟨y, hy⟩ := p.existsUnique_roundsUnbounded (mode.heading negative)
    (by positivity : (0 : ℚ) ≤ digits * 10 ^ exponent)
  refine ⟨?_, ⟨y, hy, ?_⟩, h.underflow, h.invalid, fun hdigits => ⟨fun hover => ?_, fun hunder => ?_⟩⟩
  · rw [h.inexact, ne_eq, h.value.number?_eq_iff]
  · exact h.overflow.trans (Precision.rounds_overflow_iff ((hy y).mpr rfl))
  · rw [ofDecimal_eq_overflowed p negative mode (Nat.pos_of_ne_zero hdigits) exponent hover]
  · rw [ofDecimal_eq_vanished p negative mode (Nat.pos_of_ne_zero hdigits) exponent hunder]

end Conversion

end DataTransfer
