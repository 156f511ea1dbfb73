import DataTransfer.Numeric.Precision
import DataTransfer.Numeric.Rounding
import Mathlib.Algebra.Order.Field.Power
import Mathlib.Data.Rat.Cast.Order
import Mathlib.Tactic

/-!
Rounding of exact magnitudes to a format, as a relation between rationals. The exponent is not
bounded above here: whether a value is too large for the format is decided after rounding.
-/

namespace DataTransfer

namespace Precision

variable (p : Precision)

/-- `m * 2^q` with a significand that fits the format, no quantum below the least one, and all
significand bits in use unless the quantum is the least. -/
structure Canonical (m : ℕ) (q : ℤ) : Prop where
  fits : m < 2 ^ p.significandBits
  least : p.minQuantum ≤ q
  full : q ≠ p.minQuantum → 2 ^ (p.significandBits - 1) ≤ m

/-- The magnitudes that the format's significand and least quantum allow. -/
def Representable (y : ℚ) : Prop :=
  ∃ (m : ℕ) (q : ℤ), m < 2 ^ p.significandBits ∧ p.minQuantum ≤ q ∧ y = m * 2 ^ q

def EvenSignificand (y : ℚ) : Prop :=
  ∃ (m : ℕ) (q : ℤ), p.Canonical m q ∧ Even m ∧ y = m * 2 ^ q

def largest : ℚ := (2 ^ p.significandBits - 1 : ℕ) * 2 ^ p.maxQuantum

theorem one_lt_significandBits : 1 < p.significandBits := by cases p <;> decide

theorem minQuantum_lt_maxQuantum : p.minQuantum < p.maxQuantum := by cases p <;> decide

theorem two_pow_significandBits : 2 ^ p.significandBits = 2 * 2 ^ (p.significandBits - 1) := by
  have h := p.one_lt_significandBits
  rw [← pow_succ', Nat.sub_add_cancel h.le]

end Precision

/-- Where a magnitude goes that lies between two neighbours. -/
inductive Heading where
  | inward | outward | nearestEven | nearestOutward
  deriving Repr, DecidableEq

/-- What a mode means for magnitudes of one sign: up is outward for positive values only. -/
def RoundingMode.heading : RoundingMode → (negative : Bool) → Heading
  | .tiesToEven, _ => .nearestEven
  | .tiesAway, _ => .nearestOutward
  | .toZero, _ => .inward
  | .up, negative => if negative then .inward else .outward
  | .down, negative => if negative then .outward else .inward

namespace Precision

variable (p : Precision)

def Nearest (x y : ℚ) : Prop := ∀ z, p.Representable z → |x - y| ≤ |x - z|

/-- `y` is what `x` rounds to: the greatest magnitude up to `x`, the least from `x` on, or the
nearest one, where of two equally near ones the even or the outer one counts. -/
def Rounds (heading : Heading) (x y : ℚ) : Prop :=
  p.Representable y ∧
    match heading with
    | .inward => y ≤ x ∧ ∀ z, p.Representable z → z ≤ x → z ≤ y
    | .outward => x ≤ y ∧ ∀ z, p.Representable z → x ≤ z → y ≤ z
    | .nearestEven =>
      p.Nearest x y ∧ ∀ z, p.Representable z → |x - z| = |x - y| → z ≠ y → p.EvenSignificand y
    | .nearestOutward => p.Nearest x y ∧ ∀ z, p.Representable z → |x - z| = |x - y| → z ≤ y

theorem Canonical.representable {p : Precision} {m : ℕ} {q : ℤ} (h : p.Canonical m q) :
    p.Representable (m * 2 ^ q) :=
  ⟨m, q, h.fits, h.least, rfl⟩

/-- The successor of a canonical significand: at the end of a binade it takes the next quantum. -/
def carry (m : ℕ) (q : ℤ) : ℕ × ℤ :=
  if m + 1 = 2 ^ p.significandBits then (2 ^ (p.significandBits - 1), q + 1) else (m + 1, q)

theorem carry_value (m : ℕ) (q : ℤ) :
    ((p.carry m q).1 : ℚ) * 2 ^ (p.carry m q).2 = (m + 1) * 2 ^ q := by
  unfold carry
  split_ifs with h
  · have hm : (m + 1 : ℚ) = 2 * 2 ^ (p.significandBits - 1) := by
      exact_mod_cast h.trans p.two_pow_significandBits
    rw [hm, zpow_add_one₀ (by norm_num)]
    push_cast
    ring
  · push_cast
    ring

theorem Canonical.carry {p : Precision} {m : ℕ} {q : ℤ} (h : p.Canonical m q) :
    p.Canonical (p.carry m q).1 (p.carry m q).2 := by
  have hp := p.two_pow_significandBits
  have hpos : 0 < 2 ^ (p.significandBits - 1) := by positivity
  obtain ⟨hfits, hleast, hfull⟩ := h
  unfold Precision.carry
  split_ifs with hc
  · exact ⟨by dsimp only; omega, by dsimp only; omega, fun _ => le_rfl⟩
  · exact ⟨by dsimp only; omega, hleast, fun hq => (hfull hq).trans (Nat.le_succ m)⟩

theorem even_carry {m : ℕ} {q : ℤ} (h : ¬ Even m) : Even (p.carry m q).1 := by
  unfold carry
  split_ifs
  · have hp := p.one_lt_significandBits
    exact (even_two.pow_of_ne_zero (by omega))
  · exact Nat.even_add_one.mpr h

theorem Canonical.le_or_succ_le {p : Precision} {m : ℕ} {q : ℤ} (h : p.Canonical m q) {z : ℚ}
    (hz : p.Representable z) : z ≤ m * 2 ^ q ∨ (m + 1) * 2 ^ q ≤ z := by
  obtain ⟨k, r, hk, hr, rfl⟩ := hz
  rcases le_or_gt q r with hqr | hqr
  · -- `z` is a multiple of the quantum
    obtain ⟨d, rfl⟩ : ∃ d : ℕ, r = q + d := ⟨(r - q).toNat, by omega⟩
    have hz : (k : ℚ) * 2 ^ (q + (d : ℤ)) = ((k * 2 ^ d : ℕ) : ℚ) * 2 ^ q := by
      rw [zpow_add₀ (by norm_num)]
      push_cast
      rw [zpow_natCast]
      ring
    rw [hz]
    rcases Nat.lt_or_ge m (k * 2 ^ d) with hlt | hle
    · right
      gcongr
      exact_mod_cast hlt
    · left
      gcongr
  · -- a smaller quantum belongs to smaller magnitudes
    left
    have hfull := h.full (by omega)
    have hk' : k ≤ 2 * m := by have := p.two_pow_significandBits; omega
    calc (k : ℚ) * 2 ^ r ≤ (2 * m : ℚ) * 2 ^ r := by gcongr; exact_mod_cast hk'
      _ = m * 2 ^ (r + 1) := by rw [zpow_add_one₀ (by norm_num)]; ring
      _ ≤ m * 2 ^ q := by gcongr <;> [norm_num; omega]

/-! ### The two neighbours of a magnitude -/

section Neighbours

variable {p : Precision} {m : ℕ} {q : ℤ} {x : ℚ}

theorem Canonical.representable_succ (h : p.Canonical m q) :
    p.Representable ((m + 1) * 2 ^ q) := by
  rw [← p.carry_value]
  exact h.carry.representable

theorem Canonical.rounds_inward (h : p.Canonical m q) (hlo : m * 2 ^ q ≤ x)
    (hhi : x < (m + 1) * 2 ^ q) : p.Rounds .inward x (m * 2 ^ q) := by
  refine ⟨h.representable, hlo, fun z hz hzx => ?_⟩
  rcases h.le_or_succ_le hz with hle | hge
  · exact hle
  · linarith

theorem Canonical.rounds_outward_self (h : p.Canonical m q) :
    p.Rounds .outward (m * 2 ^ q) (m * 2 ^ q) :=
  ⟨h.representable, le_rfl, fun _ _ hz => hz⟩

theorem Canonical.rounds_outward (h : p.Canonical m q) (hlo : m * 2 ^ q < x)
    (hhi : x < (m + 1) * 2 ^ q) : p.Rounds .outward x ((m + 1) * 2 ^ q) := by
  refine ⟨h.representable_succ, hhi.le, fun z hz hxz => ?_⟩
  rcases h.le_or_succ_le hz with hle | hge
  · linarith
  · exact hge

/-- Every other representable magnitude is at least as far from `x` as the lower neighbour, and
equally far only if `x` is the midpoint. -/
theorem Canonical.lower_nearest (h : p.Canonical m q) (hlo : m * 2 ^ q ≤ x)
    (hhi : x < (m + 1) * 2 ^ q) (hhalf : 2 * x ≤ m * 2 ^ q + (m + 1) * 2 ^ q) {z : ℚ}
    (hz : p.Representable z) :
    |x - m * 2 ^ q| ≤ |x - z| ∧
      (|x - z| = |x - m * 2 ^ q| → z ≠ m * 2 ^ q →
        2 * x = m * 2 ^ q + (m + 1) * 2 ^ q) := by
  rw [abs_of_nonneg (by linarith : 0 ≤ x - m * 2 ^ q)]
  rcases h.le_or_succ_le hz with hle | hge
  · rw [abs_of_nonneg (by linarith : 0 ≤ x - z)]
    exact ⟨by linarith, fun heq hne => absurd (by linarith) hne⟩
  · rw [abs_of_nonpos (by linarith : x - z ≤ 0)]
    exact ⟨by linarith, fun heq _ => by linarith⟩

theorem Canonical.upper_nearest (h : p.Canonical m q)
    (hhi : x < (m + 1) * 2 ^ q) (hhalf : m * 2 ^ q + (m + 1) * 2 ^ q ≤ 2 * x) {z : ℚ}
    (hz : p.Representable z) :
    |x - (m + 1) * 2 ^ q| ≤ |x - z| ∧
      (|x - z| = |x - (m + 1) * 2 ^ q| → z ≤ (m + 1) * 2 ^ q ∧
        (z ≠ (m + 1) * 2 ^ q → 2 * x = m * 2 ^ q + (m + 1) * 2 ^ q)) := by
  rw [abs_of_nonpos (by linarith : x - (m + 1) * 2 ^ q ≤ 0)]
  rcases h.le_or_succ_le hz with hle | hge
  · rw [abs_of_nonneg (by linarith : 0 ≤ x - z)]
    exact ⟨by linarith, fun heq => ⟨by linarith, fun _ => by linarith⟩⟩
  · rw [abs_of_nonpos (by linarith : x - z ≤ 0)]
    exact ⟨by linarith, fun heq => ⟨by linarith, fun hne => absurd (by linarith) hne⟩⟩

theorem Canonical.rounds_even_lower (h : p.Canonical m q) (hlo : m * 2 ^ q ≤ x)
    (hhi : x < (m + 1) * 2 ^ q) (hhalf : 2 * x ≤ m * 2 ^ q + (m + 1) * 2 ^ q)
    (htie : 2 * x = m * 2 ^ q + (m + 1) * 2 ^ q → Even m) :
    p.Rounds .nearestEven x (m * 2 ^ q) := by
  refine ⟨h.representable, fun _ hz => (h.lower_nearest hlo hhi hhalf hz).1, ?_⟩
  intro z hz heq hne
  exact ⟨m, q, h, htie ((h.lower_nearest hlo hhi hhalf hz).2 heq hne), rfl⟩

theorem Canonical.rounds_even_upper (h : p.Canonical m q)
    (hhi : x < (m + 1) * 2 ^ q) (hhalf : m * 2 ^ q + (m + 1) * 2 ^ q ≤ 2 * x)
    (htie : 2 * x = m * 2 ^ q + (m + 1) * 2 ^ q → ¬ Even m) :
    p.Rounds .nearestEven x ((m + 1) * 2 ^ q) := by
  refine ⟨h.representable_succ, fun _ hz => (h.upper_nearest hhi hhalf hz).1, ?_⟩
  intro z hz heq hne
  have hodd := htie (((h.upper_nearest hhi hhalf hz).2 heq).2 hne)
  exact ⟨_, _, h.carry, p.even_carry hodd, (p.carry_value m q).symm⟩

theorem Canonical.rounds_tiesAway_lower (h : p.Canonical m q) (hlo : m * 2 ^ q ≤ x)
    (hhi : x < (m + 1) * 2 ^ q) (hhalf : 2 * x < m * 2 ^ q + (m + 1) * 2 ^ q) :
    p.Rounds .nearestOutward x (m * 2 ^ q) := by
  refine ⟨h.representable, fun _ hz => (h.lower_nearest hlo hhi hhalf.le hz).1, ?_⟩
  intro z hz heq
  by_contra hne
  have := (h.lower_nearest hlo hhi hhalf.le hz).2 heq (fun hz' => hne hz'.le)
  linarith

theorem Canonical.rounds_tiesAway_upper (h : p.Canonical m q)
    (hhi : x < (m + 1) * 2 ^ q) (hhalf : m * 2 ^ q + (m + 1) * 2 ^ q ≤ 2 * x) :
    p.Rounds .nearestOutward x ((m + 1) * 2 ^ q) :=
  ⟨h.representable_succ, fun _ hz => (h.upper_nearest hhi hhalf hz).1,
    fun _ hz heq => ((h.upper_nearest hhi hhalf hz).2 heq).1⟩

end Neighbours

/-! ### The relation determines the result -/

/-- A magnitude has one canonical form: a larger quantum would leave the significand too long. -/
theorem Canonical.unique {p : Precision} {m k : ℕ} {q r : ℤ} (hm : p.Canonical m q)
    (hk : p.Canonical k r) (h : (m : ℚ) * 2 ^ q = k * 2 ^ r) : m = k ∧ q = r := by
  wlog hqr : q ≤ r generalizing m k q r
  · obtain ⟨h1, h2⟩ := this hk hm h.symm (by omega)
    exact ⟨h1.symm, h2.symm⟩
  obtain ⟨d, rfl⟩ : ∃ d : ℕ, r = q + d := ⟨(r - q).toNat, by omega⟩
  have hmk : m = k * 2 ^ d := by
    rw [zpow_add₀ (by norm_num), zpow_natCast, mul_comm ((2 : ℚ) ^ q), ← mul_assoc] at h
    exact_mod_cast mul_right_cancel₀ (by positivity : (2 : ℚ) ^ q ≠ 0) h
  cases d with
  | zero => simpa using hmk
  | succ d =>
    have hfull := hk.full (by have := hm.least; omega)
    have hlong : 2 * k ≤ m := by
      have : 1 ≤ 2 ^ d := Nat.one_le_two_pow
      rw [hmk, pow_succ]
      nlinarith
    have := hm.fits
    have := p.two_pow_significandBits
    omega

theorem Canonical.not_even_succ {p : Precision} {m : ℕ} {q : ℤ} (h : p.Canonical m q)
    (he : Even m) : ¬ p.EvenSignificand ((m + 1) * 2 ^ q) := by
  rintro ⟨k, r, hk, hek, heq⟩
  have hne : m + 1 ≠ 2 ^ p.significandBits := by
    have := p.two_pow_significandBits
    obtain ⟨a, ha⟩ := he
    omega
  have hc : p.carry m q = (m + 1, q) := if_neg hne
  have hsucc := h.carry
  rw [hc] at hsucc
  have := (hsucc.unique hk (by push_cast; exact heq)).1
  obtain ⟨a, ha⟩ := he
  obtain ⟨b, hb⟩ := hek
  omega

theorem EvenSignificand.not_adjacent {p : Precision} {x y z : ℚ} (hy : p.EvenSignificand y)
    (hz : p.EvenSignificand z) (hx : p.Nearest x y) (hd : |x - y| = |x - z|) : ¬ y < z := by
  intro hyz
  obtain ⟨m, q, hc, he, rfl⟩ := hy
  have hrep : p.Representable z := by
    obtain ⟨k, r, hk, -, rfl⟩ := hz
    exact hk.representable
  have hge : (m + 1) * 2 ^ q ≤ z := by
    rcases hc.le_or_succ_le hrep with hle | hge
    · linarith
    · exact hge
  have hpos : (0 : ℚ) < 2 ^ q := by positivity
  -- `x` is the midpoint, so a magnitude in between would be nearer
  have hmid : 2 * x = m * 2 ^ q + z := by
    rcases abs_eq_abs.mp hd with h | h <;> linarith
  have hnear := hx _ hc.representable_succ
  have heq : (m + 1) * 2 ^ q = z := by
    by_contra hne
    have hlt := lt_of_le_of_ne hge hne
    rw [abs_of_nonneg (by linarith : 0 ≤ x - m * 2 ^ q)] at hnear
    rcases le_abs'.mp hnear with h | h <;> nlinarith
  exact hc.not_even_succ he (heq ▸ hz)

theorem Rounds.unique {p : Precision} {heading : Heading} {x y z : ℚ}
    (hy : p.Rounds heading x y) (hz : p.Rounds heading x z) : y = z := by
  obtain ⟨hyr, hy⟩ := hy
  obtain ⟨hzr, hz⟩ := hz
  cases heading with
  | inward => exact le_antisymm (hz.2 y hyr hy.1) (hy.2 z hzr hz.1)
  | outward => exact le_antisymm (hy.2 z hzr hz.1) (hz.2 y hyr hy.1)
  | nearestOutward =>
    have hd : |x - y| = |x - z| := le_antisymm (hy.1 z hzr) (hz.1 y hyr)
    exact le_antisymm (hz.2 y hyr hd) (hy.2 z hzr hd.symm)
  | nearestEven =>
    have hd : |x - y| = |x - z| := le_antisymm (hy.1 z hzr) (hz.1 y hyr)
    by_contra hne
    have hye := hy.2 z hzr hd.symm (Ne.symm hne)
    have hze := hz.2 y hyr hd hne
    rcases lt_or_gt_of_ne hne with hlt | hgt
    · exact hye.not_adjacent hze hy.1 hd hlt
    · exact hze.not_adjacent hye hz.1 hd.symm hgt

end Precision

end DataTransfer
