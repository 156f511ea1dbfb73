import DataTransfer.Proofs.Numeric.Correct

/-!
Boundaries between the magnitudes of a format. Between two neighbours lies one place up to which
magnitudes go to the lower one; two magnitudes are stored as different values just when such a place is
between them.
-/

namespace DataTransfer

namespace Precision

theorem Representable.exists_canonical {p : Precision} {y : ℚ} (h : p.Representable y) :
    ∃ m q, p.Canonical m q ∧ y = m * 2 ^ q := by
  obtain ⟨m, q, hm, hq, rfl⟩ := h
  obtain ⟨d, rfl⟩ : ∃ d : ℕ, q = p.minQuantum + d := ⟨(q - p.minQuantum).toNat, by omega⟩
  induction d generalizing m with
  | zero => exact ⟨m, _, ⟨hm, hq, fun hne => absurd (add_zero _) hne⟩, rfl⟩
  | succ d ih =>
    by_cases hfull : 2 ^ (p.significandBits - 1) ≤ m
    · exact ⟨m, _, ⟨hm, hq, fun _ => hfull⟩, rfl⟩
    -- There is room for one more bit, at the next lower quantum.
    have htwo := p.two_pow_significandBits
    obtain ⟨k, r, hc, heq⟩ := ih (2 * m) (by omega) (by omega)
    refine ⟨k, r, hc, ?_⟩
    rw [← heq, Nat.cast_succ, ← add_assoc, zpow_add_one₀ (by norm_num)]
    push_cast
    ring

/-- What rounds to `m * 2^q`, or to less. -/
def UpTo (heading : Heading) (m : ℕ) (q : ℤ) (x : ℚ) : Prop :=
  match heading with
  | .inward => x < (m + 1) * 2 ^ q
  | .outward => x ≤ m * 2 ^ q
  | .nearestEven =>
    2 * x < m * 2 ^ q + (m + 1) * 2 ^ q ∨ 2 * x = m * 2 ^ q + (m + 1) * 2 ^ q ∧ Even m
  | .nearestOutward => 2 * x < m * 2 ^ q + (m + 1) * 2 ^ q

variable {p : Precision} {heading : Heading} {m : ℕ} {q : ℤ} {x y a b : ℚ}

theorem UpTo.mono (h : UpTo heading m q y) (hxy : x ≤ y) : UpTo heading m q x := by
  cases heading with
  | inward => exact hxy.trans_lt h
  | outward => exact hxy.trans h
  | nearestOutward => exact (by linarith : 2 * x ≤ 2 * y).trans_lt h
  | nearestEven =>
    rcases h with h | ⟨htie, heven⟩
    · exact .inl (by linarith)
    · rcases hxy.lt_or_eq with hlt | rfl
      · exact .inl (by linarith)
      · exact .inr ⟨htie, heven⟩

theorem lt_succ (m : ℕ) (q : ℤ) : (m * 2 ^ q : ℚ) < (m + 1) * 2 ^ q := by
  gcongr
  exact lt_add_one _

theorem Canonical.succ_le (h : p.Canonical m q) (ha : p.Representable a) (hlt : m * 2 ^ q < a) :
    (m + 1) * 2 ^ q ≤ a :=
  (h.le_or_succ_le ha).resolve_left hlt.not_ge

theorem Nearest.le_of_lt_midpoint (hc : p.Canonical m q) (ha : p.Representable a)
    (h : p.Nearest x a) (hlt : 2 * x < m * 2 ^ q + (m + 1) * 2 ^ q) : a ≤ m * 2 ^ q := by
  by_contra habove
  have hsucc := hc.succ_le ha (not_le.mp habove)
  have hnear := h _ hc.representable
  rw [abs_of_nonpos (by have := lt_succ m q; linarith : x - a ≤ 0)] at hnear
  rcases abs_cases (x - m * 2 ^ q) with ⟨heq, -⟩ | ⟨heq, -⟩ <;>
    · rw [heq] at hnear
      have := lt_succ m q
      linarith

theorem Nearest.lt_of_midpoint_lt (hc : p.Canonical m q) (h : p.Nearest x a)
    (hlt : m * 2 ^ q + (m + 1) * 2 ^ q < 2 * x) : m * 2 ^ q < a := by
  by_contra hbelow
  have hnear := h _ hc.representable_succ
  rw [abs_of_nonneg (by have := lt_succ m q; linarith : 0 ≤ x - a)] at hnear
  rcases abs_cases (x - (m + 1) * 2 ^ q) with ⟨heq, -⟩ | ⟨heq, -⟩ <;>
    · rw [heq] at hnear
      have := lt_succ m q
      linarith

theorem Nearest.tie (hc : p.Canonical m q) (ha : p.Representable a) (h : p.Nearest x a)
    (htie : 2 * x = m * 2 ^ q + (m + 1) * 2 ^ q) :
    (a = m * 2 ^ q ∨ a = (m + 1) * 2 ^ q) ∧ |x - m * 2 ^ q| = |x - a| ∧
      |x - (m + 1) * 2 ^ q| = |x - a| := by
  have hlt := lt_succ m q
  have hlower : |x - m * 2 ^ q| = x - m * 2 ^ q := abs_of_nonneg (by linarith)
  have hupper : |x - (m + 1) * 2 ^ q| = (m + 1) * 2 ^ q - x := by
    rw [abs_of_nonpos (by linarith), neg_sub]
  have hnear := h _ hc.representable
  have hside : a = m * 2 ^ q ∨ a = (m + 1) * 2 ^ q := by
    rcases hc.le_or_succ_le ha with hle | hge
    · rw [hlower, abs_of_nonneg (by linarith : 0 ≤ x - a)] at hnear
      exact .inl (le_antisymm hle (by linarith))
    · rw [hlower, abs_of_nonpos (by linarith : x - a ≤ 0)] at hnear
      exact .inr (le_antisymm (by linarith) hge)
  refine ⟨hside, ?_⟩
  rcases hside with rfl | rfl
  · exact ⟨rfl, by rw [hupper, hlower]; linarith⟩
  · exact ⟨by rw [hupper, hlower]; linarith, rfl⟩

theorem Rounds.le_iff (h : p.Rounds heading x a) (hc : p.Canonical m q) :
    a ≤ m * 2 ^ q ↔ UpTo heading m q x := by
  have hlt := lt_succ m q
  obtain ⟨ha, h⟩ := h
  cases heading with
  | inward =>
    obtain ⟨hax, hgreatest⟩ := h
    constructor
    · intro hle
      by_contra hover
      have := hgreatest _ hc.representable_succ (not_lt.mp hover)
      linarith
    · intro hx
      by_contra hover
      have hsucc := hc.succ_le ha (not_le.mp hover)
      exact absurd (hsucc.trans hax) hx.not_ge
  | outward =>
    obtain ⟨hxa, hleast⟩ := h
    exact ⟨fun hle => hxa.trans hle, fun hx => hleast _ hc.representable hx⟩
  | nearestOutward =>
    obtain ⟨hnear, hties⟩ := h
    constructor
    · intro hle
      rcases lt_trichotomy (2 * x) (m * 2 ^ q + (m + 1) * 2 ^ q) with hx | htie | hx
      · exact hx
      · have hup := hties _ hc.representable_succ (hnear.tie hc ha htie).2.2
        linarith
      · exact absurd hle (hnear.lt_of_midpoint_lt hc hx).not_ge
    · exact fun hx => hnear.le_of_lt_midpoint hc ha hx
  | nearestEven =>
    obtain ⟨hnear, hties⟩ := h
    constructor
    · intro hle
      rcases lt_trichotomy (2 * x) (m * 2 ^ q + (m + 1) * 2 ^ q) with hx | htie | hx
      · exact .inl hx
      · obtain ⟨hside, -, hupper⟩ := hnear.tie hc ha htie
        obtain rfl : a = m * 2 ^ q := hside.resolve_right (by linarith)
        obtain ⟨k, r, hk, heven, heq⟩ := hties _ hc.representable_succ hupper hlt.ne'
        exact .inr ⟨htie, (hc.unique hk heq).1 ▸ heven⟩
      · exact absurd hle (hnear.lt_of_midpoint_lt hc hx).not_ge
    · rintro (hx | ⟨htie, heven⟩)
      · exact hnear.le_of_lt_midpoint hc ha hx
      · obtain ⟨hside, hlower, -⟩ := hnear.tie hc ha htie
        rcases hside with rfl | rfl
        · exact le_rfl
        · exact absurd (hties _ hc.representable hlower hlt.ne) (hc.not_even_succ heven)

theorem Rounds.mono (ha : p.Rounds heading x a) (hb : p.Rounds heading y b) (hxy : x ≤ y) :
    a ≤ b := by
  obtain ⟨m, q, hc, rfl⟩ := hb.1.exists_canonical
  exact (ha.le_iff hc).mpr (((hb.le_iff hc).mp le_rfl).mono hxy)

/-- A boundary lies between `x` and `y`, and the magnitudes on its two sides are stored as different
values. -/
def Splits (p : Precision) (heading : Heading) (x y : ℚ) : Prop :=
  ∃ m q, p.Canonical m q ∧ m * 2 ^ q ≤ p.largest ∧
    (heading = .inward → m * 2 ^ q < p.largest) ∧ UpTo heading m q x ∧ ¬ UpTo heading m q y

end Precision

namespace BinaryFloat

open Precision

variable {p : Precision} {negative : Bool} {mode : RoundingMode} {x y : ℚ} {v w : BinaryFloat p}

theorem Encodes.not_isInfinite {r : ℚ} (h : v.Encodes negative r) : v.isInfinite = false := by
  have hne : ¬ v.biasedExponent = p.maxBiased + 1 := by
    have := h.finite
    omega
  simp [isInfinite, hne]

/-- Two magnitudes become one value unless they are split. -/
theorem IsRounding.eq_iff (hv : v.IsRounding negative mode x) (hw : w.IsRounding negative mode y)
    (hxy : x ≤ y) : v = w ↔ ¬ p.Splits (mode.heading negative) x y := by
  obtain ⟨a, ha, hv'⟩ := id hv
  obtain ⟨b, hb, hw'⟩ := id hw
  have hab := ha.mono hb hxy
  constructor
  · rintro rfl ⟨m, q, hc, hle, hless, hx, hy⟩
    have hlower : a ≤ m * 2 ^ q := (ha.le_iff hc).mpr hx
    have hupper : m * 2 ^ q < b := not_le.mp (mt (hb.le_iff hc).mp hy)
    rw [if_pos (hlower.trans hle)] at hv'
    split_ifs at hw' with hfinite hinward
    · exact (hlower.trans_lt hupper).ne (hv'.magnitude_unique hw')
    · exact (hlower.trans_lt (hless hinward)).ne (hv'.magnitude_unique hw')
    · rw [hv'.not_isInfinite] at hw'
      exact Bool.false_ne_true hw'.1
  · intro hsplit
    -- A value of `y` that rounds to the same magnitude is a value of `x` too.
    have hsame (heq : a = b) : v = w := by
      subst heq
      exact hv.unique ⟨a, ha, hw'⟩
    by_cases hfinite : a ≤ p.largest
    · obtain ⟨m, q, hc, rfl⟩ := ha.1.exists_canonical
      have hx := (ha.le_iff hc).mp le_rfl
      by_cases hb' : b ≤ m * 2 ^ q
      · exact hsame (le_antisymm hab hb')
      have hcut : ¬ (mode.heading negative = .inward → (m * 2 ^ q : ℚ) < p.largest) := fun hless =>
        hsplit ⟨m, q, hc, hfinite, hless, hx, mt (hb.le_iff hc).mpr hb'⟩
      obtain ⟨hinward, hlargest⟩ := Classical.not_imp.mp hcut
      have heq : (m * 2 ^ q : ℚ) = p.largest := le_antisymm hfinite (not_lt.mp hlargest)
      rw [if_pos hfinite, heq] at hv'
      rw [if_neg (heq ▸ hb'), if_pos hinward] at hw'
      exact hv'.unique hw'
    · rw [if_neg hfinite] at hv'
      rw [if_neg (mt hab.trans hfinite)] at hw'
      split_ifs at hv' hw'
      · exact hv'.unique hw'
      · exact eq_of_isInfinite hv'.1 hw'.1 (hv'.2.trans hw'.2.symm)

end BinaryFloat

end DataTransfer
