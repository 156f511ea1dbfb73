import DataTransfer.Proofs.Numeric.Boundary

/-!
The limit on significant decimal digits. It is enough for every finite magnitude of the format, and so
digits behind it do not take part where magnitudes are cut off. Midpoints between neighbours are longer
by a digit, and a magnitude just above one that ends at the limit differs from it only behind the limit:
the other directions need to know whether something was dropped.
-/

namespace DataTransfer

namespace Precision

variable {p : Precision} {x y z : ℚ}

theorem maxDecimalDigits_pos (p : Precision) : 0 < p.maxDecimalDigits := by
  cases p <;> decide

theorem length_least_le (p : Precision) :
    2 ^ p.significandBits * 5 ^ (-p.minQuantum).toNat ≤ 10 ^ p.maxDecimalDigits := by
  cases p <;> decide +kernel

theorem largest_lt (p : Precision) : p.largest < 10 ^ p.maxDecimalDigits := by
  have hpow : 2 ^ (p.bias + 1) ≤ 10 ^ p.maxDecimalDigits := by
    cases p <;> decide +kernel
  have hbits : (2 : ℚ) ^ p.significandBits * 2 ^ p.maxQuantum = 2 ^ (p.bias + 1) := by
    rw [← zpow_natCast, ← zpow_add₀ (by norm_num), ← zpow_natCast, maxQuantum]
    congr 1
    push_cast
    ring
  calc p.largest < (2 : ℚ) ^ p.significandBits * 2 ^ p.maxQuantum := by
        unfold largest
        gcongr
        exact_mod_cast Nat.sub_lt (by positivity) Nat.one_pos
    _ = 2 ^ (p.bias + 1) := hbits
    _ ≤ 10 ^ p.maxDecimalDigits := by exact_mod_cast hpow

theorem Representable.exists_decimal (hz : p.Representable z) (hle : z ≤ p.largest) :
    ∃ (n : ℕ) (e : ℤ), n < 10 ^ p.maxDecimalDigits ∧ z = n * 10 ^ e := by
  obtain ⟨m, q, hm, hq, rfl⟩ := hz
  rcases lt_or_ge q 0 with hneg | hpos
  · obtain ⟨k, rfl⟩ : ∃ k : ℕ, q = -k := ⟨(-q).toNat, by omega⟩
    refine ⟨m * 5 ^ k, -k, ?_, ?_⟩
    · calc m * 5 ^ k < 2 ^ p.significandBits * 5 ^ k := by gcongr
        _ ≤ 2 ^ p.significandBits * 5 ^ (-p.minQuantum).toNat := by
          gcongr
          · norm_num
          · omega
        _ ≤ 10 ^ p.maxDecimalDigits := p.length_least_le
    · have hten : (10 : ℚ) ^ k = 2 ^ k * 5 ^ k := by rw [← mul_pow]; norm_num
      rw [zpow_neg, zpow_neg, zpow_natCast, zpow_natCast, hten]
      push_cast
      field_simp
  · obtain ⟨k, rfl⟩ : ∃ k : ℕ, q = k := ⟨q.toNat, by omega⟩
    rw [zpow_natCast] at hle ⊢
    refine ⟨m * 2 ^ k, 0, ?_, by simp⟩
    exact_mod_cast hle.trans_lt p.largest_lt

/-- `x` is what the digits of `y` up to the limit say. -/
def Cut (p : Precision) (x y : ℚ) : Prop :=
  ∃ (n : ℕ) (e : ℤ), 10 ^ (p.maxDecimalDigits - 1) ≤ n ∧ x = n * 10 ^ e ∧ x ≤ y ∧
    y < (n + 1) * 10 ^ e

theorem cut_of_lt {n tail k : ℕ} {e : ℤ} (hn : 10 ^ (p.maxDecimalDigits - 1) ≤ n)
    (htail : tail < 10 ^ k) :
    p.Cut (n * 10 ^ e) ((10 ^ k * n + tail : ℕ) * 10 ^ (e - k)) := by
  have hplace : (10 : ℚ) ^ e = 10 ^ k * 10 ^ (e - k) := by
    rw [← zpow_natCast, ← zpow_add₀ (by norm_num)]
    congr 1
    ring
  refine ⟨n, e, hn, rfl, ?_, ?_⟩
  · calc (n * 10 ^ e : ℚ) = (10 ^ k * n : ℕ) * 10 ^ (e - k) := by
          rw [hplace]
          push_cast
          ring
      _ ≤ (10 ^ k * n + tail : ℕ) * 10 ^ (e - k) := by
          gcongr
          exact Nat.le_add_right _ _
  · calc ((10 ^ k * n + tail : ℕ) * 10 ^ (e - k) : ℚ)
        < (10 ^ k * n + 10 ^ k : ℕ) * 10 ^ (e - k) := by gcongr
      _ = (n + 1) * 10 ^ e := by
          rw [hplace]
          push_cast
          ring

namespace Cut

variable (h : p.Cut x y)
include h

theorem le : x ≤ y := by
  obtain ⟨_, _, -, -, hle, -⟩ := h
  exact hle

theorem lt_of_lt (hz : p.Representable z) (hle : z ≤ p.largest) (hxz : x < z) : y < z := by
  obtain ⟨n, e, hn, rfl, -, hy⟩ := h
  obtain ⟨k, r, hk, rfl⟩ := hz.exists_decimal hle
  have hlimit : ((p.maxDecimalDigits - 1 : ℕ) : ℤ) + 1 = p.maxDecimalDigits := by
    have := p.maxDecimalDigits_pos
    omega
  have her : e ≤ r := by
    have hlt : (10 : ℚ) ^ (((p.maxDecimalDigits - 1 : ℕ) : ℤ) + e) <
        10 ^ ((p.maxDecimalDigits : ℤ) + r) :=
      calc (10 : ℚ) ^ (((p.maxDecimalDigits - 1 : ℕ) : ℤ) + e)
          = (10 ^ (p.maxDecimalDigits - 1) : ℕ) * 10 ^ e := by
            rw [zpow_add₀ (by norm_num), zpow_natCast]
            push_cast
            rfl
        _ ≤ n * 10 ^ e := by gcongr
        _ < k * 10 ^ r := hxz
        _ ≤ (10 ^ p.maxDecimalDigits : ℕ) * 10 ^ r := by gcongr
        _ = 10 ^ ((p.maxDecimalDigits : ℤ) + r) := by
            rw [zpow_add₀ (by norm_num), zpow_natCast]
            push_cast
            rfl
    have := (zpow_lt_zpow_iff_right₀ (by norm_num : (1 : ℚ) < 10)).mp hlt
    omega
  -- Both are multiples of the place of the last digit.
  obtain ⟨d, rfl⟩ : ∃ d : ℕ, r = e + d := ⟨(r - e).toNat, by omega⟩
  have hmultiple : (k * 10 ^ (e + d : ℤ) : ℚ) = (k * 10 ^ d : ℕ) * 10 ^ e := by
    rw [zpow_add₀ (by norm_num), zpow_natCast]
    push_cast
    ring
  rw [hmultiple] at hxz ⊢
  have hlt : n < k * 10 ^ d := by
    exact_mod_cast lt_of_mul_lt_mul_right hxz (by positivity)
  refine hy.trans_le ?_
  gcongr
  exact_mod_cast hlt

/-- Where magnitudes are cut off, the digits up to the limit decide. -/
theorem not_splits_inward : ¬ p.Splits .inward x y := by
  rintro ⟨m, q, hc, -, hless, hx, hy⟩
  have hsucc : (m + 1) * 2 ^ q ≤ p.largest :=
    hc.succ_le (Conversion.canonical_largest p).representable (hless rfl)
  exact hy (h.lt_of_lt hc.representable_succ hsucc hx)

/-- Where magnitudes go outward, the dropped digits count just when those up to the limit make a finite
magnitude by themselves. -/
theorem splits_outward_iff : p.Splits .outward x y ↔ x < y ∧ p.Representable x ∧ x ≤ p.largest := by
  constructor
  · rintro ⟨m, q, hc, hle, -, hx, hy⟩
    have heq : x = m * 2 ^ q := by
      refine hx.lt_or_eq.resolve_left fun hlt => hy ?_
      exact (h.lt_of_lt hc.representable hle hlt).le
    subst heq
    exact ⟨not_le.mp hy, hc.representable, hle⟩
  · rintro ⟨hlt, hx, hle⟩
    obtain ⟨m, q, hc, rfl⟩ := hx.exists_canonical
    exact ⟨m, q, hc, hle, nofun, le_rfl, hlt.not_ge⟩

end Cut

end Precision

namespace Conversion

variable {p : Precision} {negative : Bool} {mode : RoundingMode} {x y : ℚ}

/-- `c` is what `±y` becomes when only the digits of `x` are kept, and `full` is the conversion of `±y`
itself. -/
structure Drops (negative : Bool) (mode : RoundingMode) (x y : ℚ) (c full : Conversion p) : Prop where
  full_isConversion : full.IsConversion negative mode y
  /-- Apart from being inexact, `c` is the conversion of `±x`. -/
  of_kept : ∃ kept : Conversion p, kept.IsConversion negative mode x ∧
    c = { kept with flags := { kept.flags with inexact := true } }
  value_eq_iff : c.value = full.value ↔ ¬ p.Splits (mode.heading negative) x y
  inward : mode.heading negative = .inward → c.value = full.value
  outward : mode.heading negative = .outward →
    (c.value = full.value ↔ x = y ∨ ¬ (p.Representable x ∧ x ≤ p.largest))

theorem drops_of_cut (h : p.Cut x y) {kept full : Conversion p}
    (hkept : kept.IsConversion negative mode x) (hfull : full.IsConversion negative mode y) :
    Drops negative mode x y { kept with flags := { kept.flags with inexact := true } } full := by
  have hiff := hkept.value.eq_iff hfull.value h.le
  refine ⟨hfull, ⟨kept, hkept, rfl⟩, hiff, fun hinward => ?_, fun houtward => ?_⟩
  · refine hiff.mpr ?_
    rw [hinward]
    exact h.not_splits_inward
  · refine hiff.trans ?_
    rw [houtward, h.splits_outward_iff, not_and_or, not_lt]
    exact or_congr ⟨fun hle => le_antisymm h.le hle, fun heq => heq.ge⟩ Iff.rfl

end Conversion

end DataTransfer
