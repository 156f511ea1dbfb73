import DataTransfer.Numeric.Conversion
import DataTransfer.Proofs.Numeric.Representable

/-!
What an encoding stands for, read from its three fields, and that a sign and a canonical magnitude
have exactly one encoding.
-/

namespace DataTransfer

namespace Precision

theorem totalBits_eq (p : Precision) : p.totalBits = p.exponentBits + p.fieldBits + 1 := by
  cases p <;> rfl

theorem maxBiased_lt (p : Precision) : p.maxBiased + 1 < 2 ^ p.exponentBits := by
  cases p <;> decide

theorem fieldBits_eq (p : Precision) :
    p.fieldBits = if p.explicitLead then p.significandBits else p.significandBits - 1 := by
  cases p <;> rfl

theorem quantum_range (p : Precision) :
    p.minQuantum + (p.maxBiased - 1 : ℕ) = p.maxQuantum ∧
      p.minQuantum + ((p.significandBits : ℤ) - 1) + p.bias = 1 := by
  cases p <;> decide

end Precision

namespace BinaryFloat

variable {p : Precision}

def significand (x : BinaryFloat p) : ℕ :=
  if p.explicitLead || x.biasedExponent = 0 then x.field else 2 ^ p.fieldBits + x.field

/-- Subnormal encodings share the quantum of the least normal ones. -/
def quantum (x : BinaryFloat p) : ℤ := p.minQuantum + (x.biasedExponent - 1 : ℕ)

/-- `x` is a finite encoding of `±y`: its leading bit is missing exactly in the subnormal ones. -/
structure Encodes (x : BinaryFloat p) (negative : Bool) (y : ℚ) : Prop where
  finite : x.biasedExponent ≤ p.maxBiased
  lead : x.biasedExponent = 0 ↔ x.significand < 2 ^ (p.significandBits - 1)
  sign : x.isNegative = negative
  magnitude : y = x.significand * 2 ^ x.quantum

/-- `v` is the value that `±x` becomes: a rounded magnitude that is still finite is stored, and one
that is not becomes an infinity, or the largest finite value where values are cut off. -/
def IsRounding (negative : Bool) (mode : RoundingMode) (x : ℚ) (v : BinaryFloat p) : Prop :=
  ∃ y, p.Rounds (mode.heading negative) x y ∧
    if y ≤ p.largest then v.Encodes negative y
    else if mode.heading negative = .inward then v.Encodes negative p.largest
    else v.isInfinite = true ∧ v.isNegative = negative

/-! ### The fields of an assembled encoding -/

theorem exponent_field_lt {biased : ℕ} (field : ℕ) (hb : biased < 2 ^ p.exponentBits) :
    biased * 2 ^ p.fieldBits + field % 2 ^ p.fieldBits < 2 ^ (p.exponentBits + p.fieldBits) :=
  calc biased * 2 ^ p.fieldBits + field % 2 ^ p.fieldBits
      < biased * 2 ^ p.fieldBits + 2 ^ p.fieldBits :=
        Nat.add_lt_add_left (Nat.mod_lt _ (by positivity)) _
    _ = (biased + 1) * 2 ^ p.fieldBits := by ring
    _ ≤ 2 ^ p.exponentBits * 2 ^ p.fieldBits := Nat.mul_le_mul_right _ hb
    _ = 2 ^ (p.exponentBits + p.fieldBits) := (pow_add _ _ _).symm

theorem toNat_ofParts (negative : Bool) {biased : ℕ} (field : ℕ)
    (hb : biased < 2 ^ p.exponentBits) :
    (ofParts p negative biased field).bits.toNat =
      negative.toNat * 2 ^ (p.exponentBits + p.fieldBits) + biased * 2 ^ p.fieldBits +
        field % 2 ^ p.fieldBits := by
  have hf : field % 2 ^ p.fieldBits < 2 ^ p.fieldBits := Nat.mod_lt _ (by positivity)
  have hlow := exponent_field_lt field hb
  have hsign : (if negative then 2 ^ (p.totalBits - 1) else 0 : ℕ) =
      negative.toNat <<< (p.exponentBits + p.fieldBits) := by
    rw [p.totalBits_eq, Nat.add_sub_cancel]
    cases negative <;> simp [Nat.shiftLeft_eq]
  have hor : negative.toNat <<< (p.exponentBits + p.fieldBits) ||| biased <<< p.fieldBits |||
      field % 2 ^ p.fieldBits =
      negative.toNat * 2 ^ (p.exponentBits + p.fieldBits) + (biased * 2 ^ p.fieldBits +
        field % 2 ^ p.fieldBits) := by
    rw [Nat.or_assoc, ← Nat.shiftLeft_add_eq_or_of_lt hf, Nat.shiftLeft_eq biased,
      ← Nat.shiftLeft_add_eq_or_of_lt hlow, Nat.shiftLeft_eq]
  have hfits : negative.toNat * 2 ^ (p.exponentBits + p.fieldBits) + (biased * 2 ^ p.fieldBits +
      field % 2 ^ p.fieldBits) < 2 ^ p.totalBits := by
    have : negative.toNat ≤ 1 := by cases negative <;> simp
    rw [p.totalBits_eq, pow_succ]
    nlinarith
  unfold ofParts ofBits
  rw [BitVec.toNat_ofNat, hsign, hor, Nat.mod_eq_of_lt hfits, Nat.add_assoc]

section Fields

variable (negative : Bool) {biased : ℕ} (field : ℕ) (hb : biased < 2 ^ p.exponentBits)
include hb

theorem field_ofParts : (ofParts p negative biased field).field = field % 2 ^ p.fieldBits := by
  unfold BinaryFloat.field
  rw [toNat_ofParts negative field hb, pow_add, ← mul_assoc, ← add_mul, Nat.mul_add_mod',
    Nat.mod_mod]

theorem biasedExponent_ofParts : (ofParts p negative biased field).biasedExponent = biased := by
  have hf : field % 2 ^ p.fieldBits < 2 ^ p.fieldBits := Nat.mod_lt _ (by positivity)
  unfold biasedExponent
  rw [toNat_ofParts negative field hb, pow_add, ← mul_assoc, ← add_mul, Nat.shiftRight_eq_div_pow,
    Nat.mul_comm _ (2 ^ p.fieldBits), Nat.mul_add_div (by positivity), Nat.div_eq_of_lt hf,
    Nat.add_zero, Nat.mul_add_mod', Nat.mod_eq_of_lt hb]

theorem isNegative_ofParts : (ofParts p negative biased field).isNegative = negative := by
  have hlow := exponent_field_lt field hb
  unfold isNegative
  rw [toNat_ofParts negative field hb, p.totalBits_eq, Nat.add_sub_cancel, Nat.add_assoc,
    Nat.mul_comm, Nat.testBit_two_pow_mul_add _ hlow]
  cases negative <;> simp

end Fields

theorem toNat_bits (x : BinaryFloat p) :
    x.bits.toNat = x.isNegative.toNat * 2 ^ (p.exponentBits + p.fieldBits) +
      x.biasedExponent * 2 ^ p.fieldBits + x.field := by
  have hlt : x.bits.toNat < 2 ^ (p.exponentBits + p.fieldBits) * 2 :=
    calc x.bits.toNat < 2 ^ p.totalBits := x.bits.isLt
      _ = _ := by rw [p.totalBits_eq, pow_succ]
  have htop : x.bits.toNat / 2 ^ (p.exponentBits + p.fieldBits) < 2 := Nat.div_lt_of_lt_mul hlt
  have hs : x.isNegative.toNat = x.bits.toNat / 2 ^ (p.exponentBits + p.fieldBits) := by
    have ht : p.totalBits - 1 = p.exponentBits + p.fieldBits := by
      rw [p.totalBits_eq, Nat.add_sub_cancel]
    rw [isNegative, ht, Nat.testBit_eq_decide_div_mod_eq, Nat.mod_eq_of_lt htop]
    interval_cases x.bits.toNat / 2 ^ (p.exponentBits + p.fieldBits) <;> rfl
  have hb : x.biasedExponent = x.bits.toNat / 2 ^ p.fieldBits % 2 ^ p.exponentBits := by
    rw [biasedExponent, Nat.shiftRight_eq_div_pow]
  have hlow := Nat.div_add_mod x.bits.toNat (2 ^ p.fieldBits)
  have hhigh := Nat.div_add_mod (x.bits.toNat / 2 ^ p.fieldBits) (2 ^ p.exponentBits)
  rw [Nat.div_div_eq_div_mul, ← pow_add, add_comm p.fieldBits] at hhigh
  rw [hs, hb, BinaryFloat.field]
  calc x.bits.toNat = 2 ^ p.fieldBits * (x.bits.toNat / 2 ^ p.fieldBits) +
        x.bits.toNat % 2 ^ p.fieldBits := hlow.symm
    _ = 2 ^ p.fieldBits * (2 ^ p.exponentBits *
          (x.bits.toNat / 2 ^ (p.exponentBits + p.fieldBits)) +
          x.bits.toNat / 2 ^ p.fieldBits % 2 ^ p.exponentBits) +
        x.bits.toNat % 2 ^ p.fieldBits := by rw [hhigh]
    _ = _ := by rw [pow_add]; ring

theorem ext_fields {x y : BinaryFloat p} (hs : x.isNegative = y.isNegative)
    (hb : x.biasedExponent = y.biasedExponent) (hf : x.field = y.field) : x = y := by
  have h : x.bits.toNat = y.bits.toNat := by rw [toNat_bits x, toNat_bits y, hs, hb, hf]
  cases x
  cases y
  exact congrArg _ (BitVec.eq_of_toNat_eq h)

/-! ### Encoding a canonical magnitude -/

section Encode

variable {m : ℕ} {q : ℤ} (negative : Bool)

/-- The stored significand field holds everything but an implied leading bit. -/
theorem significand_ofParts_normal {biased : ℕ} (hb : biased < 2 ^ p.exponentBits)
    (hb0 : biased ≠ 0) (hfits : m < 2 ^ p.significandBits)
    (hlead : 2 ^ (p.significandBits - 1) ≤ m) :
    (ofParts p negative biased
      (if p.explicitLead then m else m - 2 ^ (p.significandBits - 1))).significand = m := by
  have htwo := p.two_pow_significandBits
  have hfield := p.fieldBits_eq
  rw [significand, biasedExponent_ofParts negative _ hb, field_ofParts negative _ hb]
  cases he : p.explicitLead with
  | true =>
    rw [he, if_pos rfl] at hfield
    simp [hfield, Nat.mod_eq_of_lt hfits]
  | false =>
    rw [he, if_neg (by simp)] at hfield
    have hlt : m - 2 ^ (p.significandBits - 1) < 2 ^ (p.significandBits - 1) := by omega
    simp only [hb0, hfield, Bool.false_or, decide_false, Bool.false_eq_true, if_false,
      Nat.mod_eq_of_lt hlt]
    omega

theorem significand_ofParts_subnormal (hlead : m < 2 ^ (p.significandBits - 1)) :
    (ofParts p negative 0 m).significand = m := by
  have hb : 0 < 2 ^ p.exponentBits := by positivity
  have hfield := p.fieldBits_eq
  have hmod : m % 2 ^ p.fieldBits = m := by
    refine Nat.mod_eq_of_lt (lt_of_lt_of_le hlead (Nat.pow_le_pow_right (by norm_num) ?_))
    rw [hfield]
    split_ifs <;> omega
  rw [significand, biasedExponent_ofParts negative m hb, field_ofParts negative m hb, hmod]
  simp

theorem encodes_subnormal (hlead : m < 2 ^ (p.significandBits - 1)) :
    (ofParts p negative 0 m).Encodes negative (m * 2 ^ p.minQuantum) := by
  have hb : 0 < 2 ^ p.exponentBits := by positivity
  have hexp := biasedExponent_ofParts (p := p) negative m hb
  have hsig := significand_ofParts_subnormal negative hlead
  refine ⟨hexp.trans_le (Nat.zero_le _), ?_, isNegative_ofParts negative m hb, ?_⟩
  · rw [hexp, hsig]
    simpa using hlead
  · rw [hsig, quantum, hexp]
    simp

theorem encodes_normal (hfits : m < 2 ^ p.significandBits)
    (hlead : 2 ^ (p.significandBits - 1) ≤ m) (hmin : p.minQuantum ≤ q) (hmax : q ≤ p.maxQuantum) :
    (ofParts p negative (q + ((p.significandBits : ℤ) - 1) + p.bias).toNat
      (if p.explicitLead then m else m - 2 ^ (p.significandBits - 1))).Encodes negative
        (m * 2 ^ q) := by
  obtain ⟨hrange, hone⟩ := p.quantum_range
  have htop := p.maxBiased_lt
  obtain ⟨d, rfl⟩ : ∃ d : ℕ, q = p.minQuantum + d := ⟨(q - p.minQuantum).toNat, by omega⟩
  have hbiased : (p.minQuantum + d + ((p.significandBits : ℤ) - 1) + p.bias).toNat = d + 1 := by
    omega
  have hle : d + 1 ≤ p.maxBiased := by
    have : 0 < p.maxBiased := by cases p <;> decide
    omega
  have hb : d + 1 < 2 ^ p.exponentBits := by omega
  rw [hbiased]
  have hexp := biasedExponent_ofParts (p := p) negative
    (if p.explicitLead then m else m - 2 ^ (p.significandBits - 1)) hb
  have hsig := significand_ofParts_normal (p := p) negative hb (by omega) hfits hlead
  refine ⟨hexp.trans_le hle, ?_, isNegative_ofParts negative _ hb, ?_⟩
  · rw [hexp, hsig]
    omega
  · rw [hsig, quantum, hexp, Nat.add_sub_cancel]

theorem encodes_encode (h : p.Canonical m q) (hq : q ≤ p.maxQuantum) :
    (Conversion.encode p negative m q).Encodes negative (m * 2 ^ q) := by
  unfold Conversion.encode
  by_cases hlead : m < 2 ^ (p.significandBits - 1)
  · have hleast : q = p.minQuantum := by
      by_contra hne
      exact absurd (h.full hne) (by omega)
    simp only [if_pos hlead]
    exact hleast ▸ encodes_subnormal negative hlead
  · simp only [if_neg hlead]
    exact encodes_normal negative h.fits (by omega) h.least hq

theorem encodes_maxFinite : (maxFinite p negative).Encodes negative p.largest := by
  have hq := p.minQuantum_lt_maxQuantum.le
  have htwo := p.two_pow_significandBits
  have hpos : 0 < 2 ^ (p.significandBits - 1) := by positivity
  have h := encodes_normal (p := p) negative (m := 2 ^ p.significandBits - 1) (q := p.maxQuantum)
    (by omega) (by omega) hq le_rfl
  have hparts : (p.maxQuantum + ((p.significandBits : ℤ) - 1) + p.bias).toNat = p.maxBiased ∧
      (if p.explicitLead then 2 ^ p.significandBits - 1
        else 2 ^ p.significandBits - 1 - 2 ^ (p.significandBits - 1)) = 2 ^ p.fieldBits - 1 := by
    cases p <;> decide
  rw [hparts.1, hparts.2] at h
  exact h

theorem isInfinite_infinity :
    (infinity p negative).isInfinite = true ∧ (infinity p negative).isNegative = negative := by
  have hfield : (if p.explicitLead then 2 ^ (p.fieldBits - 1) else 0) % 2 ^ p.fieldBits =
      if p.explicitLead then 2 ^ (p.fieldBits - 1) else 0 := by
    cases p <;> decide
  unfold infinity
  refine ⟨?_, isNegative_ofParts negative _ p.maxBiased_lt⟩
  rw [isInfinite, biasedExponent_ofParts negative _ p.maxBiased_lt,
    field_ofParts negative _ p.maxBiased_lt, hfield]
  simp

end Encode

/-! ### One encoding for each value -/

theorem field_lt (x : BinaryFloat p) : x.field < 2 ^ p.fieldBits := Nat.mod_lt _ (by positivity)

namespace Encodes

variable {x y : BinaryFloat p} {negative : Bool} {r : ℚ}

theorem magnitude_unique {t : ℚ} (hr : x.Encodes negative r) (ht : x.Encodes negative t) : r = t :=
  hr.magnitude.trans ht.magnitude.symm

theorem canonical (h : x.Encodes negative r) : p.Canonical x.significand x.quantum := by
  have hfield := x.field_lt
  have hbits := p.fieldBits_eq
  have htwo := p.two_pow_significandBits
  refine ⟨?_, by unfold quantum; omega, fun hq => ?_⟩
  · cases he : p.explicitLead with
    | true =>
      rw [he, if_pos rfl] at hbits
      simpa [significand, he, hbits] using hfield
    | false =>
      rw [he, if_neg (by simp)] at hbits
      rw [hbits] at hfield
      simp only [significand, he, Bool.false_or, hbits]
      split_ifs <;> omega
  · have hne : x.biasedExponent ≠ 0 := by
      intro h0
      simp [quantum, h0] at hq
    exact Nat.le_of_not_lt fun hlt => hne (h.lead.mpr hlt)

theorem biasedExponent_eq (h : x.Encodes negative r) :
    x.biasedExponent =
      if x.significand < 2 ^ (p.significandBits - 1) then 0
      else (x.quantum - p.minQuantum).toNat + 1 := by
  have hlead := h.lead
  unfold quantum
  split_ifs with hs
  · exact hlead.mpr hs
  · have : x.biasedExponent ≠ 0 := fun h0 => hs (hlead.mp h0)
    omega

theorem unique (hx : x.Encodes negative r) (hy : y.Encodes negative r) : x = y := by
  obtain ⟨hs, hq⟩ := hx.canonical.unique hy.canonical (hx.magnitude.symm.trans hy.magnitude)
  have hb : x.biasedExponent = y.biasedExponent := by
    rw [hx.biasedExponent_eq, hy.biasedExponent_eq, hs, hq]
  refine ext_fields (hx.sign.trans hy.sign.symm) hb ?_
  unfold significand at hs
  rw [hb] at hs
  split_ifs at hs <;> omega

end Encodes

theorem eq_of_isInfinite {x y : BinaryFloat p} (hx : x.isInfinite = true)
    (hy : y.isInfinite = true) (hs : x.isNegative = y.isNegative) : x = y := by
  simp only [isInfinite, Bool.and_eq_true, decide_eq_true_eq] at hx hy
  exact ext_fields hs (hx.1.trans hy.1.symm) (hx.2.trans hy.2.symm)

theorem IsRounding.unique {negative : Bool} {mode : RoundingMode} {x : ℚ} {v w : BinaryFloat p}
    (hv : v.IsRounding negative mode x) (hw : w.IsRounding negative mode x) : v = w := by
  obtain ⟨y, hy, hv⟩ := hv
  obtain ⟨z, hz, hw⟩ := hw
  obtain rfl := hy.unique hz
  split_ifs at hv hw
  · exact hv.unique hw
  · exact hv.unique hw
  · exact eq_of_isInfinite hv.1 hw.1 (hv.2.trans hw.2.symm)

end BinaryFloat

end DataTransfer
