import DataTransfer.Proofs.Field.RealInput
import DataTransfer.Proofs.Numeric.DecimalVerdict

/-!
The limit of written exponents does no harm. Behind it every value is out of the format's range on the
same side as without it, unless the significand is nearly as long as the limit is large.
-/

namespace DataTransfer

open Decimal

namespace Decimal

theorem Significand.digits_digits (s : Significand) : Digits s.digits := by
  obtain ⟨whole, fraction, hwhole, hfraction⟩ := s
  cases fraction with
  | none => exact hwhole.append nofun
  | some ds => exact hwhole.append (hfraction ds rfl)

theorem Significand.places_le (s : Significand) : s.places ≤ s.digits.length := by
  simp [places, digits]

theorem Significand.decimalLength_le (s : Significand) (h : s.coefficient ≠ 0) :
    Conversion.decimalLength s.coefficient ≤ s.digits.length := by
  refine s.digits_digits.length_toDigits_le fun hnil => h ?_
  rw [coefficient, hnil]
  rfl

theorem Denotes.exists_number {cs : List Char} {negative : Bool} {digits : ℕ} {exponent : ℤ}
    (h : Denotes cs (.finite negative digits exponent)) : ∃ n : Number, n.text = cs := by
  generalize hv : DecimalValue.finite negative digits exponent = v at h
  cases h with
  | number n => exact ⟨n, rfl⟩
  | infinity sign hword => cases hv
  | nan sign hword => cases hv

end Decimal

namespace Conversion

/-- A number is rounded as if its exponent had been read in full. -/
theorem round_scale (p : Precision) (negative : Bool) (mode : RoundingMode) (s : Significand)
    (hlength : s.digits.length < 900000000) (e : ℤ) :
    round p negative mode s.coefficient (clamp e - s.places) =
      round p negative mode s.coefficient (e - s.places) := by
  by_cases hzero : s.coefficient = 0
  · simp only [round, if_pos hzero]
  have hlow := p.le_underflowMagnitude
  have hhigh := p.overflowMagnitude_le
  have hplaces := s.places_le
  have hcoefficient := s.decimalLength_le hzero
  apply round_congr
  simp only [clamp, exponentLimit]
  omega

/-- What is read as a number is converted as the exact value of its digits and of its whole exponent
is rounded. -/
theorem ofText_eq_round_exact (p : Precision) (mode : RoundingMode) {text : List Char}
    {negative : Bool} {digits : ℕ} {exponent : ℤ}
    (h : parse text = .ok (.finite negative digits exponent)) :
    (∃ n : Number, n.text = Text.trim text) ∧
      ∀ n : Number, n.text = Text.trim text → n.significand.digits.length < 900000000 →
        ofText p mode text = round p n.sign.negative mode n.significand.coefficient
          (n.scale - n.significand.places) := by
  refine ⟨?_, fun n hn hlength => ?_⟩
  · have hverdict := verdict_parse text
    rw [h] at hverdict
    cases hverdict with
    | value hvalue => exact hvalue.exists_number
  · rw [ofText, parse_number n hn.symm]
    exact round_scale p n.sign.negative mode n.significand hlength n.scale

/-- An exponent that is read as 1000000000. -/
theorem ofText_eq_round_exact_far :
    parse ".5e99999999999".toList = .ok (.finite false 5 999999999) ∧
      ofText .double .up ".5e99999999999".toList = round .double false .up 5 99999999998 := by
  have hparse : parse ".5e99999999999".toList = .ok (.finite false 5 999999999) := by decide
  have hexact := (ofText_eq_round_exact .double .up hparse).2
    ⟨.none, ⟨[], some ['5'], by decide, by decide⟩,
      some ⟨'e', .none, "99999999999".toList, by decide, by decide, by decide⟩, by decide⟩
    (by decide) (by decide)
  exact ⟨hparse, hexact⟩

end Conversion

end DataTransfer
