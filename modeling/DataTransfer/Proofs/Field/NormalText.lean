import DataTransfer.Proofs.Numeric.ExponentLimit

/-!
The text between recognition and conversion. A scanned field is spelled as digits behind a point and an
exponent, and read back as an integer of those digits and another exponent; kind, sign and value come
through. Only exponents behind the limit are read as the limit, where it makes no difference.
-/

namespace DataTransfer

inductive ValueKind where
  | number | infinity | nan
  deriving DecidableEq

namespace DecimalValue

def kind : DecimalValue → ValueKind
  | finite _ _ _ => .number
  | infinity _ => .infinity
  | nan _ => .nan

def negative : DecimalValue → Bool
  | finite negative _ _ => negative
  | infinity negative => negative
  | nan negative => negative

end DecimalValue

namespace Decimal

/-- The number that digits behind a point stand for. -/
def fractionValue : List Char → ℚ
  | [] => 0
  | c :: cs => (digitValue c + fractionValue cs) / 10

theorem ofDigitChars_eq_fractionValue (ds : List Char) :
    (Nat.ofDigitChars 10 ds 0 : ℚ) = fractionValue ds * 10 ^ ds.length := by
  induction ds with
  | nil => simp [fractionValue]
  | cons c cs ih =>
    have hfirst : Nat.ofDigitChars 10 (c :: cs) 0 =
        10 ^ cs.length * digitValue c + Nat.ofDigitChars 10 cs 0 := by
      rw [Nat.ofDigitChars_cons, Nat.ofDigitChars_eq_ofDigitChars_zero, Nat.mul_zero, Nat.zero_add]
      rfl
    rw [hfirst, fractionValue, List.length_cons, pow_succ]
    push_cast
    rw [ih]
    ring

theorem ofDigitChars_mul_zpow (ds : List Char) (exponent : ℤ) :
    (Nat.ofDigitChars 10 ds 0 * 10 ^ (exponent - ds.length) : ℚ) =
      fractionValue ds * 10 ^ exponent := by
  rw [ofDigitChars_eq_fractionValue, zpow_sub₀ (by norm_num), zpow_natCast]
  field_simp

theorem clamp_eq_self {e : ℤ} (h : |e| ≤ exponentLimit) : clamp e = e := by
  obtain ⟨hlow, hhigh⟩ := abs_le.mp h
  rw [clamp, min_eq_left hhigh, max_eq_right hlow]

end Decimal

namespace Field.ScannedReal

open Decimal

def kind : ScannedReal → ValueKind
  | empty => .number
  | finite _ _ _ _ => .number
  | infinity _ => .infinity
  | nan _ => .nan

/-- A blank field is a positive zero. -/
def negative : ScannedReal → Bool
  | empty => false
  | finite negative _ _ _ => negative
  | infinity negative => negative
  | nan negative => negative

def OfDigits : ScannedReal → Prop
  | finite _ digits _ _ => Digits digits
  | _ => True

def significand {digits : List Char} (h : Digits digits) : Significand where
  whole := []
  fraction := some digits
  whole_digits := List.forall_mem_nil _
  fraction_digits := by
    rintro _ ⟨⟩
    exact h

/-- The text of a field is converted as the whole exponent says, also behind the limit. -/
theorem ofText_decimalText (p : Precision) (mode : RoundingMode) (negative : Bool)
    {digits : List Char} (h : Digits digits) (hlength : digits.length < 900000000) (exponent : ℤ)
    (truncated : Bool) :
    Conversion.ofText p mode (finite negative digits exponent truncated).decimalText.toList =
      Conversion.round p negative mode (Nat.ofDigitChars 10 digits 0)
        (exponent - digits.length) := by
  rw [Conversion.ofText, parse_decimalText h]
  exact Conversion.round_scale p negative mode (significand h) hlength exponent

/-- The text of a scanned field is always read, with the field's kind and sign. Of a number it gives the
integer of its digits with the exponent that goes with it, as long as the field's own is within the
limit, so that no value is lost; and from any exponent its conversion is that of the exact value, unless
there are more digits than any format keeps. -/
theorem decimalText_loses_nothing (s : ScannedReal) (hs : s.OfDigits) :
    (∃ v, parse s.decimalText.toList = .ok v ∧ v.kind = s.kind ∧ v.negative = s.negative) ∧
    (s = empty → parse s.decimalText.toList = .ok (.finite false 0 0)) ∧
    ∀ negative digits exponent truncated, s = finite negative digits exponent truncated →
      (|exponent| ≤ 10 ^ 9 →
        parse s.decimalText.toList =
          .ok (.finite negative (Nat.ofDigitChars 10 digits 0) (exponent - digits.length)) ∧
        (Nat.ofDigitChars 10 digits 0 * 10 ^ (exponent - digits.length) : ℚ) =
          fractionValue digits * 10 ^ exponent) ∧
      (digits.length ≤ 11563 → ∀ (p : Precision) (mode : RoundingMode),
        Conversion.ofText p mode s.decimalText.toList =
          Conversion.round p negative mode (Nat.ofDigitChars 10 digits 0)
            (exponent - digits.length) ∧
        (Conversion.ofText p mode s.decimalText.toList).IsConversion negative mode
          (fractionValue digits * 10 ^ exponent)) := by
  refine ⟨?_, ?_, ?_⟩
  · cases s with
    | empty => exact ⟨.finite false 0 0, by decide, rfl, rfl⟩
    | finite negative digits exponent truncated =>
      exact ⟨_, parse_decimalText hs negative exponent truncated, rfl, rfl⟩
    | infinity negative =>
      refine ⟨.infinity negative, ?_, rfl, rfl⟩
      cases negative <;> decide
    | nan negative =>
      refine ⟨.nan negative, ?_, rfl, rfl⟩
      cases negative <;> decide
  · rintro rfl
    decide
  · rintro negative digits exponent truncated rfl
    refine ⟨fun hlimit => ⟨?_, ofDigitChars_mul_zpow digits exponent⟩, fun hlength p mode => ?_⟩
    · rw [parse_decimalText hs, clamp_eq_self hlimit]
    · have hround := ofText_decimalText p mode negative hs (by omega) exponent truncated
      have hconversion := Conversion.round_isConversion p negative mode
        (exponent - digits.length) (Nat.ofDigitChars 10 digits 0)
      rw [ofDigitChars_mul_zpow, ← hround] at hconversion
      exact ⟨hround, hconversion⟩

/-- Digits that start with a zero, at an exponent that is kept and at one that is not. -/
theorem decimalText_loses_nothing_far :
    (finite true ['0', '2', '5'] 3 false).OfDigits ∧
      parse "-.025e3".toList = .ok (.finite true 25 0) ∧
      (25 * 10 ^ (0 : ℤ) : ℚ) = fractionValue ['0', '2', '5'] * 10 ^ (3 : ℤ) ∧
      parse "-.025e20000000000".toList = .ok (.finite true 25 999999997) ∧
      Conversion.ofText .quad .down "-.025e20000000000".toList =
        Conversion.round .quad true .down 25 19999999997 := by
  have hdigits : Digits ['0', '2', '5'] := by decide
  obtain ⟨-, -, hnear⟩ := decimalText_loses_nothing (finite true ['0', '2', '5'] 3 false) hdigits
  obtain ⟨-, -, hfar⟩ :=
    decimalText_loses_nothing (finite true ['0', '2', '5'] 20000000000 false) hdigits
  obtain ⟨hparse, hvalue⟩ := (hnear _ _ _ _ rfl).1 (by decide)
  obtain ⟨hround, -⟩ := (hfar _ _ _ _ rfl).2 (by decide) .quad .down
  exact ⟨hdigits, hparse, hvalue, by decide, hround⟩

end Field.ScannedReal

end DataTransfer
