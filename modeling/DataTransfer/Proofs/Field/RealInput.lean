import DataTransfer.Field.Line
import DataTransfer.Proofs.Field.Scan
import DataTransfer.Proofs.Numeric.Magnitude

/-!
Input of a REAL item, from the text of its field to the bits of its value. Exponents are cut twice on
the way, when they are scanned and when the scanned text is read back, and both times so far out that
the value is beyond the format already.
-/

namespace DataTransfer

theorem Precision.overflowMagnitude_le (p : Precision) : p.overflowMagnitude ≤ 10 ^ 4 := by
  cases p <;> decide

theorem Precision.le_underflowMagnitude (p : Precision) : -10 ^ 4 ≤ p.underflowMagnitude := by
  cases p <;> decide

theorem Conversion.round_congr {p : Precision} (negative : Bool) (mode : RoundingMode) {digits : ℕ}
    {d e : ℤ}
    (h : d = e ∨
      p.overflowMagnitude < decimalLength digits + d ∧ p.overflowMagnitude < decimalLength digits + e ∨
      decimalLength digits + d < p.underflowMagnitude ∧
        decimalLength digits + e < p.underflowMagnitude) :
    round p negative mode digits d = round p negative mode digits e := by
  rcases h with rfl | ⟨hd, he⟩ | ⟨hd, he⟩
  · rfl
  · simp only [round, if_pos hd, if_pos he]
  · have hsides : p.underflowMagnitude ≤ p.overflowMagnitude := by cases p <;> decide
    simp only [round, if_neg (show ¬ p.overflowMagnitude < decimalLength digits + d by omega),
      if_neg (show ¬ p.overflowMagnitude < decimalLength digits + e by omega), if_pos hd, if_pos he]

namespace Field

open Decimal

variable {σ : Type} [FieldSource σ]

/-- The exponent is scanned as it is written, unless both are far out on the same side. -/
theorem scannedExponent_eq (rules : RealRules) (f : DecimalField) :
    rules.scannedExponent (exponentText f.rest) = f.exponent rules.edit ∨
      Decimal.exponentLimit ≤ rules.scannedExponent (exponentText f.rest) ∧
        Decimal.exponentLimit ≤ f.exponent rules.edit ∨
      rules.scannedExponent (exponentText f.rest) ≤ -Decimal.exponentLimit ∧
        f.exponent rules.edit ≤ -Decimal.exponentLimit := by
  unfold RealRules.scannedExponent DecimalField.exponent
  cases writtenExponent? rules.edit.modes.blankZero (exponentText f.rest) with
  | none => exact .inl rfl
  | some e =>
    simp only [Option.map_some, Option.getD_some, clamp, Decimal.exponentLimit]
    omega

theorem scannedExponent_inRange (rules : RealRules) (hscale : rules.edit.modes.scale.natAbs ≤ 2 ^ 31)
    (text : List Char) :
    -2 ^ 31 ≤ rules.scannedExponent text ∧ rules.scannedExponent text ≤ 2 ^ 31 := by
  unfold RealRules.scannedExponent
  cases writtenExponent? rules.edit.modes.blankZero text with
  | none =>
    rw [Option.map_none, Option.getD_none, RealRules.defaultExponent]
    omega
  | some e =>
    rw [Option.map_some, Option.getD_some, clamp, Decimal.exponentLimit]
    omega

theorem scanReal_accepts {edit : DataEdit} {limit : ℕ} {s t : σ} {scanned : ScannedReal}
    (h : scanReal edit limit s = .ok (.ok scanned) t) :
    (RealRules.recognizer ⟨edit, limit⟩).onList .leading (text edit s) = (.ok scanned, []) := by
  unfold scanReal at h
  obtain ⟨⟨result, left⟩, u, hrun, h⟩ := attempt_bind_inv h
  obtain ⟨value, v, hlift, hrest⟩ := attempt_bind_inv h
  obtain rfl : result = .ok value := by
    cases result with
    | ok a =>
      cases hlift
      rfl
    | error f => cases hlift
  have hvalue : value = scanned := by
    dsimp only at hrest
    split at hrest
    · obtain ⟨_, w, -, hcheck⟩ := attempt_bind_inv hrest
      obtain ⟨_, x, -, hpure⟩ := attempt_bind_inv hcheck
      exact (attempt_pure_inv hpure).1
    · obtain ⟨_, x, -, hpure⟩ := attempt_bind_inv hrest
      exact (attempt_pure_inv hpure).1
  rw [← hvalue]
  exact (Recognizer.run_accepts RealRules.readsOn hrun).2

/-- The exponent that is read back differs from the exact one only out of range. -/
theorem round_scanned (p : Precision) (mode : RoundingMode) (rules : RealRules) (f : DecimalField)
    (hdigits : Digits (f.digits rules.edit)) (hlength : (f.digits rules.edit).length < 10 ^ 8)
    (hplaces : f.places rules.edit < 10 ^ 8) (hscale : rules.edit.modes.scale.natAbs ≤ 2 ^ 31) :
    Conversion.round p f.negative mode (f.number rules.edit)
        (clamp (rules.pointExponent f) - (significantDigits (f.digits rules.edit)).length) =
      Conversion.round p f.negative mode (f.number rules.edit)
        (f.exponent rules.edit - f.places rules.edit) := by
  have hscanned := scannedExponent_eq rules f
  by_cases hzero : f.number rules.edit = 0
  · simp [Conversion.round, hzero]
  have hne : significantDigits (f.digits rules.edit) ≠ [] := by
    intro hnil
    apply hzero
    rw [DecimalField.number, ← ofDigitChars_significantDigits, hnil]
    rfl
  have hcount : (significantDigits (f.digits rules.edit)).length ≤ (f.digits rules.edit).length :=
    (List.dropWhile_sublist _).length_le
  have hlong : Conversion.decimalLength (f.number rules.edit) ≤ (f.digits rules.edit).length := by
    apply hdigits.length_toDigits_le
    intro hnil
    exact hne (by rw [hnil]; rfl)
  have hshort : 0 < Conversion.decimalLength (f.number rules.edit) := Nat.length_toDigits_pos
  have hover := p.overflowMagnitude_le
  have hunder := p.le_underflowMagnitude
  have hinRange := scannedExponent_inRange rules hscale (exponentText f.rest)
  rw [RealRules.pointExponent, if_neg hne, wrapExponent_of_lt (by omega) (by omega)]
  apply Conversion.round_congr
  simp only [clamp, Decimal.exponentLimit] at hscanned ⊢
  omega

/-- The bits of a decimal field are those of its exact value, correctly rounded, and so are the flags.
Scale factors have 32 bits. -/
theorem editReal_isConversion (p : Precision) {edit : DataEdit} {s t : σ} {negative truncated : Bool}
    {digits : List Char} {exponent : ℤ} (hkind : edit.kind.editsDecimal = true)
    (hscan : scanReal edit p.maxDecimalDigits s =
      .ok (.ok (.finite negative digits exponent truncated)) t)
    (hlength : (text edit s).length < 10 ^ 8) (hplaces : edit.digits.getD 0 < 10 ^ 8)
    (hscale : edit.modes.scale.natAbs ≤ 2 ^ 31) {f : DecimalField}
    (hf : DecimalField.ofText edit.decimalSymbol (text edit s) = f)
    (hsignificant : (significantDigits (f.digits edit)).length ≤ p.maxDecimalDigits) :
    ∃ c : Conversion p, editReal p edit s = .ok (.ok c) t ∧
      c.IsConversion f.negative edit.modes.round (f.magnitude edit) ∧
      ∀ v : BinaryFloat p, v.IsRounding f.negative edit.modes.round (f.magnitude edit) →
        v = c.value := by
  have hempty : ScannedReal.finite negative digits exponent truncated ≠ .empty := nofun
  have hvalue := RealRules.scanned_eq hf rfl hempty (scanReal_accepts hscan) hsignificant
  have hbits : edit.kind.isBitPattern = false := by
    cases hk : edit.kind <;> simp [hk, EditKind.editsDecimal, EditKind.isBitPattern] at hkind ⊢
  have hdigits : Digits (f.digits edit) := hf ▸ DecimalField.digits_ofText edit _ _
  have hkept : Digits (significantDigits (f.digits edit)) :=
    fun c hc => hdigits c ((List.dropWhile_sublist _).subset hc)
  have hshort := DecimalField.length_digits_le edit edit.decimalSymbol (text edit s)
  have hfew := DecimalField.places_le edit edit.decimalSymbol (text edit s)
  rw [hf] at hshort hfew
  have hconvert : (ScannedReal.finite negative digits exponent truncated).convert p edit.modes.round =
      Conversion.round p f.negative edit.modes.round (f.number edit)
        (f.exponent edit - f.places edit) := by
    rw [hvalue, ScannedReal.convert_eq_round _ _ _ hkept, ofDigitChars_significantDigits]
    exact round_scanned p edit.modes.round ⟨edit, p.maxDecimalDigits⟩ f hdigits
      (hshort.trans_lt hlength) (hfew.trans_lt (max_lt hlength hplaces)) hscale
  have hconversion := Conversion.round_isConversion p f.negative edit.modes.round
    (f.exponent edit - f.places edit) (f.number edit)
  rw [← hconvert] at hconversion
  refine ⟨_, ?_, hconversion, ?_⟩
  · unfold editReal
    rw [if_neg (by simp [hbits]), if_pos hkind, attempt_bind_eq hscan]
    rfl
  · intro v hv
    exact hv.unique hconversion.value

/-- Blanks that are zeros, an implied decimal symbol and an exponent: `-10250 * 10^(1-2)`. -/
theorem editReal_isConversion_blanks :
    ∃ c t, editReal .double
        { kind := .f, width := some 9, digits := some 2, modes := { blankZero := true } }
        ({ text := #[' ', '-', '1', ' ', '2', '5', ' ', 'E', '1'] } : Line) = .ok (.ok c) t ∧
      c.IsConversion true .tiesToEven 1025 := by
  have hscan : scanReal
      { kind := .f, width := some 9, digits := some 2, modes := { blankZero := true } }
      Precision.double.maxDecimalDigits
      ({ text := #[' ', '-', '1', ' ', '2', '5', ' ', 'E', '1'] } : Line) =
        .ok (.ok (.finite true ['1', '0', '2', '5', '0'] 4 false))
          { text := #[' ', '-', '1', ' ', '2', '5', ' ', 'E', '1'], connection := { position := 9 } } := by
    rfl
  have hmagnitude : (1025 : ℚ) = DecimalField.magnitude
      { negative := true, whole := ['1', ' ', '2', '5', ' '], fraction := none, rest := ['E', '1'] }
      { kind := .f, width := some 9, digits := some 2, modes := { blankZero := true } } := by
    change (1025 : ℚ) = (10250 : ℕ) * 10 ^ ((1 : ℤ) - (2 : ℕ))
    norm_num
  obtain ⟨c, hedit, hc, -⟩ := editReal_isConversion .double rfl hscan (by decide) (by decide) (by decide) rfl
    (by decide)
  rw [hmagnitude]
  exact ⟨c, _, hedit, hc⟩

end Field

end DataTransfer
