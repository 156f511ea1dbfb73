import Mathlib.Algebra.Order.Field.Power
import Mathlib.Tactic.NormNum
import DataTransfer.Proofs.Field.NumberGrammar

/-!
Decimal fields of a record in memory. Behind blanks and a sign a field is empty or a number of the grammar,
and then its digits and its exponent are those of the number; anything else is a fault at the first
character that is wrong.
-/

namespace DataTransfer.Field

/-- The exponent that an exact sum would give to the last digit, if it is within 64 bits. -/
theorem pointExponent_of_lt {rules : RealRules} {f : DecimalField}
    (hne : significantDigits (f.digits rules.edit) ≠ [])
    (hlow : -2 ^ 63 ≤ rules.scannedExponent (exponentText f.rest) +
      (significantDigits (f.digits rules.edit)).length - f.places rules.edit)
    (hhigh : rules.scannedExponent (exponentText f.rest) +
      (significantDigits (f.digits rules.edit)).length - f.places rules.edit < 2 ^ 63) :
    rules.pointExponent f - (significantDigits (f.digits rules.edit)).length =
      rules.scannedExponent (exponentText f.rest) - f.places rules.edit := by
  rw [RealRules.pointExponent, if_neg hne, wrapExponent_of_lt hlow hhigh]
  omega

theorem significant_magnitude {rules : RealRules} {f : DecimalField}
    (hlow : -2 ^ 63 ≤ rules.scannedExponent (exponentText f.rest) +
      (significantDigits (f.digits rules.edit)).length - f.places rules.edit)
    (hhigh : rules.scannedExponent (exponentText f.rest) +
      (significantDigits (f.digits rules.edit)).length - f.places rules.edit < 2 ^ 63) :
    (Nat.ofDigitChars 10 (significantDigits (f.digits rules.edit)) 0 : ℚ) *
        10 ^ (rules.pointExponent f - (significantDigits (f.digits rules.edit)).length) =
      f.number rules.edit *
        10 ^ (rules.scannedExponent (exponentText f.rest) - f.places rules.edit) := by
  by_cases hnil : significantDigits (f.digits rules.edit) = []
  · have hzero : f.number rules.edit = 0 := by
      rw [DecimalField.number, ← ofDigitChars_significantDigits, hnil]
      rfl
    rw [hzero, hnil]
    simp
  · rw [pointExponent_of_lt hnil hlow hhigh, DecimalField.number, ofDigitChars_significantDigits]

section

variable {edit : DataEdit} {limit width : ℕ} {line : Line} {negative : Bool} {body : List Char}

theorem scanReal_of_end {scanned : ScannedReal} (hbudget : edit.budget = some width)
    (hadvancing : line.connection.nonAdvancing = false)
    (hpad : line.connection.fixedLength = true → edit.modes.pad = false)
    (hreading : (RealRules.recognizer ⟨edit, limit⟩).reading .leading (line.field edit) =
      (.ok scanned, none)) :
    scanReal edit limit line =
      .ok (if line.cutsField edit then .error .recordReadOverrun else .ok scanned)
        (line.behind edit (line.field edit).length) := by
  have hrun := Line.run_of_end hadvancing hpad hreading
  cases hcuts : line.cutsField edit with
  | true =>
    rw [hcuts] at hrun
    exact attempt_bind_error hrun
  | false =>
    rw [hcuts, hbudget] at hrun
    have hbehind : (line.behind edit (line.field edit).length).connection.nonAdvancing = false :=
      hadvancing
    have hcheck := Line.checkRecordEnd_of_advancing hbehind
    refine (attempt_bind_eq hrun).trans ?_
    cases scanned <;> exact attempt_bind_eq (attempt_lift_eq (hcheck _))

theorem scanReal_of_fault {f : Fault} {left : List Char}
    (hreading : (RealRules.recognizer ⟨edit, limit⟩).reading .leading (line.field edit) =
      (.error f, some left)) :
    scanReal edit limit line =
      .ok (.error f) (line.behind edit ((line.field edit).length - left.length)) :=
  attempt_bind_eq (Line.run_of_left hreading)

/-- What becomes of a decimal field whose first character behind blanks and a sign is not a letter. It
is accepted if it ends there or goes on as a number, but for a record of fixed length that ends within
it. A number keeps its first significant digits; all of them, with the exponent that is scanned, are the
number that is written, unless this exponent has more than 64 bits: then it is what is left of it. Without
significant digits the exponent is zero. What does not start as a number, or stops being one, is a
fault. -/
theorem scanReal_grammar (limit : ℕ) {f : DecimalField} (hbudget : edit.budget = some width)
    (hadvancing : line.connection.nonAdvancing = false)
    (hpad : line.connection.fixedLength = true → edit.modes.pad = false)
    (hsign : Decimal.takeSign ((line.field edit).dropWhile (· = ' ')) = (negative, body))
    (hletter : ∀ c ∈ body.head?, c.isAlpha = false)
    (hf : DecimalField.ofUnsigned edit.decimalSymbol negative body = f) :
    ((∃ scanned t, scanReal edit limit line = .ok (.ok scanned) t) ↔
      (body = [] ∨ IsNumber edit.decimalSymbol body) ∧ line.cutsField edit = false) ∧
    (body = [] ∨ IsNumber edit.decimalSymbol body → line.cutsField edit = true →
      scanReal edit limit line =
        .ok (.error .recordReadOverrun) (line.behind edit (line.field edit).length)) ∧
    (body = [] → line.cutsField edit = false →
      scanReal edit limit line = .ok (.ok .empty) (line.behind edit (line.field edit).length)) ∧
    (IsNumber edit.decimalSymbol body → line.cutsField edit = false →
      scanReal edit limit line = .ok
        (.ok (.finite negative ((significantDigits (f.digits edit)).take limit)
          ((⟨edit, limit⟩ : RealRules).pointExponent f)
          (decide (limit < (significantDigits (f.digits edit)).length))))
        (line.behind edit (line.field edit).length) ∧
      (-2 ^ 63 ≤ (⟨edit, limit⟩ : RealRules).scannedExponent (exponentText f.rest) +
          (significantDigits (f.digits edit)).length - f.places edit →
        (⟨edit, limit⟩ : RealRules).scannedExponent (exponentText f.rest) +
          (significantDigits (f.digits edit)).length - f.places edit < 2 ^ 63 →
        (Nat.ofDigitChars 10 (significantDigits (f.digits edit)) 0 : ℚ) *
            10 ^ ((⟨edit, limit⟩ : RealRules).pointExponent f -
              (significantDigits (f.digits edit)).length) =
          f.number edit * 10 ^ ((⟨edit, limit⟩ : RealRules).scannedExponent (exponentText f.rest) -
            f.places edit))) ∧
    (∀ c bad, body = c :: bad → c.isDigit = false → c ≠ edit.decimalSymbol →
      scanReal edit limit line = .ok (.error .badRealInput)
        (line.behind edit ((line.field edit).length - bad.length))) ∧
    (∀ c cs, body = c :: cs → c.isDigit = true ∨ c = edit.decimalSymbol →
      ¬ IsNumber edit.decimalSymbol body → ∃ d bad, BreaksAt (IsNumber edit.decimalSymbol) body d bad ∧
        scanReal edit limit line = .ok (.error (.trailingCharacters d .real))
          (line.behind edit ((line.field edit).length - bad.length))) := by
  have hleading : (RealRules.recognizer ⟨edit, limit⟩).reading .leading (line.field edit) =
      (RealRules.recognizer ⟨edit, limit⟩).reading (.signed negative) body := by
    rw [Recognizer.reading_leading, hsign]
  have haccepted (h : body = [] ∨ IsNumber edit.decimalSymbol body) : ∃ scanned,
      scanReal edit limit line =
        .ok (if line.cutsField edit then .error .recordReadOverrun else .ok scanned)
          (line.behind edit (line.field edit).length) := by
    obtain ⟨scanned, hreading⟩ := RealRules.reading_accepted ⟨edit, limit⟩ negative hletter h
    exact ⟨scanned, scanReal_of_end hbudget hadvancing hpad (hleading.trans hreading)⟩
  refine ⟨⟨?_, ?_⟩, ?_, ?_, ?_, ?_, ?_⟩
  · rintro ⟨scanned, t, hscan⟩
    by_cases h : body = [] ∨ IsNumber edit.decimalSymbol body
    · obtain ⟨scanned', hend⟩ := haccepted h
      cases hcuts : line.cutsField edit with
      | false => exact ⟨h, rfl⟩
      | true =>
        rw [hcuts, hscan] at hend
        cases hend
    · obtain ⟨f, left, hreading⟩ := RealRules.reading_rejected ⟨edit, limit⟩ negative hletter h
      rw [scanReal_of_fault (hleading.trans hreading)] at hscan
      cases hscan
  · rintro ⟨h, hcuts⟩
    obtain ⟨scanned, hend⟩ := haccepted h
    rw [hcuts] at hend
    exact ⟨scanned, _, hend⟩
  · intro h hcuts
    obtain ⟨scanned, hend⟩ := haccepted h
    rwa [hcuts] at hend
  · rintro rfl hcuts
    have hend := scanReal_of_end hbudget hadvancing hpad hleading
    rwa [hcuts] at hend
  · intro hnumber hcuts
    have hreading := RealRules.reading_number ⟨edit, limit⟩ negative hletter hnumber hf
    have hend := scanReal_of_end hbudget hadvancing hpad (hleading.trans hreading)
    rw [hcuts] at hend
    exact ⟨hend, significant_magnitude⟩
  · rintro c bad rfl hdigit hsymbol
    exact scanReal_of_fault (hleading.trans
      (RealRules.reading_bad_start ⟨edit, limit⟩ negative (hletter c rfl) hdigit hsymbol))
  · rintro c cs rfl hfirst hnumber
    obtain ⟨d, bad, hbreaks, hreading⟩ :=
      RealRules.reading_trailing ⟨edit, limit⟩ negative (hletter c rfl) hfirst hnumber
    exact ⟨d, bad, hbreaks, scanReal_of_fault (hleading.trans hreading)⟩

/-- An exponent with blanks in it, and a scale factor that it takes the place of. -/
theorem scanReal_grammar_blanks :
    let edit : DataEdit := { kind := .f, width := some 9, digits := some 1, modes := { scale := 2 } }
    IsNumber '.' ['1', ' ', '2', 'E', ' ', '-', '3'] ∧
      scanReal edit 17 (Line.ofString " +1 2E -3") =
        .ok (.ok (.finite false ['1', '2'] (-2) false)) ((Line.ofString " +1 2E -3").moveBy 9) := by
  intro edit
  have hnumber : IsNumber '.' ['1', ' ', '2', 'E', ' ', '-', '3'] := by
    have hexponent : IsExponentRest [' ', '-', '3'] :=
      isExponentRest_cons.mpr (.inl ⟨rfl, isExponentRest_cons.mpr (.inr ⟨rfl, by decide⟩)⟩)
    exact ⟨['1', ' ', '2'], ['E', ' ', '-', '3'], rfl, ⟨⟨'1', rfl, .inl rfl⟩, .inl (by decide)⟩,
      .letter rfl hexponent⟩
  refine ⟨hnumber, ?_⟩
  have hsign : Decimal.takeSign (((Line.ofString " +1 2E -3").field edit).dropWhile (· = ' ')) =
      (false, ['1', ' ', '2', 'E', ' ', '-', '3']) := rfl
  obtain ⟨-, -, -, h, -, -⟩ := scanReal_grammar 17 (by rfl) (by rfl) (by rintro ⟨⟩) hsign
    (by rintro _ ⟨rfl⟩; rfl) rfl
  exact (h hnumber rfl).1

/-- A record of fixed length that is not padded and has fewer characters than the field is a fault,
though they are a number. Of more than 2^63 places that a field is to have behind its point, only 64 bits
count: `1` with 2^64 - 1 of them is read as `.1e2`. -/
theorem scanReal_overrun :
    let edit : DataEdit := { kind := .f, width := some 3, digits := some 0, modes := { pad := false } }
    let line : Line := { text := #['1', '2'], connection := { fixedLength := true, recordLength := some 2 } }
    line.connection.nonAdvancing = false ∧ edit.modes.pad = false ∧
      IsNumber edit.decimalSymbol (line.field edit) ∧
      (∃ t, scanReal edit 17 line = .ok (.error .recordReadOverrun) t) ∧
      ∃ t, scanReal { kind := .f, width := some 1, digits := some (2 ^ 64 - 1) } 17
        (Line.ofString "1") = .ok (.ok (.finite false ['1'] 2 false)) t :=
  ⟨rfl, rfl, ⟨['1', '2'], [], rfl, ⟨⟨'1', rfl, .inl rfl⟩, .inl (by decide)⟩, .none⟩, ⟨_, rfl⟩, _, rfl⟩

end

end DataTransfer.Field
