import DataTransfer.Proofs.Field.Line
import DataTransfer.Proofs.Field.NumberGrammar

/-!
Blanks in decimal fields that are not zeros. The scanner passes over them at every place of a number and
before its sign, but not between the sign and what follows it; so fields that differ in blanks alone are
read alike unless one of them has a blank there.
-/

namespace DataTransfer.Field

def withoutBlanks (cs : List Char) : List Char := cs.filter (· ≠ ' ')

def blankBehindSign (cs : List Char) : Bool :=
  (Decimal.takeSign (cs.dropWhile (· = ' '))).2.head? = some ' '

section

variable {c : Char} {cs : List Char}

theorem withoutBlanks_cons (hc : c ≠ ' ') (cs : List Char) :
    withoutBlanks (c :: cs) = c :: withoutBlanks cs :=
  List.filter_cons_of_pos (by simpa using hc)

theorem withoutBlanks_dropWhile (cs : List Char) :
    withoutBlanks (cs.dropWhile (· = ' ')) = withoutBlanks cs := by
  induction cs with
  | nil => rfl
  | cons c cs ih =>
    by_cases hc : c = ' '
    · subst hc
      exact ih
    · rw [List.dropWhile_cons_of_neg (by simpa using hc)]

theorem dropWhile_withoutBlanks (cs : List Char) :
    (withoutBlanks cs).dropWhile (· = ' ') = withoutBlanks cs := by
  cases hcs : withoutBlanks cs with
  | nil => rfl
  | cons c rest =>
    have hmem : c ∈ withoutBlanks cs := hcs ▸ List.mem_cons_self
    have hc : c ≠ ' ' := by simpa using (List.mem_filter.mp hmem).2
    exact List.dropWhile_cons_of_neg (by simpa using hc)

theorem takeSign_withoutBlanks (h : ∀ c ∈ cs.head?, c ≠ ' ') :
    Decimal.takeSign (withoutBlanks cs) =
      ((Decimal.takeSign cs).1, withoutBlanks (Decimal.takeSign cs).2) := by
  cases cs with
  | nil => rfl
  | cons c cs =>
    by_cases hminus : c = '-'
    · subst hminus
      rfl
    by_cases hplus : c = '+'
    · subst hplus
      rfl
    rw [withoutBlanks_cons (h c rfl), Decimal.takeSign_of_ne (by simpa using ⟨hminus, hplus⟩),
      Decimal.takeSign_of_ne (by simpa using ⟨hminus, hplus⟩), withoutBlanks_cons (h c rfl)]

end

namespace RealRules

variable {rules : RealRules} {phase : RealPhase} {p : Place} {c : Char} {cs : List Char}
variable {negative : Bool}

theorem step_blank (hblank : rules.edit.modes.blankZero = false) (h : phase.place? = some p) :
    rules.step phase ' ' = .more phase := by
  cases phase with
  | mantissa m => simp [step, pushMantissa, hblank]
  | exponentLetter m => rfl
  | exponent m negative value =>
    have hdigit : ' '.isDigit = false := by decide
    simp [step, pushExponent, hdigit, hblank]
  | trailing result => cases h
  | word negative letters => cases h
  | payload negative => cases h

theorem reading_body_withoutBlanks (hblank : rules.edit.modes.blankZero = false)
    (h : phase.place? = some p) (cs : List Char) :
    (rules.recognizer.reading (.body phase) cs).1 =
      (rules.recognizer.reading (.body phase) (withoutBlanks cs)).1 := by
  induction cs generalizing phase p with
  | nil => rfl
  | cons c cs ih =>
    by_cases hc : c = ' '
    · subst hc
      rw [rules.reading_body, step_blank hblank h]
      exact ih h
    rw [withoutBlanks_cons hc, rules.reading_body, rules.reading_body]
    have hgoes := rules.step_goesTo h c
    cases hnext : p.next rules.edit.decimalSymbol c with
    | none =>
      rw [hnext] at hgoes
      rw [show rules.step phase c = _ from hgoes]
    | some q =>
      rw [hnext] at hgoes
      obtain ⟨phase', hstep, hplace⟩ := hgoes
      rw [hstep]
      exact ih hplace

theorem reading_signed_withoutBlanks (hblank : rules.edit.modes.blankZero = false) (hc : c ≠ ' ')
    (halpha : c.isAlpha = false) :
    (rules.recognizer.reading (.signed negative) (c :: cs)).1 =
      (rules.recognizer.reading (.signed negative) (c :: withoutBlanks cs)).1 := by
  by_cases hfirst : c.isDigit = true ∨ c = rules.edit.decimalSymbol
  · have hplace : (RealPhase.mantissa { negative }).place? = some .whole := rfl
    rw [rules.reading_signed negative halpha hfirst, rules.reading_signed negative halpha hfirst,
      reading_body_withoutBlanks hblank hplace, withoutBlanks_cons hc]
  · obtain ⟨hdigit, hsymbol⟩ := not_or.mp hfirst
    have hdigit : c.isDigit = false := by simpa using hdigit
    rw [rules.reading_bad_start negative halpha hdigit hsymbol,
      rules.reading_bad_start negative halpha hdigit hsymbol]

/-- Without its blanks a field gives the same, unless there is one between its sign and a number. -/
theorem reading_withoutBlanks (hblank : rules.edit.modes.blankZero = false)
    (hletter : ∀ c ∈ (Decimal.takeSign (withoutBlanks cs)).2.head?, c.isAlpha = false) :
    (rules.recognizer.reading .leading cs).1 =
      if blankBehindSign cs then .error .badRealInput
      else (rules.recognizer.reading .leading (withoutBlanks cs)).1 := by
  have hhead : ∀ c ∈ (cs.dropWhile (· = ' ')).head?, c ≠ ' ' :=
    fun c hc => of_decide_eq_false (head?_dropWhile_eq_false c hc)
  have hsign := takeSign_withoutBlanks hhead
  rw [withoutBlanks_dropWhile] at hsign
  rw [hsign] at hletter
  rw [Recognizer.reading_leading, Recognizer.reading_leading, dropWhile_withoutBlanks, hsign,
    blankBehindSign]
  generalize Decimal.takeSign (cs.dropWhile (· = ' ')) = signed at hletter ⊢
  obtain ⟨negative, body⟩ := signed
  cases body with
  | nil => rfl
  | cons c body =>
    by_cases hc : c = ' '
    · -- This blank is no longer before the field and not yet within its number.
      subst hc
      have hsymbol : ' ' ≠ rules.edit.decimalSymbol := by
        rcases decimalSymbol_eq rules.edit with h | h <;> rw [h] <;> decide
      rw [rules.reading_bad_start negative (by decide) (by decide) hsymbol]
      rfl
    · rw [withoutBlanks_cons hc] at hletter ⊢
      rw [if_neg (by simpa using hc)]
      exact reading_signed_withoutBlanks hblank hc (hletter c rfl)

end RealRules

/-! ### Fields of any source -/

variable {σ : Type} [FieldSource σ] {At : List Char → σ → Prop} {s : σ} {field rest : List Char}
variable (edit : DataEdit) (limit : ℕ)

theorem scanReal_of_field (hAt : FieldSource.Leaves At) (hkind : edit.isListDirected = false)
    (h : At (field ++ rest) s) :
    ∃ t, scanReal { edit with width := some field.length } limit s =
      .ok ((RealRules.recognizer ⟨edit, limit⟩).reading .leading field).1 t := by
  set narrow : DataEdit := { edit with width := some field.length }
  have hbudget : narrow.budget = some field.length :=
    if_neg (show ¬ edit.isListDirected = true by rw [hkind]; exact Bool.false_ne_true)
  obtain ⟨ended, t, hrun, hended⟩ := Completes.exists_run
    (hAt.run_of_width (r := (RealRules.recognizer ⟨narrow, limit⟩)) hbudget h)
  refine ⟨t, ?_⟩
  cases ended with
  | error f => exact hended.elim
  | ok out =>
    obtain ⟨result, left⟩ := out
    obtain ⟨rfl, hleft, -⟩ := hended
    refine (attempt_bind_eq hrun).trans ?_
    have hsame : RealRules.recognizer ⟨narrow, limit⟩ = RealRules.recognizer ⟨edit, limit⟩ := rfl
    rw [hsame] at hleft ⊢
    cases hreading : (RealRules.recognizer ⟨edit, limit⟩).reading .leading field with
    | mk result rest =>
      cases result with
      | error f => rfl
      | ok scanned =>
        obtain rfl := RealRules.readsOn.left_eq_none hreading
        obtain rfl : left = some 0 := hleft (by rw [hreading])
        cases scanned <;> rfl

/-- Two fields of decimal digits in which blanks are no zeros, of two records that may be of different
sources. If they differ in blanks alone and do not start with a letter, what they give is the same, but
for a blank between the sign and what follows it, which is a fault. -/
theorem scanReal_blanks {τ : Type} [FieldSource τ] {At' : List Char → τ → Prop} {s' : τ}
    {field' rest' : List Char} (hAt : FieldSource.Leaves At) (hAt' : FieldSource.Leaves At')
    (hkind : edit.isListDirected = false) (hblank : edit.modes.blankZero = false)
    (h : At (field ++ rest) s) (h' : At' (field' ++ rest') s')
    (hsame : withoutBlanks field = withoutBlanks field')
    (hletter : ∀ c ∈ (Decimal.takeSign (withoutBlanks field)).2.head?, c.isAlpha = false) :
    ∃ result t t',
      scanReal { edit with width := some field.length } limit s =
        .ok (if blankBehindSign field then .error .badRealInput else result) t ∧
      scanReal { edit with width := some field'.length } limit s' =
        .ok (if blankBehindSign field' then .error .badRealInput else result) t' := by
  obtain ⟨t, hscan⟩ := scanReal_of_field edit limit hAt hkind h
  obtain ⟨t', hscan'⟩ := scanReal_of_field edit limit hAt' hkind h'
  rw [RealRules.reading_withoutBlanks hblank hletter] at hscan
  rw [hsame] at hletter hscan
  rw [RealRules.reading_withoutBlanks hblank hletter] at hscan'
  exact ⟨_, t, t', hscan, hscan'⟩

/-- Blanks before the sign, around the decimal symbol and within the exponent. -/
theorem scanReal_blanks_ignored :
    let edit : DataEdit := { kind := .e, digits := some 2 }
    ∃ result t t',
      scanReal { edit with width := some 11 } 17 (Line.ofString " -1 .5 E+ 2") = .ok (.ok result) t ∧
      scanReal { edit with width := some 7 } 17 (Line.ofString "-1.5E+2") = .ok (.ok result) t' ∧
      result = .finite true ['1', '5'] 3 false := by
  intro edit
  have hfaces : (Line.ofString " -1 .5 E+ 2").Faces
      ([' ', '-', '1', ' ', '.', '5', ' ', 'E', '+', ' ', '2'] ++ []) (Line.ofString " -1 .5 E+ 2") :=
    Line.Faces.refl _
  have hfaces' : (Line.ofString "-1.5E+2").Faces (['-', '1', '.', '5', 'E', '+', '2'] ++ [])
      (Line.ofString "-1.5E+2") := Line.Faces.refl _
  obtain ⟨result, t, t', hscan, hscan'⟩ := scanReal_blanks edit 17
    (Line.leaves (Line.ofString " -1 .5 E+ 2")) (Line.leaves (Line.ofString "-1.5E+2")) rfl rfl hfaces
    hfaces' rfl (by rintro _ ⟨rfl⟩; rfl)
  have hrun : scanReal { edit with width := some 7 } 17 (Line.ofString "-1.5E+2") =
      .ok (.ok (.finite true ['1', '5'] (wrapExponent 3) false))
        ((Line.ofString "-1.5E+2").moveBy 7) := rfl
  rw [wrapExponent_of_lt (by decide) (by decide)] at hrun
  obtain ⟨hresult, -⟩ := EStateM.Result.ok.inj (hrun.symm.trans hscan')
  obtain rfl : .ok (.finite true ['1', '5'] 3 false) = result := hresult
  exact ⟨_, t, t', hscan, hscan', rfl⟩

/-- The fields `+ 5` and `+5` differ in a blank alone. -/
theorem scanReal_blank_behind_sign :
    let edit : DataEdit := { kind := .f, digits := some 0 }
    withoutBlanks ['+', ' ', '5'] = withoutBlanks ['+', '5'] ∧ edit.modes.blankZero = false ∧
      (∃ t, scanReal { edit with width := some 3 } 17 (Line.ofString "+ 5") =
        .ok (.error .badRealInput) t) ∧
      ∃ t, scanReal { edit with width := some 2 } 17 (Line.ofString "+5") =
        .ok (.ok (.finite false ['5'] 1 false)) t :=
  ⟨rfl, rfl, ⟨_, rfl⟩, ⟨_, rfl⟩⟩

end DataTransfer.Field
