import Mathlib.Data.List.TakeWhile
import DataTransfer.Proofs.Field.Reading
import DataTransfer.Proofs.Field.Spelling
import DataTransfer.Proofs.Field.Text

/-!
The scanner of decimal fields, phase by phase. Between its characters it knows the significant
digits, as far as they are kept, and where the decimal symbol stands among them.
-/

namespace DataTransfer

theorem Recognizer.onList_leading {τ ρ : Type} (r : Recognizer τ ρ) (cs : List Char) :
    r.onList .leading cs =
      r.onList (.signed (Decimal.takeSign (cs.dropWhile (· = ' '))).1)
        (Decimal.takeSign (cs.dropWhile (· = ' '))).2 := by
  rw [onList_eq_reading, onList_eq_reading, reading_leading]

theorem Recognizer.ReadsOn.left_eq_none {τ α : Type} {r : Recognizer τ (Except Fault α)}
    (hr : r.ReadsOn) {state : State τ} {cs : List Char} {a : α} {left : Option (List Char)}
    (h : r.reading state cs = (.ok a, left)) : left = none := by
  induction cs generalizing state with
  | nil => exact (congrArg Prod.snd h).symm
  | cons c cs ih =>
    rw [reading] at h
    cases hstep : r.feed state c with
    | more state' =>
      rw [hstep] at h
      exact ih h
    | done result =>
      rw [hstep] at h
      obtain ⟨f, rfl⟩ := hr state c result hstep
      cases h

namespace Field

def ScannedReal.isSpecial : ScannedReal → Bool
  | .infinity _ => true
  | .nan _ => true
  | _ => false

/-- The scanner has met these digits, this many of them behind the decimal symbol. -/
structure RealMantissa.Spells (max : ℕ) (m : RealMantissa) (ds : List Char) (behind : Option ℕ) :
    Prop where
  kept_eq : m.kept.reverse = (significantDigits ds).take max
  keptCount_eq : m.keptCount = m.kept.length
  significant_eq : m.significant = (significantDigits ds).length
  skippedZeros_eq : m.point = none → m.skippedZeros = 0
  point_le : ∀ point ∈ m.point, point ≤ m.significant + m.skippedZeros
  behind_eq : behind = m.point.map (m.significant + m.skippedZeros - ·)

namespace RealMantissa.Spells

variable {m : RealMantissa} {ds : List Char} {behind : Option ℕ} {max : ℕ}

theorem snoc_leading_zero (h : m.Spells max ds behind) (hzero : m.significant = 0) :
    Spells max (if m.point.isSome then { m with skippedZeros := m.skippedZeros + 1 } else m)
      (ds ++ ['0']) (behind.map (· + 1)) := by
  obtain ⟨hkept, hcount, hsignificant, hskipped, hpoint, rfl⟩ := h
  have hnone : significantDigits ds = [] := by
    apply List.eq_nil_of_length_eq_zero
    rw [← hsignificant, hzero]
  have hsame : significantDigits (ds ++ ['0']) = significantDigits ds := by
    rw [significantDigits_append_singleton, if_pos ⟨hnone, rfl⟩, hnone]
  rw [← hsame] at hkept hsignificant
  cases hm : m.point with
  | none => exact ⟨hkept, hcount, hsignificant, hskipped, by simp [hm], by simp [hm]⟩
  | some point =>
    have hle := hpoint point (by simp [hm])
    refine ⟨hkept, hcount, hsignificant, by simp, ?_, ?_⟩
    · simpa [hm] using by omega
    · simpa [hm] using by omega

theorem snoc_significant (h : m.Spells max ds behind) {c : Char}
    (hc : ¬ (c = '0' ∧ m.significant = 0)) :
    Spells max (if m.keptCount < max then
        { m with
          significant := m.significant + 1, kept := c :: m.kept, keptCount := m.keptCount + 1 }
      else { m with significant := m.significant + 1 })
      (ds ++ [c]) (behind.map (· + 1)) := by
  obtain ⟨hkept, hcount, hsignificant, hskipped, hpoint, rfl⟩ := h
  have hgrow : significantDigits (ds ++ [c]) = significantDigits ds ++ [c] := by
    rw [significantDigits_append_singleton, if_neg]
    rintro ⟨hnone, hzero⟩
    exact hc ⟨hzero, by rw [hsignificant, hnone]; rfl⟩
  have hlength : m.kept.length = min max (significantDigits ds).length := by
    rw [← List.length_reverse, hkept, List.length_take]
  have hcounted : m.significant + 1 = (significantDigits (ds ++ [c])).length := by
    rw [hgrow, List.length_append, hsignificant]
    rfl
  have hle : ∀ point ∈ m.point, point ≤ m.significant + 1 + m.skippedZeros := by
    intro point hmem
    have := hpoint point hmem
    omega
  have hbehind : (m.point.map (m.significant + m.skippedZeros - ·)).map (· + 1) =
      m.point.map (m.significant + 1 + m.skippedZeros - ·) := by
    rw [Option.map_map]
    apply Option.map_congr
    intro point hmem
    have := hpoint point hmem
    simp only [Function.comp_apply]
    omega
  split_ifs with hroom
  · refine ⟨?_, ?_, hcounted, hskipped, hle, hbehind⟩
    · rw [List.reverse_cons, hkept, hgrow, List.take_of_length_le (by omega),
        List.take_of_length_le (by rw [List.length_append, List.length_singleton]; omega)]
    · rw [List.length_cons, hcount]
  · refine ⟨?_, hcount, hcounted, hskipped, hle, hbehind⟩
    rw [hkept, hgrow, List.take_append_of_le_length (by omega)]

end RealMantissa.Spells

namespace RealRules

variable {rules : RealRules} {m : RealMantissa} {ds : List Char} {behind : Option ℕ}

theorem onList_body (phase : RealPhase) (c : Char) (cs : List Char) :
    rules.recognizer.onList (.body phase) (c :: cs) =
      match rules.step phase c with
      | .more phase => rules.recognizer.onList (.body phase) cs
      | .done result => (result, cs) := by
  have hfeed : rules.recognizer.feed (.body phase) c =
      Recognizer.inBody (rules.step phase c) := rfl
  rw [Recognizer.onList, hfeed]
  cases rules.step phase c <;> rfl

theorem pushMantissa_of_isDigit {c : Char} (hc : c.isDigit = true) :
    rules.pushMantissa m c = .more (.mantissa
      (if c = '0' ∧ m.significant = 0 then
        if m.point.isSome then { m with skippedZeros := m.skippedZeros + 1 } else m
      else if m.keptCount < rules.maxDigits then
        { m with
          significant := m.significant + 1, kept := c :: m.kept, keptCount := m.keptCount + 1 }
      else { m with significant := m.significant + 1 })) := by
  have hblank : c ≠ ' ' := by
    rintro rfl
    exact absurd hc (by decide)
  unfold pushMantissa
  simp only [hblank, hc, decide_false, Bool.false_and, Bool.false_eq_true, if_false, if_true,
    Bool.and_eq_true, decide_eq_true_eq]
  split_ifs <;> rfl

theorem pushMantissa_digit (h : m.Spells rules.maxDigits ds behind) {c : Char}
    (hc : c.isDigit = true) :
    ∃ m', rules.pushMantissa m c = .more (.mantissa m') ∧ m'.negative = m.negative ∧
      m'.point.isSome = m.point.isSome ∧
      m'.Spells rules.maxDigits (ds ++ [c]) (behind.map (· + 1)) := by
  refine ⟨_, pushMantissa_of_isDigit hc, ?_⟩
  by_cases hzero : c = '0' ∧ m.significant = 0
  · rw [if_pos hzero]
    obtain ⟨rfl, hzero⟩ := hzero
    refine ⟨?_, ?_, h.snoc_leading_zero hzero⟩ <;> split_ifs <;> rfl
  · rw [if_neg hzero]
    refine ⟨?_, ?_, h.snoc_significant hzero⟩ <;> split_ifs <;> rfl

theorem pushMantissa_digitOrBlank (h : m.Spells rules.maxDigits ds behind) {c : Char}
    (hc : isDigitOrBlank c = true) :
    ∃ m', rules.pushMantissa m c = .more (.mantissa m') ∧ m'.negative = m.negative ∧
      m'.point.isSome = m.point.isSome ∧
      m'.Spells rules.maxDigits (ds ++ spelled rules.edit.modes.blankZero [c])
        (behind.map (· + (spelled rules.edit.modes.blankZero [c]).length)) := by
  by_cases hblank : c = ' '
  · subst hblank
    cases hzero : rules.edit.modes.blankZero with
    | false =>
      refine ⟨m, ?_, rfl, rfl, by simpa [spelled] using h⟩
      simp [pushMantissa, hzero]
    | true =>
      obtain ⟨m', hpush, hrest⟩ := pushMantissa_digit h (show '0'.isDigit = true by decide)
      refine ⟨m', ?_, hrest⟩
      rw [← hpush]
      simp [pushMantissa, hzero]
  · have hdigit : c.isDigit = true := by simpa [isDigitOrBlank, hblank] using hc
    obtain ⟨m', hpush, hrest⟩ := pushMantissa_digit h hdigit
    refine ⟨m', hpush, ?_⟩
    cases rules.edit.modes.blankZero <;> simpa [spelled, hblank] using hrest

theorem onList_mantissa (h : m.Spells rules.maxDigits ds behind) (cs rest : List Char)
    (hcs : ∀ c ∈ cs, isDigitOrBlank c = true) :
    ∃ m', rules.recognizer.onList (.body (.mantissa m)) (cs ++ rest) =
        rules.recognizer.onList (.body (.mantissa m')) rest ∧ m'.negative = m.negative ∧
      m'.point.isSome = m.point.isSome ∧
      m'.Spells rules.maxDigits (ds ++ spelled rules.edit.modes.blankZero cs)
        (behind.map (· + (spelled rules.edit.modes.blankZero cs).length)) := by
  induction cs generalizing m ds behind with
  | nil =>
    refine ⟨m, rfl, rfl, rfl, ?_⟩
    cases rules.edit.modes.blankZero <;> simpa [spelled] using h
  | cons c cs ih =>
    obtain ⟨m₁, hpush, hsign, hpoint, hm₁⟩ := pushMantissa_digitOrBlank h (hcs c List.mem_cons_self)
    obtain ⟨m₂, hrun, hsign₂, hpoint₂, hm₂⟩ :=
      ih hm₁ fun d hd => hcs d (List.mem_cons_of_mem c hd)
    refine ⟨m₂, ?_, hsign₂.trans hsign, hpoint₂.trans hpoint, ?_⟩
    · have hstep : rules.step (.mantissa m) c = .more (.mantissa m₁) := hpush
      rw [← hrun, List.cons_append, onList_body, hstep]
    · have hcons : spelled rules.edit.modes.blankZero (c :: cs) =
          spelled rules.edit.modes.blankZero [c] ++ spelled rules.edit.modes.blankZero cs :=
        spelled_append _ [c] cs
      rw [hcons, ← List.append_assoc, List.length_append]
      simpa [Option.map_map, Function.comp_def, Nat.add_assoc] using hm₂

/-! ### Where a field ends -/

def StopsInFault {τ : Type} : Step τ Result → Prop
  | .more _ => True
  | .done result => ∃ f, result = .error f

theorem trail_stops (result : ScannedReal) (c : Char) : StopsInFault (trail result c) := by
  unfold trail
  split_ifs
  · trivial
  · exact ⟨_, rfl⟩

theorem pushExponent_stops (negative : Bool) (value : ℤ) (c : Char) :
    StopsInFault (rules.pushExponent m negative value c) := by
  unfold pushExponent
  dsimp only
  split_ifs
  all_goals first | trivial | exact trail_stops _ _

theorem beginExponent_stops (c : Char) : StopsInFault (rules.beginExponent m c) := by
  unfold beginExponent
  split_ifs
  all_goals first | trivial | exact pushExponent_stops _ _ _ | exact trail_stops _ _

theorem pushMantissa_stops (c : Char) : StopsInFault (rules.pushMantissa m c) := by
  unfold pushMantissa
  dsimp only
  split_ifs
  all_goals first | trivial | exact beginExponent_stops _

theorem pushWord_stops (negative : Bool) (letters : List Char) (c : Char) :
    StopsInFault (pushWord negative letters c) := by
  unfold pushWord
  split
  · trivial
  · split
    · split
      · trivial
      · exact trail_stops _ _
    · exact ⟨_, rfl⟩

theorem step_stops (phase : RealPhase) (c : Char) : StopsInFault (rules.step phase c) := by
  cases phase with
  | mantissa m => exact pushMantissa_stops c
  | exponentLetter m =>
    unfold step
    dsimp only
    split
    · trivial
    · exact beginExponent_stops c
  | exponent m negative value => exact pushExponent_stops negative value c
  | trailing result => exact trail_stops result c
  | word negative letters => exact pushWord_stops negative letters c
  | payload negative => trivial

theorem start_stops (negative : Bool) (c : Char) : StopsInFault (rules.start negative c) := by
  unfold start
  split_ifs
  · trivial
  · exact pushMantissa_stops c
  · exact ⟨_, rfl⟩

theorem readsOn : rules.recognizer.ReadsOn := by
  have hbody (r : Step RealPhase Result) (hr : StopsInFault r) (result : Result)
      (h : Recognizer.inBody r = .done result) : ∃ f, result = .error f := by
    cases r with
    | more phase => cases h
    | done r =>
      cases h
      exact hr
  intro state c result h
  cases state with
  | leading =>
    rw [Recognizer.feed] at h
    split_ifs at h
    exact hbody _ (start_stops false c) result h
  | signed negative => exact hbody _ (start_stops negative c) result h
  | body phase => exact hbody _ (step_stops phase c) result h

theorem step_of_accepts {phase : RealPhase} {c : Char} {cs : List Char} {scanned : ScannedReal}
    (h : rules.recognizer.onList (.body phase) (c :: cs) = (.ok scanned, [])) :
    ∃ next, rules.step phase c = .more next ∧
      rules.recognizer.onList (.body next) cs = (.ok scanned, []) := by
  rw [onList_body] at h
  have hstops : StopsInFault (rules.step phase c) := step_stops phase c
  cases hstep : rules.step phase c with
  | more next =>
    rw [hstep] at h
    exact ⟨next, rfl, h⟩
  | done result =>
    rw [hstep] at h hstops
    obtain ⟨f, rfl⟩ := hstops
    cases h

/-! ### Special words -/

def IsSpecial : RealPhase → Prop
  | .word _ _ => True
  | .payload _ => True
  | .trailing scanned => scanned.isSpecial = true
  | _ => False

theorem isSpecial_of_wordValue? {negative : Bool} {letters : List Char} {scanned : ScannedReal}
    (h : wordValue? negative letters = some scanned) : scanned.isSpecial = true := by
  unfold wordValue? at h
  dsimp only at h
  split_ifs at h <;> cases h <;> rfl

theorem trail_special {scanned : ScannedReal} (h : scanned.isSpecial = true) {c : Char}
    {next : RealPhase} (hstep : trail scanned c = .more next) : IsSpecial next := by
  unfold trail at hstep
  split_ifs at hstep
  cases hstep
  exact h

theorem step_special {phase next : RealPhase} {c : Char} (h : IsSpecial phase)
    (hstep : rules.step phase c = .more next) : IsSpecial next := by
  cases phase with
  | mantissa m => exact h.elim
  | exponentLetter m => exact h.elim
  | exponent m negative value => exact h.elim
  | trailing scanned => exact trail_special h hstep
  | payload negative =>
    cases hstep
    split_ifs <;> trivial
  | word negative letters =>
    change pushWord negative letters c = .more next at hstep
    unfold pushWord at hstep
    split at hstep
    · cases hstep
      trivial
    · cases hword : wordValue? negative letters with
      | none =>
        rw [hword] at hstep
        cases hstep
      | some scanned =>
        rw [hword] at hstep
        dsimp only at hstep
        split at hstep
        · cases hstep
          trivial
        · exact trail_special (isSpecial_of_wordValue? hword) hstep

theorem finish_special {phase : RealPhase} {scanned : ScannedReal} (hphase : IsSpecial phase)
    (h : rules.finish phase = .ok scanned) : scanned.isSpecial = true := by
  cases phase with
  | mantissa m => exact hphase.elim
  | exponentLetter m => exact hphase.elim
  | exponent m negative value => exact hphase.elim
  | trailing result =>
    cases h
    exact hphase
  | payload negative =>
    cases h
    rfl
  | word negative letters =>
    unfold finish at h
    cases hword : wordValue? negative letters with
    | none => simp [hword] at h
    | some result =>
      simp only [hword, Except.ok.injEq] at h
      rw [← h]
      exact isSpecial_of_wordValue? hword

theorem special_of_accepts {phase : RealPhase} {cs : List Char} {scanned : ScannedReal}
    (hphase : IsSpecial phase)
    (h : rules.recognizer.onList (.body phase) cs = (.ok scanned, [])) :
    scanned.isSpecial = true := by
  induction cs generalizing phase with
  | nil => exact finish_special hphase (congrArg Prod.fst h)
  | cons c cs ih =>
    obtain ⟨next, hstep, h⟩ := step_of_accepts h
    exact ih (step_special hphase hstep) h

/-! ### Exponents -/

theorem onList_exponent {negative : Bool} {cs : List Char} {scanned : ScannedReal} {n : ℕ}
    (h : rules.recognizer.onList
      (.body (.exponent m negative (min (n : ℤ) Decimal.exponentLimit))) cs = (.ok scanned, [])) :
    scanned = rules.value m (Decimal.clamp
      (signed negative (Nat.ofDigitChars 10 (spelled rules.edit.modes.blankZero cs) n))) := by
  induction cs generalizing n with
  | nil =>
    rw [spelled_nil, Nat.ofDigitChars_nil, clamp_signed]
    exact (Except.ok.inj (congrArg Prod.fst h)).symm
  | cons c cs ih =>
    obtain ⟨next, hstep, h⟩ := step_of_accepts h
    change rules.pushExponent m negative _ c = .more next at hstep
    unfold pushExponent at hstep
    dsimp only at hstep
    by_cases hdigit : c.isDigit = true
    · have hblank : c ≠ ' ' := by
        rintro rfl
        exact absurd hdigit (by decide)
      rw [if_pos hdigit] at hstep
      cases hstep
      rw [spelled_cons _ hblank, Nat.ofDigitChars_cons]
      apply ih
      rw [← Decimal.min_push]
      exact h
    rw [if_neg hdigit] at hstep
    by_cases hblank : c = ' '
    · subst hblank
      rw [if_pos rfl] at hstep
      rw [spelled_cons_blank]
      cases hzero : rules.edit.modes.blankZero with
      | false =>
        rw [hzero, if_neg Bool.false_ne_true] at hstep
        cases hstep
        rw [hzero] at ih
        exact ih h
      | true =>
        rw [hzero, if_pos rfl] at hstep
        cases hstep
        rw [hzero] at ih
        rw [if_pos rfl, List.singleton_append, Nat.ofDigitChars_cons]
        apply ih
        rw [← Decimal.min_push]
        exact h
    · rw [if_neg hblank, trail, if_neg hblank] at hstep
      cases hstep

/-- An exponent as it is scanned: up to its limit, or that of the scale factor. -/
def scannedExponent (rules : RealRules) (text : List Char) : ℤ :=
  ((writtenExponent? rules.edit.modes.blankZero text).map Decimal.clamp).getD rules.defaultExponent

theorem scannedExponent_of_takeSign {text ds : List Char} {negative : Bool} (hne : text ≠ [])
    (htext : Decimal.takeSign text = (negative, ds)) :
    rules.scannedExponent text = Decimal.clamp
      (signed negative (Nat.ofDigitChars 10 (spelled rules.edit.modes.blankZero ds) 0)) := by
  rw [scannedExponent, writtenExponent?, if_neg hne, htext]
  rfl

theorem value_of_beginExponent {c : Char} {cs : List Char} {next : RealPhase}
    {scanned : ScannedReal} (hblank : c ≠ ' ') (hstep : rules.beginExponent m c = .more next)
    (h : rules.recognizer.onList (.body next) cs = (.ok scanned, [])) :
    scanned = rules.value m (rules.scannedExponent (c :: cs)) := by
  have hzero : (0 : ℤ) = min ((0 : ℕ) : ℤ) Decimal.exponentLimit := by decide
  unfold beginExponent at hstep
  by_cases hminus : c = '-'
  · subst hminus
    cases hstep
    rw [hzero] at h
    rw [scannedExponent_of_takeSign (List.cons_ne_nil _ _) rfl]
    exact onList_exponent h
  rw [if_neg hminus] at hstep
  by_cases hplus : c = '+'
  · subst hplus
    cases hstep
    rw [hzero] at h
    rw [scannedExponent_of_takeSign (List.cons_ne_nil _ _) rfl]
    exact onList_exponent h
  rw [if_neg hplus] at hstep
  by_cases hdigit : c.isDigit = true
  · rw [if_pos hdigit, hzero] at hstep
    have hrun : rules.recognizer.onList
        (.body (.exponent m false (min ((0 : ℕ) : ℤ) Decimal.exponentLimit))) (c :: cs) =
          (.ok scanned, []) := by
      rw [onList_body]
      have hfirst : rules.step (.exponent m false (min ((0 : ℕ) : ℤ) Decimal.exponentLimit)) c =
          .more next := hstep
      rw [hfirst]
      exact h
    have hsign : Decimal.takeSign (c :: cs) = (false, c :: cs) := by
      apply Decimal.takeSign_of_ne
      simpa using ⟨hminus, hplus⟩
    rw [scannedExponent_of_takeSign (List.cons_ne_nil _ _) hsign]
    exact onList_exponent hrun
  · rw [if_neg hdigit, trail, if_neg hblank] at hstep
    cases hstep

theorem value_of_exponentLetter {cs : List Char} {scanned : ScannedReal}
    (h : rules.recognizer.onList (.body (.exponentLetter m)) cs = (.ok scanned, [])) :
    scanned = rules.value m (rules.scannedExponent (cs.dropWhile (· = ' '))) := by
  induction cs with
  | nil => exact (Except.ok.inj (congrArg Prod.fst h)).symm
  | cons c cs ih =>
    obtain ⟨next, hstep, h⟩ := step_of_accepts h
    unfold step at hstep
    by_cases hblank : c = ' '
    · rw [List.dropWhile_cons_of_pos (by simpa using hblank)]
      dsimp only at hstep
      rw [if_pos hblank] at hstep
      cases hstep
      exact ih h
    · rw [List.dropWhile_cons_of_neg (by simpa using hblank)]
      dsimp only at hstep
      rw [if_neg hblank] at hstep
      exact value_of_beginExponent hblank hstep h

theorem value_of_mantissa {rest : List Char} {scanned : ScannedReal}
    (hend : ∀ c ∈ rest.head?, isDigitOrBlank c = false ∧
      (c = rules.edit.decimalSymbol → m.point.isSome = true))
    (h : rules.recognizer.onList (.body (.mantissa m)) rest = (.ok scanned, [])) :
    scanned = rules.value m (rules.scannedExponent (exponentText rest)) := by
  cases rest with
  | nil => exact (Except.ok.inj (congrArg Prod.fst h)).symm
  | cons c cs =>
    obtain ⟨hdigit, hsymbol⟩ := hend c rfl
    obtain ⟨next, hstep, h⟩ := step_of_accepts h
    simp only [isDigitOrBlank, Bool.or_eq_false_iff, decide_eq_false_iff_not] at hdigit
    obtain ⟨hdigit, hblank⟩ := hdigit
    have hzero : c ≠ '0' := by
      rintro rfl
      exact absurd hdigit (by decide)
    have hpoint : ¬ (decide (c = rules.edit.decimalSymbol) && m.point.isNone) = true := by
      intro hboth
      rw [Bool.and_eq_true, decide_eq_true_eq] at hboth
      have hsome := hsymbol hboth.1
      cases hm : m.point <;> simp [hm] at hboth hsome
    change rules.pushMantissa m c = .more next at hstep
    unfold pushMantissa at hstep
    simp only [hblank, hzero, hdigit, hpoint, decide_false, Bool.false_and, Bool.false_eq_true,
      if_false] at hstep
    by_cases hletter : isExponentLetter c = true
    · rw [if_pos hletter] at hstep
      cases hstep
      rw [exponentText, if_pos (by simpa using hletter)]
      exact value_of_exponentLetter h
    · rw [if_neg hletter] at hstep
      rw [exponentText, if_neg (by simpa using hletter)]
      exact value_of_beginExponent hblank hstep h

/-! ### Numbers -/

theorem spells_nil (negative : Bool) :
    ({ negative } : RealMantissa).Spells rules.maxDigits [] none := by
  refine ⟨?_, rfl, rfl, fun _ => rfl, nofun, rfl⟩
  simp [significantDigits]

theorem pushMantissa_symbol (h : m.Spells rules.maxDigits ds behind)
    (hpoint : m.point.isSome = false) :
    ∃ m', rules.pushMantissa m rules.edit.decimalSymbol = .more (.mantissa m') ∧
      m'.negative = m.negative ∧ m'.point.isSome = true ∧ m'.Spells rules.maxDigits ds (some 0) := by
  have hnone : m.point = none := by simpa using hpoint
  refine ⟨{ m with point := some m.significant }, ?_, rfl, rfl, h.kept_eq, h.keptCount_eq,
    h.significant_eq, nofun, ?_, ?_⟩
  · unfold pushMantissa DataEdit.decimalSymbol
    cases rules.edit.modes.decimalComma <;> simp [hnone]
  · intro point hmem
    obtain rfl := Option.some.inj hmem
    exact Nat.le_add_right _ _
  · simp [h.skippedZeros_eq hnone]

theorem value_of_number {negative : Bool} {text : List Char} {scanned : ScannedReal}
    (h : rules.recognizer.onList (.body (.mantissa { negative })) text = (.ok scanned, [])) :
    ∃ m : RealMantissa, m.negative = negative ∧
      m.Spells rules.maxDigits
        ((DecimalField.ofUnsigned rules.edit.decimalSymbol negative text).digits rules.edit)
        ((DecimalField.ofUnsigned rules.edit.decimalSymbol negative text).behind rules.edit) ∧
      scanned = rules.value m (rules.scannedExponent (exponentText
        (DecimalField.ofUnsigned rules.edit.decimalSymbol negative text).rest)) := by
  have hrun (cs : List Char) : ∀ c ∈ cs.takeWhile isDigitOrBlank, isDigitOrBlank c = true :=
    fun c hc => List.mem_takeWhile_imp hc
  have hstop (cs : List Char) : ∀ c ∈ (cs.dropWhile isDigitOrBlank).head?,
      isDigitOrBlank c = false := head?_dropWhile_eq_false
  rw [← List.takeWhile_append_dropWhile (p := isDigitOrBlank) (l := text)] at h
  obtain ⟨m₁, heq₁, hsign₁, hpoint₁, hm₁⟩ :=
    onList_mantissa (spells_nil negative) _ (text.dropWhile isDigitOrBlank) (hrun text)
  rw [heq₁] at h
  unfold DecimalField.ofUnsigned
  dsimp only
  by_cases hsymbol : (text.dropWhile isDigitOrBlank).head? = some rules.edit.decimalSymbol
  · rw [if_pos hsymbol]
    obtain ⟨tail, htail⟩ := List.head?_eq_some_iff.mp hsymbol
    rw [htail] at h ⊢
    obtain ⟨next, hstep, h⟩ := step_of_accepts h
    obtain ⟨m₂, hpush, hsign₂, hpoint₂, hm₂⟩ := pushMantissa_symbol hm₁ hpoint₁
    obtain rfl : RealPhase.mantissa m₂ = next := Step.more.inj (hpush.symm.trans hstep)
    rw [← List.takeWhile_append_dropWhile (p := isDigitOrBlank) (l := tail)] at h
    obtain ⟨m₃, heq₃, hsign₃, hpoint₃, hm₃⟩ :=
      onList_mantissa hm₂ _ (tail.dropWhile isDigitOrBlank) (hrun tail)
    rw [heq₃] at h
    refine ⟨m₃, hsign₃.trans (hsign₂.trans hsign₁), ?_, ?_⟩
    · simpa [DecimalField.digits, DecimalField.behind] using hm₃
    · refine value_of_mantissa (fun c hc => ⟨hstop tail c hc, fun _ => ?_⟩) h
      rw [hpoint₃, hpoint₂]
  · rw [if_neg hsymbol]
    refine ⟨m₁, hsign₁, ?_, ?_⟩
    · simpa [DecimalField.digits, DecimalField.behind] using hm₁
    · refine value_of_mantissa (fun c hc => ⟨hstop text c hc, ?_⟩) h
      rintro rfl
      exact absurd hc hsymbol

theorem number_of_start {negative : Bool} {text : List Char} {scanned : ScannedReal}
    (hspecial : scanned.isSpecial = false) (hempty : scanned ≠ .empty)
    (h : rules.recognizer.onList (.signed negative) text = (.ok scanned, [])) :
    rules.recognizer.onList (.body (.mantissa { negative })) text = (.ok scanned, []) := by
  cases text with
  | nil => exact absurd (Except.ok.inj (congrArg Prod.fst h)).symm hempty
  | cons c cs =>
    have hfeed : rules.recognizer.feed (.signed negative) c =
      Recognizer.inBody (rules.start negative c) := rfl
    rw [Recognizer.onList, hfeed, start] at h
    by_cases halpha : c.isAlpha = true
    · rw [if_pos halpha] at h
      have hword : rules.recognizer.onList (.body (.word negative [c.toUpper])) cs =
        (.ok scanned, []) := h
      rw [special_of_accepts (by trivial) hword] at hspecial
      cases hspecial
    rw [if_neg halpha] at h
    split_ifs at h with hnumber
    · exact h
    · cases h

theorem value_of_spells (h : m.Spells rules.maxDigits ds behind) (exponent : ℤ) :
    rules.value m exponent = .finite m.negative ((significantDigits ds).take rules.maxDigits)
      (if significantDigits ds = [] then 0
        else wrapExponent (exponent + (significantDigits ds).length -
          behind.getD (rules.edit.digits.getD 0)))
      (decide (rules.maxDigits < (significantDigits ds).length)) := by
  have hnone : m.significant = 0 ↔ significantDigits ds = [] := by
    rw [h.significant_eq, List.length_eq_zero_iff]
  unfold value
  by_cases hzero : m.significant = 0
  · rw [if_pos hzero, if_pos (hnone.mp hzero), h.kept_eq, hnone.mp hzero]
    rfl
  · rw [if_neg hzero, if_neg (mt hnone.mpr hzero), h.kept_eq, h.behind_eq, ← h.significant_eq]
    cases hm : m.point with
    | none =>
      have hsum : exponent + ((m.significant : ℤ) - rules.edit.digits.getD 0) =
          exponent + m.significant - rules.edit.digits.getD 0 := by omega
      exact congrArg (fun e => ScannedReal.finite _ _ (wrapExponent e) _) hsum
    | some point =>
      have hle := h.point_le point hm
      have hsum : exponent + ((point : ℤ) - m.skippedZeros) =
          exponent + m.significant - (m.significant + m.skippedZeros - point : ℕ) := by omega
      exact congrArg (fun e => ScannedReal.finite _ _ (wrapExponent e) _) hsum

/-- The exponent that is scanned for a number, as of a point before its significant digits. -/
def pointExponent (rules : RealRules) (f : DecimalField) : ℤ :=
  if significantDigits (f.digits rules.edit) = [] then 0
  else wrapExponent (rules.scannedExponent (exponentText f.rest) +
    (significantDigits (f.digits rules.edit)).length - f.places rules.edit)

/-- A number field that is accepted is scanned as its parts say, but for the digits that are not
kept. -/
theorem scanned_take {text : List Char} {scanned : ScannedReal} {f : DecimalField}
    (hf : DecimalField.ofText rules.edit.decimalSymbol text = f)
    (hspecial : scanned.isSpecial = false) (hempty : scanned ≠ .empty)
    (h : rules.recognizer.onList .leading text = (.ok scanned, [])) :
    scanned = .finite f.negative ((significantDigits (f.digits rules.edit)).take rules.maxDigits)
      (rules.pointExponent f)
      (decide (rules.maxDigits < (significantDigits (f.digits rules.edit)).length)) := by
  rw [Recognizer.onList_leading] at h
  obtain ⟨m, hsign, hm, hvalue⟩ := value_of_number (number_of_start hspecial hempty h)
  have hnegative : f.negative = m.negative := by
    rw [hsign, ← hf]
    unfold DecimalField.ofText DecimalField.ofUnsigned
    dsimp only
    split_ifs <;> rfl
  change m.Spells rules.maxDigits
    ((DecimalField.ofText rules.edit.decimalSymbol text).digits rules.edit)
    ((DecimalField.ofText rules.edit.decimalSymbol text).behind rules.edit) at hm
  change scanned = rules.value m (rules.scannedExponent (exponentText
    (DecimalField.ofText rules.edit.decimalSymbol text).rest)) at hvalue
  rw [hf] at hm hvalue
  rw [hvalue, value_of_spells hm, hnegative]
  rfl

theorem scanned_eq {text : List Char} {scanned : ScannedReal} {f : DecimalField}
    (hf : DecimalField.ofText rules.edit.decimalSymbol text = f)
    (hspecial : scanned.isSpecial = false) (hempty : scanned ≠ .empty)
    (h : rules.recognizer.onList .leading text = (.ok scanned, []))
    (hmax : (significantDigits (f.digits rules.edit)).length ≤ rules.maxDigits) :
    scanned = .finite f.negative (significantDigits (f.digits rules.edit))
      (rules.pointExponent f) false := by
  rw [scanned_take hf hspecial hempty h, List.take_of_length_le hmax, decide_eq_false hmax.not_gt]

end RealRules

end Field

end DataTransfer
