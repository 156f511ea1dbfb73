import DataTransfer.Proofs.Field.Line
import DataTransfer.Proofs.Field.Scan

/-!
The grammar of decimal fields. Behind blanks and a sign stands a mantissa, and perhaps an exponent. The
scanner passes through the places of the grammar, so that it takes the numbers and nothing else, and stops
at the first character that no number goes on with.
-/

namespace DataTransfer.Field

/-! ### The grammar -/

def IsRun (cs : List Char) : Prop := ∀ c ∈ cs, isDigitOrBlank c = true

instance : DecidablePred IsRun := fun cs => List.decidableBAll _ cs

def isSign (c : Char) : Bool := c = '-' || c = '+'

/-- A mantissa starts with a digit or the decimal symbol and goes on with digits, blanks and at most one
decimal symbol. -/
def IsMantissa (symbol : Char) (cs : List Char) : Prop :=
  (∃ c ∈ cs.head?, c.isDigit = true ∨ c = symbol) ∧
    (IsRun cs ∨
      ∃ whole fraction, cs = whole ++ symbol :: fraction ∧ IsRun whole ∧ IsRun fraction)

def IsExponentRest (cs : List Char) : Prop :=
  ∃ blanks run : List Char, ∃ sign : Option Char, cs = blanks ++ (sign.toList ++ run) ∧
    (∀ b ∈ blanks, b = ' ') ∧ (∀ c ∈ sign, isSign c = true) ∧ IsRun run

/-- Behind a mantissa stands nothing, an exponent letter with its exponent, or a sign with one. -/
inductive IsExponent : List Char → Prop
  | none : IsExponent []
  | letter {c : Char} {cs : List Char} (hc : RealRules.isExponentLetter c = true)
    (hcs : IsExponentRest cs) : IsExponent (c :: cs)
  | sign {c : Char} {cs : List Char} (hc : isSign c = true) (hcs : IsRun cs) : IsExponent (c :: cs)

def IsNumber (symbol : Char) (cs : List Char) : Prop :=
  ∃ mantissa exponent, cs = mantissa ++ exponent ∧ IsMantissa symbol mantissa ∧ IsExponent exponent

/-- The first character with which no text of this kind goes on, and what is behind it. -/
def BreaksAt (P : List Char → Prop) (cs : List Char) (c : Char) (bad : List Char) : Prop :=
  ∃ good, cs = good ++ c :: bad ∧ P good ∧ ∀ rest, ¬ P (good ++ c :: rest)

/-! ### Its places -/

/-- How much of a number there is already. -/
inductive Place where
  | whole
  | fraction
  | letter
  | exponent
  deriving Repr, DecidableEq

namespace Place

def next (symbol : Char) : Place → Char → Option Place
  | .whole, c =>
    if isDigitOrBlank c then some .whole
    else if c = symbol then some .fraction
    else if RealRules.isExponentLetter c then some .letter
    else if isSign c then some .exponent
    else none
  | .fraction, c =>
    if isDigitOrBlank c then some .fraction
    else if RealRules.isExponentLetter c then some .letter
    else if isSign c then some .exponent
    else none
  | .letter, c =>
    if c = ' ' then some .letter
    else if c.isDigit || isSign c then some .exponent
    else none
  | .exponent, c => if isDigitOrBlank c then some .exponent else none

def EndsFraction (cs : List Char) : Prop :=
  ∃ run exponent, cs = run ++ exponent ∧ IsRun run ∧ IsExponent exponent

def Rest (symbol : Char) : Place → List Char → Prop
  | .whole, cs => EndsFraction cs ∨
      ∃ run fraction, cs = run ++ symbol :: fraction ∧ IsRun run ∧ EndsFraction fraction
  | .fraction, cs => EndsFraction cs
  | .letter, cs => IsExponentRest cs
  | .exponent, cs => IsRun cs

end Place

section

variable {symbol c : Char} {cs : List Char}

theorem isRun_cons : IsRun (c :: cs) ↔ isDigitOrBlank c = true ∧ IsRun cs := List.forall_mem_cons

theorem isRun_nil : IsRun [] := nofun

theorem isExponent_cons : IsExponent (c :: cs) ↔
    RealRules.isExponentLetter c = true ∧ IsExponentRest cs ∨ isSign c = true ∧ IsRun cs := by
  constructor
  · intro h
    cases h with
    | letter hc hcs => exact .inl ⟨hc, hcs⟩
    | sign hc hcs => exact .inr ⟨hc, hcs⟩
  · rintro (⟨hc, hcs⟩ | ⟨hc, hcs⟩)
    · exact .letter hc hcs
    · exact .sign hc hcs

theorem isExponentRest_nil : IsExponentRest [] := ⟨[], [], none, rfl, nofun, nofun, nofun⟩

theorem isExponentRest_cons : IsExponentRest (c :: cs) ↔
    c = ' ' ∧ IsExponentRest cs ∨ (c.isDigit || isSign c) = true ∧ IsRun cs := by
  constructor
  · rintro ⟨blanks, run, sign, hcs, hblanks, hsign, hrun⟩
    cases blanks with
    | cons b blanks =>
      obtain ⟨rfl, rfl⟩ := List.cons.inj hcs
      obtain ⟨hc, hblanks⟩ := List.forall_mem_cons.mp hblanks
      exact .inl ⟨hc, blanks, run, sign, rfl, hblanks, hsign, hrun⟩
    | nil =>
      cases sign with
      | some s =>
        obtain ⟨rfl, rfl⟩ := List.cons.inj hcs
        exact .inr ⟨by rw [hsign _ rfl, Bool.or_true], hrun⟩
      | none =>
        obtain rfl : c :: cs = run := hcs
        obtain ⟨hc, hrun⟩ := isRun_cons.mp hrun
        rcases (Bool.or_eq_true _ _).mp hc with hdigit | hblank
        · exact .inr ⟨by rw [hdigit, Bool.true_or], hrun⟩
        · exact .inl ⟨of_decide_eq_true hblank, [], cs, none, rfl, nofun, nofun, hrun⟩
  · rintro (⟨rfl, blanks, run, sign, rfl, hblanks, hsign, hrun⟩ | ⟨hc, hrun⟩)
    · exact ⟨' ' :: blanks, run, sign, rfl, List.forall_mem_cons.mpr ⟨rfl, hblanks⟩, hsign, hrun⟩
    · rcases (Bool.or_eq_true _ _).mp hc with hdigit | hsign
      · refine ⟨[], c :: cs, none, rfl, nofun, nofun, isRun_cons.mpr ⟨?_, hrun⟩⟩
        rw [isDigitOrBlank, hdigit, Bool.true_or]
      · refine ⟨[], cs, some c, rfl, nofun, ?_, hrun⟩
        intro s hs
        rwa [← Option.mem_some.mp hs]

theorem endsFraction_nil : Place.EndsFraction [] := ⟨[], [], rfl, isRun_nil, .none⟩

theorem endsFraction_cons : Place.EndsFraction (c :: cs) ↔
    isDigitOrBlank c = true ∧ Place.EndsFraction cs ∨
      RealRules.isExponentLetter c = true ∧ IsExponentRest cs ∨ isSign c = true ∧ IsRun cs := by
  constructor
  · rintro ⟨run, exponent, hcs, hrun, hexponent⟩
    cases run with
    | nil =>
      obtain rfl : c :: cs = exponent := hcs
      exact .inr (isExponent_cons.mp hexponent)
    | cons d run =>
      obtain ⟨rfl, rfl⟩ := List.cons.inj hcs
      obtain ⟨hc, hrun⟩ := isRun_cons.mp hrun
      exact .inl ⟨hc, run, exponent, rfl, hrun, hexponent⟩
  · rintro (⟨hc, run, exponent, rfl, hrun, hexponent⟩ | hexponent)
    · exact ⟨c :: run, exponent, rfl, isRun_cons.mpr ⟨hc, hrun⟩, hexponent⟩
    · exact ⟨[], c :: cs, rfl, isRun_nil, isExponent_cons.mpr hexponent⟩

theorem rest_whole_cons : Place.Rest symbol .whole (c :: cs) ↔
    isDigitOrBlank c = true ∧ Place.Rest symbol .whole cs ∨ c = symbol ∧ Place.EndsFraction cs ∨
      RealRules.isExponentLetter c = true ∧ IsExponentRest cs ∨ isSign c = true ∧ IsRun cs := by
  have hsymbol : (∃ run fraction, c :: cs = run ++ symbol :: fraction ∧ IsRun run ∧
      Place.EndsFraction fraction) ↔ c = symbol ∧ Place.EndsFraction cs ∨ isDigitOrBlank c = true ∧
        ∃ run fraction, cs = run ++ symbol :: fraction ∧ IsRun run ∧ Place.EndsFraction fraction := by
    constructor
    · rintro ⟨run, fraction, hcs, hrun, hfraction⟩
      cases run with
      | nil =>
        obtain ⟨rfl, rfl⟩ := List.cons.inj hcs
        exact .inl ⟨rfl, hfraction⟩
      | cons d run =>
        obtain ⟨rfl, rfl⟩ := List.cons.inj hcs
        obtain ⟨hc, hrun⟩ := isRun_cons.mp hrun
        exact .inr ⟨hc, run, fraction, rfl, hrun, hfraction⟩
    · rintro (⟨rfl, hfraction⟩ | ⟨hc, run, fraction, rfl, hrun, hfraction⟩)
      · exact ⟨[], cs, rfl, isRun_nil, hfraction⟩
      · exact ⟨c :: run, fraction, rfl, isRun_cons.mpr ⟨hc, hrun⟩, hfraction⟩
  simp only [Place.Rest, endsFraction_cons, hsymbol, and_or_left]
  exact iff_of_eq (by ac_rfl)

/-! ### Characters of one sort -/

theorem ne_of_isDigitOrBlank {d : Char} (hc : isDigitOrBlank c = true) (hd : isDigitOrBlank d = false) :
    c ≠ d := by
  rintro rfl
  rw [hc] at hd
  cases hd

theorem not_exponentLetter_of_isDigitOrBlank (h : isDigitOrBlank c = true) :
    RealRules.isExponentLetter c = false := by
  rw [RealRules.isExponentLetter, List.contains_eq_mem, decide_eq_false_iff_not]
  simp only [List.mem_cons, List.not_mem_nil, or_false, not_or]
  refine ⟨?_, ?_, ?_, ?_, ?_, ?_⟩ <;> exact ne_of_isDigitOrBlank h (by decide)

theorem not_sign_of_isDigitOrBlank (h : isDigitOrBlank c = true) : isSign c = false := by
  rw [isSign, decide_eq_false (ne_of_isDigitOrBlank h (by decide)),
    decide_eq_false (ne_of_isDigitOrBlank h (by decide)), Bool.or_false]

theorem not_sign_of_exponentLetter (h : RealRules.isExponentLetter c = true) : isSign c = false := by
  rw [isSign, Bool.or_eq_false_iff, decide_eq_false_iff_not, decide_eq_false_iff_not]
  constructor <;> rintro rfl <;> cases h

theorem symbol_sorts (hsymbol : symbol = '.' ∨ symbol = ',') :
    isDigitOrBlank symbol = false ∧ RealRules.isExponentLetter symbol = false ∧
      isSign symbol = false := by
  rcases hsymbol with rfl | rfl <;> decide

end

/-! ### The grammar in places -/

namespace Place

variable {symbol c : Char} {cs : List Char}

theorem rest_nil (symbol : Char) (p : Place) : p.Rest symbol [] := by
  cases p with
  | whole => exact .inl endsFraction_nil
  | fraction => exact endsFraction_nil
  | letter => exact isExponentRest_nil
  | exponent => exact isRun_nil

theorem rest_cons (hsymbol : symbol = '.' ∨ symbol = ',') (p : Place) :
    p.Rest symbol (c :: cs) ↔ ∃ q, p.next symbol c = some q ∧ q.Rest symbol cs := by
  obtain ⟨hnotRun, hnotLetter, hnotSign⟩ := symbol_sorts hsymbol
  -- The sorts of characters exclude each other, so the branch that `next` takes is the one that is left.
  cases p with
  | whole =>
    rw [rest_whole_cons, next]
    split_ifs with hrun hc hletter hsign
    · have hc : c ≠ symbol := ne_of_isDigitOrBlank hrun hnotRun
      simp [hrun, hc, not_exponentLetter_of_isDigitOrBlank hrun, not_sign_of_isDigitOrBlank hrun]
    · subst hc
      simp [hrun, hnotLetter, hnotSign, Rest]
    · simp [hrun, hc, hletter, not_sign_of_exponentLetter hletter, Rest]
    · simp [hrun, hc, hletter, hsign, Rest]
    · simp [hrun, hc, hletter, hsign]
  | fraction =>
    rw [Rest, endsFraction_cons, next]
    split_ifs with hrun hletter hsign
    · simp [hrun, not_exponentLetter_of_isDigitOrBlank hrun, not_sign_of_isDigitOrBlank hrun, Rest]
    · simp [hrun, hletter, not_sign_of_exponentLetter hletter, Rest]
    · simp [hrun, hletter, hsign, Rest]
    · simp [hrun, hletter, hsign]
  | letter =>
    rw [Rest, isExponentRest_cons, next]
    split_ifs with hblank hexponent
    · subst hblank
      have hnot : isSign ' ' = false := by decide
      simp [hnot, Rest]
    · simp [hblank, hexponent, Rest]
    · simp [hblank, hexponent]
  | exponent =>
    rw [Rest, isRun_cons, next]
    split_ifs with hrun
    · simp [hrun, Rest]
    · simp [hrun]

end Place

theorem not_isNumber_nil (symbol : Char) : ¬ IsNumber symbol [] := by
  rintro ⟨mantissa, exponent, hcs, ⟨⟨c, hc, -⟩, -⟩, -⟩
  rw [(List.append_eq_nil_iff.mp hcs.symm).1] at hc
  cases hc

theorem not_isExponent_of_first {symbol c : Char} {cs : List Char} (hsymbol : symbol = '.' ∨ symbol = ',')
    (hfirst : c.isDigit = true ∨ c = symbol) : ¬ IsExponent (c :: cs) := by
  have hsorts : RealRules.isExponentLetter c = false ∧ isSign c = false := by
    rcases hfirst with hdigit | rfl
    · have hrun : isDigitOrBlank c = true := by rw [isDigitOrBlank, hdigit, Bool.true_or]
      exact ⟨not_exponentLetter_of_isDigitOrBlank hrun, not_sign_of_isDigitOrBlank hrun⟩
    · exact (symbol_sorts hsymbol).2
  rw [isExponent_cons, hsorts.1, hsorts.2]
  simp

theorem isNumber_cons {symbol c : Char} {cs : List Char} (hsymbol : symbol = '.' ∨ symbol = ',') :
    IsNumber symbol (c :: cs) ↔
      (c.isDigit = true ∨ c = symbol) ∧ Place.Rest symbol .whole (c :: cs) := by
  constructor
  · rintro ⟨mantissa, exponent, hcs, ⟨⟨d, hd, hfirst⟩, hmantissa⟩, hexponent⟩
    obtain ⟨tail, rfl⟩ := List.head?_eq_some_iff.mp hd
    obtain ⟨rfl, -⟩ := List.cons.inj hcs
    refine ⟨hfirst, ?_⟩
    rcases hmantissa with hrun | ⟨whole, fraction, hsplit, hwhole, hfraction⟩
    · exact .inl ⟨_, exponent, hcs, hrun, hexponent⟩
    · refine .inr ⟨whole, fraction ++ exponent, ?_, hwhole, fraction, exponent, rfl, hfraction, hexponent⟩
      rw [hcs, hsplit, List.append_assoc, List.cons_append]
  · rintro ⟨hfirst, hrest⟩
    rcases hrest with ⟨run, exponent, hcs, hrun, hexponent⟩ |
      ⟨whole, tail, hcs, hwhole, fraction, exponent, rfl, hfraction, hexponent⟩
    · refine ⟨run, exponent, hcs, ⟨⟨c, ?_, hfirst⟩, .inl hrun⟩, hexponent⟩
      cases run with
      | cons d run =>
        obtain ⟨rfl, -⟩ := List.cons.inj hcs
        rfl
      | nil =>
        obtain rfl : c :: cs = exponent := hcs
        exact absurd hexponent (not_isExponent_of_first hsymbol hfirst)
    · refine ⟨whole ++ symbol :: fraction, exponent, ?_,
        ⟨⟨c, ?_, hfirst⟩, .inr ⟨whole, fraction, rfl, hwhole, hfraction⟩⟩, hexponent⟩
      · rw [hcs, List.append_assoc, List.cons_append]
      · cases whole with
        | nil => exact congrArg some (List.cons.inj hcs).1.symm
        | cons d whole => exact congrArg some (List.cons.inj hcs).1.symm

/-! ### The scanner in its places -/

theorem decimalSymbol_eq (edit : DataEdit) : edit.decimalSymbol = '.' ∨ edit.decimalSymbol = ',' := by
  unfold DataEdit.decimalSymbol
  split_ifs
  · exact .inr rfl
  · exact .inl rfl

def RealPhase.place? : RealPhase → Option Place
  | .mantissa m => some (if m.point.isSome then .fraction else .whole)
  | .exponentLetter _ => some .letter
  | .exponent _ _ _ => some .exponent
  | _ => none

namespace RealRules

variable (rules : RealRules) (m : RealMantissa) {c : Char}

/-- The scanner goes on at this place, or has met a character that does not continue the number. -/
def GoesTo (c : Char) (step : Step RealPhase Result) : Option Place → Prop
  | some q => ∃ phase, step = .more phase ∧ phase.place? = some q
  | none => step = .done (.error (.trailingCharacters c .real))

theorem beginExponent_goesTo (hblank : c ≠ ' ') :
    GoesTo c (rules.beginExponent m c) (if c.isDigit || isSign c then some .exponent else none) := by
  unfold beginExponent
  by_cases hminus : c = '-'
  · subst hminus
    exact ⟨_, rfl, rfl⟩
  by_cases hplus : c = '+'
  · subst hplus
    exact ⟨_, rfl, rfl⟩
  have hsign : isSign c = false := by simp [isSign, hminus, hplus]
  rw [if_neg hminus, if_neg hplus, hsign, Bool.or_false]
  by_cases hdigit : c.isDigit = true
  · rw [if_pos hdigit, if_pos hdigit, pushExponent]
    dsimp only
    rw [if_pos hdigit]
    exact ⟨_, rfl, rfl⟩
  · rw [if_neg hdigit, if_neg hdigit, trail, if_neg hblank]
    rfl

theorem pushExponent_goesTo (negative : Bool) (value : ℤ) :
    GoesTo c (rules.pushExponent m negative value c) (Place.next rules.edit.decimalSymbol .exponent c) := by
  unfold pushExponent Place.next isDigitOrBlank
  by_cases hdigit : c.isDigit = true
  · simp only [hdigit, if_true, Bool.true_or]
    exact ⟨_, rfl, rfl⟩
  by_cases hblank : c = ' '
  · subst hblank
    cases rules.edit.modes.blankZero <;> exact ⟨_, rfl, rfl⟩
  · simp only [hdigit, hblank, decide_false, Bool.or_false, Bool.false_eq_true, if_false, trail]
    rfl

theorem pushMantissa_run (hc : isDigitOrBlank c = true) :
    ∃ m', rules.pushMantissa m c = .more (.mantissa m') ∧ m'.point.isSome = m.point.isSome := by
  have hdigit {d : Char} (hd : d.isDigit = true) :
      ∃ m', rules.pushMantissa m d = .more (.mantissa m') ∧ m'.point.isSome = m.point.isSome := by
    refine ⟨_, pushMantissa_of_isDigit hd, ?_⟩
    split_ifs <;> rfl
  by_cases hblank : c = ' '
  · subst hblank
    cases hzero : rules.edit.modes.blankZero with
    | false => exact ⟨m, by simp [pushMantissa, hzero], rfl⟩
    | true =>
      obtain ⟨m', hpush, hpoint⟩ := hdigit (show '0'.isDigit = true by decide)
      refine ⟨m', ?_, hpoint⟩
      rw [← hpush]
      simp [pushMantissa, hzero]
  · exact hdigit (by simpa [isDigitOrBlank, hblank] using hc)

theorem pushMantissa_goesTo :
    GoesTo c (rules.pushMantissa m c)
      (Place.next rules.edit.decimalSymbol (if m.point.isSome then .fraction else .whole) c) := by
  by_cases hrun : isDigitOrBlank c = true
  · obtain ⟨m', hpush, hpoint⟩ := rules.pushMantissa_run m hrun
    have hnext : Place.next rules.edit.decimalSymbol (if m.point.isSome then .fraction else .whole) c =
        some (if m.point.isSome then .fraction else .whole) := by
      split_ifs <;> exact if_pos hrun
    rw [hnext]
    exact ⟨_, hpush, by rw [RealPhase.place?, hpoint]⟩
  obtain ⟨hdigit, hblank⟩ : c.isDigit = false ∧ c ≠ ' ' := by simpa [isDigitOrBlank] using hrun
  have hexponent := rules.beginExponent_goesTo m hblank
  have hzero : c ≠ '0' := by
    rintro rfl
    cases hdigit
  rw [hdigit, Bool.false_or] at hexponent
  unfold pushMantissa
  simp only [hblank, hzero, hdigit, decide_false, Bool.false_and, Bool.false_eq_true, if_false]
  cases hpoint : m.point with
  | some point =>
    simp only [Option.isNone_some, Option.isSome_some, Bool.and_false, Bool.false_eq_true, if_false,
      if_true, Place.next, hrun]
    split_ifs with hletter hsign
    · exact ⟨_, rfl, rfl⟩
    · rwa [if_pos hsign] at hexponent
    · rwa [if_neg hsign] at hexponent
  | none =>
    simp only [Option.isNone_none, Option.isSome_none, Bool.and_true, decide_eq_true_eq,
      Bool.false_eq_true, if_false, Place.next, hrun]
    split_ifs with hsymbol hletter hsign
    · exact ⟨_, rfl, rfl⟩
    · exact ⟨_, rfl, rfl⟩
    · rwa [if_pos hsign] at hexponent
    · rwa [if_neg hsign] at hexponent

/-- The scanner goes from one place of the grammar to the next. -/
theorem step_goesTo {phase : RealPhase} {p : Place} (h : phase.place? = some p) (c : Char) :
    GoesTo c (rules.step phase c) (p.next rules.edit.decimalSymbol c) := by
  cases phase with
  | mantissa m =>
    obtain rfl := Option.some.inj h
    exact rules.pushMantissa_goesTo m
  | exponentLetter m =>
    obtain rfl := Option.some.inj h
    unfold step Place.next
    dsimp only
    by_cases hblank : c = ' '
    · rw [if_pos hblank, if_pos hblank]
      exact ⟨_, rfl, rfl⟩
    · rw [if_neg hblank, if_neg hblank]
      exact rules.beginExponent_goesTo m hblank
  | exponent m negative value =>
    obtain rfl := Option.some.inj h
    exact rules.pushExponent_goesTo m negative value
  | trailing result => cases h
  | word negative letters => cases h
  | payload negative => cases h

variable {phase : RealPhase} {p : Place} {cs body : List Char} (negative : Bool)

theorem reading_body (phase : RealPhase) (c : Char) (cs : List Char) :
    rules.recognizer.reading (.body phase) (c :: cs) =
      match rules.step phase c with
      | .more phase => rules.recognizer.reading (.body phase) cs
      | .done result => (result, some cs) := by
  have hfeed : rules.recognizer.feed (.body phase) c =
      Recognizer.inBody (rules.step phase c) := rfl
  rw [Recognizer.reading, hfeed]
  cases rules.step phase c <;> rfl

theorem finish_place (h : phase.place? = some p) : ∃ scanned, rules.finish phase = .ok scanned := by
  cases phase with
  | mantissa m => exact ⟨_, rfl⟩
  | exponentLetter m => exact ⟨_, rfl⟩
  | exponent m negative value => exact ⟨_, rfl⟩
  | trailing result => cases h
  | word negative letters => cases h
  | payload negative => cases h

theorem reading_of_rest (h : phase.place? = some p) (hrest : p.Rest rules.edit.decimalSymbol cs) :
    ∃ scanned, rules.recognizer.reading (.body phase) cs = (.ok scanned, none) := by
  induction cs generalizing phase p with
  | nil =>
    obtain ⟨scanned, hfinish⟩ := rules.finish_place h
    exact ⟨scanned, congrArg (·, none) hfinish⟩
  | cons c cs ih =>
    obtain ⟨q, hnext, hrest⟩ := (Place.rest_cons (decimalSymbol_eq rules.edit) p).mp hrest
    have hgoes := rules.step_goesTo h c
    rw [hnext] at hgoes
    obtain ⟨phase', hstep, hplace⟩ := hgoes
    rw [rules.reading_body, hstep]
    exact ih hplace hrest

theorem reading_of_not_rest (h : phase.place? = some p)
    (hrest : ¬ p.Rest rules.edit.decimalSymbol cs) :
    ∃ c bad, BreaksAt (p.Rest rules.edit.decimalSymbol) cs c bad ∧
      rules.recognizer.reading (.body phase) cs = (.error (.trailingCharacters c .real), some bad) := by
  induction cs generalizing phase p with
  | nil => exact absurd (Place.rest_nil _ p) hrest
  | cons c cs ih =>
    have hcons (cs : List Char) : p.Rest rules.edit.decimalSymbol (c :: cs) ↔
        ∃ q, p.next rules.edit.decimalSymbol c = some q ∧ q.Rest rules.edit.decimalSymbol cs :=
      Place.rest_cons (decimalSymbol_eq rules.edit) p
    have hgoes := rules.step_goesTo h c
    rw [rules.reading_body]
    cases hnext : p.next rules.edit.decimalSymbol c with
    | none =>
      rw [hnext] at hgoes
      have hstep : rules.step phase c = .done (.error (.trailingCharacters c .real)) := hgoes
      refine ⟨c, cs, ⟨[], rfl, Place.rest_nil _ p, fun rest hrest => ?_⟩, by rw [hstep]⟩
      obtain ⟨q, hq, -⟩ := (hcons rest).mp hrest
      rw [hnext] at hq
      cases hq
    | some q =>
      rw [hnext] at hgoes
      obtain ⟨phase', hstep, hplace⟩ := hgoes
      have hnot : ¬ q.Rest rules.edit.decimalSymbol cs := fun hq => hrest ((hcons cs).mpr ⟨q, hnext, hq⟩)
      obtain ⟨d, bad, ⟨good, rfl, hgood, hbad⟩, hreading⟩ := ih hplace hnot
      rw [hstep]
      refine ⟨d, bad, ⟨c :: good, rfl, (hcons good).mpr ⟨q, hnext, hgood⟩, fun rest hrest => ?_⟩, hreading⟩
      obtain ⟨q', hq, hrest⟩ := (hcons (good ++ d :: rest)).mp hrest
      rw [hnext] at hq
      obtain rfl := Option.some.inj hq
      exact hbad rest hrest

/-! ### Whole fields -/

theorem reading_signed (halpha : c.isAlpha = false)
    (hfirst : c.isDigit = true ∨ c = rules.edit.decimalSymbol) :
    rules.recognizer.reading (.signed negative) (c :: cs) =
      rules.recognizer.reading (.body (.mantissa { negative })) (c :: cs) := by
  have hstart : rules.start negative c = rules.pushMantissa { negative } c := by
    have hnumber : (c = rules.edit.decimalSymbol || c.isDigit) = true := by
      simpa [or_comm] using hfirst
    rw [start, halpha, if_neg Bool.false_ne_true, if_pos hnumber]
  have hfeed : rules.recognizer.feed (.signed negative) c =
      rules.recognizer.feed (.body (.mantissa { negative })) c := congrArg Recognizer.inBody hstart
  rw [Recognizer.reading, hfeed, Recognizer.reading]

theorem reading_bad_start (halpha : c.isAlpha = false) (hdigit : c.isDigit = false)
    (hsymbol : c ≠ rules.edit.decimalSymbol) :
    rules.recognizer.reading (.signed negative) (c :: cs) = (.error .badRealInput, some cs) := by
  have hstart : rules.start negative c = .done (.error .badRealInput) := by
    rw [start, halpha, if_neg Bool.false_ne_true, if_neg (by simp [hdigit, hsymbol])]
  have hfeed : rules.recognizer.feed (.signed negative) c = .done (.error .badRealInput) :=
    congrArg Recognizer.inBody hstart
  rw [Recognizer.reading, hfeed]

/-- A number is taken whole, and scanned as its parts say but for the digits that are not kept. -/
theorem reading_number (halpha : ∀ c ∈ body.head?, c.isAlpha = false)
    (hnumber : IsNumber rules.edit.decimalSymbol body) {f : DecimalField}
    (hf : DecimalField.ofUnsigned rules.edit.decimalSymbol negative body = f) :
    rules.recognizer.reading (.signed negative) body =
      (.ok (.finite negative ((significantDigits (f.digits rules.edit)).take rules.maxDigits)
        (rules.pointExponent f)
        (decide (rules.maxDigits < (significantDigits (f.digits rules.edit)).length))), none) := by
  cases body with
  | nil => exact absurd hnumber (not_isNumber_nil _)
  | cons c cs =>
    obtain ⟨hfirst, hrest⟩ := (isNumber_cons (decimalSymbol_eq rules.edit)).mp hnumber
    have hplace : (RealPhase.mantissa { negative }).place? = some .whole := rfl
    obtain ⟨scanned, hreading⟩ := rules.reading_of_rest hplace hrest
    have haccepts : rules.recognizer.onList (.body (.mantissa { negative })) (c :: cs) =
        (.ok scanned, []) := by
      rw [Recognizer.onList_eq_reading, hreading]
      rfl
    obtain ⟨m, rfl, hm, hvalue⟩ := value_of_number haccepts
    rw [hf] at hm hvalue
    rw [rules.reading_signed _ (halpha c rfl) hfirst, hreading, hvalue, value_of_spells hm]
    rfl

/-- What starts as a number and is none ends at the first character that does not go on with it. -/
theorem reading_trailing (halpha : c.isAlpha = false)
    (hfirst : c.isDigit = true ∨ c = rules.edit.decimalSymbol)
    (hnumber : ¬ IsNumber rules.edit.decimalSymbol (c :: cs)) :
    ∃ d bad, BreaksAt (IsNumber rules.edit.decimalSymbol) (c :: cs) d bad ∧
      rules.recognizer.reading (.signed negative) (c :: cs) =
        (.error (.trailingCharacters d .real), some bad) := by
  have hsymbol := decimalSymbol_eq rules.edit
  have hrest : ¬ Place.Rest rules.edit.decimalSymbol .whole (c :: cs) :=
    fun hrest => hnumber ((isNumber_cons hsymbol).mpr ⟨hfirst, hrest⟩)
  have hplace : (RealPhase.mantissa { negative }).place? = some .whole := rfl
  obtain ⟨d, bad, ⟨good, hsplit, hgood, hbad⟩, hreading⟩ := rules.reading_of_not_rest hplace hrest
  rw [rules.reading_signed negative halpha hfirst]
  refine ⟨d, bad, ?_, hreading⟩
  cases good with
  | nil =>
    -- The first character alone is a number.
    obtain ⟨rfl, rfl⟩ := List.cons.inj hsplit
    refine absurd ?_ (hbad [])
    rw [List.nil_append, rest_whole_cons]
    rcases hfirst with hdigit | hc
    · exact .inl ⟨by rw [isDigitOrBlank, hdigit, Bool.true_or], Place.rest_nil _ _⟩
    · exact .inr (.inl ⟨hc, endsFraction_nil⟩)
  | cons e good =>
    obtain ⟨rfl, hcs⟩ := List.cons.inj hsplit
    refine ⟨c :: good, hsplit, (isNumber_cons hsymbol).mpr ⟨hfirst, hgood⟩, fun rest hnumber => ?_⟩
    exact hbad rest ((isNumber_cons hsymbol).mp hnumber).2

theorem reading_accepted (halpha : ∀ c ∈ body.head?, c.isAlpha = false)
    (h : body = [] ∨ IsNumber rules.edit.decimalSymbol body) :
    ∃ scanned, rules.recognizer.reading (.signed negative) body = (.ok scanned, none) := by
  rcases h with rfl | hnumber
  · exact ⟨.empty, rfl⟩
  · exact ⟨_, rules.reading_number negative halpha hnumber rfl⟩

theorem reading_rejected (halpha : ∀ c ∈ body.head?, c.isAlpha = false)
    (h : ¬ (body = [] ∨ IsNumber rules.edit.decimalSymbol body)) :
    ∃ f left, rules.recognizer.reading (.signed negative) body = (.error f, some left) := by
  obtain ⟨hnil, hnumber⟩ := not_or.mp h
  obtain ⟨c, cs, rfl⟩ := List.exists_cons_of_ne_nil hnil
  by_cases hfirst : c.isDigit = true ∨ c = rules.edit.decimalSymbol
  · obtain ⟨d, bad, -, hreading⟩ := rules.reading_trailing negative (halpha c rfl) hfirst hnumber
    exact ⟨_, _, hreading⟩
  · obtain ⟨hdigit, hsymbol⟩ := not_or.mp hfirst
    exact ⟨_, _, rules.reading_bad_start negative (halpha c rfl) (by simpa using hdigit) hsymbol⟩

end RealRules

end DataTransfer.Field
