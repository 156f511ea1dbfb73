import DataTransfer.Proofs.Field.Blanks
import DataTransfer.Proofs.Field.DigitString

/-!
Blanks behind the characters of a field. They are dropped, or they are zeros; either way they change no
field with an error into one without, except for a decimal field that ends behind its sign.
-/

namespace DataTransfer

def Field.endsBehindSign (cs : List Char) : Bool :=
  cs.dropWhile (· = ' ') ≠ [] && (Decimal.takeSign (cs.dropWhile (· = ' '))).2 = []

namespace Recognizer

variable {τ ρ : Type} (r : Recognizer τ ρ)

/-- How far a recognizer has come with the characters of a text. -/
inductive Comes (cs : List Char) : Prop
  | nowhere (h : ∀ more, r.reading .leading (cs ++ more) = r.reading .leading more)
  | behindSign (negative : Bool) (hsign : Field.endsBehindSign cs = true)
    (h : ∀ more, r.reading .leading (cs ++ more) = r.reading (.signed negative) more)
  | within (t : τ) (h : ∀ more, r.reading .leading (cs ++ more) = r.reading (.body t) more)
  | stopped (out : ρ) (left : List Char)
    (h : ∀ more, r.reading .leading (cs ++ more) = (out, some (left ++ more)))

theorem reading_body_append (t : τ) (cs : List Char) :
    (∃ t', ∀ more, r.reading (.body t) (cs ++ more) = r.reading (.body t') more) ∨
      ∃ out left, ∀ more, r.reading (.body t) (cs ++ more) = (out, some (left ++ more)) := by
  induction cs generalizing t with
  | nil => exact .inl ⟨t, fun _ => rfl⟩
  | cons c cs ih =>
    have hfeed : r.feed (.body t) c = inBody (r.step t c) := rfl
    simp only [List.cons_append, reading, hfeed]
    cases r.step t c with
    | more t' => exact ih t'
    | done out => exact .inr ⟨out, cs, fun _ => rfl⟩

theorem takeSign_append {c : Char} (cs more : List Char) :
    Decimal.takeSign (c :: cs ++ more) =
      ((Decimal.takeSign (c :: cs)).1, (Decimal.takeSign (c :: cs)).2 ++ more) := by
  by_cases hminus : c = '-'
  · subst hminus
    rfl
  by_cases hplus : c = '+'
  · subst hplus
    rfl
  rw [List.cons_append, Decimal.takeSign_of_ne (by simpa using ⟨hminus, hplus⟩),
    Decimal.takeSign_of_ne (by simpa using ⟨hminus, hplus⟩)]
  rfl

theorem comes (cs : List Char) : r.Comes cs := by
  cases hcs : cs.dropWhile (· = ' ') with
  | nil =>
    refine .nowhere fun more => ?_
    rw [r.reading_leading, r.reading_leading more, List.dropWhile_append, hcs]
    rfl
  | cons c rest =>
    have hleading (more : List Char) : r.reading .leading (cs ++ more) =
        r.reading (.signed (Decimal.takeSign (c :: rest)).1)
          ((Decimal.takeSign (c :: rest)).2 ++ more) := by
      rw [r.reading_leading, List.dropWhile_append, hcs, List.isEmpty_cons, if_neg Bool.false_ne_true,
        takeSign_append]
    generalize hsigned : Decimal.takeSign (c :: rest) = signed at hleading
    obtain ⟨negative, body⟩ := signed
    cases body with
    | nil => exact .behindSign negative (by simp [Field.endsBehindSign, hcs, hsigned]) hleading
    | cons d body =>
      have hfeed : r.feed (.signed negative) d = inBody (r.start negative d) := rfl
      simp only [List.cons_append, reading, hfeed] at hleading
      cases hstart : r.start negative d with
      | done out =>
        rw [hstart] at hleading
        exact .stopped out body hleading
      | more t =>
        rw [hstart] at hleading
        rcases r.reading_body_append t body with ⟨t', h⟩ | ⟨out, left, h⟩
        · exact .within t' fun more => (hleading more).trans (h more)
        · exact .stopped out left fun more => (hleading more).trans (h more)

theorem reading_replicate {state : State τ} {c : Char} (h : r.feed state c = .more state) (n : ℕ) :
    r.reading state (List.replicate n c) = (r.atEnd state, none) := by
  induction n with
  | zero => rfl
  | succ n ih =>
    rw [List.replicate_succ, reading, h]
    exact ih

/-- Two characters that lead to the same states lead to the same end. -/
theorem reading_replicate_alike {P : State τ → Prop} {c d : Char}
    (h : ∀ state, P state → ∃ next, P next ∧ r.feed state c = .more next ∧ r.feed state d = .more next)
    {state : State τ} (hs : P state) (n : ℕ) : ∃ next, P next ∧
      r.reading state (List.replicate n c) = (r.atEnd next, none) ∧
      r.reading state (List.replicate n d) = (r.atEnd next, none) := by
  induction n generalizing state with
  | zero => exact ⟨state, hs, rfl, rfl⟩
  | succ n ih =>
    obtain ⟨next, hnext, hc, hd⟩ := h state hs
    obtain ⟨last, hlast, hcs, hds⟩ := ih hnext
    rw [List.replicate_succ, List.replicate_succ, reading, reading, hc, hd]
    exact ⟨last, hlast, hcs, hds⟩

end Recognizer

namespace Field

/-- What a field says with blanks behind it, by what it says without them and with zeros in their
place: blanks are dropped or are zeros, and make no error. -/
def Padded {α : Type} (blankZero : Bool) (plain zeros blanks : Except Fault α) : Prop :=
  blanks = plain ∨
    blankZero = true ∧ blanks = zeros ∧ ∀ f, blanks = .error f ↔ plain = .error f

theorem map_eq_error {α β : Type} {g : α → β} {r : Except Fault α} {f : Fault} :
    r.map g = .error f ↔ r = .error f := by
  cases r <;> simp [Except.map]

theorem Padded.map {α β : Type} {blankZero : Bool} {plain zeros blanks : Except Fault α}
    (h : Padded blankZero plain zeros blanks) (g : α → β) :
    Padded blankZero (plain.map g) (zeros.map g) (blanks.map g) := by
  rcases h with rfl | ⟨hzero, rfl, herror⟩
  · exact .inl rfl
  · exact .inr ⟨hzero, rfl, fun f => by rw [map_eq_error, map_eq_error, herror]⟩

/-! ### Integers -/

section

variable {base : ℕ} {cs : List Char}

theorem reading_integer_blanks (n : ℕ) :
    ((integerRecognizer base false).reading .leading (cs ++ List.replicate n ' ')).1 =
      ((integerRecognizer base false).reading .leading cs).1 := by
  have hbody (m : ScannedInteger) :
      (integerRecognizer base false).feed (.body m) ' ' = .more (.body m) := rfl
  have hsigned (negative : Bool) : ((integerRecognizer base false).reading (.signed negative)
      (List.replicate n ' ')).1 = .ok { negative } := by
    cases n with
    | zero => rfl
    | succ n =>
      exact congrArg Prod.fst ((integerRecognizer base false).reading_replicate (hbody { negative }) n)
  have hplain := List.append_nil cs
  cases (integerRecognizer base false).comes cs with
  | nowhere h =>
    rw [h, ← hplain, h, Recognizer.reading_replicate _ (by rfl)]
    rfl
  | behindSign negative hsign h =>
    rw [h, ← hplain, h, hsigned]
    rfl
  | within m h =>
    rw [h, ← hplain, h, Recognizer.reading_replicate _ (hbody m)]
    rfl
  | stopped out left h => rw [h, ← hplain, h]

theorem push_zeros (hbase : 0 < base) (m : ScannedInteger) :
    ScannedInteger.push base true m ' ' = .more { m with magnitude := m.magnitude.push base 0 } ∧
      ScannedInteger.push base true m '0' = .more { m with magnitude := m.magnitude.push base 0 } := by
  have hzero : digit? '0' base = some 0 := by
    change Option.filter (· < base) (some 0) = some 0
    simp [hbase]
  simp [ScannedInteger.push, hzero]

theorem feed_zeros (hbase : 0 < base) (state : Recognizer.State ScannedInteger)
    (hstate : state ≠ .leading) : ∃ next, next ≠ .leading ∧
      (integerRecognizer base true).feed state ' ' = .more next ∧
        (integerRecognizer base true).feed state '0' = .more next := by
  cases state with
  | leading => exact absurd rfl hstate
  | signed negative =>
    exact ⟨.body _, by simp, congrArg Recognizer.inBody (push_zeros hbase { negative }).1,
      congrArg Recognizer.inBody (push_zeros hbase { negative }).2⟩
  | body m =>
    exact ⟨.body _, by simp, congrArg Recognizer.inBody (push_zeros hbase m).1,
      congrArg Recognizer.inBody (push_zeros hbase m).2⟩

theorem reading_zeros (hbase : 0 < base) (n : ℕ) :
    ((integerRecognizer base true).reading .leading (List.replicate n '0')).1 =
      .ok { negative := false } := by
  have hnought : Magnitude.push 0 base 0 = 0 := by simp [Magnitude.push]
  have hstays (state : Recognizer.State ScannedInteger)
      (hstate : state = .leading ∨ state = .body { negative := false }) : ∃ next,
      (next = .leading ∨ next = .body { negative := false }) ∧
        (integerRecognizer base true).feed state '0' = .more next ∧
        (integerRecognizer base true).feed state '0' = .more next := by
    have hfeed : (integerRecognizer base true).feed state '0' =
        .more (.body { negative := false }) := by
      have hstep := congrArg Recognizer.inBody (push_zeros hbase { negative := false }).2
      rw [hnought] at hstep
      rcases hstate with rfl | rfl <;> exact hstep
    exact ⟨_, .inr rfl, hfeed, hfeed⟩
  obtain ⟨next, hnext, hreading, -⟩ :=
    (integerRecognizer base true).reading_replicate_alike hstays (.inl rfl) n
  rw [hreading]
  rcases hnext with rfl | rfl <;> rfl

/-- Behind a sign or a digit zeros do what blanks do, and neither makes an error. -/
theorem reading_zeros_behind (hbase : 0 < base) (n : ℕ) {state : Recognizer.State ScannedInteger}
    (hstate : state ≠ .leading) :
    ((integerRecognizer base true).reading state (List.replicate n ' ')).1 =
        ((integerRecognizer base true).reading state (List.replicate n '0')).1 ∧
      ∀ f, ((integerRecognizer base true).reading state (List.replicate n ' ')).1 = .error f ↔
        ((integerRecognizer base true).reading state []).1 = .error f := by
  have hend (state : Recognizer.State ScannedInteger) :
      ∃ m, (integerRecognizer base true).atEnd state = .ok m := by
    cases state <;> exact ⟨_, rfl⟩
  obtain ⟨next, -, hblanks, hzeros⟩ :=
    (integerRecognizer base true).reading_replicate_alike (feed_zeros hbase) hstate n
  obtain ⟨m, hm⟩ := hend next
  obtain ⟨m', hm'⟩ := hend state
  rw [hblanks, hzeros, hm, Recognizer.reading, hm']
  simp

theorem reading_integer_zeros (hbase : 0 < base) (n : ℕ) :
    ((integerRecognizer base true).reading .leading (cs ++ List.replicate n ' ')).1 =
        ((integerRecognizer base true).reading .leading (cs ++ List.replicate n '0')).1 ∧
      ∀ f, ((integerRecognizer base true).reading .leading (cs ++ List.replicate n ' ')).1 = .error f ↔
        ((integerRecognizer base true).reading .leading cs).1 = .error f := by
  have hplain := List.append_nil cs
  cases (integerRecognizer base true).comes cs with
  | nowhere h =>
    rw [h, h, ← hplain, h, Recognizer.reading_replicate _ (by rfl), reading_zeros hbase]
    exact ⟨rfl, fun _ => Iff.rfl⟩
  | behindSign negative hsign h =>
    rw [h, h, ← hplain, h]
    exact reading_zeros_behind hbase n (by simp)
  | within m h =>
    rw [h, h, ← hplain, h]
    exact reading_zeros_behind hbase n (by simp)
  | stopped out left h =>
    rw [h, h, ← hplain, h]
    exact ⟨rfl, fun _ => Iff.rfl⟩

theorem integer_padded (hbase : 0 < base) (blankZero : Bool) (n : ℕ) :
    Padded blankZero ((integerRecognizer base blankZero).reading .leading cs).1
      ((integerRecognizer base blankZero).reading .leading (cs ++ List.replicate n '0')).1
      ((integerRecognizer base blankZero).reading .leading (cs ++ List.replicate n ' ')).1 := by
  cases blankZero with
  | false => exact .inl (reading_integer_blanks n)
  | true => exact .inr ⟨rfl, reading_integer_zeros hbase n⟩

end

/-! ### Decimal fields -/

namespace RealRules

variable (rules : RealRules) {cs : List Char}

theorem reading_dropped {phase : RealPhase} (hstep : rules.step phase ' ' = .more phase) (n : ℕ) :
    (rules.recognizer.reading (.body phase) (List.replicate n ' ')).1 = rules.finish phase := by
  have hfeed : rules.recognizer.feed (.body phase) ' ' = .more (.body phase) :=
    congrArg Recognizer.inBody hstep
  exact congrArg Prod.fst (rules.recognizer.reading_replicate hfeed n)

theorem reading_word_blanks (negative : Bool) (letters : List Char) (n : ℕ) :
    (rules.recognizer.reading (.body (.word negative letters)) (List.replicate n ' ')).1 =
      rules.finish (.word negative letters) := by
  cases n with
  | zero => rfl
  | succ n =>
    have halpha : ' '.isAlpha = false := by decide
    rw [List.replicate_succ, rules.reading_body, step, pushWord, halpha, finish]
    cases hword : wordValue? negative letters with
    | none => rfl
    | some result =>
      exact rules.reading_dropped (show rules.step (.trailing result) ' ' = _ from rfl) n

theorem reading_mantissa_zeros (hzero : rules.edit.modes.blankZero = true) (m : RealMantissa) (n : ℕ) :
    ∃ m', (rules.recognizer.reading (.body (.mantissa m)) (List.replicate n ' ')).1 =
        rules.finish (.mantissa m') ∧
      (rules.recognizer.reading (.body (.mantissa m)) (List.replicate n '0')).1 =
        rules.finish (.mantissa m') := by
  have hgoes (state : Recognizer.State RealPhase) (hstate : ∃ m, state = .body (.mantissa m)) :
      ∃ next, (∃ m, next = .body (.mantissa m)) ∧ rules.recognizer.feed state ' ' = .more next ∧
        rules.recognizer.feed state '0' = .more next := by
    obtain ⟨m, rfl⟩ := hstate
    obtain ⟨m', hpush, -⟩ := rules.pushMantissa_run m (show isDigitOrBlank '0' = true by decide)
    have hsame : rules.pushMantissa m ' ' = rules.pushMantissa m '0' := by
      simp [pushMantissa, hzero]
    exact ⟨_, ⟨m', rfl⟩, congrArg Recognizer.inBody (hsame.trans hpush),
      congrArg Recognizer.inBody hpush⟩
  obtain ⟨_, ⟨m', rfl⟩, hblanks, hzeros⟩ :=
    rules.recognizer.reading_replicate_alike hgoes ⟨m, rfl⟩ n
  exact ⟨m', congrArg Prod.fst hblanks, congrArg Prod.fst hzeros⟩

theorem reading_exponent_zeros (hzero : rules.edit.modes.blankZero = true) (m : RealMantissa)
    (negative : Bool) (value : ℤ) (n : ℕ) : ∃ m' negative' value',
      (rules.recognizer.reading (.body (.exponent m negative value)) (List.replicate n ' ')).1 =
          rules.finish (.exponent m' negative' value') ∧
        (rules.recognizer.reading (.body (.exponent m negative value)) (List.replicate n '0')).1 =
          rules.finish (.exponent m' negative' value') := by
  have hdigit : '0'.isDigit = true := by decide
  have hblank : ' '.isDigit = false := by decide
  have hgoes (state : Recognizer.State RealPhase)
      (hstate : ∃ m negative value, state = .body (.exponent m negative value)) :
      ∃ next, (∃ m negative value, next = .body (.exponent m negative value)) ∧
        rules.recognizer.feed state ' ' = .more next ∧
          rules.recognizer.feed state '0' = .more next := by
    obtain ⟨m, negative, value, rfl⟩ := hstate
    have hpush : rules.pushExponent m negative value ' ' =
        .more (.exponent m negative (min (value * 10 + (0 : ℕ)) exponentLimit)) := by
      simp [pushExponent, hzero, hblank]
    have hsame : rules.pushExponent m negative value '0' =
        .more (.exponent m negative (min (value * 10 + (0 : ℕ)) exponentLimit)) := by
      simp [pushExponent, hdigit]
    exact ⟨_, ⟨m, negative, _, rfl⟩, congrArg Recognizer.inBody hpush,
      congrArg Recognizer.inBody hsame⟩
  obtain ⟨_, ⟨m', negative', value', rfl⟩, hblanks, hzeros⟩ :=
    rules.recognizer.reading_replicate_alike hgoes ⟨m, negative, value, rfl⟩ n
  exact ⟨m', negative', value', congrArg Prod.fst hblanks, congrArg Prod.fst hzeros⟩

theorem reading_body_blanks (phase : RealPhase) (n : ℕ) :
    (rules.recognizer.reading (.body phase) (List.replicate n ' ')).1 = rules.finish phase ∨
      rules.edit.modes.blankZero = true ∧ ∃ scanned scanned', rules.finish phase = .ok scanned ∧
        (rules.recognizer.reading (.body phase) (List.replicate n ' ')).1 = .ok scanned' ∧
        (rules.recognizer.reading (.body phase) (List.replicate n '0')).1 = .ok scanned' := by
  cases phase with
  | exponentLetter m => exact .inl (rules.reading_dropped rfl n)
  | trailing result => exact .inl (rules.reading_dropped rfl n)
  | payload negative => exact .inl (rules.reading_dropped rfl n)
  | word negative letters => exact .inl (rules.reading_word_blanks negative letters n)
  | mantissa m =>
    cases hzero : rules.edit.modes.blankZero with
    | false => exact .inl (rules.reading_dropped (step_blank hzero rfl) n)
    | true =>
      obtain ⟨_, hblanks, hzeros⟩ := rules.reading_mantissa_zeros hzero m n
      exact .inr ⟨rfl, _, _, rfl, hblanks, hzeros⟩
  | exponent m negative value =>
    cases hzero : rules.edit.modes.blankZero with
    | false => exact .inl (rules.reading_dropped (step_blank hzero rfl) n)
    | true =>
      obtain ⟨_, _, _, hblanks, hzeros⟩ := rules.reading_exponent_zeros hzero m negative value n
      exact .inr ⟨rfl, _, _, rfl, hblanks, hzeros⟩

theorem reading_blanks (hsign : endsBehindSign cs = false) (n : ℕ) :
    (rules.recognizer.reading .leading (cs ++ List.replicate n ' ')).1 =
        (rules.recognizer.reading .leading cs).1 ∨
      rules.edit.modes.blankZero = true ∧ ∃ scanned scanned',
        (rules.recognizer.reading .leading cs).1 = .ok scanned ∧
        (rules.recognizer.reading .leading (cs ++ List.replicate n ' ')).1 = .ok scanned' ∧
        (rules.recognizer.reading .leading (cs ++ List.replicate n '0')).1 = .ok scanned' := by
  have hplain := List.append_nil cs
  cases rules.recognizer.comes cs with
  | nowhere h =>
    rw [h, ← hplain, h, Recognizer.reading_replicate _ (by rfl)]
    exact .inl rfl
  | behindSign negative hbehind h =>
    rw [hsign] at hbehind
    cases hbehind
  | within phase h =>
    rw [h, h, ← hplain, h]
    exact rules.reading_body_blanks phase n
  | stopped out left h =>
    rw [h, ← hplain, h]
    exact .inl rfl

theorem padded (hsign : endsBehindSign cs = false) (n : ℕ) :
    Padded rules.edit.modes.blankZero (rules.recognizer.reading .leading cs).1
      (rules.recognizer.reading .leading (cs ++ List.replicate n '0')).1
      (rules.recognizer.reading .leading (cs ++ List.replicate n ' ')).1 := by
  rcases rules.reading_blanks hsign n with h | ⟨hzero, _, _, hplain, hblanks, hzeros⟩
  · exact .inl h
  · exact .inr ⟨hzero, hblanks.trans hzeros.symm, fun f => by simp [hblanks, hplain]⟩

end RealRules

end Field

end DataTransfer
