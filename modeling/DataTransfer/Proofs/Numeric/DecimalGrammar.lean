import DataTransfer.Proofs.Field.DecimalText
import Mathlib.Data.List.Forall2
import Mathlib.Data.List.TakeWhile

/-!
The grammar of decimal texts, and the parser against it. A number is a sign, a significand and an
exponent; behind a sign and a letter stands a special value. A text that is none of these is a cut-off
exponent, or it goes on with a character with which no text of the grammar does.
-/

namespace DataTransfer.Decimal

/-! ### The grammar -/

inductive Sign where
  | none
  | plus
  | minus
  deriving Repr, DecidableEq

namespace Sign

def text : Sign → List Char
  | none => []
  | plus => ['+']
  | minus => ['-']

def negative : Sign → Bool
  | minus => true
  | _ => false

end Sign

/-- Digits, and perhaps a point with digits behind it. Any of the digits may be missing. -/
structure Significand where
  whole : List Char
  fraction : Option (List Char)
  whole_digits : Digits whole
  fraction_digits : ∀ ds ∈ fraction, Digits ds

namespace Significand

def text (s : Significand) : List Char := s.whole ++ s.fraction.elim [] ('.' :: ·)

def digits (s : Significand) : List Char := s.whole ++ s.fraction.getD []

def places (s : Significand) : ℕ := (s.fraction.getD []).length

def coefficient (s : Significand) : ℕ := Nat.ofDigitChars 10 s.digits 0

/-- A character that is not the next one of the significand. -/
def StopsBefore (s : Significand) (c : Char) : Prop :=
  c.isDigit = false ∧ (s.fraction = none → c ≠ '.')

end Significand

structure Exponent where
  letter : Char
  sign : Sign
  digits : List Char
  letter_eq : letter = 'e' ∨ letter = 'E'
  digits_digits : Digits digits
  digits_ne_nil : digits ≠ []

namespace Exponent

def text (e : Exponent) : List Char := e.letter :: (e.sign.text ++ e.digits)

def value (e : Exponent) : ℤ :=
  if e.sign.negative then -(Nat.ofDigitChars 10 e.digits 0 : ℤ) else Nat.ofDigitChars 10 e.digits 0

end Exponent

/-- A number. Behind no significand there is no exponent. -/
structure Number where
  sign : Sign
  significand : Significand
  exponent : Option Exponent
  significand_ne_nil : exponent.isSome = true → significand.text ≠ []

namespace Number

def text (n : Number) : List Char :=
  n.sign.text ++ (n.significand.text ++ n.exponent.elim [] Exponent.text)

def scale (n : Number) : ℤ := n.exponent.elim 0 Exponent.value

/-- The digits as one number, times a power of ten that grows with the exponent up to its limit. -/
def value (n : Number) : DecimalValue :=
  .finite n.sign.negative n.significand.coefficient (clamp n.scale - n.significand.places)

end Number

/-- The letters of a name in capitals, each of them in either case. -/
def Spells (word : List Char) (name : String) : Prop :=
  List.Forall₂ (fun c letter => c = letter ∨ c = letter.toLower) word name.toList

inductive Denotes : List Char → DecimalValue → Prop
  | number (n : Number) : Denotes n.text n.value
  | infinity (sign : Sign) {word : List Char} (hword : Spells word "INF" ∨ Spells word "INFINITY") :
    Denotes (sign.text ++ word) (.infinity sign.negative)
  | nan (sign : Sign) {word : List Char} (hword : Spells word "NAN") :
    Denotes (sign.text ++ word) (.nan sign.negative)

def IsWord (cs : List Char) : Prop := ∃ c ∈ cs.head?, c.isAlpha = true

def IsSpecial (word : List Char) : Prop :=
  Spells word "INF" ∨ Spells word "INFINITY" ∨ Spells word "NAN"

/-- A number up to where the digits of its exponent have to start. -/
inductive IsCut : List Char → Prop
  | intro (sign : Sign) (s : Significand) {letter : Char} (inner : Sign) (hs : s.text ≠ [])
    (hletter : letter = 'e' ∨ letter = 'E') : IsCut (sign.text ++ (s.text ++ letter :: inner.text))

/-- The beginning of a number, and a character that does not go on with it. -/
inductive IsStuck : List Char → Char → Prop
  | significand (sign : Sign) (s : Significand) {c : Char} (hc : s.StopsBefore c)
    (hletter : ¬ (c = 'e' ∨ c = 'E')) (halpha : s.text = [] → c.isAlpha = false)
    (hsign : s.text = [] → sign = .none → c ≠ '-' ∧ c ≠ '+') : IsStuck (sign.text ++ s.text) c
  | exponent (sign : Sign) (s : Significand) {letter : Char} (inner : Sign) {digits : List Char}
    {c : Char} (hs : s.text ≠ []) (hletter : letter = 'e' ∨ letter = 'E') (hdigits : Digits digits)
    (hc : c.isDigit = false) (hsign : digits = [] → inner = .none → c ≠ '-' ∧ c ≠ '+') :
    IsStuck (sign.text ++ (s.text ++ letter :: (inner.text ++ digits))) c

inductive Shape : List Char → Prop
  | word (sign : Sign) {word : List Char} (h : IsWord word) : Shape (sign.text ++ word)
  | number (n : Number) : Shape n.text
  | cut {cs : List Char} (h : IsCut cs) : Shape cs
  | stuck {good : List Char} {c : Char} (rest : List Char) (h : IsStuck good c) :
    Shape (good ++ c :: rest)

/-! ### ASCII -/

theorem isUpper_iff {c : Char} : c.isUpper = true ↔ 65 ≤ c.toNat ∧ c.toNat ≤ 90 :=
  decide_eq_true_iff.trans (and_congr UInt32.le_iff_toNat_le UInt32.le_iff_toNat_le)

theorem isLower_iff {c : Char} : c.isLower = true ↔ 97 ≤ c.toNat ∧ c.toNat ≤ 122 := by
  have hcode : c.isLower = (decide (c.val ≥ 'a'.val) && decide (c.val ≤ 'z'.val)) := rfl
  rw [hcode, Bool.and_eq_true, decide_eq_true_iff, decide_eq_true_iff]
  exact and_congr UInt32.le_iff_toNat_le UInt32.le_iff_toNat_le

theorem isDigit_iff {c : Char} : c.isDigit = true ↔ 48 ≤ c.toNat ∧ c.toNat ≤ 57 := by
  have hcode : c.isDigit = (decide (c.val ≥ '0'.val) && decide (c.val ≤ '9'.val)) := rfl
  rw [hcode, Bool.and_eq_true, decide_eq_true_iff, decide_eq_true_iff]
  exact and_congr UInt32.le_iff_toNat_le UInt32.le_iff_toNat_le

theorem isAlpha_iff {c : Char} : c.isAlpha = true ↔
    65 ≤ c.toNat ∧ c.toNat ≤ 90 ∨ 97 ≤ c.toNat ∧ c.toNat ≤ 122 := by
  have hcode : c.isAlpha = (c.isUpper || c.isLower) := rfl
  rw [hcode, Bool.or_eq_true, isUpper_iff, isLower_iff]

/-! ### Signs -/

def Unsigned (cs : List Char) : Prop := ∀ c ∈ cs.head?, c ≠ '-' ∧ c ≠ '+'

theorem unsigned_cons {c : Char} {cs : List Char} (h : c ≠ '-' ∧ c ≠ '+') : Unsigned (c :: cs) := by
  rintro d hd
  obtain rfl := Option.some.inj hd
  exact h

theorem ne_sign_of_isDigit {c : Char} (h : c.isDigit = true) : c ≠ '-' ∧ c ≠ '+' := by
  constructor
  · rintro rfl
    cases h
  · rintro rfl
    cases h

theorem ne_sign_of_isAlpha {c : Char} (h : c.isAlpha = true) : c ≠ '-' ∧ c ≠ '+' := by
  constructor
  · rintro rfl
    cases h
  · rintro rfl
    cases h

theorem takeSign_text (sign : Sign) {body : List Char} (h : sign = .none → Unsigned body) :
    takeSign (sign.text ++ body) = (sign.negative, body) := by
  cases sign with
  | none => exact takeSign_of_ne (h rfl)
  | plus => rfl
  | minus => rfl

theorem exists_sign (cs : List Char) :
    ∃ (sign : Sign) (body : List Char), cs = sign.text ++ body ∧ (sign = .none → Unsigned body) := by
  cases cs with
  | nil => exact ⟨.none, [], rfl, fun _ => nofun⟩
  | cons c cs =>
    by_cases hminus : c = '-'
    · subst hminus
      exact ⟨.minus, cs, rfl, nofun⟩
    by_cases hplus : c = '+'
    · subst hplus
      exact ⟨.plus, cs, rfl, nofun⟩
    · exact ⟨.none, c :: cs, rfl, fun _ => unsigned_cons ⟨hminus, hplus⟩⟩

/-! ### Significands -/

theorem isAlpha_of_isDigit {c : Char} (h : c.isDigit = true) : c.isAlpha = false := by
  rw [isDigit_iff] at h
  rw [Bool.eq_false_iff, ne_eq, isAlpha_iff]
  omega

theorem takeMantissa_run {ds : List Char} (hds : Digits ds) (digits : ℕ) (rest : List Char) :
    takeMantissa { digits } (ds ++ rest) =
      takeMantissa { digits := Nat.ofDigitChars 10 ds digits } rest := by
  induction ds generalizing digits with
  | nil => rfl
  | cons c ds ih =>
    rw [List.cons_append, takeMantissa, if_pos hds.head]
    simp only [Bool.false_eq_true, if_false]
    rw [ih hds.tail, Nat.ofDigitChars_cons]
    rfl

namespace Significand

variable (s : Significand) {c : Char} {tail : List Char}

theorem stopsBefore_letter (h : c = 'e' ∨ c = 'E') : s.StopsBefore c := by
  rcases h with rfl | rfl
  · exact ⟨by decide, fun _ => by decide⟩
  · exact ⟨by decide, fun _ => by decide⟩

theorem takeMantissa_text (htail : ∀ c ∈ tail.head?, s.StopsBefore c) :
    takeMantissa {} (s.text ++ tail) =
      ({ digits := s.coefficient, fraction := s.places, pointed := s.fraction.isSome }, tail) := by
  obtain ⟨whole, fraction, hwhole, hfraction⟩ := s
  cases fraction with
  | none =>
    simp only [text, coefficient, digits, places, Option.elim_none, Option.getD_none, List.append_nil]
    rw [takeMantissa_run hwhole]
    cases tail with
    | nil => rfl
    | cons c tail =>
      obtain ⟨hdigit, hpoint⟩ := htail c rfl
      rw [takeMantissa, hdigit]
      simp [hpoint rfl]
  | some ds =>
    simp only [text, coefficient, digits, places, Option.elim_some, Option.getD_some,
      List.append_assoc, List.cons_append, Nat.ofDigitChars_append]
    rw [takeMantissa_run hwhole]
    have hpoint (digits : ℕ) : takeMantissa { digits } ('.' :: (ds ++ tail)) =
        takeMantissa { digits, fraction := 0, pointed := true } (ds ++ tail) := rfl
    rw [hpoint, takeMantissa_digits (hfraction ds rfl) (fun c hc => (htail c hc).1), Nat.zero_add]
    rfl

theorem head_text (h : c ∈ s.text.head?) : c.isDigit = true ∨ c = '.' := by
  obtain ⟨whole, fraction, hwhole, hfraction⟩ := s
  cases whole with
  | cons d whole =>
    obtain rfl := Option.some.inj h
    exact .inl hwhole.head
  | nil =>
    cases fraction with
    | none => cases h
    | some ds => exact .inr (Option.some.inj h).symm

theorem unsigned_append (htail : s.text = [] → Unsigned tail) : Unsigned (s.text ++ tail) := by
  intro c hc
  cases hs : s.text with
  | nil => exact htail hs c (by simpa [hs] using hc)
  | cons d ds =>
    obtain rfl : d = c := by simpa [hs] using hc
    rcases s.head_text (c := d) (by rw [hs]; rfl) with hdigit | rfl
    · exact ne_sign_of_isDigit hdigit
    · decide

theorem not_isAlpha_head (htail : s.text = [] → ∀ c ∈ tail.head?, c.isAlpha = false) :
    ∀ c ∈ (s.text ++ tail).head?, c.isAlpha = false := by
  intro c hc
  cases hs : s.text with
  | nil => exact htail hs c (by simpa [hs] using hc)
  | cons d ds =>
    obtain rfl : d = c := by simpa [hs] using hc
    rcases s.head_text (c := d) (by rw [hs]; rfl) with hdigit | rfl
    · exact isAlpha_of_isDigit hdigit
    · decide

end Significand

theorem exists_digits (cs : List Char) :
    ∃ ds rest : List Char, cs = ds ++ rest ∧ Digits ds ∧ ∀ c ∈ rest.head?, c.isDigit = false := by
  refine ⟨cs.takeWhile Char.isDigit, cs.dropWhile Char.isDigit, List.takeWhile_append_dropWhile.symm,
    fun c hc => List.mem_takeWhile_imp hc, fun c hc => ?_⟩
  have hhead := List.head?_dropWhile_not Char.isDigit cs
  rwa [hc] at hhead

theorem exists_significand (cs : List Char) :
    ∃ (s : Significand) (tail : List Char), cs = s.text ++ tail ∧ ∀ c ∈ tail.head?, s.StopsBefore c := by
  obtain ⟨whole, rest, rfl, hwhole, hrest⟩ := exists_digits cs
  by_cases hpoint : rest.head? = some '.'
  · obtain ⟨more, rfl⟩ : ∃ more, rest = '.' :: more := by
      cases rest with
      | nil => cases hpoint
      | cons c more => exact ⟨more, by rw [Option.some.inj hpoint]⟩
    obtain ⟨ds, tail, rfl, hds, htail⟩ := exists_digits more
    refine ⟨⟨whole, some ds, hwhole, by rintro _ ⟨⟩; exact hds⟩, tail, ?_, fun c hc => ?_⟩
    · simp [Significand.text]
    · exact ⟨htail c hc, nofun⟩
  · refine ⟨⟨whole, none, hwhole, nofun⟩, rest, ?_, fun c hc => ⟨hrest c hc, ?_⟩⟩
    · simp [Significand.text]
    · rintro - rfl
      exact hpoint hc

theorem shape (cs : List Char) : Shape cs := by
  obtain ⟨sign, body, rfl, hsign⟩ := exists_sign cs
  obtain ⟨s, tail, rfl, htail⟩ := exists_significand body
  cases tail with
  | nil => exact .number ⟨sign, s, none, nofun⟩
  | cons c rest =>
    by_cases hempty : s.text = []
    · rw [hempty] at hsign ⊢
      by_cases halpha : c.isAlpha = true
      · exact .word sign ⟨c, rfl, halpha⟩
      · have hletter : ¬ (c = 'e' ∨ c = 'E') := by
          rintro (rfl | rfl)
          · exact halpha rfl
          · exact halpha rfl
        have hstuck : IsStuck (sign.text ++ s.text) c :=
          .significand sign s (htail c rfl) hletter (fun _ => by simpa using halpha)
            fun _ hnone => hsign hnone c rfl
        rw [hempty, List.append_nil] at hstuck
        exact .stuck rest hstuck
    · by_cases hletter : c = 'e' ∨ c = 'E'
      · obtain ⟨inner, more, rfl, hinner⟩ := exists_sign rest
        obtain ⟨ds, left, rfl, hds, hleft⟩ := exists_digits more
        cases left with
        | cons d left =>
          have hstuck : IsStuck (sign.text ++ (s.text ++ c :: (inner.text ++ ds))) d :=
            .exponent sign s inner hempty hletter hds (hleft d rfl) fun hnil hnone =>
              hinner hnone d (by rw [hnil]; rfl)
          simpa using Shape.stuck left hstuck
        | nil =>
          rw [List.append_nil]
          by_cases hnil : ds = []
          · rw [hnil, List.append_nil]
            exact .cut (.intro sign s inner hempty hletter)
          · exact .number ⟨sign, s, some ⟨c, inner, ds, hletter, hds, hnil⟩, fun _ => hempty⟩
      · have hstuck : IsStuck (sign.text ++ s.text) c :=
          .significand sign s (htail c rfl) hletter (fun h => absurd h hempty) fun h => absurd h hempty
        simpa using Shape.stuck rest hstuck

/-! ### The parser on each kind of text -/

variable {text cs : List Char} {c letter : Char}

theorem exponentPart_text (e : Exponent) (offset : ℕ) :
    exponentPart offset (e.sign.text ++ e.digits) = .ok (clamp e.value) := by
  have hsign : takeSign (e.sign.text ++ e.digits) = (e.sign.negative, e.digits) :=
    takeSign_text e.sign fun _ d hd =>
      ne_sign_of_isDigit (e.digits_digits d (List.mem_of_mem_head? hd))
  rw [exponentPart_of_digits offset hsign e.digits_digits e.digits_ne_nil]
  simp only [Exponent.value, clamp, exponentLimit]
  congr 1
  split_ifs
  · omega
  · omega

theorem exponentPart_cut (inner : Sign) (offset : ℕ) :
    exponentPart offset inner.text = .error .emptyExponent := by
  cases inner <;> rfl

theorem exponentDigits_stuck {ds : List Char} (hds : Digits ds) (hc : c.isDigit = false)
    (rest : List Char) (offset : ℕ) (value : ℤ) :
    exponentDigits offset value (ds ++ c :: rest) =
      .error (.unexpected (leadByte c) (offset + ds.length)) := by
  induction ds generalizing offset value with
  | nil => rw [List.nil_append, exponentDigits, hc]; rfl
  | cons d ds ih =>
    rw [List.cons_append, exponentDigits, if_pos hds.head, ih hds.tail, List.length_cons]
    congr 2
    omega

theorem exponentPart_stuck (inner : Sign) {ds : List Char} (hds : Digits ds) (hc : c.isDigit = false)
    (hsign : ds = [] → inner = .none → c ≠ '-' ∧ c ≠ '+') (rest : List Char) (offset : ℕ) :
    exponentPart offset (inner.text ++ (ds ++ c :: rest)) =
      .error (.unexpected (leadByte c) (offset + inner.text.length + ds.length)) := by
  have htake : takeSign (inner.text ++ (ds ++ c :: rest)) = (inner.negative, ds ++ c :: rest) := by
    refine takeSign_text inner fun hnone => ?_
    cases ds with
    | nil => exact unsigned_cons (hsign rfl hnone)
    | cons d ds => exact unsigned_cons (ne_sign_of_isDigit hds.head)
  have hoffset : (inner.text ++ (ds ++ c :: rest)).length - (ds ++ c :: rest).length =
      inner.text.length := by
    rw [List.length_append, Nat.add_sub_cancel]
  have hempty : (ds ++ c :: rest).isEmpty = false := by simp
  simp only [exponentPart, htake, hoffset, hempty, Bool.false_eq_true, if_false,
    exponentDigits_stuck hds hc]
  rfl

section

variable (negative : Bool) (offset : ℕ) (s : Significand) (rest : List Char)

theorem number_text :
    number negative offset s.text = .ok (.finite negative s.coefficient (-s.places)) := by
  have htake : takeMantissa {} (s.text ++ []) = _ := s.takeMantissa_text nofun
  rw [List.append_nil] at htake
  rw [number, htake]

theorem number_letter (hletter : letter = 'e' ∨ letter = 'E') :
    number negative offset (s.text ++ letter :: rest) =
      (exponentPart (offset + s.text.length + 1) rest).map fun e =>
        .finite negative s.coefficient (e - s.places) := by
  have hstops : ∀ c ∈ (letter :: rest).head?, s.StopsBefore c := by
    rintro c hc
    obtain rfl := Option.some.inj hc
    exact s.stopsBefore_letter hletter
  have htake := s.takeMantissa_text hstops
  rw [number, htake]
  simp [hletter]

theorem number_stuck (hc : s.StopsBefore c) (hletter : ¬ (c = 'e' ∨ c = 'E')) :
    number negative offset (s.text ++ c :: rest) =
      .error (.unexpected (leadByte c) (offset + s.text.length)) := by
  have hstops : ∀ d ∈ (c :: rest).head?, s.StopsBefore d := by
    rintro d hd
    obtain rfl := Option.some.inj hd
    exact hc
  have htake := s.takeMantissa_text hstops
  rw [number, htake]
  simp [hletter]

end

theorem parse_eq_number {sign : Sign} {body : List Char} (htext : Text.trim text = sign.text ++ body)
    (hsign : sign = .none → Unsigned body) (halpha : ∀ c ∈ body.head?, c.isAlpha = false) :
    parse text = number sign.negative sign.text.length body := by
  have hoffset : (sign.text ++ body).length - body.length = sign.text.length := by
    rw [List.length_append, Nat.add_sub_cancel]
  rw [parse, htext, takeSign_text sign hsign]
  cases body with
  | nil => simp only [hoffset]
  | cons c body => simp only [halpha c rfl, Bool.false_eq_true, if_false, hoffset]

theorem parse_number (n : Number) (htext : Text.trim text = n.text) : parse text = .ok n.value := by
  obtain ⟨sign, s, exponent, hne⟩ := n
  cases exponent with
  | none =>
    have hbody := parse_eq_number (htext.trans rfl) (fun _ => s.unsigned_append fun _ => nofun)
      (s.not_isAlpha_head fun _ => nofun)
    rw [hbody, Option.elim_none, List.append_nil, number_text]
    simp [Number.value, Number.scale, clamp_zero]
  | some e =>
    have hs : s.text ≠ [] := hne rfl
    have hbody := parse_eq_number (htext.trans rfl) (fun _ => s.unsigned_append fun h => absurd h hs)
      (s.not_isAlpha_head fun h => absurd h hs)
    rw [hbody, Option.elim_some, Exponent.text, number_letter _ _ _ _ e.letter_eq, exponentPart_text]
    rfl

theorem parse_cut (h : IsCut (Text.trim text)) : parse text = .error .emptyExponent := by
  generalize htext : Text.trim text = cs at h
  obtain ⟨sign, s, inner, hs, hletter⟩ := h
  rw [parse_eq_number htext (fun _ => s.unsigned_append fun h => absurd h hs)
    (s.not_isAlpha_head fun h => absurd h hs), number_letter _ _ _ _ hletter, exponentPart_cut]
  rfl

theorem parse_stuck {good : List Char} (h : IsStuck good c) (rest : List Char)
    (htext : Text.trim text = good ++ c :: rest) :
    parse text = .error (.unexpected (leadByte c) good.length) := by
  cases h with
  | significand sign s hc hletter halpha hsign =>
    rw [List.append_assoc] at htext
    rw [parse_eq_number htext (fun hnone => s.unsigned_append fun h => unsigned_cons (hsign h hnone))
      (s.not_isAlpha_head fun h d hd => by obtain rfl := Option.some.inj hd; exact halpha h),
      number_stuck _ _ _ _ hc hletter, List.length_append]
  | exponent sign s inner hs hletter hdigits hc hsign =>
    simp only [List.append_assoc, List.cons_append] at htext
    rw [parse_eq_number htext (fun _ => s.unsigned_append fun h => absurd h hs)
      (s.not_isAlpha_head fun h => absurd h hs), number_letter _ _ _ _ hletter,
      exponentPart_stuck inner hdigits hc hsign]
    simp only [Except.map, List.length_append, List.length_cons]
    congr 2
    omega

/-! ### Words -/

def Capitals (name : String) : Prop := ∀ d ∈ name.toList, d.isUpper = true

-- As for digits, the letters of the name are gone through.
instance (name : String) : Decidable (Capitals name) :=
  List.decidableBAll (fun d : Char => d.isUpper = true) name.toList

theorem toNat_toLower {d : Char} (hd : d.isUpper = true) : d.toLower.toNat = d.toNat + 32 := by
  have hcapital := isUpper_iff.mp hd
  unfold Char.toLower
  rw [dif_pos (decide_eq_true_iff.mp hd)]
  exact (UInt32.toNat_add _ _).trans (Nat.mod_eq_of_lt (show d.toNat + 32 < 2 ^ 32 by omega))

theorem toNat_toUpper (c : Char) :
    c.toUpper.toNat = if 97 ≤ c.toNat ∧ c.toNat ≤ 122 then c.toNat - 32 else c.toNat := by
  have hcode : 'a'.val ≤ c.val ∧ c.val ≤ 'z'.val ↔ 97 ≤ c.toNat ∧ c.toNat ≤ 122 :=
    and_congr UInt32.le_iff_toNat_le UInt32.le_iff_toNat_le
  unfold Char.toUpper
  split_ifs with hval hlower hlower
  · have hsum : (c.val + ('A'.val - 'a'.val)).toNat = (c.toNat + (2 ^ 32 - 32)) % 2 ^ 32 :=
      UInt32.toNat_add _ _
    refine hsum.trans ?_
    omega
  · exact absurd (hcode.mp hval) hlower
  · exact absurd (hcode.mpr hlower) hval
  · rfl

theorem toUpper_eq_iff {d : Char} (hd : d.isUpper = true) : c.toUpper = d ↔ c = d ∨ c = d.toLower := by
  have hcapital := isUpper_iff.mp hd
  simp only [← Char.toNat_inj, toNat_toLower hd, toNat_toUpper]
  split_ifs with hlower
  · omega
  · omega

theorem spells_iff {word : List Char} {name : String} (hname : Capitals name) :
    Spells word name ↔ String.ofList (word.map Char.toUpper) = name := by
  rw [← String.toList_inj, String.toList_ofList]
  unfold Spells
  unfold Capitals at hname
  generalize name.toList = letters at hname
  induction word generalizing letters with
  | nil => cases letters <;> simp
  | cons c word ih =>
    cases letters with
    | nil => simp
    | cons d letters =>
      obtain ⟨hd, hletters⟩ := List.forall_mem_cons.mp hname
      rw [List.forall₂_cons, ih letters hletters, List.map_cons, List.cons.injEq, toUpper_eq_iff hd]

theorem special_infinity {word : List Char} (h : Spells word "INF" ∨ Spells word "INFINITY")
    (negative : Bool) : special negative word = .ok (.infinity negative) := by
  rw [spells_iff (by decide), spells_iff (by decide)] at h
  simp [special, h]

theorem special_nan {word : List Char} (h : Spells word "NAN") (negative : Bool) :
    special negative word = .ok (.nan negative) := by
  rw [spells_iff (by decide)] at h
  simp [special, h]

theorem special_unknown {word : List Char} (h : ¬ IsSpecial word) (negative : Bool) :
    special negative word = .error (.unknownSpecial (String.ofList word)) := by
  rw [IsSpecial, spells_iff (by decide), spells_iff (by decide), spells_iff (by decide)] at h
  simp_all [special]

theorem special_cases (sign : Sign) (word : List Char) :
    (∃ v, Denotes (sign.text ++ word) v ∧ special sign.negative word = .ok v) ∨
      ¬ IsSpecial word ∧
        special sign.negative word = .error (.unknownSpecial (String.ofList word)) := by
  by_cases hspecial : IsSpecial word
  · refine .inl ?_
    rcases hspecial with h | h | h
    · exact ⟨_, .infinity sign (.inl h), special_infinity (.inl h) _⟩
    · exact ⟨_, .infinity sign (.inr h), special_infinity (.inr h) _⟩
    · exact ⟨_, .nan sign h, special_nan h _⟩
  · exact .inr ⟨hspecial, special_unknown hspecial _⟩

theorem Spells.isAlpha {word : List Char} {name : String} (h : Spells word name)
    (hname : Capitals name) : ∀ c ∈ word, c.isAlpha = true := by
  unfold Spells at h
  unfold Capitals at hname
  generalize name.toList = letters at h hname
  induction h with
  | nil => nofun
  | cons hc _ ih =>
    obtain ⟨hd, hletters⟩ := List.forall_mem_cons.mp hname
    refine List.forall_mem_cons.mpr ⟨?_, ih hletters⟩
    rcases hc with rfl | rfl
    · exact isAlpha_iff.mpr (.inl (isUpper_iff.mp hd))
    · have hcapital := isUpper_iff.mp hd
      rw [isAlpha_iff, toNat_toLower hd]
      omega

theorem IsSpecial.isAlpha {word : List Char} (h : IsSpecial word) : ∀ c ∈ word, c.isAlpha = true := by
  rcases h with h | h | h
  · exact h.isAlpha (by decide)
  · exact h.isAlpha (by decide)
  · exact h.isAlpha (by decide)

theorem IsSpecial.isWord {word : List Char} (h : IsSpecial word) : IsWord word := by
  have halpha := h.isAlpha
  cases word with
  | cons c word => exact ⟨c, rfl, halpha c List.mem_cons_self⟩
  | nil => rcases h with h | h | h <;> exact absurd h.length_eq (by decide)

theorem parse_eq_special {sign : Sign} {word : List Char} (h : IsWord word)
    (htext : Text.trim text = sign.text ++ word) : parse text = special sign.negative word := by
  obtain ⟨c, hc, halpha⟩ := h
  obtain ⟨word, rfl⟩ : ∃ rest, word = c :: rest := ⟨_, List.eq_cons_of_mem_head? hc⟩
  rw [parse, htext, takeSign_text sign fun _ => unsigned_cons (ne_sign_of_isAlpha halpha)]
  simp only [halpha, if_true]

/-- What is of the grammar is read as what it stands for. -/
theorem parse_denotes {v : DecimalValue} (h : Denotes (Text.trim text) v) : parse text = .ok v := by
  generalize htext : Text.trim text = cs at h
  cases h with
  | number n => exact parse_number n htext
  | infinity sign hword =>
    have hspecial : IsSpecial _ := hword.elim .inl fun h => .inr (.inl h)
    rw [parse_eq_special hspecial.isWord htext, special_infinity hword]
  | nan sign hword =>
    have hspecial : IsSpecial _ := .inr (.inr hword)
    rw [parse_eq_special hspecial.isWord htext, special_nan hword]

end DataTransfer.Decimal
