import Mathlib.Data.List.TakeWhile
import DataTransfer.Proofs.Field.DecimalText
import Mathlib.Data.Rat.Init

/-!
What the text of a decimal field spells: its sign, the digits before and behind the decimal symbol
and its exponent. The rules are those of the field alone, not of the way it is scanned.
-/

namespace DataTransfer.Field

def isDigitOrBlank (c : Char) : Bool := c.isDigit || c = ' '

/-- The digits that digits and blanks spell: blanks are dropped, or are zeros. -/
def spelled (blankZero : Bool) (cs : List Char) : List Char :=
  if blankZero then cs.map fun c => if c = ' ' then '0' else c else cs.filter (· ≠ ' ')

def significantDigits (ds : List Char) : List Char := ds.dropWhile (· = '0')

def signed (negative : Bool) (n : ℕ) : ℤ := if negative then -n else n

/-- What follows an exponent letter and blanks, or all of the text if it has no letter. -/
def exponentText (text : List Char) : List Char :=
  if text.head?.any RealRules.isExponentLetter then text.tail.dropWhile (· = ' ') else text

/-- The exponent that is written. A sign without digits is the exponent zero. -/
def writtenExponent? (blankZero : Bool) (text : List Char) : Option ℤ :=
  if text = [] then none
  else
    let (negative, digits) := Decimal.takeSign text
    some (signed negative (Nat.ofDigitChars 10 (spelled blankZero digits) 0))

/-- A decimal field, taken apart at its decimal symbol and where its digits end. -/
structure DecimalField where
  negative : Bool
  whole : List Char
  fraction : Option (List Char)
  rest : List Char
  deriving Repr, DecidableEq

namespace DecimalField

def ofUnsigned (symbol : Char) (negative : Bool) (text : List Char) : DecimalField :=
  let whole := text.takeWhile isDigitOrBlank
  let rest := text.dropWhile isDigitOrBlank
  if rest.head? = some symbol then
    { negative, whole
      fraction := some (rest.tail.takeWhile isDigitOrBlank)
      rest := rest.tail.dropWhile isDigitOrBlank }
  else { negative, whole, fraction := none, rest }

def ofText (symbol : Char) (text : List Char) : DecimalField :=
  let (negative, text) := Decimal.takeSign (text.dropWhile (· = ' '))
  ofUnsigned symbol negative text

variable (f : DecimalField) (edit : DataEdit)

def digits : List Char :=
  spelled edit.modes.blankZero f.whole ++ spelled edit.modes.blankZero (f.fraction.getD [])

def number : ℕ := Nat.ofDigitChars 10 (f.digits edit) 0

def behind : Option ℕ := f.fraction.map fun cs => (spelled edit.modes.blankZero cs).length

/-- How many digits are a fraction. -/
def places : ℕ := (f.behind edit).getD (edit.digits.getD 0)

/-- The exponent that is written, or that of the scale factor. -/
def exponent : ℤ :=
  (writtenExponent? edit.modes.blankZero (exponentText f.rest)).getD (-edit.modes.scale)

def magnitude : ℚ := f.number edit * 10 ^ (f.exponent edit - f.places edit)

end DecimalField

theorem clamp_signed (negative : Bool) (n : ℕ) :
    Decimal.clamp (signed negative n) =
      if negative then -min (n : ℤ) Decimal.exponentLimit else min (n : ℤ) Decimal.exponentLimit := by
  unfold Decimal.clamp signed Decimal.exponentLimit
  cases negative
  · simp only [Bool.false_eq_true, if_false]
    omega
  · simp only [if_true]
    omega

/-! ### Digits and blanks -/

section

variable (blankZero : Bool)

theorem spelled_append (cs ds : List Char) :
    spelled blankZero (cs ++ ds) = spelled blankZero cs ++ spelled blankZero ds := by
  cases blankZero <;> simp [spelled]

@[simp] theorem spelled_nil : spelled blankZero [] = [] := by
  cases blankZero <;> rfl

theorem spelled_cons {c : Char} (hc : c ≠ ' ') (cs : List Char) :
    spelled blankZero (c :: cs) = c :: spelled blankZero cs := by
  cases blankZero <;> simp [spelled, hc]

theorem spelled_cons_blank (cs : List Char) :
    spelled blankZero (' ' :: cs) = (if blankZero then ['0'] else []) ++ spelled blankZero cs := by
  cases blankZero <;> simp [spelled]

theorem length_spelled_le (cs : List Char) : (spelled blankZero cs).length ≤ cs.length := by
  cases blankZero
  · exact List.length_filter_le _ cs
  · simp [spelled]

theorem digits_spelled {cs : List Char} (h : ∀ c ∈ cs, isDigitOrBlank c = true) :
    Digits (spelled blankZero cs) := by
  intro d hd
  cases blankZero with
  | false =>
    obtain ⟨hmem, hne⟩ := List.mem_filter.mp hd
    simpa [isDigitOrBlank, of_decide_eq_true hne] using h d hmem
  | true =>
    obtain ⟨c, hmem, rfl⟩ := List.mem_map.mp hd
    by_cases hblank : c = ' '
    · rw [if_pos hblank]
      decide
    · rw [if_neg hblank]
      simpa [isDigitOrBlank, hblank] using h c hmem

end

theorem significantDigits_append_singleton (ds : List Char) (c : Char) :
    significantDigits (ds ++ [c]) =
      if significantDigits ds = [] ∧ c = '0' then [] else significantDigits ds ++ [c] := by
  rw [significantDigits, List.dropWhile_append]
  by_cases hzero : significantDigits ds = []
  · rw [if_pos (by simpa [significantDigits] using hzero), hzero]
    by_cases hc : c = '0' <;> simp [hc]
  · rw [if_neg (by simpa [significantDigits] using hzero), if_neg (fun h => hzero h.1)]
    rfl

theorem ofDigitChars_significantDigits (ds : List Char) :
    Nat.ofDigitChars 10 (significantDigits ds) 0 = Nat.ofDigitChars 10 ds 0 := by
  induction ds with
  | nil => rfl
  | cons c ds ih =>
    by_cases hc : c = '0'
    · rw [significantDigits, List.dropWhile_cons_of_pos (by simpa using hc), hc, Nat.ofDigitChars_cons]
      exact ih
    · rw [significantDigits, List.dropWhile_cons_of_neg (by simpa using hc)]

/-! ### The parts of a field -/

theorem length_takeSign_le (text : List Char) : (Decimal.takeSign text).2.length ≤ text.length := by
  unfold Decimal.takeSign
  split <;> simp

namespace DecimalField

variable (edit : DataEdit) (symbol : Char) (text : List Char)

theorem length_ofUnsigned_le (negative : Bool) :
    (ofUnsigned symbol negative text).whole.length +
      ((ofUnsigned symbol negative text).fraction.getD []).length ≤ text.length := by
  have hparts : (text.takeWhile isDigitOrBlank).length + (text.dropWhile isDigitOrBlank).length =
      text.length := by
    rw [← List.length_append, List.takeWhile_append_dropWhile]
  unfold ofUnsigned
  dsimp only
  split_ifs with hsymbol
  · have htail := (List.takeWhile_sublist (l := (text.dropWhile isDigitOrBlank).tail)
      isDigitOrBlank).length_le
    rw [List.length_tail] at htail
    simp only [Option.getD_some]
    omega
  · simp only [Option.getD_none, List.length_nil]
    omega

theorem length_ofText_le :
    (ofText symbol text).whole.length + ((ofText symbol text).fraction.getD []).length ≤
      text.length :=
  (length_ofUnsigned_le symbol _ _).trans
    ((length_takeSign_le _).trans (List.dropWhile_sublist _).length_le)

theorem length_digits_le : ((ofText symbol text).digits edit).length ≤ text.length := by
  have hwhole := length_spelled_le edit.modes.blankZero (ofText symbol text).whole
  have hfraction := length_spelled_le edit.modes.blankZero ((ofText symbol text).fraction.getD [])
  have := length_ofText_le symbol text
  rw [digits, List.length_append]
  omega

theorem places_le : (ofText symbol text).places edit ≤ max text.length (edit.digits.getD 0) := by
  have hparts := length_ofText_le symbol text
  unfold places behind
  cases hfraction : (ofText symbol text).fraction with
  | none => exact Nat.le_max_right _ _
  | some cs =>
    have := length_spelled_le edit.modes.blankZero cs
    rw [hfraction, Option.getD_some] at hparts
    simp only [Option.map_some, Option.getD_some]
    omega

theorem digits_ofText : Digits ((ofText symbol text).digits edit) := by
  have htake (cs : List Char) : ∀ c ∈ cs.takeWhile isDigitOrBlank, isDigitOrBlank c = true :=
    fun c hc => List.mem_takeWhile_imp hc
  apply Digits.append
  · apply digits_spelled
    unfold ofText ofUnsigned
    dsimp only
    split_ifs <;> exact htake _
  · apply digits_spelled
    unfold ofText ofUnsigned
    dsimp only
    split_ifs
    · exact htake _
    · nofun

end DecimalField

end DataTransfer.Field
