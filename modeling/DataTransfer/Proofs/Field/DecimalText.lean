import DataTransfer.Field.Real
import Mathlib.Algebra.Group.Nat.Defs
import Mathlib.Data.Nat.Notation
import Mathlib.Data.Int.Notation
import Mathlib.Order.Lattice

/-!
The text of a scanned field, read back. Its digits are read as they were spelled, and its exponent
up to the limit at which exponents stop growing.
-/

namespace DataTransfer

def Digits (cs : List Char) : Prop := ∀ c ∈ cs, c.isDigit = true

-- Characters are a finite type; the list is gone through all the same.
instance : DecidablePred Digits := List.decidableBAll fun c : Char => c.isDigit = true

namespace Digits

variable {c : Char} {cs ds : List Char}

theorem head (h : Digits (c :: cs)) : c.isDigit = true := h c List.mem_cons_self

theorem tail (h : Digits (c :: cs)) : Digits cs := fun d hd => h d (List.mem_cons_of_mem c hd)

theorem append (hcs : Digits cs) (hds : Digits ds) : Digits (cs ++ ds) := by
  intro d hd
  rcases List.mem_append.mp hd with hd | hd
  · exact hcs d hd
  · exact hds d hd

theorem toDigits (n : ℕ) : Digits (Nat.toDigits 10 n) := by
  intro c hc
  exact Nat.isDigit_of_mem_toDigits (by decide) (by decide) hc

theorem value_le_nine (hc : c.isDigit = true) : c.toNat - '0'.toNat ≤ 9 := by
  simp only [Char.isDigit, Bool.and_eq_true, decide_eq_true_eq, UInt32.le_iff_toNat_le] at hc
  change c.val.toNat - 48 ≤ 9
  have : c.val.toNat ≤ 57 := hc.2
  omega

theorem ofDigitChars_lt (h : Digits ds) : Nat.ofDigitChars 10 ds 0 < 10 ^ ds.length := by
  induction ds with
  | nil => exact Nat.one_pos
  | cons c ds ih =>
    have hrest := ih h.tail
    have hfirst : 10 ^ ds.length * (c.toNat - '0'.toNat) ≤ 10 ^ ds.length * 9 :=
      Nat.mul_le_mul_left _ (value_le_nine h.head)
    rw [Nat.ofDigitChars_cons, Nat.ofDigitChars_eq_ofDigitChars_zero, Nat.mul_zero, Nat.zero_add,
      List.length_cons, Nat.pow_succ]
    omega

theorem length_toDigits_le (h : Digits ds) (hne : ds ≠ []) :
    (Nat.toDigits 10 (Nat.ofDigitChars 10 ds 0)).length ≤ ds.length :=
  (Nat.length_toDigits_le_iff (by decide) (List.length_pos_iff.mpr hne)).mpr h.ofDigitChars_lt

end Digits

namespace Decimal

/-- An exponent as far as it is read. -/
def clamp (e : ℤ) : ℤ := max (-exponentLimit) (min e exponentLimit)

theorem clamp_zero : clamp 0 = 0 := by decide

theorem min_push (v d : ℕ) :
    min (min (v : ℤ) exponentLimit * 10 + d) exponentLimit =
      min ((10 * v + d : ℕ) : ℤ) exponentLimit := by
  unfold exponentLimit
  omega

theorem exponentDigits_digits {ds : List Char} (hds : Digits ds) (offset v : ℕ) :
    exponentDigits offset (min (v : ℤ) exponentLimit) ds =
      .ok (min (Nat.ofDigitChars 10 ds v : ℤ) exponentLimit) := by
  induction ds generalizing offset v with
  | nil => rfl
  | cons c ds ih =>
    rw [exponentDigits, if_pos hds.head, min_push, ih hds.tail, Nat.ofDigitChars_cons]
    rfl

theorem takeSign_of_ne {cs : List Char} (h : ∀ c ∈ cs.head?, c ≠ '-' ∧ c ≠ '+') :
    takeSign cs = (false, cs) := by
  unfold takeSign
  split
  · exact absurd rfl (h '-' rfl).1
  · exact absurd rfl (h '+' rfl).2
  · rfl

theorem takeSign_digits {ds : List Char} (hds : Digits ds) : takeSign ds = (false, ds) := by
  apply takeSign_of_ne
  intro c hc
  have hdigit := hds c (List.mem_of_mem_head? hc)
  constructor
  · rintro rfl
    exact absurd hdigit (by decide)
  · rintro rfl
    exact absurd hdigit (by decide)

theorem exponentPart_of_digits {text ds : List Char} {negative : Bool} (offset : ℕ)
    (htext : takeSign text = (negative, ds)) (hds : Digits ds) (hne : ds ≠ []) :
    exponentPart offset text =
      .ok (if negative then -min (Nat.ofDigitChars 10 ds 0 : ℤ) exponentLimit
        else min (Nat.ofDigitChars 10 ds 0 : ℤ) exponentLimit) := by
  have hzero : min ((0 : ℕ) : ℤ) exponentLimit = 0 := by decide
  have hempty : ds.isEmpty = false := by simpa using hne
  have hdigits (offset : ℕ) := exponentDigits_digits hds offset 0
  rw [hzero] at hdigits
  simp only [exponentPart, htext, hempty, Bool.false_eq_true, if_false, hdigits]
  rfl

theorem exponentPart_repr (offset : ℕ) (e : ℤ) :
    exponentPart offset e.repr.toList = .ok (clamp e) := by
  rw [Int.repr_eq_if]
  split_ifs with hsign
  · rw [Nat.toList_repr, exponentPart_of_digits offset (takeSign_digits (.toDigits _)) (.toDigits _)
      Nat.toDigits_ne_nil, Nat.ofDigitChars_ten_toDigits]
    simp only [clamp, exponentLimit, Bool.false_eq_true, if_false]
    congr 1
    omega
  · have htext : takeSign ("-" ++ (-e).toNat.repr).toList = (true, Nat.toDigits 10 (-e).toNat) := by
      rw [String.toList_append, Nat.toList_repr]
      rfl
    rw [exponentPart_of_digits offset htext (.toDigits _) Nat.toDigits_ne_nil,
      Nat.ofDigitChars_ten_toDigits]
    simp only [clamp, exponentLimit, if_true]
    congr 1
    omega

theorem takeMantissa_digits {ds tail : List Char} (hds : Digits ds)
    (htail : ∀ c ∈ tail.head?, c.isDigit = false) (digits fraction : ℕ) :
    takeMantissa { digits, fraction, pointed := true } (ds ++ tail) =
      ({ digits := Nat.ofDigitChars 10 ds digits, fraction := fraction + ds.length, pointed := true },
        tail) := by
  induction ds generalizing digits fraction with
  | nil =>
    cases tail with
    | nil => rfl
    | cons c tail => simp [takeMantissa, htail c rfl]
  | cons c ds ih =>
    rw [List.cons_append, takeMantissa, if_pos hds.head]
    simp only [if_true]
    rw [ih hds.tail, Nat.ofDigitChars_cons, List.length_cons, Nat.add_assoc, Nat.add_comm 1]
    rfl

theorem isBlank_of_isDigit {c : Char} (h : c.isDigit = true) : Text.isBlank c = false := by
  simp only [Char.isDigit, Bool.and_eq_true, decide_eq_true_eq, ge_iff_le,
    UInt32.le_iff_toNat_le] at h
  by_contra hblank
  simp only [Text.isBlank, Char.le_def, Char.ext_iff, UInt32.le_iff_toNat_le, ← UInt32.toNat_inj,
    Bool.not_eq_false, Bool.or_eq_true, Bool.and_eq_true, decide_eq_true_eq] at hblank
  simp only [Char.reduceVal, UInt32.reduceToNat] at h hblank
  omega

theorem trim_eq_self {text : List Char} (h : ∀ c ∈ text, Text.isBlank c = false) :
    Text.trim text = text := by
  have hkeep (cs : List Char) (hcs : ∀ c ∈ cs, Text.isBlank c = false) :
      cs.dropWhile Text.isBlank = cs := by
    cases cs with
    | nil => rfl
    | cons c cs => rw [List.dropWhile_cons, hcs c List.mem_cons_self, if_neg Bool.false_ne_true]
  rw [Text.trim, hkeep text h, hkeep text.reverse (by simpa using h), List.reverse_reverse]

end Decimal

namespace Field.ScannedReal

open Decimal

def exponentSuffix (exponent : ℤ) : List Char :=
  if exponent = 0 then [] else 'e' :: exponent.repr.toList

theorem toList_decimalText (negative : Bool) (digits : List Char) (exponent : ℤ) (truncated : Bool) :
    (finite negative digits exponent truncated).decimalText.toList =
      (if negative then ['-'] else []) ++ '.' :: (digits ++ exponentSuffix exponent) := by
  cases negative <;> by_cases hzero : exponent = 0 <;>
    simp [decimalText, exponentSuffix, signText, hzero]

theorem not_isBlank_of_mem_exponentSuffix {exponent : ℤ} {c : Char} (h : c ∈ exponentSuffix exponent) :
    Text.isBlank c = false := by
  have hdigits (n : ℕ) (hc : c ∈ Nat.toDigits 10 n) : Text.isBlank c = false :=
    isBlank_of_isDigit (Digits.toDigits n c hc)
  rw [exponentSuffix] at h
  split_ifs at h with hzero
  · cases h
  rcases List.mem_cons.mp h with rfl | h
  · decide
  rw [Int.repr_eq_if] at h
  split_ifs at h with hsign
  · exact hdigits _ (by simpa using h)
  · rw [String.toList_append, Nat.toList_repr] at h
    rcases List.mem_append.mp h with h | h
    · obtain rfl : c = '-' := by simpa using h
      decide
    · exact hdigits _ h

theorem parse_decimalText {digits : List Char} (hdigits : Digits digits) (negative : Bool)
    (exponent : ℤ) (truncated : Bool) :
    parse (finite negative digits exponent truncated).decimalText.toList =
      .ok (.finite negative (Nat.ofDigitChars 10 digits 0) (clamp exponent - digits.length)) := by
  rw [toList_decimalText]
  have hnumber (offset : ℕ) : number negative offset ('.' :: (digits ++ exponentSuffix exponent)) =
      .ok (.finite negative (Nat.ofDigitChars 10 digits 0) (clamp exponent - digits.length)) := by
    have htail : ∀ c ∈ (exponentSuffix exponent).head?, c.isDigit = false := by
      unfold exponentSuffix
      split_ifs <;> simp
    have hmantissa := takeMantissa_digits hdigits htail 0 0
    have hpoint : takeMantissa {} ('.' :: (digits ++ exponentSuffix exponent)) =
        takeMantissa { pointed := true } (digits ++ exponentSuffix exponent) := rfl
    rw [number, hpoint, hmantissa]
    unfold exponentSuffix
    split_ifs with hzero
    · subst hzero
      simp [clamp_zero]
    · simp [exponentPart_repr, Except.map]
  have htrim : Text.trim ((if negative then ['-'] else []) ++
      '.' :: (digits ++ exponentSuffix exponent)) =
        (if negative then ['-'] else []) ++ '.' :: (digits ++ exponentSuffix exponent) := by
    apply trim_eq_self
    intro c hc
    rcases List.mem_append.mp hc with hc | hc
    · obtain ⟨-, rfl⟩ : negative = true ∧ c = '-' := by simpa using hc
      decide
    · rcases List.mem_cons.mp hc with rfl | hc
      · decide
      rcases List.mem_append.mp hc with hc | hc
      · exact isBlank_of_isDigit (hdigits c hc)
      · exact not_isBlank_of_mem_exponentSuffix hc
  have hsign : takeSign ((if negative then ['-'] else []) ++
      '.' :: (digits ++ exponentSuffix exponent)) =
        (negative, '.' :: (digits ++ exponentSuffix exponent)) := by
    cases negative <;> rfl
  rw [parse, htrim, hsign]
  exact hnumber _

/-- A spelled value is converted as its digits say, up to the limit of its exponent. It is inexact if
digits were not kept. -/
theorem convert_finite (p : Precision) (mode : RoundingMode) (negative : Bool) {digits : List Char}
    (hdigits : Digits digits) (exponent : ℤ) (truncated : Bool) :
    (finite negative digits exponent truncated).convert p mode =
      let converted := Conversion.round p negative mode (Nat.ofDigitChars 10 digits 0)
        (clamp exponent - digits.length)
      if truncated then { converted with flags := { converted.flags with inexact := true } }
      else converted := by
  rw [convert, Conversion.ofText, parse_decimalText hdigits]
  · rfl
  · nofun

theorem convert_eq_round (p : Precision) (mode : RoundingMode) (negative : Bool)
    {digits : List Char} (hdigits : Digits digits) (exponent : ℤ) :
    (finite negative digits exponent false).convert p mode =
      Conversion.round p negative mode (Nat.ofDigitChars 10 digits 0)
        (clamp exponent - digits.length) := by
  rw [convert_finite p mode negative hdigits]
  exact if_neg Bool.false_ne_true

end Field.ScannedReal

end DataTransfer
