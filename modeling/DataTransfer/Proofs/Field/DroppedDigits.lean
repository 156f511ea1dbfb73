import DataTransfer.Proofs.Field.Parallel
import DataTransfer.Proofs.Field.RealInput
import DataTransfer.Proofs.Numeric.DigitLimit

/-!
REAL fields of more significant digits than are kept. What is dropped makes a value inexact; whether it
would have made another value depends on where the format has its boundaries.
-/

namespace DataTransfer

theorem Digits.le_ofDigitChars {c : Char} {cs : List Char} (h : Digits (c :: cs)) (hc : c ≠ '0') :
    10 ^ cs.length ≤ Nat.ofDigitChars 10 (c :: cs) 0 := by
  have hpos : 1 ≤ c.toNat - '0'.toNat := by
    have hdigit := h.head
    simp only [Char.isDigit, Bool.and_eq_true, decide_eq_true_eq, ge_iff_le,
      UInt32.le_iff_toNat_le] at hdigit
    have hne : c.val.toNat ≠ 48 := fun heq => hc (Char.ext (UInt32.toNat_inj.mp heq))
    have hle : 48 ≤ c.val.toNat := hdigit.1
    change 1 ≤ c.val.toNat - 48
    omega
  rw [Nat.ofDigitChars_cons, Nat.ofDigitChars_eq_ofDigitChars_zero, Nat.mul_zero, Nat.zero_add]
  exact (Nat.le_mul_of_pos_right _ hpos).trans (Nat.le_add_right _ _)

theorem Digits.le_ofDigitChars_take {ds : List Char} (h : Digits ds) (hfirst : ∀ c ∈ ds.head?, c ≠ '0')
    {count : ℕ} (hpos : 0 < count) (hcount : count ≤ ds.length) :
    10 ^ (count - 1) ≤ Nat.ofDigitChars 10 (ds.take count) 0 := by
  obtain ⟨count, rfl⟩ := Nat.exists_eq_add_of_lt hpos
  cases ds with
  | nil => simp at hcount
  | cons c cs =>
    have hkept : Digits (c :: cs.take count) := fun x hx =>
      h x (List.mem_of_mem_take (i := count + 1) (by simpa using hx))
    have hle := hkept.le_ofDigitChars (hfirst c rfl)
    rw [List.length_take, min_eq_left (by simpa using hcount)] at hle
    simpa using hle

theorem Decimal.ofDigitChars_take_drop (ds : List Char) (count : ℕ) :
    Nat.ofDigitChars 10 ds 0 =
      10 ^ (ds.drop count).length * Nat.ofDigitChars 10 (ds.take count) 0 +
        Nat.ofDigitChars 10 (ds.drop count) 0 := by
  rw [← Nat.ofDigitChars_eq_ofDigitChars_zero, ← Nat.ofDigitChars_append, List.take_append_drop]

namespace Field

open Decimal

namespace DecimalField

variable (f : DecimalField) (edit : DataEdit)

/-- The exponent of the digits behind a point, as it is read. -/
def readExponent : ℤ :=
  clamp ((⟨edit, 0⟩ : RealRules).pointExponent f)

/-- The magnitude that the first significant digits say, so many of them. -/
def leading (count : ℕ) : ℚ :=
  Nat.ofDigitChars 10 ((significantDigits (f.digits edit)).take count) 0 *
    10 ^ (f.readExponent edit - ((significantDigits (f.digits edit)).take count).length)

variable {f edit}

/-- The digits up to the limit and the exponent of the last of them locate the number of all digits. -/
theorem cut_digits {p : Precision} {ds : List Char} (hds : Digits ds)
    (hfirst : ∀ c ∈ ds.head?, c ≠ '0') (hdrop : p.maxDecimalDigits < ds.length) (r : ℤ) :
    p.Cut (Nat.ofDigitChars 10 (ds.take p.maxDecimalDigits) 0 *
        10 ^ (r - (ds.take p.maxDecimalDigits).length))
      (Nat.ofDigitChars 10 ds 0 * 10 ^ (r - ds.length)) := by
  have hkept := hds.le_ofDigitChars_take hfirst p.maxDecimalDigits_pos hdrop.le
  have hrest : Nat.ofDigitChars 10 (ds.drop p.maxDecimalDigits) 0 <
      10 ^ (ds.drop p.maxDecimalDigits).length :=
    Digits.ofDigitChars_lt fun c hc => hds c (List.mem_of_mem_drop hc)
  have hexponent : r - (ds.length : ℤ) =
      r - (ds.take p.maxDecimalDigits).length - (ds.drop p.maxDecimalDigits).length := by
    rw [List.length_take, List.length_drop]
    omega
  rw [hexponent, ofDigitChars_take_drop ds p.maxDecimalDigits]
  exact Precision.cut_of_lt hkept hrest

theorem cut_leading {p : Precision} {limit : ℕ} (hdigits : Digits (f.digits edit))
    (hdrop : p.maxDecimalDigits < (significantDigits (f.digits edit)).length)
    (hlimit : (significantDigits (f.digits edit)).length ≤ limit) :
    p.Cut (f.leading edit p.maxDecimalDigits) (f.leading edit limit) := by
  have hkept : Digits (significantDigits (f.digits edit)) :=
    fun c hc => hdigits c ((List.dropWhile_sublist _).subset hc)
  have hfirst : ∀ c ∈ (significantDigits (f.digits edit)).head?, c ≠ '0' :=
    fun c hc => of_decide_eq_false (head?_dropWhile_eq_false c hc)
  unfold leading
  rw [List.take_of_length_le hlimit]
  exact cut_digits hkept hfirst hdrop _

end DecimalField

variable {σ : Type} [FieldSource σ]

theorem scanned_leading {edit : DataEdit} {limit : ℕ} {s t : σ} {f : DecimalField} {negative : Bool}
    {digits : List Char} {exponent : ℤ} {truncated : Bool}
    (hf : DecimalField.ofText edit.decimalSymbol (text edit s) = f)
    (hscan : scanReal edit limit s = .ok (.ok (.finite negative digits exponent truncated)) t) :
    negative = f.negative ∧ digits = (significantDigits (f.digits edit)).take limit ∧
      clamp exponent = f.readExponent edit ∧
      truncated = decide (limit < (significantDigits (f.digits edit)).length) := by
  have hempty : ScannedReal.finite negative digits exponent truncated ≠ .empty := nofun
  have hvalue := RealRules.scanned_take hf rfl hempty (scanReal_accepts hscan)
  obtain ⟨hnegative, hdigits, hexponent, htruncated⟩ := ScannedReal.finite.inj hvalue
  exact ⟨hnegative, hdigits, congrArg clamp hexponent, htruncated⟩

theorem round_leading (p : Precision) (mode : RoundingMode) (f : DecimalField) (edit : DataEdit)
    (limit : ℕ) :
    (Conversion.round p f.negative mode
        (Nat.ofDigitChars 10 ((significantDigits (f.digits edit)).take limit) 0)
        (f.readExponent edit - ((significantDigits (f.digits edit)).take limit).length)).IsConversion
      f.negative mode (f.leading edit limit) :=
  Conversion.round_isConversion p f.negative mode _ _

/-- A REAL item of a decimal field of which so many digits are kept. -/
def editRealWithin (limit : ℕ) (p : Precision) (edit : DataEdit) : Attempt σ (Conversion p) := do
  let scanned ← scanReal edit limit
  pure (scanned.convert p edit.modes.round)

theorem editReal_eq_within (p : Precision) {edit : DataEdit} (hkind : edit.kind.editsDecimal = true) :
    editReal (σ := σ) p edit = editRealWithin p.maxDecimalDigits p edit := by
  have hbits : edit.kind.isBitPattern = false := by
    cases hk : edit.kind <;> simp [hk, EditKind.editsDecimal, EditKind.isBitPattern] at hkind ⊢
  unfold editReal
  rw [if_neg (by simp [hbits]), if_pos hkind]
  rfl

/-- What the limit on digits does. A field is read alike with it and without it, up to the same place
and with the same faults, and to the same value if no more digits are significant. Digits behind the
limit make the value inexact, and it is rounded from those before: this gives another value just when a
boundary of the format lies between these and all digits. It does not where magnitudes are cut off, and
where they go outward it does only if the digits before the limit make a finite magnitude by
themselves. -/
theorem editReal_dropped_digits (p : Precision) {edit : DataEdit} (s : σ) {f : DecimalField}
    {limit : ℕ} (hkind : edit.kind.editsDecimal = true)
    (hf : DecimalField.ofText edit.decimalSymbol (text edit s) = f)
    (hlimit : (text edit s).length ≤ limit) :
    Along (fun c full => c = full ∨
        p.maxDecimalDigits < (significantDigits (f.digits edit)).length ∧
          c.Drops f.negative edit.modes.round (f.leading edit p.maxDecimalDigits)
            (f.leading edit limit) full)
      (editReal p edit s) (editRealWithin limit p edit s) := by
  have hdigits : Digits (f.digits edit) := hf ▸ DecimalField.digits_ofText edit _ _
  have hshort : (significantDigits (f.digits edit)).length ≤ limit := by
    have hlength := DecimalField.length_digits_le edit edit.decimalSymbol (text edit s)
    rw [hf] at hlength
    exact ((List.dropWhile_sublist _).length_le.trans hlength).trans hlimit
  have htake (count : ℕ) : Digits ((significantDigits (f.digits edit)).take count) := fun c hc =>
    hdigits c ((List.dropWhile_sublist _).subset (List.mem_of_mem_take hc))
  rw [editReal_eq_within p hkind]
  refine (scanReal_parallel edit p.maxDecimalDigits limit).bind_at ?_
  rintro scanned scanned' t hscan hwhole hsame
  refine .ok ?_ t
  cases hsame with
  | refl scanned => exact .inl rfl
  | finite negative kept whole exponent truncated truncated' =>
    obtain ⟨rfl, rfl, hexponent, rfl⟩ := scanned_leading hf hscan
    obtain ⟨-, rfl, -, rfl⟩ := scanned_leading hf hwhole
    by_cases hdrop : p.maxDecimalDigits < (significantDigits (f.digits edit)).length
    · rw [ScannedReal.convert_finite p _ _ (htake _), ScannedReal.convert_finite p _ _ (htake _),
        hexponent, decide_eq_true hdrop, decide_eq_false hshort.not_gt]
      refine .inr ⟨hdrop, ?_⟩
      exact Conversion.drops_of_cut (DecimalField.cut_leading hdigits hdrop hshort)
        (round_leading p _ f edit _) (round_leading p _ f edit _)
    · left
      rw [List.take_of_length_le hshort, List.take_of_length_le (not_lt.mp hdrop),
        decide_eq_false hdrop, decide_eq_false hshort.not_gt]

/-- A field above the midpoint of 1 and its successor among half precision values: only its last digit
tells. -/
def aboveMidpoint : Line where
  text := #['1', '.', '0', '0', '0', '4', '8', '8', '2', '8', '1', '2', '5', '0', '0', '0', '0', '0',
    '0', '0', '0', '0', '1']

theorem editReal_dropped_digits_cut_off : ∃ c full t,
    editReal .half { modes := { round := .toZero } } aboveMidpoint = .ok (.ok c) t ∧
      editRealWithin 23 .half { modes := { round := .toZero } } aboveMidpoint = .ok (.ok full) t ∧
      c.value = full.value := by
  obtain ⟨c, t, hrun⟩ : ∃ c t,
      editReal .half { modes := { round := .toZero } } aboveMidpoint = .ok (.ok c) t := ⟨_, _, rfl⟩
  have hdropped := editReal_dropped_digits .half aboveMidpoint
    (show ({ modes := { round := .toZero } } : DataEdit).kind.editsDecimal = true from rfl) rfl
    (show (text { modes := { round := .toZero } } aboveMidpoint).length ≤ 23 by decide)
  rw [hrun] at hdropped
  generalize hwhole : editRealWithin 23 .half { modes := { round := .toZero } } aboveMidpoint =
    result at hdropped
  cases hdropped with
  | ok h t =>
    refine ⟨c, _, t, hrun, rfl, ?_⟩
    rcases h with rfl | ⟨-, h⟩
    · rfl
    · exact h.inward rfl

/-- With all its digits the field is the successor of 1, with those up to the limit it is 1. -/
theorem editReal_dropped_digit_counts : ∃ t,
    editReal .half {} aboveMidpoint =
        .ok (.ok { value := .ofBits .half 0x3c00, flags := { inexact := true } }) t ∧
      editRealWithin 23 .half {} aboveMidpoint =
        .ok (.ok { value := .ofBits .half 0x3c01, flags := { inexact := true } }) t := by
  refine ⟨_, rfl, rfl⟩

end Field

end DataTransfer
