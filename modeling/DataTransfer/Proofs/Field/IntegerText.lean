import Mathlib.Algebra.Group.Int.Defs
import Mathlib.Data.List.Induction
import Mathlib.Data.Nat.Digits.Defs
import DataTransfer.Field.Integer
import DataTransfer.Proofs.Field.Reading
import DataTransfer.Proofs.Field.Spelling

/-!
Digit strings as INTEGER fields. The recognizer goes on over digits and blanks and keeps the number they
spell. A decimal numeral is one of these fields, and a value that an item of 16 bytes can hold is read as
it is written.
-/

namespace DataTransfer

inductive Numeral : List Char → ℤ → Prop
  | unsigned {ds : List Char} (hds : Digits ds) (hne : ds ≠ []) :
    Numeral ds (Nat.ofDigitChars 10 ds 0)
  | plus {ds : List Char} (hds : Digits ds) (hne : ds ≠ []) :
    Numeral ('+' :: ds) (Nat.ofDigitChars 10 ds 0)
  | minus {ds : List Char} (hds : Digits ds) (hne : ds ≠ []) :
    Numeral ('-' :: ds) (-Nat.ofDigitChars 10 ds 0)

theorem numeral_toString (v : ℤ) : Numeral (toString v).toList v := by
  have hvalue (n : ℕ) : Nat.ofDigitChars 10 (Nat.toDigits 10 n) 0 = n :=
    Nat.ofDigitChars_toDigits (by decide) (by decide)
  have hne (n : ℕ) : Nat.toDigits 10 n ≠ [] := Nat.toDigits_ne_nil
  change Numeral v.repr.toList v
  rw [Int.repr_eq_if]
  split_ifs with hsign
  · rw [Nat.toList_repr]
    have h := Numeral.unsigned (.toDigits v.toNat) (hne v.toNat)
    rwa [hvalue, Int.toNat_of_nonneg hsign] at h
  · rw [String.toList_append, Nat.toList_repr]
    have h := Numeral.minus (.toDigits (-v).toNat) (hne (-v).toNat)
    rwa [hvalue, Int.toNat_of_nonneg (by omega), Int.neg_neg] at h

theorem IntegerKind.two_pow_bits_dvd (k : IntegerKind) :
    ((2 ^ (8 * k.bytes) : ℕ) : ℤ) ∣ ((2 ^ 128 : ℕ) : ℤ) :=
  Int.natCast_dvd_natCast.mpr (Nat.pow_dvd_pow 2 (by cases k <;> decide))

theorem IntegerKind.narrow_eq_bmod (k : IntegerKind) (v : ℤ) :
    k.narrow (BitVec.ofInt 128 v) = v.bmod (2 ^ (8 * k.bytes)) := by
  rw [narrow, BitVec.toInt_setWidth, BitVec.toNat_ofInt,
    Int.toNat_of_nonneg (Int.emod_nonneg v (by decide)), ← Int.emod_bmod,
    Int.emod_emod_of_dvd v k.two_pow_bits_dvd, Int.emod_bmod]

namespace Field

theorem digit?_of_isDigit {c : Char} (h : c.isDigit = true) :
    digit? c 10 = some (c.toNat - '0'.toNat) := by
  have hnine := Digits.value_le_nine h
  have hbounds : ('0' ≤ c && c ≤ '9') = true := by
    simpa [Char.isDigit, Char.le_def] using h
  rw [digit?, if_pos hbounds]
  exact Option.filter_eq_some_iff.mpr ⟨rfl, by simpa using Nat.lt_succ_of_le hnine⟩

theorem ne_of_isDigit {c d : Char} (h : c.isDigit = true) (hd : d.isDigit = false) : c ≠ d := by
  rintro rfl
  rw [h] at hd
  cases hd

variable {base : ℕ} {blankZero negative : Bool} {c : Char} {ds cs : List Char}

/-! ### Digit strings -/

def isDigitOrBlankIn (base : ℕ) (c : Char) : Bool := (digit? c base).isSome || c = ' '

def numberIn (base : ℕ) (ds : List Char) : ℕ :=
  Nat.ofDigits base (ds.reverse.map fun c => (digit? c base).getD 0)

theorem numberIn_append_singleton (base : ℕ) (ds : List Char) (c : Char) :
    numberIn base (ds ++ [c]) = numberIn base ds * base + (digit? c base).getD 0 := by
  unfold numberIn
  rw [List.reverse_append, List.reverse_singleton, List.singleton_append, List.map_cons,
    Nat.ofDigits_cons, Nat.mul_comm, Nat.add_comm]

/-- The number that has been read so far, as it is kept. -/
def readSoFar (base : ℕ) (negative : Bool) (ds : List Char) : ScannedInteger :=
  ⟨negative, BitVec.ofNat 128 (numberIn base ds)⟩

theorem pattern_readSoFar (base : ℕ) (negative : Bool) (ds : List Char) :
    (readSoFar base negative ds).pattern = BitVec.ofInt 128 (signed negative (numberIn base ds)) := by
  cases negative with
  | false => exact BitVec.eq_of_toNat_eq rfl
  | true => exact BitVec.neg_ofNat_eq_ofInt_neg

theorem push_of_digit? {d : ℕ} (h : digit? c base = some d) (hc : c ≠ ' ') :
    ScannedInteger.push base blankZero (readSoFar base negative ds) c =
      .more (readSoFar base negative (ds ++ [c])) := by
  have hpush : Magnitude.push (BitVec.ofNat 128 (numberIn base ds)) base d =
      BitVec.ofNat 128 (numberIn base (ds ++ [c])) := by
    rw [Magnitude.push, numberIn_append_singleton, h, Option.getD_some, BitVec.ofNat_add,
      BitVec.ofNat_mul]
  simp only [ScannedInteger.push, readSoFar, hc, decide_false, Bool.false_and, Bool.false_eq_true,
    if_false, h, hpush]

theorem push_digitOrBlankIn (hbase : 0 < base) (hc : isDigitOrBlankIn base c = true) :
    ScannedInteger.push base blankZero (readSoFar base negative ds) c =
      .more (readSoFar base negative (ds ++ spelled blankZero [c])) := by
  by_cases hblank : c = ' '
  · subst hblank
    cases blankZero with
    | false =>
      have hnone : spelled false [' '] = [] := rfl
      rw [hnone, List.append_nil]
      rfl
    | true =>
      have hzero : digit? '0' base = some 0 := by
        change Option.filter (· < base) (some 0) = some 0
        simp [hbase]
      have hpush : ScannedInteger.push base true (readSoFar base negative ds) '0' =
          .more (readSoFar base negative (ds ++ ['0'])) := push_of_digit? hzero (by decide)
      exact hpush
  · rw [isDigitOrBlankIn, Bool.or_eq_true, decide_eq_true_eq, or_iff_left hblank] at hc
    obtain ⟨d, hd⟩ := Option.isSome_iff_exists.mp hc
    rw [spelled_cons blankZero hblank, spelled_nil]
    exact push_of_digit? hd hblank

theorem push_other (hc : isDigitOrBlankIn base c = false) (n : ScannedInteger) :
    ScannedInteger.push base blankZero n c = .done (.error (.badDigit c)) := by
  obtain ⟨hdigit, hblank⟩ := Bool.or_eq_false_iff.mp hc
  have hblank : c ≠ ' ' := of_decide_eq_false hblank
  have hdigit : digit? c base = none := by simpa using hdigit
  simp only [ScannedInteger.push, hblank, decide_false, Bool.false_and, Bool.false_eq_true, if_false,
    hdigit]

theorem reading_digits (hbase : 0 < base) (hcs : ∀ c ∈ cs, isDigitOrBlankIn base c = true)
    (rest : List Char) :
    (integerRecognizer base blankZero).reading (.body (readSoFar base negative ds)) (cs ++ rest) =
      (integerRecognizer base blankZero).reading
        (.body (readSoFar base negative (ds ++ spelled blankZero cs))) rest := by
  induction cs generalizing ds with
  | nil => rw [spelled_nil, List.append_nil, List.nil_append]
  | cons c cs ih =>
    obtain ⟨hc, hcs⟩ := List.forall_mem_cons.mp hcs
    have hstep : (integerRecognizer base blankZero).feed (.body (readSoFar base negative ds)) c =
        .more (.body (readSoFar base negative (ds ++ spelled blankZero [c]))) :=
      congrArg Recognizer.inBody (push_digitOrBlankIn hbase hc)
    have hspelled : spelled blankZero (c :: cs) = spelled blankZero [c] ++ spelled blankZero cs :=
      spelled_append blankZero [c] cs
    rw [List.cons_append, Recognizer.reading, hstep, hspelled, ← List.append_assoc]
    exact ih hcs

/-- A field of digits and blanks is read whole; the first other character ends it. -/
theorem reading_integer (blankZero : Bool) (hbase : 0 < base) {text body : List Char}
    (hsign : Decimal.takeSign (text.dropWhile (· = ' ')) = (negative, body)) :
    (integerRecognizer base blankZero).reading .leading text =
      match body.dropWhile (isDigitOrBlankIn base) with
      | [] => (.ok (readSoFar base negative (spelled blankZero body)), none)
      | c :: bad => (.error (.badDigit c), some bad) := by
  have hstart : (integerRecognizer base blankZero).reading (.signed negative) body =
      (integerRecognizer base blankZero).reading (.body (readSoFar base negative [])) body := by
    cases body <;> rfl
  have hrun : ∀ c ∈ body.takeWhile (isDigitOrBlankIn base), isDigitOrBlankIn base c = true :=
    fun c hc => List.mem_takeWhile_imp hc
  have hbody := List.takeWhile_append_dropWhile (p := isDigitOrBlankIn base) (l := body)
  have hstop : ∀ c ∈ (body.dropWhile (isDigitOrBlankIn base)).head?, isDigitOrBlankIn base c = false :=
    head?_dropWhile_eq_false
  rw [Recognizer.reading_leading, hsign, hstart]
  cases hrest : body.dropWhile (isDigitOrBlankIn base) with
  | nil =>
    rw [hrest, List.append_nil] at hbody
    rw [hbody] at hrun
    have hwhole : (integerRecognizer base blankZero).reading (.body (readSoFar base negative []))
        (body ++ []) = _ := reading_digits hbase hrun []
    rw [List.append_nil] at hwhole
    exact hwhole
  | cons c bad =>
    rw [hrest] at hbody hstop
    have hstep (n : ScannedInteger) :
        (integerRecognizer base blankZero).feed (.body n) c = .done (.error (.badDigit c)) :=
      congrArg Recognizer.inBody (push_other (hstop c rfl) n)
    rw [← hbody, reading_digits hbase hrun, Recognizer.reading, hstep]

/-! ### Numerals -/

theorem numberIn_of_digits (h : Digits ds) : numberIn 10 ds = Nat.ofDigitChars 10 ds 0 := by
  induction ds using List.reverseRecOn with
  | nil => rfl
  | append_singleton ds c ih =>
    rw [numberIn_append_singleton, ih fun d hd => h d (List.mem_append_left [c] hd),
      digit?_of_isDigit (h c (by simp)), Option.getD_some, Nat.ofDigitChars_append,
      Nat.ofDigitChars_cons, Nat.ofDigitChars_nil, Nat.mul_comm]

theorem spelled_of_digits (h : Digits ds) : spelled blankZero ds = ds := by
  induction ds with
  | nil => exact spelled_nil blankZero
  | cons d ds ih => rw [spelled_cons blankZero (ne_of_isDigit h.head (by decide)), ih h.tail]

theorem onList_signed_digits {text : List Char} (negative blankZero : Bool) (h : Digits ds)
    (hsign : Decimal.takeSign (text.dropWhile (· = ' ')) = (negative, ds)) :
    ∃ n : ScannedInteger, (integerRecognizer 10 blankZero).onList .leading text = (.ok n, []) ∧
      n.pattern = BitVec.ofInt 128 (signed negative (Nat.ofDigitChars 10 ds 0)) := by
  have hnone : ds.dropWhile (isDigitOrBlankIn 10) = [] := List.dropWhile_eq_nil_iff.mpr fun c hc => by
    rw [isDigitOrBlankIn, digit?_of_isDigit (h c hc)]
    rfl
  have hreading := reading_integer blankZero (show 0 < 10 by decide) hsign
  rw [hnone, spelled_of_digits h] at hreading
  refine ⟨readSoFar 10 negative ds, ?_, by rw [pattern_readSoFar, numberIn_of_digits h]⟩
  rw [Recognizer.onList_eq_reading, hreading]
  rfl

theorem onList_numeral {text : List Char} {v : ℤ} (h : Numeral text v) (blankZero : Bool) :
    ∃ n : ScannedInteger, (integerRecognizer 10 blankZero).onList .leading text = (.ok n, []) ∧
      n.pattern = BitVec.ofInt 128 v := by
  cases h with
  | unsigned hds hne =>
    obtain ⟨d, ds, rfl⟩ := List.exists_cons_of_ne_nil hne
    have hblank : (d :: ds).dropWhile (· = ' ') = d :: ds :=
      List.dropWhile_cons_of_neg (by simpa using ne_of_isDigit hds.head (by decide))
    exact onList_signed_digits false blankZero hds
      (by rw [hblank, Decimal.takeSign_digits hds])
  | plus hds hne => exact onList_signed_digits false blankZero hds rfl
  | minus hds hne => exact onList_signed_digits true blankZero hds rfl

theorem narrow_ofInt {v : ℤ} (hlow : -2 ^ 127 ≤ v) (hhigh : v < 2 ^ 127) :
    IntegerKind.k16.narrow (BitVec.ofInt 128 v) = v := by
  rw [IntegerKind.narrow_eq_bmod, IntegerKind.bytes]
  exact Int.bmod_eq_of_le (by omega) (by omega)

end Field

end DataTransfer
