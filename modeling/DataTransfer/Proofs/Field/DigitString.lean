import Mathlib.Data.Int.ModEq
import DataTransfer.Proofs.Bytes
import DataTransfer.Proofs.Field.IntegerText
import DataTransfer.Proofs.Field.Line

/-!
INTEGER fields of a record in memory. Digits and blanks spell a number, however many there are, and the
item gets the one value of its kind that is congruent to it; the first other character is a fault.
-/

namespace DataTransfer

/-! ### Values of a kind -/

/-- A residue has one value in two's complement, the balanced one. -/
theorem balanced_iff_eq_bmod {w : ℕ} (hw : 0 < w) (u v : ℤ) :
    (-2 ^ (w - 1) ≤ u ∧ u < 2 ^ (w - 1) ∧ u ≡ v [ZMOD 2 ^ w]) ↔ u = v.bmod (2 ^ w) := by
  obtain ⟨n, rfl⟩ := Nat.exists_eq_add_of_lt hw
  rw [show 0 + n + 1 - 1 = n by omega, show 0 + n + 1 = n + 1 by omega]
  have hhalf : ((2 ^ (n + 1) : ℕ) : ℤ) = 2 * 2 ^ n := by
    push_cast
    rw [pow_succ, mul_comm]
  have hpow : (2 : ℤ) ^ (n + 1) = ((2 ^ (n + 1) : ℕ) : ℤ) := by push_cast; rfl
  constructor
  · rintro ⟨hlow, hhigh, hmod⟩
    rw [hpow] at hmod
    rw [← Int.emod_bmod, ← hmod, Int.emod_bmod]
    exact (Int.bmod_eq_of_le_mul_two (by omega) (by omega)).symm
  · rintro rfl
    have hpos : 0 < 2 ^ (n + 1) := Nat.two_pow_pos _
    have hlow := Int.le_bmod (x := v) hpos
    have hhigh := Int.bmod_lt (x := v) hpos
    refine ⟨by omega, by omega, ?_⟩
    rw [hpow]
    exact Int.bmod_emod

theorem IntegerKind.store_bmod (k : IntegerKind) (v : ℤ) :
    k.store (v.bmod (2 ^ (8 * k.bytes))) =
      Bytes.littleEndian k.bytes (v % 2 ^ (8 * k.bytes)).toNat := by
  have hpow : 256 ^ k.bytes = 2 ^ (8 * k.bytes) := (pow_mul 2 8 k.bytes).symm
  have hlow (u : ℤ) : (BitVec.ofInt 128 u).toNat % 2 ^ (8 * k.bytes) =
      (u % ((2 ^ (8 * k.bytes) : ℕ) : ℤ)).toNat := by
    rw [BitVec.toNat_ofInt, ← Int.emod_emod_of_dvd u k.two_pow_bits_dvd,
      Int.toNat_emod (Int.emod_nonneg u (by decide)) (Int.natCast_nonneg _), Int.toNat_natCast]
  rw [store, ← Bytes.littleEndian_mod, hpow, hlow, Int.bmod_emod]
  push_cast
  rfl

namespace Field

variable {base : ℕ} {negative : Bool}

/-! ### Items -/

theorem integerBase?_pos {kind : EditKind} (h : kind.integerBase? = some base) : 0 < base := by
  cases kind <;> cases h <;> decide

variable {edit : DataEdit} {line t : Line} (k : IntegerKind)

theorem editInteger_of_scan {n : ScannedInteger} (hbase : edit.kind.integerBase? = some base)
    (hscan : scanInteger edit base line = .ok (.ok n) t) :
    editInteger edit k.bytes line = .ok (.ok (k.narrow n.pattern)) t := by
  simp only [editInteger, IntegerKind.ofBytes?_bytes, hbase]
  exact attempt_bind_eq hscan

theorem editInteger_of_fault {f : Fault} (hbase : edit.kind.integerBase? = some base)
    (hscan : scanInteger edit base line = .ok (.error f) t) :
    editInteger edit k.bytes line = .ok (.error f) t := by
  simp only [editInteger, IntegerKind.ofBytes?_bytes, hbase]
  exact attempt_bind_error hscan

/-- What an INTEGER item becomes. A field of digits and blanks behind a sign gives the one value of the
item's kind that is congruent to the number it spells, which is stored as the low bytes of that number,
and the cursor moves behind the field; only a record of fixed length may not end within it. The first
other character is a fault. -/
theorem editInteger_digit_string {body : List Char} (hbase : edit.kind.integerBase? = some base)
    (hadvancing : line.connection.nonAdvancing = false)
    (hpad : line.connection.fixedLength = true → edit.modes.pad = false)
    (hsign : Decimal.takeSign ((line.field edit).dropWhile (· = ' ')) = (negative, body)) :
    match body.dropWhile (isDigitOrBlankIn base) with
    | c :: bad =>
      editInteger edit k.bytes line = .ok (.error (.badDigit c))
        (line.behind edit ((line.field edit).length - bad.length))
    | [] =>
      if line.cutsField edit then
        editInteger edit k.bytes line = .ok (.error .recordReadOverrun)
          (line.behind edit (line.field edit).length)
      else ∃ v : ℤ,
        editInteger edit k.bytes line = .ok (.ok v) (line.behind edit (line.field edit).length) ∧
        (∀ u : ℤ, (-2 ^ (8 * k.bytes - 1) ≤ u ∧ u < 2 ^ (8 * k.bytes - 1) ∧
            u ≡ signed negative (numberIn base (spelled edit.modes.blankZero body))
              [ZMOD 2 ^ (8 * k.bytes)]) ↔ u = v) ∧
        k.store v = Bytes.littleEndian k.bytes
          (signed negative (numberIn base (spelled edit.modes.blankZero body)) %
            2 ^ (8 * k.bytes)).toNat := by
  have hreading := reading_integer edit.modes.blankZero (integerBase?_pos hbase) hsign
  cases hrest : body.dropWhile (isDigitOrBlankIn base) with
  | cons c bad =>
    rw [hrest] at hreading
    exact editInteger_of_fault k hbase (attempt_bind_eq (Line.run_of_left hreading))
  | nil =>
    rw [hrest] at hreading
    have hrun := Line.run_of_end hadvancing hpad hreading
    dsimp only
    split_ifs with hcuts
    · rw [if_pos hcuts] at hrun
      exact editInteger_of_fault k hbase (attempt_bind_error hrun)
    · rw [if_neg hcuts] at hrun
      have hbehind : (line.behind edit (line.field edit).length).connection.nonAdvancing = false :=
        hadvancing
      have hcheck := Line.checkRecordEnd_of_advancing hbehind
      have hedit := editInteger_of_scan k hbase
        ((attempt_bind_eq hrun).trans (attempt_bind_eq (attempt_lift_eq (hcheck _))))
      rw [pattern_readSoFar, IntegerKind.narrow_eq_bmod] at hedit
      have hbits : 0 < 8 * k.bytes := by cases k <;> decide
      exact ⟨_, hedit, fun u => balanced_iff_eq_bmod hbits u _, k.store_bmod _⟩

/-- An item of one byte: the low byte of `-300` is that of `-44`. -/
theorem editInteger_digit_string_wraps :
    editInteger { kind := .i, width := some 6 } 1 (Line.ofString " -3 00/") =
      .ok (.ok (-44)) ((Line.ofString " -3 00/").moveBy 6) := by
  have hsign : Decimal.takeSign (((Line.ofString " -3 00/").field { kind := .i, width := some 6 }).dropWhile
      (· = ' ')) = (true, ['3', ' ', '0', '0']) := rfl
  obtain ⟨v, hedit, hv, -⟩ := editInteger_digit_string .k1 (by rfl) (by rfl) (by rintro ⟨⟩) hsign
  obtain rfl : -44 = v := (hv (-44)).mp ⟨by decide, by decide, by decide⟩
  exact hedit

/-- A record of fixed length that is not padded and has fewer characters than the field is a fault,
though they are all digits. -/
theorem editInteger_overrun :
    let edit : DataEdit := { kind := .i, width := some 3, modes := { pad := false } }
    let line : Line := { text := #['1', '2'], connection := { fixedLength := true, recordLength := some 2 } }
    line.connection.nonAdvancing = false ∧ edit.modes.pad = false ∧
      (line.field edit).all (isDigitOrBlankIn 10) = true ∧
      ∃ t, editInteger edit 4 line = .ok (.error .recordReadOverrun) t :=
  ⟨rfl, rfl, rfl, _, rfl⟩

end Field

end DataTransfer
