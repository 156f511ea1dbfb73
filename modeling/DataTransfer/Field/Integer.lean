import DataTransfer.Field.Recognizer
import DataTransfer.Numeric.Magnitude

/-!
INTEGER fields: blanks, an optional sign and digits of the field's radix. Blanks between the digits
are dropped, or are zeros. Values that do not fit the item wrap.
-/

namespace DataTransfer.Field

def digit? (ch : Char) (base : Nat) : Option Nat :=
  let value :=
    if '0' ≤ ch && ch ≤ '9' then some (ch.toNat - '0'.toNat)
    else if 'A' ≤ ch && ch ≤ 'F' then some (ch.toNat - 'A'.toNat + 10)
    else if 'a' ≤ ch && ch ≤ 'f' then some (ch.toNat - 'a'.toNat + 10)
    else none
  value.filter (· < base)

structure ScannedInteger where
  negative : Bool
  magnitude : Magnitude := 0
  deriving Repr, DecidableEq

namespace ScannedInteger

def pattern (n : ScannedInteger) : BitVec 128 := n.magnitude.signed n.negative

def push (base : Nat) (blankZero : Bool) (n : ScannedInteger) (ch : Char) :
    Step ScannedInteger (Except Fault ScannedInteger) :=
  if ch = ' ' && !blankZero then .more n
  else
    let ch := if ch = ' ' then '0' else ch
    match digit? ch base with
    | some d => .more { n with magnitude := n.magnitude.push base d }
    | none => .done (.error (.badDigit ch))

end ScannedInteger

/-- Digits in `base` after blanks and a sign; a field without digits is zero. -/
def integerRecognizer (base : Nat) (blankZero : Bool) :
    Recognizer ScannedInteger (Except Fault ScannedInteger) where
  start negative ch := ScannedInteger.push base blankZero { negative } ch
  empty negative := .ok { negative }
  step := ScannedInteger.push base blankZero
  finish n := .ok n

variable {σ : Type} [FieldSource σ]

def scanInteger (edit : DataEdit) (base : Nat) : Attempt σ ScannedInteger := do
  let (result, budget) ← (integerRecognizer base edit.modes.blankZero).run edit
  let n ← result
  (checkRecordEnd budget : Act σ _)
  pure n

/-- The sign of the field, the first character behind it, and what is left of the field's width. -/
def scanPrefix (edit : DataEdit) : Attempt σ (Bool × Option Char × Option Nat) := do
  let ((negative, ch), budget) ← prefixRecognizer.run edit
  pure (negative, ch, budget)

/-- An INTEGER item of `kind` bytes. A kind that does not exist ends the program. -/
def editInteger (edit : DataEdit) (kind : Nat) : Attempt σ Int := do
  match IntegerKind.ofBytes? kind with
  | none => (FieldSource.crash ("edit_integer_input: bad INTEGER kind " ++ toString kind) : Act σ _)
  | some k =>
    match edit.kind.integerBase? with
    | none => throw (.badEditDescriptor edit.kind.name .integer)
    | some base =>
      let n ← scanInteger edit base
      pure (k.narrow n.pattern)

end DataTransfer.Field
