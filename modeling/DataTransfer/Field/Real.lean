import DataTransfer.Field.Integer
import DataTransfer.Numeric.Conversion

/-!
REAL fields. A decimal field is recognised into a sign, significant digits and a decimal exponent,
spelled as normalised text, and converted from that text. A field of bit-pattern digits is the
stored value itself.
-/

namespace DataTransfer.Field

-- `^` is the power of the core library, also where another one is in scope.
attribute [local instance (high)] instPowNat

/-- What a decimal field spells: `.digits * 10^exponent`, or a special value. -/
inductive ScannedReal where
  | empty
  | finite (negative : Bool) (digits : List Char) (exponent : Int) (truncated : Bool)
  | infinity (negative : Bool)
  | nan (negative : Bool)
  deriving Repr, DecidableEq

namespace ScannedReal

def signText (negative : Bool) : String := if negative then "-" else ""

/-- Sign, point and digits, then the exponent unless it is zero. -/
def decimalText : ScannedReal → String
  | .empty => "."
  | .finite negative digits exponent _ =>
    let mantissa := signText negative ++ "." ++ String.ofList digits
    if exponent = 0 then mantissa else mantissa ++ "e" ++ toString exponent
  | .infinity negative => signText negative ++ "INF"
  | .nan negative => signText negative ++ "NAN"

def isTruncated : ScannedReal → Bool
  | .finite _ _ _ truncated => truncated
  | _ => false

end ScannedReal

/-- Explicit exponents stop growing here. -/
def exponentLimit : Int := 1000000000

/-- Exponents are added as signed 64-bit integers, where a sum out of range wraps around. -/
def wrapExponent (n : Int) : Int := n.bmod (2 ^ (64 : Nat))

theorem wrapExponent_of_lt {n : Int} (hlow : -2 ^ (63 : Nat) ≤ n) (hhigh : n < 2 ^ (63 : Nat)) :
    wrapExponent n = n :=
  Int.bmod_eq_of_le (by omega) (by omega)

/-- The digits of a decimal field up to its exponent. Leading zeros are no digits; those between the
decimal symbol and the first other digit are counted. -/
structure RealMantissa where
  negative : Bool
  /-- The digits kept, last one first. -/
  kept : List Char := []
  keptCount : Nat := 0
  significant : Nat := 0
  /-- Significant digits before the decimal symbol, once it is read. -/
  point : Option Nat := none
  skippedZeros : Nat := 0
  deriving Repr, DecidableEq

/-- How far a decimal field is recognised. -/
inductive RealPhase where
  | mantissa (m : RealMantissa)
  /-- Behind the exponent letter. -/
  | exponentLetter (m : RealMantissa)
  | exponent (m : RealMantissa) (negative : Bool) (value : Int)
  /-- Only blanks may follow. -/
  | trailing (result : ScannedReal)
  /-- A special word; its letters in upper case, last one first. -/
  | word (negative : Bool) (letters : List Char)
  /-- Between the parentheses behind NAN. -/
  | payload (negative : Bool)
  deriving Repr, DecidableEq

/-- The rules of a decimal field: its edit descriptor and how many digits are kept. -/
structure RealRules where
  edit : DataEdit
  maxDigits : Nat

namespace RealRules

abbrev Result := Except Fault ScannedReal

variable (rules : RealRules)

/-- The field's value. Without a decimal symbol the last `d` digits are the fraction. -/
def value (m : RealMantissa) (exponent : Int) : ScannedReal :=
  if m.significant = 0 then .finite m.negative m.kept.reverse 0 false
  else
    let point : Int :=
      match m.point with
      | some point => (point : Int) - m.skippedZeros
      | none => (m.significant : Int) - rules.edit.digits.getD 0
    .finite m.negative m.kept.reverse (wrapExponent (exponent + point))
      (rules.maxDigits < m.significant)

/-- The scale factor acts where the field has no exponent. -/
def defaultExponent : Int := -rules.edit.modes.scale

def trail (result : ScannedReal) (ch : Char) : Step RealPhase Result :=
  if ch = ' ' then .more (.trailing result) else .done (.error (.trailingCharacters ch .real))

def pushExponent (m : RealMantissa) (negative : Bool) (value : Int) (ch : Char) :
    Step RealPhase Result :=
  let push (digit : Nat) : Step RealPhase Result :=
    .more (.exponent m negative (min (value * 10 + digit) exponentLimit))
  if ch.isDigit then push (ch.toNat - '0'.toNat)
  else if ch = ' ' then
    if rules.edit.modes.blankZero then push 0 else .more (.exponent m negative value)
  else trail (rules.value m (if negative then -value else value)) ch

/-- A sign or a digit starts the exponent; anything else follows the field. -/
def beginExponent (m : RealMantissa) (ch : Char) : Step RealPhase Result :=
  if ch = '-' then .more (.exponent m true 0)
  else if ch = '+' then .more (.exponent m false 0)
  else if ch.isDigit then rules.pushExponent m false 0 ch
  else trail (rules.value m rules.defaultExponent) ch

def isExponentLetter (ch : Char) : Bool := ['e', 'E', 'd', 'D', 'q', 'Q'].contains ch

def pushMantissa (m : RealMantissa) (ch : Char) : Step RealPhase Result :=
  if ch = ' ' && !rules.edit.modes.blankZero then .more (.mantissa m)
  else
    let ch := if ch = ' ' then '0' else ch
    if ch = '0' && m.significant = 0 then
      .more (.mantissa
        (if m.point.isSome then { m with skippedZeros := m.skippedZeros + 1 } else m))
    else if ch.isDigit then
      let m := { m with significant := m.significant + 1 }
      .more (.mantissa
        (if m.keptCount < rules.maxDigits then
          { m with kept := ch :: m.kept, keptCount := m.keptCount + 1 }
        else m))
    else if ch = rules.edit.decimalSymbol && m.point.isNone then
      .more (.mantissa { m with point := some m.significant })
    else if isExponentLetter ch then .more (.exponentLetter m)
    else rules.beginExponent m ch

def wordValue? (negative : Bool) (letters : List Char) : Option ScannedReal :=
  let word := String.ofList letters.reverse
  if word = "INF" || word = "INFINITY" then some (.infinity negative)
  else if word = "NAN" then some (.nan negative)
  else none

def pushWord (negative : Bool) (letters : List Char) (ch : Char) : Step RealPhase Result :=
  if ch.isAlpha then .more (.word negative (ch.toUpper :: letters))
  else
    match wordValue? negative letters with
    | some result =>
      if ch = '(' && result = .nan negative then .more (.payload negative) else trail result ch
    | none => .done (.error .badRealInput)

def start (negative : Bool) (ch : Char) : Step RealPhase Result :=
  if ch.isAlpha then .more (.word negative [ch.toUpper])
  else if ch = rules.edit.decimalSymbol || ch.isDigit then rules.pushMantissa { negative } ch
  else .done (.error .badRealInput)

def step : RealPhase → Char → Step RealPhase Result
  | .mantissa m, ch => rules.pushMantissa m ch
  | .exponentLetter m, ch =>
    if ch = ' ' then .more (.exponentLetter m) else rules.beginExponent m ch
  | .exponent m negative value, ch => rules.pushExponent m negative value ch
  | .trailing result, ch => trail result ch
  | .word negative letters, ch => pushWord negative letters ch
  | .payload negative, ch =>
    .more (if ch = ')' then .trailing (.nan negative) else .payload negative)

def finish : RealPhase → Result
  | .mantissa m => .ok (rules.value m rules.defaultExponent)
  | .exponentLetter m => .ok (rules.value m rules.defaultExponent)
  | .exponent m negative value => .ok (rules.value m (if negative then -value else value))
  | .trailing result => .ok result
  | .word negative letters =>
    match wordValue? negative letters with
    | some result => .ok result
    | none => .error .badRealInput
  | .payload negative => .ok (.nan negative)

def recognizer : Recognizer RealPhase Result where
  start := rules.start
  empty _ := .ok .empty
  step := rules.step
  finish := rules.finish

end RealRules

variable {σ : Type} [FieldSource σ]

open FieldSource

/-- Moves the cursor behind a closing parenthesis, or to the end of the record. -/
def skipPayloadIn : (fuel : Nat) → Act σ Unit
  | 0 => pure ()
  | fuel + 1 => do
    match ← current with
    | some ch =>
      moveBy 1
      if ch = ')' then pure () else skipPayloadIn fuel
    | none => pure ()

/-- In a list-directed field a parenthesis ends the word NAN, and what it encloses is passed over. -/
def skipPayload : Act σ Unit := do
  if (← current) = some '(' then skipPayloadIn (rounds none (← get))

/-- A decimal field of which at most `maxDigits` significant digits are kept. -/
def scanReal (edit : DataEdit) (maxDigits : Nat) : Attempt σ ScannedReal := do
  let rules : RealRules := { edit, maxDigits }
  let (result, budget) ← rules.recognizer.run edit
  let scanned ← result
  match scanned, budget with
  | .nan _, none => (skipPayload : Act σ _)
  | _, _ => pure ()
  (checkRecordEnd budget : Act σ _)
  pure scanned

/-- The value of a scanned field. Digits that were not kept make it inexact. -/
def ScannedReal.convert (p : Precision) (mode : RoundingMode) (scanned : ScannedReal) :
    Conversion p :=
  match scanned with
  | .empty => { value := .zero p false }
  | _ =>
    let converted := Conversion.ofText p mode scanned.decimalText.toList
    if scanned.isTruncated then
      { converted with flags := { converted.flags with inexact := true } }
    else converted

def editReal (p : Precision) (edit : DataEdit) : Attempt σ (Conversion p) := do
  if edit.kind.isBitPattern then
    let n ← scanInteger edit (edit.kind.integerBase?.getD 16)
    pure { value := .ofBits p n.pattern.toNat }
  else if edit.kind.editsDecimal then
    let scanned ← scanReal edit p.maxDecimalDigits
    pure (scanned.convert p edit.modes.round)
  else throw (.badEditDescriptor edit.kind.name .real)

/-- A REAL item of a kind. A kind that does not exist ends the program. -/
def editRealKind (edit : DataEdit) (kind : Nat) : Attempt σ ((p : Precision) × Conversion p) := do
  match Precision.ofKind? kind with
  | none => (FieldSource.crash ("edit_real_input: bad REAL kind " ++ toString kind) : Act σ _)
  | some p => return ⟨p, ← editReal p edit⟩

end DataTransfer.Field
