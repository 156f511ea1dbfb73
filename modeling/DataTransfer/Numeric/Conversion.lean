import DataTransfer.Numeric.BinaryFloat
import DataTransfer.Numeric.Decimal
import DataTransfer.Numeric.Rounding

/-!
Correctly rounded conversion of `±digits * 10^exponent` to a binary format. The value is an exact
ratio of two naturals; it is divided by the power of two that leaves a full significand, or by the
format's least one, and the remainder decides the rounding.
-/

namespace DataTransfer

-- `^` is the power of the core library, also where another one is in scope.
attribute [local instance (high)] instPowNat

structure Conversion (p : Precision) where
  value : BinaryFloat p
  flags : ConversionFlags := {}
  deriving DecidableEq

namespace Conversion

variable (p : Precision) (negative : Bool) (mode : RoundingMode)

def overflowed : Conversion p :=
  { value := if mode.overflowsToInfinity negative then .infinity p negative else .maxFinite p negative
    flags := { overflow := true, inexact := true } }

/-- The result for a nonzero value below half the least subnormal. -/
def vanished : Conversion p :=
  { value := if mode.tinyToLeast negative then .least p negative else .zero p negative
    flags := { underflow := true, inexact := true } }

def bitLength (n : Nat) : Nat := if n = 0 then 0 else n.log2 + 1

def decimalLength (n : Nat) : Nat := (Nat.toDigits 10 n).length

/-- `numerator / (denominator * 2^q)` as a quotient with remainder and divisor. -/
structure Scaled where
  quotient : Nat
  remainder : Nat
  divisor : Nat
  deriving Repr, DecidableEq

def scaled (numerator denominator : Nat) (q : Int) : Scaled :=
  let n := if 0 ≤ q then numerator else numerator * 2 ^ (-q).toNat
  let d := if 0 ≤ q then denominator * 2 ^ q.toNat else denominator
  ⟨n / d, n % d, d⟩

/-- The quantum suggested by the bit lengths alone. -/
def estimate (numerator denominator bits : Nat) : Int :=
  (bitLength numerator : Int) - bitLength denominator - bits

/-- Moves the quantum until the quotient has `bits` bits, or the quantum is the least one. -/
def settle (numerator denominator bits : Nat) (least : Int) : (fuel : Nat) → Int → Int
  | 0, q => q
  | fuel + 1, q =>
    let quotient := (scaled numerator denominator q).quotient
    if 2 ^ bits ≤ quotient then settle numerator denominator bits least fuel (q + 1)
    else if quotient < 2 ^ (bits - 1) ∧ least < q then
      settle numerator denominator bits least fuel (q - 1)
    else q

/-- The quantum at which the quotient is rounded. The estimate is at most one too small. -/
def quantum (numerator denominator : Nat) : Int :=
  max p.minQuantum
    (settle numerator denominator p.significandBits p.minQuantum 2
      (estimate numerator denominator p.significandBits))

/-- The encoding of `significand * 2^q`. A significand without its lead bit is subnormal. -/
def encode (significand : Nat) (q : Int) : BinaryFloat p :=
  let lead := 2 ^ (p.significandBits - 1)
  if significand < lead then .ofParts p negative 0 significand
  else
    .ofParts p negative (q + ((p.significandBits : Int) - 1) + p.bias).toNat
      (if p.explicitLead then significand else significand - lead)

/-- A quotient at quantum `q`, rounded. A significand that grows by a bit takes the next quantum. -/
def rounded (s : Scaled) (q : Int) : Conversion p :=
  let inexact := decide (s.remainder ≠ 0)
  let up := mode.roundsUp negative inexact (s.quotient % 2 = 1) (compare (2 * s.remainder) s.divisor)
  let significand := if up then s.quotient + 1 else s.quotient
  let carry := up && significand = 2 ^ p.significandBits
  let q := if carry then q + 1 else q
  let significand := if carry then 2 ^ (p.significandBits - 1) else significand
  if p.maxQuantum < q then overflowed p negative mode
  else
    { value := encode p negative significand q
      flags :=
        { inexact, underflow := inexact && significand < 2 ^ (p.significandBits - 1) } }

def ofRatio (numerator denominator : Nat) : Conversion p :=
  let q := quantum p numerator denominator
  rounded p negative mode (scaled numerator denominator q) q

/-- `±digits * 10^exponent`, rounded. Values far outside the format's range are decided by their
decimal magnitude, before any power of ten is computed. -/
def round (digits : Nat) (exponent : Int) : Conversion p :=
  if digits = 0 then { value := .zero p negative }
  else
    let magnitude := (decimalLength digits : Int) + exponent
    if p.overflowMagnitude < magnitude then overflowed p negative mode
    else if magnitude < p.underflowMagnitude then vanished p negative mode
    else if 0 ≤ exponent then ofRatio p negative mode (digits * 10 ^ exponent.toNat) 1
    else ofRatio p negative mode digits (10 ^ (-exponent).toNat)

/-- A decimal text, converted. Text outside the grammar gives a NaN and raises invalid. -/
def ofText (text : List Char) : Conversion p :=
  match Decimal.parse text with
  | .ok (.finite negative digits exponent) => round p negative mode digits exponent
  | .ok (.infinity negative) => { value := .infinity p negative }
  | .ok (.nan negative) => { value := .quietNaN p negative }
  | .error _ => { value := .quietNaN p false, flags := { invalid := true } }

end Conversion

end DataTransfer
