import DataTransfer.Bytes
import DataTransfer.Numeric.Precision

/-!
REAL values as their stored encodings: a sign bit, a biased exponent field and a significand field.
-/

namespace DataTransfer

-- `^` is the power of the core library, also where another one is in scope.
attribute [local instance (high)] instPowNat

structure BinaryFloat (p : Precision) where
  bits : BitVec p.totalBits
  deriving DecidableEq

namespace BinaryFloat

variable {p : Precision}

/-- The low bits of a pattern; higher ones are dropped. -/
def ofBits (p : Precision) (pattern : Nat) : BinaryFloat p := ⟨BitVec.ofNat _ pattern⟩

/-- Sign, biased exponent and significand field side by side. Of the significand only the field's
width counts; an exponent too wide for its field runs into the sign. -/
def ofParts (p : Precision) (negative : Bool) (biased field : Nat) : BinaryFloat p :=
  let sign := if negative then 2 ^ (p.totalBits - 1) else 0
  ofBits p (sign ||| biased <<< p.fieldBits ||| field % 2 ^ p.fieldBits)

def zero (p : Precision) (negative : Bool) : BinaryFloat p := ofParts p negative 0 0

/-- An explicit lead bit is set in an infinity. -/
def infinity (p : Precision) (negative : Bool) : BinaryFloat p :=
  ofParts p negative (p.maxBiased + 1) (if p.explicitLead then 2 ^ (p.fieldBits - 1) else 0)

/-- The highest fraction bit marks a quiet NaN; an explicit lead bit is set too. -/
def quietNaN (p : Precision) (negative : Bool) : BinaryFloat p :=
  let lead := 2 ^ (p.fieldBits - 1)
  ofParts p negative (p.maxBiased + 1) (if p.explicitLead then lead + lead / 2 else lead)

def maxFinite (p : Precision) (negative : Bool) : BinaryFloat p :=
  ofParts p negative p.maxBiased (2 ^ p.fieldBits - 1)

def least (p : Precision) (negative : Bool) : BinaryFloat p := ofParts p negative 0 1

def isNegative (x : BinaryFloat p) : Bool := x.bits.toNat.testBit (p.totalBits - 1)

def biasedExponent (x : BinaryFloat p) : Nat := (x.bits.toNat >>> p.fieldBits) % 2 ^ p.exponentBits

def field (x : BinaryFloat p) : Nat := x.bits.toNat % 2 ^ p.fieldBits

def isZero (x : BinaryFloat p) : Bool := x.biasedExponent = 0 && x.field = 0

def isInfinite (x : BinaryFloat p) : Bool :=
  x.biasedExponent = p.maxBiased + 1 &&
    x.field = if p.explicitLead then 2 ^ (p.fieldBits - 1) else 0

def isNaN (x : BinaryFloat p) : Bool := x.biasedExponent = p.maxBiased + 1 && !x.isInfinite

def store (x : BinaryFloat p) : Bytes := Bytes.littleEndian p.storageBytes x.bits.toNat

end BinaryFloat

end DataTransfer
