/-!
The six REAL storage formats. Widths determine everything else; the two decimal magnitudes bound
the values that can be finite or nonzero.
-/

namespace DataTransfer

-- `^` is the power of the core library, also where another one is in scope.
attribute [local instance (high)] instPowNat

inductive Precision where
  | bfloat16 | half | single | double | extended | quad
  deriving Repr, DecidableEq

namespace Precision

def all : List Precision := [.bfloat16, .half, .single, .double, .extended, .quad]

def name : Precision → String
  | .bfloat16 => "bfloat16"
  | .half => "half"
  | .single => "single"
  | .double => "double"
  | .extended => "extended"
  | .quad => "quad"

def ofName? (s : String) : Option Precision := all.find? (·.name = s)

/-- The format that a binary precision selects. -/
def ofSelector? : Nat → Option Precision
  | 8 => some .bfloat16
  | 11 => some .half
  | 24 => some .single
  | 53 => some .double
  | 64 => some .extended
  | 112 => some .quad
  | _ => none

def selector : Precision → Nat
  | .bfloat16 => 8
  | .half => 11
  | .single => 24
  | .double => 53
  | .extended => 64
  | .quad => 112

@[simp] theorem ofSelector?_selector (p : Precision) : ofSelector? p.selector = some p := by
  cases p <;> rfl

/-- The format of a REAL kind: its bytes of storage, with 3 for bfloat16. -/
def ofKind? : Nat → Option Precision
  | 2 => some .half
  | 3 => some .bfloat16
  | 4 => some .single
  | 8 => some .double
  | 10 => some .extended
  | 16 => some .quad
  | _ => none

def exponentBits : Precision → Nat
  | .bfloat16 => 8
  | .half => 5
  | .single => 8
  | .double => 11
  | .extended => 15
  | .quad => 15

def totalBits : Precision → Nat
  | .bfloat16 => 16
  | .half => 16
  | .single => 32
  | .double => 64
  | .extended => 80
  | .quad => 128

def storageBytes (p : Precision) : Nat := p.totalBits / 8

/-- The leading significand bit is stored, not implied. -/
def explicitLead : Precision → Bool
  | .extended => true
  | _ => false

def fieldBits (p : Precision) : Nat := p.totalBits - 1 - p.exponentBits

def significandBits (p : Precision) : Nat :=
  if p.explicitLead then p.fieldBits else p.fieldBits + 1

def bias (p : Precision) : Nat := 2 ^ (p.exponentBits - 1) - 1

/-- The largest biased exponent of a finite value. -/
def maxBiased (p : Precision) : Nat := 2 ^ p.exponentBits - 2

/-- Exponent of the last significand bit of the least normal value, and of every subnormal. -/
def minQuantum (p : Precision) : Int := (1 - (p.bias : Int)) - ((p.significandBits : Int) - 1)

/-- Exponent of the last significand bit of the largest finite value. -/
def maxQuantum (p : Precision) : Int := (p.bias : Int) - ((p.significandBits : Int) - 1)

/-- Significant decimal digits kept from an input field. -/
def maxDecimalDigits : Precision → Nat
  | .bfloat16 => 96
  | .half => 21
  | .single => 112
  | .double => 767
  | .extended => 11514
  | .quad => 11563

/-- A value with more digits than this before its decimal point overflows. -/
def overflowMagnitude : Precision → Int
  | .bfloat16 => 40
  | .half => 7
  | .single => 40
  | .double => 310
  | .extended => 4934
  | .quad => 4934

/-- A value below `10^(underflowMagnitude - 1)` is less than half the least subnormal. -/
def underflowMagnitude : Precision → Int
  | .bfloat16 => -42
  | .half => -9
  | .single => -47
  | .double => -325
  | .extended => -4953
  | .quad => -4967

theorem overflowMagnitude_bound (p : Precision) :
    2 ^ (p.bias + 2) < 10 ^ (p.overflowMagnitude - 1).toNat ∧
      10 ^ (p.overflowMagnitude - 2).toNat < 2 ^ (p.bias + 2) := by
  cases p <;> decide +kernel

theorem underflowMagnitude_bound (p : Precision) :
    2 ^ (2 - p.minQuantum).toNat < 10 ^ (-1 - p.underflowMagnitude).toNat ∧
      10 ^ (-2 - p.underflowMagnitude).toNat < 2 ^ (2 - p.minQuantum).toNat := by
  cases p <;> decide +kernel

end Precision

end DataTransfer
