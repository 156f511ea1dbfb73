/-!
Rounding modes, and the exceptions that a conversion raises.
-/

namespace DataTransfer

/-- The edit modes RN, RZ, RD, RU and RC. -/
inductive RoundingMode where
  | tiesToEven | toZero | down | up | tiesAway
  deriving Repr, DecidableEq

namespace RoundingMode

/-- Whether a magnitude between two neighbours goes to the larger one. `half` compares what lies
above the smaller neighbour with half the distance, `odd` is the smaller one's parity, and
`inexact` says that the magnitude is not the smaller neighbour itself. -/
def roundsUp (mode : RoundingMode) (negative inexact odd : Bool) (half : Ordering) : Bool :=
  match mode with
  | .tiesToEven => half = .gt || (half = .eq && odd)
  | .tiesAway => inexact && half ≠ .lt
  | .toZero => false
  | .up => inexact && !negative
  | .down => inexact && negative

def overflowsToInfinity : RoundingMode → (negative : Bool) → Bool
  | .tiesToEven, _ => true
  | .tiesAway, _ => true
  | .toZero, _ => false
  | .up, negative => !negative
  | .down, negative => negative

/-- Whether a nonzero value below half the least subnormal becomes that subnormal. -/
def tinyToLeast : RoundingMode → (negative : Bool) → Bool
  | .up, negative => !negative
  | .down, negative => negative
  | _, _ => false

end RoundingMode

/-- Exceptions raised by a conversion. -/
structure ConversionFlags where
  overflow : Bool := false
  inexact : Bool := false
  invalid : Bool := false
  underflow : Bool := false
  deriving Repr, DecidableEq

namespace ConversionFlags

def exact : ConversionFlags := {}

def isExact (f : ConversionFlags) : Bool := f = exact

/-- One bit a flag: overflow 1, inexact 2, invalid 4, underflow 8. -/
def code (f : ConversionFlags) : Nat :=
  f.overflow.toNat + 2 * f.inexact.toNat + 4 * f.invalid.toNat + 8 * f.underflow.toNat

end ConversionFlags

end DataTransfer
