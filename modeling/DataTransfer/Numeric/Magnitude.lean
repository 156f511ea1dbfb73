import DataTransfer.Bytes

/-!
Magnitudes of digit strings. A string of any length is kept modulo `2^128`, and an INTEGER item
of `k` bytes stores the low `8k` bits in two's complement.
-/

namespace DataTransfer

-- `^` is the power of the core library, also where another one is in scope.
attribute [local instance (high)] instPowNat

/-- The value of a digit string modulo `2^128`. -/
abbrev Magnitude := BitVec 128

namespace Magnitude

def push (m : Magnitude) (base digit : Nat) : Magnitude :=
  m * BitVec.ofNat 128 base + BitVec.ofNat 128 digit

theorem toNat_push (m : Magnitude) (base digit : Nat) :
    (m.push base digit).toNat = (m.toNat * base + digit) % 2 ^ (128 : Nat) := by
  simp [push, BitVec.toNat_add, BitVec.toNat_mul, Nat.add_mod, Nat.mul_mod]

def signed (m : Magnitude) (negative : Bool) : BitVec 128 := if negative then -m else m

end Magnitude

/-- The INTEGER kinds, by their bytes of storage. -/
inductive IntegerKind where
  | k1 | k2 | k4 | k8 | k16
  deriving Repr, DecidableEq

namespace IntegerKind

def bytes : IntegerKind → Nat
  | .k1 => 1
  | .k2 => 2
  | .k4 => 4
  | .k8 => 8
  | .k16 => 16

def ofBytes? : Nat → Option IntegerKind
  | 1 => some .k1
  | 2 => some .k2
  | 4 => some .k4
  | 8 => some .k8
  | 16 => some .k16
  | _ => none

@[simp] theorem ofBytes?_bytes (k : IntegerKind) : ofBytes? k.bytes = some k := by cases k <;> rfl

/-- The value that an item of this kind holds after the low bits of `pattern` are stored. -/
def narrow (k : IntegerKind) (pattern : BitVec 128) : Int :=
  (pattern.setWidth (8 * k.bytes)).toInt

def store (k : IntegerKind) (value : Int) : Bytes :=
  Bytes.littleEndian k.bytes (BitVec.ofInt 128 value).toNat

end IntegerKind

end DataTransfer
