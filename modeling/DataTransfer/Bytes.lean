/-!
Byte strings: the content of files, windows and character buffers. A byte string is a list, so
that every statement about what is stored is a statement about lists. Of free text there is what
counts as white space.
-/

namespace DataTransfer

-- `^` is the power of the core library, also where another one is in scope.
attribute [local instance (high)] instPowNat

abbrev Bytes := List UInt8

namespace Bytes

/-- At least `n` bytes; looks at no more than `n` of them. -/
def reaches : Bytes → Nat → Bool
  | _, 0 => true
  | [], _ + 1 => false
  | _ :: bs, n + 1 => reaches bs n

theorem reaches_iff (bs : Bytes) (n : Nat) : bs.reaches n = true ↔ n ≤ bs.length := by
  induction bs generalizing n with
  | nil => cases n <;> simp [reaches]
  | cons b bs ih => cases n <;> simp [reaches, ih]

/-- The bytes from `start` on, at most `count` of them. -/
def slice (bs : Bytes) (start count : Nat) : Bytes := (bs.drop start).take count

def fill (count : Nat) (byte : UInt8) : Bytes := List.replicate count byte

/-- At least `n` bytes long, by zeros at the end. -/
def extend (bs : Bytes) (n : Nat) : Bytes :=
  if bs.reaches n then bs else bs ++ fill (n - bs.length) 0

/-- `data` stands at `start`; what lies before and behind stays, and a gap reads as zeros. -/
def overlay (bs : Bytes) (start : Nat) (data : Bytes) : Bytes :=
  let bs := bs.extend start
  bs.take start ++ data ++ bs.drop (start + data.length)

def littleEndian : (count value : Nat) → Bytes
  | 0, _ => []
  | n + 1, value => UInt8.ofNat value :: littleEndian n (value / 256)

def ofLittleEndian (bs : Bytes) : Nat := bs.foldr (fun b value => b.toNat + 256 * value) 0

@[simp] theorem length_littleEndian (count value : Nat) :
    (littleEndian count value).length = count := by
  induction count generalizing value with
  | zero => rfl
  | succ n ih => simp [littleEndian, ih]

theorem ofLittleEndian_littleEndian (count value : Nat) :
    ofLittleEndian (littleEndian count value) = value % 256 ^ count := by
  induction count generalizing value with
  | zero => simp [littleEndian, ofLittleEndian, Nat.mod_one]
  | succ n ih =>
    have h : ofLittleEndian (littleEndian (n + 1) value) =
        value % 256 + 256 * ofLittleEndian (littleEndian n (value / 256)) := by
      simp [littleEndian, ofLittleEndian]
    rw [h, ih, Nat.pow_succ, Nat.mul_comm (256 ^ n) 256, Nat.mod_mul]

def ofText (s : String) : Bytes := s.toUTF8.toList

end Bytes

namespace Text

/-- The property `White_Space`: 25 characters. -/
def isBlank (c : Char) : Bool :=
  ('\u0009' ≤ c && c ≤ '\u000d') || c = '\u0020' || c = '\u0085' || c = '\u00a0' ||
  c = '\u1680' || ('\u2000' ≤ c && c ≤ '\u200a') || c = '\u2028' || c = '\u2029' ||
  c = '\u202f' || c = '\u205f' || c = '\u3000'

def trim (text : List Char) : List Char :=
  ((text.dropWhile isBlank).reverse.dropWhile isBlank).reverse

end Text

end DataTransfer
