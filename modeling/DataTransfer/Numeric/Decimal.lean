import DataTransfer.Bytes

/-!
Decimal text: `[sign] digits [. digits] [e [sign] digits]`, or a sign and one of the words INF,
INFINITY and NAN in any case. Either digit string may be empty, and text without digits is zero.
-/

namespace DataTransfer

/-- What a decimal text denotes: `±digits * 10^exponent`, or a special value. -/
inductive DecimalValue where
  | finite (negative : Bool) (digits : Nat) (exponent : Int)
  | infinity (negative : Bool)
  | nan (negative : Bool)
  deriving Repr, DecidableEq

/-- Why a text is not a decimal. Offsets count from the first character that is not white space. -/
inductive DecimalError where
  | unexpected (ch : Char) (offset : Nat)
  | unknownSpecial (word : String)
  | emptyExponent
  deriving Repr, DecidableEq

def DecimalError.message : DecimalError → String
  | .unexpected ch offset =>
    "unexpected character '" ++ ch.toString ++ "' at offset " ++ toString offset ++ " in decimal input"
  | .unknownSpecial word => "'" ++ word ++ "' is not a recognized special value"
  | .emptyExponent => "exponent has no digits"

namespace Decimal

/-- Explicit exponents stop growing here: every format overflows or underflows long before. -/
def exponentLimit : Int := 1000000000

def digitValue (c : Char) : Nat := c.toNat - '0'.toNat

def takeSign : List Char → Bool × List Char
  | '-' :: rest => (true, rest)
  | '+' :: rest => (false, rest)
  | rest => (false, rest)

/-- A character that no rule admits is reported by the first byte of its UTF-8 form. -/
def leadByte (c : Char) : Char :=
  let n := c.toNat
  if n < 0x80 then c
  else if n < 0x800 then Char.ofNat (0xC0 + n / 0x40)
  else if n < 0x10000 then Char.ofNat (0xE0 + n / 0x1000)
  else Char.ofNat (0xF0 + n / 0x40000)

structure Mantissa where
  digits : Nat := 0
  fraction : Nat := 0
  pointed : Bool := false
  deriving Repr, DecidableEq

/-- Digits and at most one point, and what follows them. -/
def takeMantissa (m : Mantissa) : List Char → Mantissa × List Char
  | [] => (m, [])
  | c :: rest =>
    if c.isDigit then
      takeMantissa { m with
        digits := 10 * m.digits + digitValue c
        fraction := if m.pointed then m.fraction + 1 else m.fraction } rest
    else if c = '.' && !m.pointed then takeMantissa { m with pointed := true } rest
    else (m, c :: rest)

/-- The digits of an exponent, up to the end of the text. -/
def exponentDigits (offset : Nat) (value : Int) : List Char → Except DecimalError Int
  | [] => .ok value
  | c :: rest =>
    if c.isDigit then exponentDigits (offset + 1) (min (value * 10 + digitValue c) exponentLimit) rest
    else .error (.unexpected (leadByte c) offset)

/-- The text behind an exponent letter, which ends at `offset`. -/
def exponentPart (offset : Nat) (text : List Char) : Except DecimalError Int :=
  let (negative, digits) := takeSign text
  let offset := offset + (text.length - digits.length)
  if digits.isEmpty then .error .emptyExponent
  else (exponentDigits offset 0 digits).map fun e => if negative then -e else e

def special (negative : Bool) (word : List Char) : Except DecimalError DecimalValue :=
  let upper := String.ofList (word.map Char.toUpper)
  if upper = "INF" || upper = "INFINITY" then .ok (.infinity negative)
  else if upper = "NAN" then .ok (.nan negative)
  else .error (.unknownSpecial (String.ofList word))

def number (negative : Bool) (offset : Nat) (text : List Char) : Except DecimalError DecimalValue :=
  let (m, rest) := takeMantissa {} text
  let offset := offset + (text.length - rest.length)
  match rest with
  | [] => .ok (.finite negative m.digits (-m.fraction))
  | c :: rest =>
    if c = 'e' || c = 'E' then
      (exponentPart (offset + 1) rest).map fun e => .finite negative m.digits (e - m.fraction)
    else .error (.unexpected (leadByte c) offset)

def parse (text : List Char) : Except DecimalError DecimalValue :=
  let text := Text.trim text
  let (negative, rest) := takeSign text
  match rest with
  | [] => number negative (text.length - rest.length) rest
  | c :: _ =>
    if c.isAlpha then special negative rest else number negative (text.length - rest.length) rest

end Decimal

end DataTransfer
