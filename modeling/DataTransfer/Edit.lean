import DataTransfer.Numeric.Rounding

/-!
Data edit descriptors: how the characters of one field are turned into an item.
-/

namespace DataTransfer

inductive EditKind where
  | listDirected | i | b | o | z | f | e | d | g | a | l | en | es
  deriving Repr, DecidableEq

namespace EditKind

def name : EditKind → String
  | .listDirected => "ListDirected"
  | .i => "I"
  | .b => "B"
  | .o => "O"
  | .z => "Z"
  | .f => "F"
  | .e => "E"
  | .d => "D"
  | .g => "G"
  | .a => "A"
  | .l => "L"
  | .en => "EN"
  | .es => "ES"

/-- The radix of an integer field, for the kinds that edit integers. -/
def integerBase? : EditKind → Option Nat
  | .listDirected => some 10
  | .i => some 10
  | .g => some 10
  | .b => some 2
  | .o => some 8
  | .z => some 16
  | _ => none

/-- The kinds whose fields are bit patterns. -/
def isBitPattern : EditKind → Bool
  | .b => true
  | .o => true
  | .z => true
  | _ => false

/-- The kinds that edit REAL items from decimal fields. -/
def editsDecimal : EditKind → Bool
  | .listDirected => true
  | .f => true
  | .e => true
  | .en => true
  | .es => true
  | .d => true
  | .g => true
  | _ => false

end EditKind

/-- The changeable modes of a connection or a statement. -/
structure Modes where
  round : RoundingMode := .tiesToEven
  /-- The scale factor `k` of a `kP` edit. -/
  scale : Int := 0
  /-- Blanks inside a numeric field are zeros. -/
  blankZero : Bool := false
  /-- A comma is the decimal symbol. -/
  decimalComma : Bool := false
  /-- A short record is filled with blanks on input. -/
  pad : Bool := true
  deriving Repr, DecidableEq

structure DataEdit where
  kind : EditKind := .listDirected
  width : Option Nat := none
  digits : Option Nat := none
  modes : Modes := {}
  deriving Repr, DecidableEq

namespace DataEdit

def isListDirected (e : DataEdit) : Bool := e.kind = .listDirected

def budget (e : DataEdit) : Option Nat := if e.isListDirected then none else e.width

def decimalSymbol (e : DataEdit) : Char := if e.modes.decimalComma then ',' else '.'

end DataEdit

end DataTransfer
