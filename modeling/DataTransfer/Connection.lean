import DataTransfer.Edit

/-!
The connection of a unit: how its file is divided into records, and where the cursor stands in the
current one.
-/

namespace DataTransfer

inductive Access where
  | sequential | direct | stream
  deriving Repr, DecidableEq

/-- STATUS= of an OPEN. -/
inductive OpenStatus where
  | old | new | scratch | replace | unknown
  deriving Repr, DecidableEq

/-- POSITION= of an OPEN. -/
inductive Position where
  | asIs | rewind | append
  deriving Repr, DecidableEq

/-- STATUS= of a CLOSE. -/
inductive CloseStatus where
  | keep | delete
  deriving Repr, DecidableEq

inductive Direction where
  | input | output
  deriving Repr, DecidableEq

/-- ACCESS=, FORM= and RECL= of an OPEN. -/
structure Form where
  access : Access := .sequential
  formatted : Bool := true
  recordLength : Option Nat := none
  deriving Repr, DecidableEq

/-- A move of the cursor: to a column behind the left tab limit, or by a number of columns, but never
left of that limit. -/
inductive Move where
  | absolute (column : Int)
  | relative (columns : Int)
  deriving Repr, DecidableEq

structure Connection where
  access : Access := .sequential
  formatted : Bool := true
  /-- Every record has the length declared by RECL=. -/
  fixedLength : Bool := false
  /-- The declared length, or the one found for the current input record. -/
  recordLength : Option Nat := none
  /-- The number of the current record, from 1. -/
  record : Nat := 1
  /-- The number of the record that is the end of the file, once known. -/
  endRecord : Option Nat := none
  position : Nat := 0
  /-- The furthest position that the current record has reached. -/
  furthest : Nat := 0
  /-- Cursor moves do not go left of this column. -/
  leftTabLimit : Option Nat := none
  nonAdvancing : Bool := false
  utf8 : Bool := false
  modes : Modes := {}
  deriving Repr, DecidableEq

namespace Connection

-- `^` is the power of the core library, also where another one is in scope.
attribute [local instance (high)] instPowNat

def withForm (c : Connection) (form : Form) : Connection :=
  { c with
    access := form.access
    formatted := form.formatted
    fixedLength := form.recordLength.isSome
    recordLength := form.recordLength }

def beginRecord (c : Connection) : Connection :=
  { c with position := 0, furthest := 0, leftTabLimit := none }

def atEnd (c : Connection) : Bool :=
  match c.endRecord with
  | some last => last ≤ c.record
  | none => false

def remaining (c : Connection) : Option Nat := c.recordLength.map (· - c.position)

/-- The length that every record has, if there is one. -/
def fixedRecordLength (c : Connection) : Option Nat := if c.fixedLength then c.recordLength else none

def tabFloor (c : Connection) : Nat := c.leftTabLimit.getD 0

/-- The cursor is at the end of a record of fixed length. -/
def pastFixedRecord (c : Connection) : Bool :=
  !c.atEnd && c.fixedLength && c.recordLength.any (· ≤ c.position)

/-- The column `n` columns further. Columns are added as signed 64-bit integers, where a sum out of range
wraps around, and left of the first column there is none. -/
def shifted (column : Nat) (n : Int) : Nat :=
  let sum := ((column + n) % 2 ^ (64 : Nat)).toNat
  if sum < 2 ^ (63 : Nat) then sum else 0

theorem shifted_eq_bmod (column : Nat) (n : Int) :
    shifted column n = ((column + n).bmod (2 ^ (64 : Nat))).toNat := by
  simp only [shifted, Int.bmod]
  split <;> omega

theorem shifted_of_lt {column : Nat} {n : Int} (hlow : -2 ^ (63 : Nat) ≤ column + n)
    (hhigh : column + n < 2 ^ (63 : Nat)) : shifted column n = (column + n).toNat := by
  rw [shifted_eq_bmod, Int.bmod_eq_of_le (by omega) (by omega)]

theorem shifted_zero {column : Nat} (h : column < 2 ^ (63 : Nat)) : shifted column 0 = column := by
  rw [shifted_of_lt (by omega) (by omega)]
  omega

def target (c : Connection) : Move → Nat
  | .absolute column => shifted c.tabFloor column
  | .relative columns => max (shifted c.position columns) (shifted c.tabFloor 0)

theorem target_one {c : Connection} (hfloor : c.tabFloor ≤ c.position)
    (hroom : c.position + 1 < 2 ^ (63 : Nat)) : c.target (.relative 1) = c.position + 1 := by
  rw [target, shifted_of_lt (by omega) (by omega), shifted_zero (by omega)]
  omega

end Connection

/-- Where a move from `position` leads if there is no left tab limit. -/
def Move.column (position : Nat) : Move → Nat
  | .absolute column => Connection.shifted 0 column
  | .relative columns => Connection.shifted position columns

theorem Connection.target_of_noLimit {c : Connection} (h : c.leftTabLimit = none) (m : Move) :
    c.target m = m.column c.position := by
  cases m with
  | absolute column => rw [target, tabFloor, h]; rfl
  | relative columns =>
    rw [target, tabFloor, h]
    exact Nat.max_zero _

end DataTransfer
