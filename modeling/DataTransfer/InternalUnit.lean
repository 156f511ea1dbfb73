import DataTransfer.Field.Source

/-!
Internal units: a character buffer read or written as records of one fixed length. Bytes behind the
last whole record belong to no record.
-/

namespace DataTransfer

structure InternalUnit where
  direction : Direction
  buffer : Bytes
  connection : Connection
  handler : Handler := {}

namespace InternalUnit

def blank : UInt8 := 32

/-- The record behind the last whole one is the end of the file. Records without length do not
exist. -/
def connect (size recordLength : Nat) : Connection :=
  { fixedLength := true
    recordLength := some recordLength
    endRecord := some (size / recordLength + 1) }

def ofBuffer (direction : Direction) (buffer : Bytes) (recordLength : Nat) (source : SourceLine) :
    InternalUnit :=
  { direction, buffer
    connection := connect buffer.length recordLength
    handler := { source } }

def recordLength (u : InternalUnit) : Nat := u.connection.recordLength.getD 0

/-- Where the current record starts in the buffer; none past the last record. -/
def recordStart? (u : InternalUnit) : Option Nat :=
  if u.connection.atEnd then none else some ((u.connection.record - 1) * u.recordLength)

/-- The current record with blanks from its furthest position up to `column`. -/
def blankTo (u : InternalUnit) (start column : Nat) : Bytes :=
  u.buffer.overlay (start + u.connection.furthest)
    (Bytes.fill (column - u.connection.furthest) blank)

/-- The unit with the current output record filled to its end. -/
def finishRecord (u : InternalUnit) : InternalUnit :=
  match u.direction, u.recordStart? with
  | .output, some start => { u with buffer := u.blankTo start u.recordLength }
  | _, _ => u

def setPosition (u : InternalUnit) (column : Nat) : InternalUnit :=
  { u with connection := { u.connection with position := column } }

def current : Act InternalUnit (Option Char) := fun u =>
  match u.recordStart? with
  | none =>
    match u.handler.endOfFile with
    | .ok handler => .ok none { u with handler }
    | .error c => .error c u
  | some start =>
    match u.direction with
    | .output => .error (u.handler.source.crash "NextChar() called for an internal output unit") u
    | .input =>
      if u.connection.position < u.recordLength then
        .ok (u.buffer[start + u.connection.position]?.map fun b => Char.ofNat b.toNat) u
      else .ok none u

/-- The cursor at `column`, or at the end of the record with an overrun. -/
def moveTo (column : Nat) : Act InternalUnit Unit := fun u =>
  if column ≤ u.recordLength then .ok () (u.setPosition column)
  else
    let u := u.setPosition u.recordLength
    let fault : Fault :=
      match u.direction with
      | .input => .recordReadOverrun
      | .output => .internalWriteOverrun
    match u.handler.fault fault with
    | .ok handler => .ok () { u with handler }
    | .error c => .error c u

def move (m : Move) : Act InternalUnit Unit := fun u => moveTo (u.connection.target m) u

def moveAbsolute (column : Int) : Act InternalUnit Unit := move (.absolute column)

def moveRelative (columns : Int) : Act InternalUnit Unit := move (.relative columns)

instance : FieldSource InternalUnit where
  connection := connection
  handler := handler
  withHandler u h := { u with handler := h }
  current := current
  moveBy := moveRelative
  reach := recordLength

/-- Puts `data` at the cursor, with blanks before it where nothing was written yet. Data that does
not fit the record is refused whole. -/
def emit (data : Bytes) : Act InternalUnit Bool := do
  let u ← get
  match u.direction with
  | .input => FieldSource.crash "Emit() called for an internal input unit"
  | .output =>
    let c := u.connection
    let after := c.position + data.length
    match u.recordStart? with
    | none => FieldSource.signalFault .internalWriteOverrun; pure false
    | some start =>
      if after ≤ u.recordLength then
        set { u with
          buffer := (u.blankTo start c.position).overlay (start + c.position) data
          connection := { c with position := after, furthest := max c.furthest after } }
        pure true
      else
        FieldSource.signalFault .internalWriteOverrun
        pure false

def advance : Act InternalUnit Bool := do
  let u ← get
  if u.connection.atEnd then
    match u.direction with
    | .input => FieldSource.signalEndOfFile
    | .output => FieldSource.signalFault .internalWriteOverrun
    pure false
  else
    let u := u.finishRecord
    set { u with
      connection := { u.connection with record := u.connection.record + 1 }.beginRecord }
    pure true

/-- Ends the statement: the last record written is filled. -/
def finish : Act InternalUnit Iostat := do
  modify finishRecord
  return (← get).handler.status

end InternalUnit

end DataTransfer
