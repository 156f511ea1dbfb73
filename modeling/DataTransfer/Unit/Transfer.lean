import DataTransfer.Unit.Record

/-!
Transfers within the current record, and moves of its cursor.
-/

namespace DataTransfer.Session

def requireWritable : Attempt Session Unit := do
  let u := (← get).unit
  if !u.attachment.mayWrite then crash ("unit " ++ toString u.number ++ " may not be written")

def requireReadable : Attempt Session Unit := do
  let u := (← get).unit
  if !u.attachment.mayRead then crash ("unit " ++ toString u.number ++ " may not be read")

/-- Puts `data` at the cursor. A formatted record is blank where nothing was written. Data that does
not fit a record of fixed length is refused whole. -/
def putData (data : Bytes) : Attempt Session Unit := do
  if (← get).unit.statement.isInput then crash "Emit() called for an input statement"
  requireWritable
  let u := (← get).unit
  let c := u.connection
  let after := c.position + data.length
  let furthest := max c.furthest after
  if c.fixedRecordLength.any (· < furthest) then throw .recordWriteOverrun
  if c.furthest < c.position && c.formatted then
    windowed (Windowed.fill (u.dataOffset + c.furthest) (c.position - c.furthest) blank)
  windowed (Windowed.write (u.dataOffset + c.position) data)
  modifyConnection fun c => { c with position := after, furthest }

/-- The character at the cursor of the current input record; bytes are characters. -/
def peek : Attempt Session (Option Char) := do
  if !(← get).unit.connection.formatted then crash "NextChar() called for unformatted input"
  requireReadable
  if !(← ensureLocated) then return none
  let u := (← get).unit
  if u.connection.remaining = some 0 then return none
  let offset := u.dataOffset + u.connection.position
  if (← windowed (Windowed.read offset 1)) = 0 then return none
  return ((← get).unit.window.bytesAt offset 1).head?.map fun b => Char.ofNat b.toNat

/-- The next `count` bytes of the current unformatted record. None come at the end of the file. -/
def getData (count : Nat) : Attempt Session (Option Bytes) := do
  if (← get).unit.connection.formatted then crash "Receive() called for formatted input"
  requireReadable
  if !(← ensureLocated) then return none
  let u := (← get).unit
  if u.connection.remaining.any (· < count) then throw .recordReadOverrun
  let offset := u.dataOffset + u.connection.position
  if (← windowed (Windowed.read offset count)) < count then
    signalEndOfFile
    return none
  let data := (← get).unit.window.bytesAt offset count
  modifyConnection fun c =>
    { c with position := c.position + count, furthest := max c.furthest (c.position + count) }
  return some data

/-- The cursor at `column`. Beyond a record of fixed length it stops at the end: the end of the
record for a statement that does not advance, an overrun for one that does. -/
def moveTo (column : Nat) : Attempt Session Unit := do
  let u := (← get).unit
  match u.connection.fixedRecordLength with
  | some length =>
    if length < column then
      modifyConnection fun c => { c with position := length }
      if u.connection.nonAdvancing then signalEndOfRecord
      else throw (if u.reading then .recordReadOverrun else .recordWriteOverrun)
    else modifyConnection fun c => { c with position := column }
  | none => modifyConnection fun c => { c with position := column }

end DataTransfer.Session
