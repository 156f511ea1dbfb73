import DataTransfer.Unit.Transfer

/-!
What a statement can do with its unit, from OPEN to CLOSE. Faults are signalled to the statement's status
keeper; an operation answers whether the statement is free of errors afterwards.
-/

namespace DataTransfer.Session

def atFirstRecord (offset : Nat) (u : ExternalUnit) : ExternalUnit :=
  { u with
    window := { offset }
    offset
    located := false
    reading := false
    connection := { u.connection with record := 1, endRecord := none }.beginRecord }

/-- Connects the unit. An old file that is connected already stays as it is; any other connection is
first flushed and closed. The form is taken on even if the file cannot be opened. -/
def connect (status : OpenStatus) (position : Position) (path : Option String) (form : Form) :
    Attempt Session Unit := do
  let u := (← get).unit
  let sameFile := path.all fun path => u.attachment.path.any (Path.same path)
  if u.isOpen && status = .old && sameFile then return
  if u.isOpen then
    flush
    attached (Channel.detach .keep)
  modifyConnection (·.withForm form)
  let path := if status = .scratch then none else some (path.getD u.defaultPath)
  let start ← attached (Channel.attach status position path)
  modifyUnit (atFirstRecord start)

/-- Disconnects the unit. If its output cannot be written the unit is closed all the same, and the
fault is raised afterwards. -/
def disconnect (status : CloseStatus) : Attempt Session Unit := do
  let flushed ← ExceptT.lift flush.run
  attached (Channel.detach status)
  modifyUnit fun u => { u with window := {}, offset := 0, located := false, connection := {} }
  flushed

/-- Runs an attempt whose fault is only signalled. -/
def noting (act : Attempt Session Unit) : Act Session Unit := do discard (report act)

/-- Makes the unit ready for a transfer in one direction. An unconnected unit is connected to its
default file; on a change of direction buffered output is written. -/
def prepare (kind : StatementKind) (direction : Direction) : Act Session Unit := do
  if !(← get).unit.isOpen then
    let formatted := match kind with
      | .unformatted _ => false
      | _ => true
    noting (connect .unknown .asIs none { formatted })
  let reading := decide (direction = .input)
  if reading ≠ (← get).unit.reading then
    noting (windowed Windowed.flush)
    modify fun s => { s with unit := { s.unit with reading, located := false } }

/-- Begins a statement, which holds the unit. No receivers are declared yet, so a failure here ends
the program. -/
def begin_ (kind : StatementKind) (source : SourceLine) : Act Session Unit := do
  modify fun s =>
    { s with
      unit := { s.unit with held := true, statement := .begin_ kind s.unit.connection.modes }
      handler := { source }
      items := 0 }
  match (← get).unit.statement.direction? with
  | some direction => prepare kind direction
  | none => pure ()

def release (u : ExternalUnit) : ExternalUnit := { u with held := false }

def declare (r : Receivers) : Act Session Unit :=
  modify fun s => { s with handler := s.handler.declare r }

def modes (s : Session) : Modes := s.unit.statement.modes?.getD s.unit.connection.modes

def setNonAdvancing (yes : Bool) : Act Session Unit :=
  modify fun s =>
    { s with unit := s.unit.setConnection fun c => { c with nonAdvancing := yes } }

/-- Changes the modes of a formatted statement; no other statement has any. -/
def setModes (modes : Modes) : Act Session Bool := do
  let s ← get
  match s.unit.statement.setModes? modes with
  | some statement =>
    set { s with unit := { s.unit with statement } }
    return true
  | none =>
    report (throw (.badKeyword ("edit modes given for a " ++ s.unit.statement.name ++ " statement")))

def openUnit (status : OpenStatus) (position : Position) (path : Option String) (form : Form) :
    Act Session Bool :=
  report (connect status position path form)

def closeUnit (status : CloseStatus) : Act Session Bool := report (disconnect status)

def emit (data : Bytes) : Act Session Bool := report (putData data)

def nextChar : Act Session (Option Char) := do
  match ← peek.run with
  | .ok ch => return ch
  | .error f =>
    noting (throw f)
    return none

/-- The next bytes of an unformatted record, if the statement is still successful. -/
def receive (count : Nat) : Act Session (Bool × Option Bytes) := do
  match ← (getData count).run with
  | .ok data => return (decide ((← get).handler.status = .ok), data)
  | .error f =>
    noting (throw f)
    return (false, none)

def advance : Act Session Bool := report advanceRecord

/-- The cursor at the furthest position, which later moves do not pass to the left. -/
def setLeftTabLimit : Act Session Unit :=
  modify fun s =>
    { s with
      unit := s.unit.setConnection fun c =>
        { c with leftTabLimit := some c.furthest, position := c.furthest } }

def move (m : Move) : Act Session Bool := do
  report (moveTo ((← get).unit.connection.target m))

def moveAbsolute (column : Int) : Act Session Bool := move (.absolute column)

def moveRelative (columns : Int) : Act Session Bool := move (.relative columns)

/-- Positions a unit of direct access at a record. -/
def setRecord (record : Nat) : Act Session Bool := do
  let s ← get
  let refuse (text : String) : Act Session Bool := report (throw (.badKeyword text))
  match s.unit.connection.fixedRecordLength with
  | none => refuse "REC= requires a fixed record length"
  | some length =>
    if s.unit.connection.access ≠ .direct || record = 0 then
      refuse ("REC=" ++ toString record ++ " on a unit not open for direct access")
    else
      let connection := { s.unit.connection with record }.beginRecord
      set { s with
        unit := { s.unit with offset := (record - 1) * length, connection, located := false } }
      return true

def flushUnit : Act Session Bool := report flush

def flushIfTerminal : Act Session Unit := do
  if (← get).unit.attachment.isTerminal then discard flushUnit

/-- Ends a data transfer. An advancing statement finishes its record, and so does input that met the
end of its record; output that does not advance keeps what it wrote. -/
def endTransfer : Act Session Unit := do
  let s ← get
  let metEnd := s.unit.statement.isInput && s.handler.status = .endOfRecord
  if !s.unit.connection.nonAdvancing || metEnd then discard advance
  else if s.unit.statement.isOutput then setLeftTabLimit
  flushIfTerminal

def finish : Act Session Iostat := do
  if (← get).unit.statement.isTransfer then endTransfer
  setNonAdvancing false
  modify fun s => { s with unit := release { s.unit with statement := .idle } }
  return (← get).handler.status

instance : FieldSource Session where
  connection s := s.unit.connection
  handler := handler
  withHandler s h := { s with handler := h }
  current := nextChar
  moveBy n := discard (moveRelative n)
  reach := reach

end DataTransfer.Session

namespace DataTransfer

/-- Writes out what the unit holds, unless a statement holds the unit. Failures do not matter. -/
def ExternalUnit.flushOnCrash (system : System) (u : ExternalUnit) : System × ExternalUnit :=
  if u.held then (system, u)
  else
    let s : Session := { system, unit := u }
    let written :=
      match Windowed.flush s.channel with
      | .ok _ c => c
      | .error _ c => c
    let s := s.withChannel { written with device := written.device.flushed }
    (s.system, s.unit)

end DataTransfer
