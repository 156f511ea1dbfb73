import DataTransfer.Field.Source
import DataTransfer.Storage.Window
import DataTransfer.Unit.Statement

/-!
External units, and a statement's session on one: the unit, the system it lives in and the
statement's status keeper.
-/

namespace DataTransfer

/-- A unit number with its connection. At most one statement holds the unit. -/
structure ExternalUnit where
  number : Int
  readChunk : Nat := 256
  connection : Connection := {}
  attachment : Attachment := {}
  window : Window := {}
  /-- The file offset of the current record. -/
  offset : Nat := 0
  /-- The extent of the current input record is known. -/
  located : Bool := false
  /-- Bytes of the terminator behind the current input record. -/
  terminator : Nat := 0
  reading : Bool := false
  statement : StatementState := .idle
  held : Bool := false
  deriving Repr, DecidableEq

namespace ExternalUnit

def new (number : Int) (readChunk : Nat) : ExternalUnit := { number, readChunk := max 1 readChunk }

def predefine (u : ExternalUnit) (descriptor : Int) (utf8 : Bool) : ExternalUnit :=
  { u with
    attachment := .standard descriptor
    connection := { utf8 }
    reading := descriptor = 0 }

def isOpen (u : ExternalUnit) : Bool := u.attachment.isOpen

def defaultPath (u : ExternalUnit) : String := "fort." ++ toString u.number

/-- Bytes of a length marker of an unformatted sequential record. -/
def markerBytes : Nat := 4

def hasMarkers (c : Connection) : Bool :=
  !c.formatted && !c.fixedLength && c.access = .sequential

/-- The file offset of the first byte of the current record that is not framing. -/
def dataOffset (u : ExternalUnit) : Nat :=
  if hasMarkers u.connection then u.offset + markerBytes else u.offset

def setConnection (f : Connection → Connection) (u : ExternalUnit) : ExternalUnit :=
  { u with connection := f u.connection }

end ExternalUnit

/-- A statement in progress: what it works on, its status, and the items it has transferred. -/
structure Session where
  system : System
  unit : ExternalUnit
  handler : Handler := {}
  items : Nat := 0

namespace Session

def channel (s : Session) : Windowed Channel := ⟨⟨s.system, s.unit.attachment⟩, s.unit.window⟩

def withChannel (s : Session) (c : Windowed Channel) : Session :=
  { s with
    system := c.device.system
    unit := { s.unit with attachment := c.device.attachment, window := c.window } }

/-- An operation through the unit's window; its failure is a fault. -/
def windowed {α : Type} (act : Windowed.Op Channel α) : Attempt Session α := fun s =>
  match act s.channel with
  | .ok a c => .ok (.ok a) (s.withChannel c)
  | .error e c => .ok (.error (.ofOs e)) (s.withChannel c)

def attached {α : Type} (act : Channel.Op Fault α) : Attempt Session α := fun s =>
  match act s.channel.device with
  | .ok a device => .ok (.ok a) (s.withChannel { s.channel with device })
  | .error f device => .ok (.error f) (s.withChannel { s.channel with device })

def modifyUnit (f : ExternalUnit → ExternalUnit) : Attempt Session Unit :=
  modify fun s => { s with unit := f s.unit }

def modifyConnection (f : Connection → Connection) : Attempt Session Unit :=
  modifyUnit (.setConnection f)

def modifyHandler (change : Handler → Except Crash Handler) : Attempt Session Unit := fun s =>
  match change s.handler with
  | .ok handler => .ok (.ok ()) { s with handler }
  | .error c => .error c s

def signalEndOfFile : Attempt Session Unit := modifyHandler Handler.endOfFile
def signalEndOfRecord : Attempt Session Unit := modifyHandler Handler.endOfRecord

def crash {α : Type} (text : String) : Attempt Session α := fun s =>
  .error (s.handler.source.crash text) s

/-- More bytes than the unit can still read. -/
def reach (s : Session) : Nat :=
  s.unit.window.limit + s.unit.attachment.available s.system + s.unit.connection.recordLength.getD 0

/-- Ends an attempt: a fault is signalled. The result says whether the statement is free of errors. -/
def report (act : Attempt Session Unit) : Act Session Bool := do
  match ← act.run with
  | .ok _ => return !(← get).handler.inError
  | .error f => fun s =>
    match s.handler.fault f with
    | .ok handler => .ok false { s with handler }
    | .error c => .error c s

end Session

end DataTransfer
