import DataTransfer.Unit.Session

/-!
Records of a unit. A formatted record ends with a newline, before which one carriage return does not
count on input; an unformatted sequential record stands between two markers with its length; records
of fixed length and streams have no framing.
-/

namespace DataTransfer.Session

-- `^` is the power of the core library, also where another one is in scope.
attribute [local instance (high)] instPowNat

def corruptText (record offset : Nat) (problem : String) : String :=
  "Unformatted sequential file input failed at record #" ++ toString record ++ " (file offset " ++
    toString offset ++ "): " ++ problem

def newline : UInt8 := 10
def carriageReturn : UInt8 := 13
def blank : UInt8 := 32

/-- The length of a record and of its terminator, if `bytes` hold its newline. -/
def extent? (bytes : Bytes) : Option (Nat × Nat) :=
  match bytes.findIdx? (· = newline) with
  | none => none
  | some 0 => some (0, 1)
  | some (n + 1) => if bytes[n]? = some carriageReturn then some (n, 2) else some (n + 1, 1)

/-- Looks for the end of the record in a window that doubles until it is found. Input that ends
before the newline ends the record. -/
def locateFormattedIn : (fuel window : Nat) → Attempt Session Bool
  | 0, _ => pure false
  | fuel + 1, window => do
    let offset := (← get).unit.offset
    let got ← windowed (Windowed.read offset window)
    if got = 0 then return false
    let bytes := (← get).unit.window.bytesAt offset got
    match extent? bytes, decide (got < window) with
    | some (length, terminator), _ => found length terminator
    | none, true => found got 0
    | none, false => locateFormattedIn fuel (2 * window)
where
  found (length terminator : Nat) : Attempt Session Bool := do
    modifyConnection fun c => { c with recordLength := some length }
    modifyUnit fun u => { u with terminator }
    return true

def locateFormatted : Attempt Session Bool := do
  let s ← get
  locateFormattedIn (s.reach + 1) s.unit.readChunk

/-- Reads the header, makes sure of the whole record and compares the footer. -/
def locateUnformatted : Attempt Session Bool := do
  let u := (← get).unit
  let marker := ExternalUnit.markerBytes
  let corrupt (problem : String) : Attempt Session Bool :=
    throw (.badUnformattedRecord (corruptText u.connection.record u.offset problem))
  let markerAt (offset : Nat) : Attempt Session Nat := do
    return Bytes.ofLittleEndian ((← get).unit.window.bytesAt offset marker)
  let got ← windowed (Windowed.read u.offset marker)
  if got = 0 then return false
  if got < marker then corrupt "truncated record header"
  else
    let header ← markerAt u.offset
    let size := 2 * marker + header
    if (← windowed (Windowed.read u.offset size)) < size then
      corrupt ("hit EOF reading record with length " ++ toString header ++ " bytes")
    else
      let footer ← markerAt (u.offset + marker + header)
      if footer ≠ header then
        corrupt ("record header has length " ++ toString header ++
          " that does not match record footer (" ++ toString footer ++ ")")
      else
        modifyConnection fun c => { c with recordLength := some header }
        return true

def findRecord : Attempt Session Bool := do
  let u := (← get).unit
  match u.connection.fixedRecordLength with
  | some length =>
    modifyUnit fun u => { u with terminator := 0 }
    return 0 < (← windowed (Windowed.read u.offset length))
  | none =>
    if u.connection.formatted then locateFormatted
    else if u.connection.access = .stream then
      modifyConnection fun c => { c with recordLength := none }
      return true
    else locateUnformatted

/-- Finds the extent of the current input record. Where there is none, the file ends here. -/
def locate : Attempt Session Bool := do
  let u := (← get).unit
  if u.connection.atEnd then
    signalEndOfFile
    return false
  if ← findRecord then
    modifyUnit fun u => { u with located := true }
    return true
  else
    modifyConnection fun c => { c with endRecord := some c.record }
    signalEndOfFile
    return false

def ensureLocated : Attempt Session Bool := do
  if (← get).unit.located then return true else locate

/-- Writes buffered output to the file, and has the system take it. -/
def flush : Attempt Session Unit := do
  if (← get).unit.isOpen then
    windowed Windowed.flush
    attached (modify Channel.flushed)

/-- Bytes from the start of the current input record to the start of the next. -/
def inputStride (u : ExternalUnit) : Nat :=
  let c := u.connection
  let length := c.recordLength.getD 0
  if c.fixedRecordLength.isSome then length
  else if c.formatted then length + u.terminator
  else if c.access = .stream then c.furthest
  else length + 2 * ExternalUnit.markerBytes

/-- Completes the current output record in the file, and gives the bytes it takes there. -/
def completeRecord : Attempt Session Nat := do
  let u := (← get).unit
  let c := u.connection
  match c.fixedRecordLength with
  | some length =>
    if c.formatted && c.furthest < length then
      windowed (Windowed.fill (u.offset + c.furthest) (length - c.furthest) blank)
    return length
  | none =>
    if c.formatted then
      windowed (Windowed.write (u.offset + c.furthest) [newline])
      return c.furthest + 1
    else if c.access = .stream then return c.furthest
    else
      let marker := ExternalUnit.markerBytes
      if 256 ^ marker ≤ c.furthest then
        throw (.generic ("unformatted record of " ++ toString c.furthest ++ " bytes is too long"))
      let length := Bytes.littleEndian marker c.furthest
      windowed (Windowed.write u.offset length)
      windowed (Windowed.write (u.offset + marker + c.furthest) length)
      return 2 * marker + c.furthest

def nextRecord (u : ExternalUnit) : ExternalUnit :=
  u.setConnection fun c => { c with record := c.record + 1 }.beginRecord

/-- Finishes the current record and goes to the next. Output to what cannot be positioned is
delivered at once. At the end of the file there is no next record. -/
def advanceRecord : Attempt Session Unit := do
  if (← get).unit.reading then
    if ← ensureLocated then
      modifyUnit fun u => nextRecord { u with offset := u.offset + inputStride u, located := false }
  else
    let stride ← completeRecord
    modifyUnit fun u => { u with offset := u.offset + stride }
    if !(← get).unit.attachment.mayPosition then flush
    modifyUnit nextRecord

end DataTransfer.Session
