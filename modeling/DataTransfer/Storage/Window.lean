import DataTransfer.Storage.Attachment

/-!
A window of file bytes held in memory around the current record. Reads extend it on demand; writes
land in it, and the written range goes back to the file in one piece when the window moves away, or
on a flush.
-/

namespace DataTransfer

/-- Something that bytes can be read from and written to at offsets. -/
class ByteDevice (δ : Type) where
  mayRead : δ → Bool
  mayPosition : δ → Bool
  /-- At most `count` bytes; fewer mean that there are no more. -/
  readAt : (offset count : Nat) → EStateM OsError δ Bytes
  writeAt : (offset : Nat) → Bytes → EStateM OsError δ Unit

instance : ByteDevice Channel where
  mayRead c := c.attachment.mayRead
  mayPosition c := c.attachment.mayPosition
  readAt := Channel.readAt
  writeAt := Channel.writeAt

structure Window where
  /-- The file offset of the first byte held. -/
  offset : Nat := 0
  bytes : Bytes := []
  /-- Written bytes that the file does not have yet, as a range of positions in the window. -/
  dirty : Option (Nat × Nat) := none
  deriving Repr, DecidableEq

namespace Window

/-- Written bytes behind the current offset are kept for rewriting up to this number. -/
def flushBytes : Nat := 65536

/-- The bytes held from a file offset on, at most `count` of them. -/
def bytesAt (w : Window) (offset count : Nat) : Bytes :=
  if offset < w.offset then [] else w.bytes.slice (offset - w.offset) count

def isDirty (w : Window) : Bool := w.dirty.isSome

def limit (w : Window) : Nat := w.offset + w.bytes.length

/-- The written range extended by another. -/
def markDirty (dirty : Option (Nat × Nat)) (start stop : Nat) : Option (Nat × Nat) :=
  match dirty with
  | some (low, high) => some (min low start, max high stop)
  | none => some (start, stop)

end Window

structure Windowed (δ : Type) where
  device : δ
  window : Window := {}

namespace Windowed

variable {δ : Type} [ByteDevice δ]

/-- An operation through a window. What it changed stays changed when it fails. -/
abbrev Op (δ α : Type) := EStateM OsError (Windowed δ) α

def onDevice {α : Type} (act : EStateM OsError δ α) : Op δ α := fun s =>
  match act s.device with
  | .ok a device => .ok a { s with device }
  | .error e device => .error e { s with device }

/-- Writes the dirty range back. After a failure it is still dirty. -/
def flush : Op δ Unit := do
  let w := (← get).window
  match w.dirty with
  | none => pure ()
  | some (low, high) =>
    onDevice (ByteDevice.writeAt (w.offset + low) (w.bytes.slice low (high - low)))
    modify fun s => { s with window := { s.window with dirty := none } }

def reset (offset : Nat) : Op δ Unit := modify fun s => { s with window := { offset } }

/-- Moves the window so that it starts at or before `offset` and touches it. Clean bytes before it
are dropped; written ones are kept until `flushBytes` of them lie before it. -/
def slide (offset : Nat) : Op δ Unit := do
  let w := (← get).window
  let consumed := offset - w.offset
  if offset < w.offset || !w.bytes.reaches consumed then
    flush
    reset offset
  else if w.offset < offset then
    if w.isDirty && consumed < Window.flushBytes then pure ()
    else
      if w.isDirty then flush
      modify fun s =>
        { s with window := { s.window with offset, bytes := s.window.bytes.drop consumed } }

/-- Makes bytes from `offset` on available and tells how many of `count` exist. -/
def read (offset count : Nat) : Op δ Nat := do
  slide offset
  let s ← get
  let start := offset - s.window.offset
  if !s.window.bytes.reaches (start + count) && ByteDevice.mayRead s.device then
    let held := s.window.bytes.length
    let data ← onDevice (ByteDevice.readAt (s.window.offset + held) (start + count - held))
    modify fun s => { s with window := { s.window with bytes := s.window.bytes ++ data } }
  return ((← get).window.bytes.slice start count).length

/-- Puts `data` at `offset`. Bytes of the file around it are read first where that is possible. -/
def write (offset : Nat) (data : Bytes) : Op δ Unit := do
  slide offset
  let s ← get
  let start := offset - s.window.offset
  let stop := start + data.length
  let readable := ByteDevice.mayRead s.device && ByteDevice.mayPosition s.device
  if readable && !s.window.bytes.reaches stop then discard (read offset data.length)
  modify fun s =>
    { s with
      window := { s.window with
        bytes := s.window.bytes.overlay start data
        dirty := Window.markDirty s.window.dirty start stop } }

def fill (offset count : Nat) (byte : UInt8) : Op δ Unit := write offset (Bytes.fill count byte)

end Windowed

end DataTransfer
