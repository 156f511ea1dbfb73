import DataTransfer.Connection
import DataTransfer.Storage.System

/-!
What a unit is attached to: a file, a scratch file or a standard stream, and which operations the
attachment permits. A name outlives a failed OPEN and a CLOSE.
-/

namespace DataTransfer

inductive Backing where
  | file (ref : FileRef) (writable : Bool)
  | standardInput
  | standardOutput
  | standardError
  deriving Repr, DecidableEq

structure Attachment where
  path : Option String := none
  backing : Option Backing := none
  mayRead : Bool := false
  mayWrite : Bool := false
  mayPosition : Bool := false
  isTerminal : Bool := false
  isScratch : Bool := false
  deriving Repr, DecidableEq

/-- An attachment within its system. -/
structure Channel where
  system : System := {}
  attachment : Attachment := {}
  deriving Repr, DecidableEq

namespace Attachment

def isOpen (a : Attachment) : Bool := a.backing.isSome

/-- The attachment to a standard stream: 0 is input, 2 is error output, anything else is output. -/
def standard (descriptor : Int) : Attachment :=
  { backing := some (if descriptor = 0 then .standardInput
      else if descriptor = 2 then .standardError else .standardOutput)
    mayRead := descriptor = 0
    mayWrite := descriptor ≠ 0 }

def available (system : System) (a : Attachment) : Nat :=
  match a.backing with
  | some (.file ref _) => system.files.size ref
  | some .standardInput => system.input.length
  | _ => 0

end Attachment

namespace Channel

/-- An operation on a channel that can fail without changing it further. -/
abbrev Op (ε α : Type) := EStateM ε Channel α

def request : OpenStatus → FileSystem.Request
  | .new => { create := true, exclusive := true }
  | .replace => { create := true, truncate := true }
  | .unknown => { create := true }
  | .old => {}
  | .scratch => {}

def setAttachment (f : Attachment → Attachment) : Op Fault Unit :=
  modify fun c => { c with attachment := f c.attachment }

/-- Opens a named file. An old file that may not be written is opened for reading only. -/
def openNamed (status : OpenStatus) (path : String) : Op Fault (FileRef × Bool) := fun c =>
  match c.system.files.open_ path (request status) with
  | .ok (ref, files) => .ok (ref, true) { c with system := { c.system with files } }
  | .error e =>
    if e = .errno Errno.accessDenied && status = .old then
      let c := { c with attachment := { c.attachment with mayWrite := false } }
      match c.system.files.open_ path { write := false } with
      | .ok (ref, files) => .ok (ref, false) { c with system := { c.system with files } }
      | .error e => .error (.ofOsAt path e) c
    else .error (.ofOsAt path e) c

def openScratch : Op Fault (FileRef × Bool) := fun c =>
  let (ref, files) := c.system.files.anonymous
  .ok (ref, true) { c with system := { c.system with files } }

/-- Attaches a file and gives the offset at which the connection starts. What the attachment permits
and its name change even if the file cannot be opened; a file attached before then stays. -/
def attach (status : OpenStatus) (position : Position) (path : Option String) : Op Fault Nat := do
  setAttachment fun a =>
    { a with isScratch := status = .scratch, mayRead := true, mayWrite := true, mayPosition := true }
  let (ref, writable) ←
    match status, path with
    | .scratch, _ =>
      setAttachment fun a => { a with path := none }
      openScratch
    | _, some path =>
      setAttachment fun a => { a with path := some path }
      openNamed status path
    | _, none => throw (.badKeyword "OPEN without FILE= for a file that is not scratch")
  setAttachment fun a => { a with backing := some (.file ref writable), isTerminal := false }
  let c ← get
  return if position = .append then c.system.files.size ref else 0

/-- The channel once the system has all that was written to it. -/
def flushed (c : Channel) : Channel :=
  match c.attachment.backing with
  | some .standardOutput => { c with system := c.system.flushed }
  | _ => c

theorem flushed_of_ne {c : Channel} (h : c.attachment.backing ≠ some .standardOutput) :
    c.flushed = c := by
  unfold flushed
  split
  · next heq => exact absurd heq h
  · rfl

@[simp] theorem attachment_flushed (c : Channel) : c.flushed.attachment = c.attachment := by
  unfold flushed
  split <;> rfl

@[simp] theorem files_flushed (c : Channel) : c.flushed.system.files = c.system.files := by
  unfold flushed
  split <;> rfl

@[simp] theorem output_flushed (c : Channel) : c.flushed.system.output = c.system.output := by
  unfold flushed
  split <;> rfl

@[simp] theorem errors_flushed (c : Channel) : c.flushed.system.errors = c.system.errors := by
  unfold flushed
  split <;> rfl

/-- Detaches, and removes the file by its name if asked to. Scratch files have no name. -/
def detach (status : CloseStatus) : Op Fault Unit := do
  modify flushed
  setAttachment fun a => { a with backing := none }
  let c ← get
  match status, c.attachment.isScratch, c.attachment.path with
  | .delete, false, some path =>
    match c.system.files.remove path with
    | .ok files => set { c with system := { c.system with files } }
    | .error e => throw (.ofOsAt path e)
  | _, _, _ => pure ()
  setAttachment fun a => { a with isScratch := false }

/-- Bytes at an offset. Standard input ignores the offset and gives at most one line. -/
def readAt (offset count : Nat) : Op OsError Bytes := fun c =>
  match c.attachment.backing with
  | some (.file ref _) =>
    match c.system.files.read ref offset count with
    | .ok data => .ok data c
    | .error e => .error e c
  | some .standardInput =>
    let (line, input) := System.splitLine count c.system.input
    .ok line { c with system := { c.system with input } }
  | some .standardOutput => .error .readFromOutput c
  | some .standardError => .error .readFromOutput c
  | none => .error .notConnected c

/-- Puts bytes at an offset. The output streams ignore the offset and append. -/
def writeAt (offset : Nat) (data : Bytes) : Op OsError Unit := fun c =>
  match c.attachment.backing with
  | some (.file ref writable) =>
    match c.system.files.write ref writable offset data with
    | .ok files => .ok () { c with system := { c.system with files } }
    | .error e => .error e c
  | some .standardOutput => .ok () { c with system := c.system.print data }
  | some .standardError => .ok () { c with system := { c.system with errors := c.system.errors ++ data } }
  | some .standardInput => .error .writeToInput c
  | none => .error .notConnected c

end Channel

end DataTransfer
