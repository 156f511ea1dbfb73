import DataTransfer.Bytes
import DataTransfer.Status.Fault

/-!
The status keeper of a statement. A condition is recorded when the statement declared a way to
receive it, and ends the program otherwise. Of several conditions the one of highest rank is kept,
and of equal ones the first.
-/

namespace DataTransfer

structure Crash where
  text : String
  deriving Repr, DecidableEq

def Crash.message (c : Crash) : String := "fatal Fortran runtime error: " ++ c.text

/-- Where a statement stands in its program. -/
structure SourceLine where
  file : Option String := none
  line : Nat := 0
  deriving Repr, DecidableEq

/-- A fatal termination names the statement's file and line, if the file is known. -/
def SourceLine.crash (s : SourceLine) (text : String) : Crash :=
  match s.file with
  | some file => ⟨text ++ " (" ++ file ++ ":" ++ toString s.line ++ ")"⟩
  | none => ⟨text⟩

/-- Which of IOSTAT=, ERR=, END=, EOR= and IOMSG= are declared. -/
structure Receivers where
  iostat : Bool := false
  err : Bool := false
  endOfFile : Bool := false
  endOfRecord : Bool := false
  iomsg : Bool := false
  deriving Repr, DecidableEq

namespace Receivers

def union (a b : Receivers) : Receivers :=
  ⟨a.iostat || b.iostat, a.err || b.err, a.endOfFile || b.endOfFile,
    a.endOfRecord || b.endOfRecord, a.iomsg || b.iomsg⟩

def contains (a b : Receivers) : Bool :=
  (a.iostat || !b.iostat) && (a.err || !b.err) && (a.endOfFile || !b.endOfFile) &&
    (a.endOfRecord || !b.endOfRecord) && (a.iomsg || !b.iomsg)

def intersects (a b : Receivers) : Bool :=
  (a.iostat && b.iostat) || (a.err && b.err) || (a.endOfFile && b.endOfFile) ||
    (a.endOfRecord && b.endOfRecord) || (a.iomsg && b.iomsg)

/-- IOSTAT= and ERR= receive every condition. -/
def receivesError (a : Receivers) : Bool := a.iostat || a.err

end Receivers

/-- The status of a statement, the receivers declared for it and the text saved for IOMSG=. -/
structure Handler where
  source : SourceLine := {}
  declared : Receivers := {}
  status : Iostat := .ok
  saved : Option String := none
  deriving Repr, DecidableEq

namespace Handler

def declare (h : Handler) (r : Receivers) : Handler := { h with declared := h.declared.union r }

/-- An error, not merely an end condition, has been recorded. -/
def inError (h : Handler) : Bool := h.status.isError

/-- Keeps the condition of higher rank, and of equal ones the first. -/
def record (h : Handler) (s : Iostat) : Handler :=
  if h.status.rank < s.rank then { h with status := s } else h

/-- Records a fault. Its text is saved when it becomes the status and IOMSG= is declared. -/
def fault (h : Handler) (f : Fault) : Except Crash Handler :=
  if h.declared.receivesError then
    let kept := h.status.rank < f.iostat.rank
    let h := h.record f.iostat
    .ok (if kept && h.declared.iomsg then { h with saved := some f.message } else h)
  else .error (h.source.crash f.message)

def endOfFile (h : Handler) : Except Crash Handler :=
  if h.declared.endOfFile || h.declared.receivesError then .ok (h.record .endOfFile)
  else .error (h.source.crash "End of file during input")

def endOfRecord (h : Handler) : Except Crash Handler :=
  if h.declared.endOfRecord || h.declared.receivesError then .ok (h.record .endOfRecord)
  else .error (h.source.crash "End of record during non-advancing input")

def message? (h : Handler) : Option String :=
  match h.saved with
  | some text => some text
  | none => h.status.message?

/-- What an IOMSG= variable of `n` bytes holds afterwards: the message cut or padded with blanks.
Without a message the variable keeps its content. -/
def messageField? (h : Handler) (n : Nat) : Option Bytes :=
  h.message?.map fun text =>
    let bytes := (Bytes.ofText text).take n
    bytes ++ Bytes.fill (n - bytes.length) 32

end Handler

end DataTransfer
