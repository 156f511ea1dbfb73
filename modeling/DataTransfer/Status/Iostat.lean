import DataTransfer.Status.Errno

/-!
The status of a statement, as stored into an IOSTAT= variable: 0 is success, -1 and -2 are end of
file and end of record, operating system errors keep their number, and errors of the library
itself start at 1000.
-/

namespace DataTransfer

inductive Iostat where
  | ok
  | endOfFile
  | endOfRecord
  | generic
  | format
  | recordWriteOverrun
  | recordReadOverrun
  | internalWriteOverrun
  | keyword
  | badUnformattedRecord
  | unflushable
  | badRealInput
  | os (code : Int)
  deriving Repr, DecidableEq

namespace Iostat

def code : Iostat → Int
  | .ok => 0
  | .endOfFile => -1
  | .endOfRecord => -2
  | .generic => 1000
  | .format => 1001
  | .recordWriteOverrun => 1002
  | .recordReadOverrun => 1003
  | .internalWriteOverrun => 1004
  | .keyword => 1005
  | .badUnformattedRecord => 1006
  | .unflushable => 1007
  | .badRealInput => 1008
  | .os code => code

/-- The statuses of the library itself. -/
def own : List Iostat :=
  [.ok, .endOfFile, .endOfRecord, .generic, .format, .recordWriteOverrun, .recordReadOverrun,
    .internalWriteOverrun, .keyword, .badUnformattedRecord, .unflushable, .badRealInput]

/-- The status with a given code; one that the library does not use is an operating system's. -/
def ofCode (code : Int) : Iostat :=
  match own.find? (fun s => s.code = code) with
  | some s => s
  | none => .os code

@[simp] theorem code_ofCode (code : Int) : (ofCode code).code = code := by
  unfold ofCode
  split
  · next h => simpa using List.find?_some h
  · rfl

/-- Errors are what is neither success nor end of file nor end of record. -/
def isError : Iostat → Bool
  | .ok => false
  | .endOfFile => false
  | .endOfRecord => false
  | _ => true

/-- Errors outrank end of file, which outranks end of record, which outranks success. -/
def rank : Iostat → Nat
  | .ok => 0
  | .endOfRecord => 1
  | .endOfFile => 2
  | _ => 3

theorem isError_iff_rank (s : Iostat) : s.isError = true ↔ s.rank = 3 := by
  cases s <;> simp [isError, rank]

def text? : Iostat → Option String
  | .ok => none
  | .endOfFile => some "End of file during input"
  | .endOfRecord => some "End of record during non-advancing input"
  | .generic => some "I/O error"
  | .format => some "Bad data edit for input item"
  | .recordWriteOverrun => some "Excessive output to fixed-size record"
  | .recordReadOverrun => some "Excessive input from fixed-size record"
  | .internalWriteOverrun => some "Internal write overran available records"
  | .keyword => some "Bad keyword argument value"
  | .badUnformattedRecord => some "Corrupt unformatted record"
  | .unflushable => some "FLUSH not possible"
  | .badRealInput => some "Bad REAL input value"
  | .os _ => none

def message? : Iostat → Option String
  | .os code => some (Errno.message code)
  | s => s.text?

end Iostat

end DataTransfer
