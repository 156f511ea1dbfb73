import DataTransfer.Status.Iostat

/-!
Faults that a data transfer can raise, with the status and the text of each, and the failures of
the operating system that some of them come from.
-/

namespace DataTransfer

inductive OsError where
  /-- The operating system refused, with an error number. -/
  | errno (code : Int)
  /-- No request was made, for the reason given. -/
  | refused (reason : String)
  deriving Repr, DecidableEq

namespace OsError

def message : OsError → String
  | .errno code => Errno.message code
  | .refused reason => reason

def readFromOutput : OsError := .refused "read from an output stream"
def writeToInput : OsError := .refused "write to an input stream"
def notConnected : OsError := .refused "unit is not connected to a file"
def nulInName : OsError := .refused "file name contained an unexpected NUL byte"

end OsError

inductive ItemType where
  | integer | real
  deriving Repr, DecidableEq

def ItemType.name : ItemType → String
  | .integer => "INTEGER"
  | .real => "REAL"

/-- A recoverable fault of a data transfer. -/
inductive Fault where
  | badDigit (ch : Char)
  | badEditDescriptor (descriptor : String) (item : ItemType)
  | trailingCharacters (ch : Char) (item : ItemType)
  | badRealInput
  | recordWriteOverrun
  | recordReadOverrun
  | internalWriteOverrun
  | badUnformattedRecord (text : String)
  | unflushable
  | badKeyword (text : String)
  | generic (text : String)
  | os (code : Int) (text : String)
  deriving Repr, DecidableEq

namespace Fault

def iostat : Fault → Iostat
  | .badDigit _ => .generic
  | .badEditDescriptor _ _ => .format
  | .trailingCharacters _ _ => .format
  | .badRealInput => .badRealInput
  | .recordWriteOverrun => .recordWriteOverrun
  | .recordReadOverrun => .recordReadOverrun
  | .internalWriteOverrun => .internalWriteOverrun
  | .badUnformattedRecord _ => .badUnformattedRecord
  | .unflushable => .unflushable
  | .badKeyword _ => .keyword
  | .generic _ => .generic
  | .os code _ => .os code

def message : Fault → String
  | .badDigit ch => "Bad character '" ++ ch.toString ++ "' in INTEGER input field"
  | .badEditDescriptor descriptor item =>
    "Data edit descriptor " ++ descriptor ++ " may not be used with " ++ item.name ++ " data"
  | .trailingCharacters ch item =>
    "Unexpected character '" ++ ch.toString ++ "' after the end of a " ++ item.name ++ " input field"
  | .badRealInput => "Bad REAL input value"
  | .recordWriteOverrun => "Excessive output to fixed-size record"
  | .recordReadOverrun => "Excessive input from fixed-size record"
  | .internalWriteOverrun => "Internal write overran available records"
  | .badUnformattedRecord text => text
  | .unflushable => "FLUSH not possible"
  | .badKeyword text => "Bad keyword argument value: " ++ text
  | .generic text => text
  | .os code text => "I/O error (errno=" ++ toString code ++ "): " ++ text

/-- A failed transfer to or from a file. -/
def ofOs : OsError → Fault
  | .errno code => .os code (Errno.message code)
  | .refused reason => .generic reason

/-- A failure to connect or to delete the file of this name. -/
def ofOsAt (path : String) : OsError → Fault
  | .errno code => .os code (path ++ ": " ++ Errno.message code)
  | .refused reason => .generic (path ++ ": " ++ reason)

/-- Every fault is an error: none is taken for success or for an end condition. -/
theorem isError_iostat (f : Fault) : f.iostat.isError = true := by cases f <;> rfl

end Fault

end DataTransfer
