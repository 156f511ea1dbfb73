import DataTransfer.InternalUnit
import DataTransfer.Unit.Operations

/-!
What a formatted transfer can do at the cursor of its record. Every kind of transfer has a part of it: a
READ looks at characters, a WRITE emits data, both move the cursor and some go on to the next record.
-/

namespace DataTransfer

/-- A call at the cursor. The indices tell whether looks, emissions and steps to the next record are among
the calls of the transfer; moves always are. -/
inductive RecordCall : (looks emits advances : Bool) → Type where
  | char {emits advances : Bool} : RecordCall true emits advances
  | emit {looks advances : Bool} (data : Bytes) : RecordCall looks true advances
  | move {looks emits advances : Bool} (m : Move) : RecordCall looks emits advances
  | advance {looks emits : Bool} : RecordCall looks emits true

namespace RecordCall

variable {looks emits advances : Bool}

@[match_pattern] abbrev absolute (column : Int) : RecordCall looks emits advances := .move (.absolute column)

@[match_pattern] abbrev relative (columns : Int) : RecordCall looks emits advances :=
  .move (.relative columns)

inductive Answer where
  | char (ch : Option Char)
  | ok (accepted : Bool)
  | done
  deriving DecidableEq

/-- The answer, but not whether the call was accepted. -/
def Answer.found : Answer → Answer
  | .ok _ => .done
  | answer => answer

end RecordCall

variable {looks emits advances : Bool}

def Session.call : RecordCall looks emits advances → Act Session RecordCall.Answer
  | .char => return .char (← nextChar)
  | .emit data => return .ok (← emit data)
  | .move m => return .ok (← move m)
  | .advance => return .ok (← advance)

/-- Moves in a buffer do not tell whether they were accepted. -/
def InternalUnit.call : RecordCall looks emits advances → Act InternalUnit RecordCall.Answer
  | .char => return .char (← current)
  | .emit data => return .ok (← emit data)
  | .move m => do
    move m
    return .done
  | .advance => return .ok (← advance)

abbrev Glance := RecordCall true false false

/-- Data and moves, which lay out a record. -/
abbrev Placement := RecordCall false true false

/-- What output does with its records: it places something into the current one, or goes on to the next. -/
abbrev OutputStep := RecordCall false true true

end DataTransfer
