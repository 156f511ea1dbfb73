import DataTransfer.Connection
import DataTransfer.Status.Handler

/-!
Where the characters of an input field come from. Field editing sees a statement only through this
interface: the character at the cursor, cursor moves, the connection and the status keeper.
-/

namespace DataTransfer

/-- A computation on the state `σ` that may end the program. The state survives a crash: files and
buffers keep what they held. -/
abbrev Act (σ α : Type) := EStateM Crash σ α

/-- A computation that may also raise a fault. -/
abbrev Attempt (σ α : Type) := ExceptT Fault (EStateM Crash σ) α

class FieldSource (σ : Type) where
  connection : σ → Connection
  handler : σ → Handler
  withHandler : σ → Handler → σ
  /-- The character at the cursor, which stays; none at the end of the record or file. -/
  current : Act σ (Option Char)
  moveBy : Int → Act σ Unit
  /-- No more characters than this can be read before `current` gives none. -/
  reach : σ → Nat

variable {σ : Type} [FieldSource σ]

namespace FieldSource

def signal (change : Handler → Except Crash Handler) : Act σ Unit := fun s =>
  match change (handler s) with
  | .ok h => .ok () (withHandler s h)
  | .error c => .error c s

def signalFault (f : Fault) : Act σ Unit := signal (·.fault f)
def signalEndOfFile : Act σ Unit := signal Handler.endOfFile
def signalEndOfRecord : Act σ Unit := signal Handler.endOfRecord

def crash {α : Type} (text : String) : Act σ α := fun s => .error ((handler s).source.crash text) s

end FieldSource

namespace Field

open FieldSource

/-- The characters that end a list-directed field. Where a comma is the decimal symbol, a semicolon
separates in its place. -/
def isSeparator (ch : Char) (decimalComma : Bool) : Bool :=
  if ch = ',' then !decimalComma
  else if ch = ';' then decimalComma
  else [' ', '\t', '/', '(', ')', '\'', '"', '*', '\n'].contains ch

/-- The next character of the current field and what is left of its width. A field without a width
is list-directed and stops before a separator. A record of fixed length that ends inside the field
goes on as blanks when padded; otherwise that is the end of the record for a statement that does not
advance, and a fault for one that does. -/
def next (budget : Option Nat) (modes : Modes) : Attempt σ (Option Char × Option Nat) :=
  match budget with
  | none => do
    match ← (current : Act σ _) with
    | some ch =>
      if isSeparator ch modes.decimalComma then pure (none, none)
      else do
        (moveBy 1 : Act σ _)
        pure (some ch, none)
    | none => pure (none, none)
  | some 0 => pure (none, some 0)
  | some (left + 1) => do
    match ← (current : Act σ _) with
    | some ch =>
      (moveBy 1 : Act σ _)
      pure (some ch, some left)
    | none =>
      let c := connection (← get)
      if !c.pastFixedRecord then pure (none, some (left + 1))
      else if modes.pad then pure (some ' ', some left)
      else if c.nonAdvancing then do
        (signalEndOfRecord : Act σ _)
        pure (none, some (left + 1))
      else throw .recordReadOverrun

/-- Enough rounds for a loop over the characters of a field. -/
def rounds (budget : Option Nat) (s : σ) : Nat :=
  match budget with
  | some width => width + 1
  | none => reach s + 1

/-- Moves the cursor over blanks and tabs. -/
def skipBlanksIn : (fuel : Nat) → Act σ Unit
  | 0 => pure ()
  | fuel + 1 => do
    match ← current with
    | some ch => if ch = ' ' || ch = '\t' then moveBy 1; skipBlanksIn fuel
    | none => pure ()

def skipBlanks : Act σ Unit := do skipBlanksIn (rounds none (← get))

/-- The characters from the cursor on, at most `fuel` of them; the cursor ends behind them. -/
def takeCharsIn : (fuel : Nat) → Act σ (List Char)
  | 0 => pure []
  | fuel + 1 => do
    match ← current with
    | some ch =>
      moveBy 1
      return ch :: (← takeCharsIn fuel)
    | none => pure []

def takeChars (limit : Option Nat) : Act σ (List Char) := do
  takeCharsIn (limit.getD (rounds none (← get)))

def takeFieldIn (modes : Modes) : (fuel : Nat) → Option Nat → Attempt σ (List Char × Option Nat)
  | 0, budget => pure ([], budget)
  | fuel + 1, budget => do
    match ← next budget modes with
    | (some ch, budget) =>
      let (rest, budget) ← takeFieldIn modes fuel budget
      pure (ch :: rest, budget)
    | (none, budget) => pure ([], budget)

def takeField (budget : Option Nat) (modes : Modes) : Attempt σ (List Char × Option Nat) := do
  takeFieldIn modes (rounds budget (← get)) budget

/-- A field that the end of the record cuts short is an end-of-record condition for a statement that
does not advance. -/
def checkRecordEnd (budget : Option Nat) : Act σ Unit := do
  if budget.any (0 < ·) && (connection (← get)).nonAdvancing then signalEndOfRecord

end Field

end DataTransfer
