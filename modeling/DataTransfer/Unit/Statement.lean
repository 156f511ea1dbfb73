import DataTransfer.Connection

/-!
The statement that runs on a unit. Formatted statements carry modes of their own, which start as
those of the connection.
-/

namespace DataTransfer

/-- The kinds of statements: OPEN, CLOSE, and the data transfers with a format, with `*` in its
place, and with none. -/
inductive StatementKind where
  | connect
  | disconnect
  | formatted (direction : Direction)
  | listDirected (direction : Direction)
  | unformatted (direction : Direction)
  deriving Repr, DecidableEq

inductive StatementState where
  | idle
  | connect
  | disconnect
  | formatted (direction : Direction) (modes : Modes)
  | listDirected (direction : Direction) (modes : Modes)
  | unformatted (direction : Direction)
  deriving Repr, DecidableEq

namespace StatementState

def begin_ : StatementKind → Modes → StatementState
  | .connect, _ => .connect
  | .disconnect, _ => .disconnect
  | .formatted direction, modes => .formatted direction modes
  | .listDirected direction, modes => .listDirected direction modes
  | .unformatted direction, _ => .unformatted direction

def direction? : StatementState → Option Direction
  | .formatted direction _ => some direction
  | .listDirected direction _ => some direction
  | .unformatted direction => some direction
  | _ => none

def isInput (s : StatementState) : Bool := s.direction? = some .input
def isOutput (s : StatementState) : Bool := s.direction? = some .output
def isTransfer (s : StatementState) : Bool := s.direction?.isSome

def isListDirected : StatementState → Bool
  | .listDirected _ _ => true
  | _ => false

def modes? : StatementState → Option Modes
  | .formatted _ modes => some modes
  | .listDirected _ modes => some modes
  | _ => none

def setModes? (s : StatementState) (modes : Modes) : Option StatementState :=
  match s with
  | .formatted direction _ => some (.formatted direction modes)
  | .listDirected direction _ => some (.listDirected direction modes)
  | _ => none

theorem modes?_setModes? (s t : StatementState) (modes : Modes) (h : s.setModes? modes = some t) :
    t.modes? = some modes := by
  cases s <;> simp [setModes?] at h <;> subst h <;> rfl

def name (s : StatementState) : String :=
  match s with
  | .idle => "no statement"
  | .connect => "OPEN"
  | .disconnect => "CLOSE"
  | _ => if s.isInput then "READ" else "WRITE"

end StatementState

end DataTransfer
