import DataTransfer.Field.Source

/-!
Field recognition one character at a time. A recognizer is told every character of a field in turn
and ends with a result: as soon as it has seen enough, or when the field ends. It sees no source,
so what it accepts is a property of lists of characters.
-/

namespace DataTransfer

/-- After a character: go on in a new state, or stop with a result. -/
inductive Step (τ ρ : Type) where
  | more (t : τ)
  | done (r : ρ)
  deriving Repr, DecidableEq

/-- A recognizer of signed fields: what to do with the first character after blanks and a sign, with
each later one, and at the end of the field. -/
structure Recognizer (τ ρ : Type) where
  start : (negative : Bool) → Char → Step τ ρ
  empty : (negative : Bool) → ρ
  step : τ → Char → Step τ ρ
  finish : τ → ρ

namespace Recognizer

/-- Where in a field a recognizer stands. -/
inductive State (τ : Type) where
  | leading
  | signed (negative : Bool)
  | body (t : τ)
  deriving Repr, DecidableEq

variable {τ ρ : Type} (r : Recognizer τ ρ)

def inBody : Step τ ρ → Step (State τ) ρ
  | .more t => .more (.body t)
  | .done r => .done r

/-- Blanks lead a field, then one sign may follow. -/
def feed : State τ → Char → Step (State τ) ρ
  | .leading, ch =>
    if ch = ' ' then .more .leading
    else if ch = '-' then .more (.signed true)
    else if ch = '+' then .more (.signed false)
    else inBody (r.start false ch)
  | .signed negative, ch => inBody (r.start negative ch)
  | .body t, ch => inBody (r.step t ch)

def atEnd : State τ → ρ
  | .leading => r.empty false
  | .signed negative => r.empty negative
  | .body t => r.finish t

/-- The result on a list of characters, and the characters that were not looked at. -/
def onList (s : State τ) : List Char → ρ × List Char
  | [] => (r.atEnd s, [])
  | ch :: rest =>
    match r.feed s ch with
    | .more s => onList s rest
    | .done result => (result, rest)

variable {σ : Type} [FieldSource σ]

/-- The result on the rest of a field, and what is left of its width. -/
def runIn (modes : Modes) : (fuel : Nat) → State τ → Option Nat → Attempt σ (ρ × Option Nat)
  | 0, s, budget => pure (r.atEnd s, budget)
  | fuel + 1, s, budget => do
    match ← Field.next budget modes with
    | (none, budget) => pure (r.atEnd s, budget)
    | (some ch, budget) =>
      match r.feed s ch with
      | .more s => runIn modes fuel s budget
      | .done result => pure (result, budget)

/-- The result on the field that an edit descriptor describes. Blanks and tabs before a
list-directed field belong to no field. -/
def run (edit : DataEdit) : Attempt σ (ρ × Option Nat) := do
  if edit.budget.isNone then (Field.skipBlanks : Act σ _)
  runIn r edit.modes (Field.rounds edit.budget (← get)) .leading edit.budget

end Recognizer

/-- The sign of a field and the first character behind it. -/
def Field.prefixRecognizer : Recognizer Empty (Bool × Option Char) where
  start negative ch := .done (negative, some ch)
  empty negative := (negative, none)
  step t _ := nomatch t
  finish t := nomatch t

end DataTransfer
