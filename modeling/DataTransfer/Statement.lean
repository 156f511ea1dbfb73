import DataTransfer.Field.Real
import DataTransfer.Program

/-!
Input and output statements. A statement is begun on a unit number, transfers items one at a time
with the edit descriptors of its format, and is ended for its status.
-/

namespace DataTransfer

structure OpenSpecifiers where
  file : Option String := none
  status : OpenStatus := .unknown
  position : Position := .asIs
  form : Form := {}
  deriving Repr, DecidableEq

/-- A statement in progress: its unit, whether that unit is being closed, and its status. -/
structure Statement where
  unit : Nat
  closing : Bool := false
  closeStatus : CloseStatus := .keep
  handler : Handler := {}
  items : Nat := 0
  deriving Repr, DecidableEq

namespace Session

/-- Goes to the start of the next list-directed value, over records that are exhausted. -/
def seekValueIn : (fuel : Nat) → Act Session Unit
  | 0 => pure ()
  | fuel + 1 => do
    Field.skipBlanks
    let ch ← nextChar
    if ch.isNone && (← get).handler.status = .ok then
      if ← advance then seekValueIn fuel

/-- Passes over the separator behind the previous value and goes to the next one. -/
def beginListItem (modes : Modes) : Act Session Unit := do
  if 0 < (← get).items then
    Field.skipBlanks
    let separator := if modes.decimalComma then ';' else ','
    if (← nextChar) = some separator then discard (moveRelative 1)
  seekValueIn ((← get).reach + 2)

/-- Transfers one input item. A statement that has met a condition transfers nothing more. -/
def inputItem {α : Type} (edit : DataEdit) (act : Attempt Session α) : Act Session (Option α) := do
  let s ← get
  if !s.unit.statement.isInput then
    FieldSource.crash ("input item in a " ++ s.unit.statement.name ++ " statement")
  if s.handler.status ≠ .ok then return none
  if s.unit.statement.isListDirected then
    beginListItem edit.modes
    if (← get).handler.status ≠ .ok then return none
  modify fun s => { s with items := s.items + 1 }
  match ← act.run with
  | .ok a => return if (← get).handler.status = .ok then some a else none
  | .error f =>
    FieldSource.signalFault f
    return none

def inputInteger (edit : DataEdit) (kind : Nat) : Act Session (Option Int) :=
  inputItem edit (Field.editInteger edit kind)

def inputReal (edit : DataEdit) (kind : Nat) : Act Session (Option ((p : Precision) × Conversion p)) :=
  inputItem edit (Field.editRealKind edit kind)

/-- Puts characters that are formatted already. List-directed output has a blank before each item. -/
def outputBytes (data : Bytes) : Act Session Bool := do
  let s ← get
  if s.handler.inError then return false
  if s.unit.statement.isListDirected then
    if !(← emit [blank]) then return false
  modify fun s => { s with items := s.items + 1 }
  emit data

def outputText (text : String) : Act Session Bool := outputBytes (Bytes.ofText text)

def outputInteger (value : Int) : Act Session Bool := outputText (toString value)

/-- Puts bytes into an unformatted record. -/
def outputBlock (data : Bytes) : Act Session Bool := do
  if (← get).handler.inError then return false
  modify fun s => { s with items := s.items + 1 }
  emit data

/-- Takes bytes from an unformatted record. -/
def inputBlock (count : Nat) : Act Session (Bool × Option Bytes) := do
  if (← get).handler.status ≠ .ok then return (false, none)
  modify fun s => { s with items := s.items + 1 }
  receive count

def openWith (spec : OpenSpecifiers) : Act Session Bool :=
  openUnit spec.status spec.position spec.file spec.form

end Session

namespace Statement

def run {α : Type} (st : Statement) (act : Act Session α) : Act Program (α × Statement) := do
  let (a, handler, items) ← Program.onUnit st.unit st.handler st.items act
  return (a, { st with handler, items })

/-- Begins a statement on a unit; none if it has to wait for another statement. -/
def beginOn (id : Nat) (closing : Bool) (kind : StatementKind) (source : SourceLine) :
    Act Program (Option Statement) := do
  match (← get).unit? id with
  | none => return none
  | some u =>
    if u.held then return none
    let (_, st) ← run { unit := id, closing } (Session.begin_ kind source)
    return some st

def begin_ (n : Int) (kind : StatementKind) (source : SourceLine) :
    Act Program (Option Statement) := do
  let (found, r) := (← get).lookUpOrCreate n
  set r
  match found with
  | .live id => beginOn id false kind source
  | .created id => beginOn id false kind source
  | .waiting => return none

def beginOpenNew (source : SourceLine) : Act Program (Int × Option Statement) := do
  let (n, r) := (← get).newUnit
  set r
  return (n, ← begin_ n .connect source)

/-- Begins a CLOSE. The unit leaves the directory at once. A number without a unit is closed as a
unit that is not connected. -/
def beginClose (n : Int) (source : SourceLine) : Act Program (Option Statement) := do
  let (taken, r) := (← get).takeForClose n
  match taken with
  | some id =>
    set r
    beginOn id true .disconnect source
  | none =>
    let (id, r) := r.addUnit (.new n 256)
    set r
    beginOn id true .disconnect source

/-- Ends a statement and gives its status. A CLOSE disconnects its unit first and then lets the
directory forget it. -/
def finish (st : Statement) : Act Program Iostat := do
  let (status, _) ← st.run do
    if st.closing then discard (Session.closeUnit st.closeStatus)
    Session.finish
  if st.closing then modify (·.destroyClosed st.unit)
  return status

def drop (st : Statement) : Act Program Unit :=
  modify fun r =>
    match r.unit? st.unit with
    | some u => r.setUnit st.unit (Session.release u)
    | none => r

end Statement

end DataTransfer
