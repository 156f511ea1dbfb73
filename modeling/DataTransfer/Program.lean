import DataTransfer.Directory
import DataTransfer.Termination
import DataTransfer.Unit.Operations

/-!
The units of a program, and the system below them. Settings say how the directory of units is laid out
and which units are connected from the start.
-/

namespace DataTransfer

structure Config where
  outputUnit : Int := 6
  inputUnit : Int := 5
  errorUnit : Int := 0
  /-- Buckets of the unit directory. -/
  buckets : Nat := 64
  /-- The first unit number given out for NEWUNIT=; later ones descend. -/
  newUnitBase : Int := -1000
  /-- The first window in the search for the end of a formatted record. -/
  readChunk : Nat := 256
  /-- The units connected from the start are encoded in UTF-8. -/
  utf8 : Bool := false
  deriving Repr, DecidableEq

namespace Config

def utf8Variable : String := "DEFAULT_UTF8"

/-- The words that mean yes, in any case and with white space around them. -/
def isYes (value : String) : Bool :=
  let word := String.ofList ((Text.trim value.toList).map Char.toLower)
  ["1", "y", "yes", "true", "on"].contains word

def ofEnvironment (lookUp : String → Option String) : Config :=
  { utf8 := (lookUp utf8Variable).any isYes }

end Config

/-- The units created so far, in the order of their numbers in the directory's entries, and the unit
to be written out when the program ends fatally. -/
structure Program where
  system : System := {}
  directory : Directory
  units : List ExternalUnit := []
  readChunk : Nat
  crashUnit : Option Int := none

namespace Program

def new (config : Config) (system : System) : Program :=
  { system
    directory := .empty config.buckets config.newUnitBase
    readChunk := config.readChunk }

def unit? (r : Program) (id : Nat) : Option ExternalUnit := r.units[id]?

def setUnit (r : Program) (id : Nat) (u : ExternalUnit) : Program :=
  { r with units := r.units.set id u }

def addUnit (r : Program) (u : ExternalUnit) : Nat × Program :=
  (r.units.length, { r with units := r.units ++ [u] })

/-- What a search for a unit by number, which creates it if need be, comes to. -/
inductive Found where
  | live (id : Nat)
  | created (id : Nat)
  /-- The number belongs to a unit whose close is not finished; the search waits for that. -/
  | waiting
  deriving Repr, DecidableEq

def lookUp? (r : Program) (n : Int) : Option Nat := (r.directory.find? n).map (·.id)

def lookUpOrCreate (r : Program) (n : Int) : Found × Program :=
  match r.lookUp? n with
  | some id => (.live id, r)
  | none =>
    if r.directory.isClosing n then (.waiting, r)
    else
      let (id, r) := r.addUnit (.new n r.readChunk)
      (.created id, { r with directory := r.directory.insert { number := n, id } })

def predefine (r : Program) (n : Int) (descriptor : Int) (utf8 : Bool) : Program :=
  let (found, r) := r.lookUpOrCreate n
  let connect (id : Nat) : Program :=
    match r.unit? id with
    | some u => r.setUnit id (u.predefine descriptor utf8)
    | none => r
  match found with
  | .live id => connect id
  | .created id => connect id
  | .waiting => r

def withStandardUnits (config : Config) (system : System) : Program :=
  (new config system)
    |>.predefine config.outputUnit 1 config.utf8
    |>.predefine config.inputUnit 0 config.utf8
    |>.predefine config.errorUnit 2 config.utf8

def lookUpOrCrash (n : Int) (source : SourceLine) : Act Program Nat := fun r =>
  match r.lookUp? n with
  | some id => .ok id r
  | none => .error (source.crash ("Not an open I/O unit number: " ++ toString n)) r

def takeForClose (r : Program) (n : Int) : Option Nat × Program :=
  match r.directory.takeForClose n with
  | some (e, directory) => (some e.id, { r with directory })
  | none => (none, r)

def destroyClosed (r : Program) (id : Nat) : Program :=
  { r with directory := r.directory.destroyClosed id }

def newUnit (r : Program) : Int × Program :=
  let (n, directory) := r.directory.newUnit
  (n, { r with directory })

def size (r : Program) : Nat := r.directory.size

/-- Writes out what a unit holds, unless a statement holds it. -/
def flushOnCrash (r : Program) (n : Int) : Program :=
  match r.lookUp? n with
  | none => r
  | some id =>
    match r.unit? id with
    | none => r
    | some u =>
      let (system, u) := u.flushOnCrash r.system
      { r with system }.setUnit id u

/-- The last action of a program that ends fatally. -/
def lastAction : Act Program Unit :=
  modify fun r =>
    match r.crashUnit with
    | some n => r.flushOnCrash n
    | none => r

def onUnit {α : Type} (id : Nat) (handler : Handler) (items : Nat) (act : Act Session α) :
    Act Program (α × Handler × Nat) := fun r =>
  match r.unit? id with
  | none => .error (handler.source.crash "unit does not exist") r
  | some unit =>
    match act { system := r.system, unit, handler, items } with
    | .ok a s => .ok (a, s.handler, s.items) ({ r with system := s.system }.setUnit id s.unit)
    | .error c s => .error c ({ r with system := s.system }.setUnit id s.unit)

/-- A CLOSE that keeps the file and records its status. -/
def closeKeeping : Act Session Iostat := do
  Session.begin_ .disconnect {}
  Session.declare { iostat := true }
  discard (Session.closeUnit .keep)
  Session.finish

def closeAll : Act Program Unit := do
  let r ← get
  let (entries, directory) := r.directory.takeAll
  set { r with directory }
  for e in entries do
    discard (onUnit e.id {} 0 closeKeeping)

end Program

end DataTransfer
