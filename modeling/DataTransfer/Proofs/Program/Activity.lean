import DataTransfer.Proofs.Unit.Opening
import DataTransfer.Statement

/-!
What a program does with its units: it begins statements, gives them specifiers and items, and ends
them or leaves them, in any order. Statements are known by the order in which they were begun. Beside
the program itself runs a record of all attempts to connect a unit to a file.
-/

namespace DataTransfer

/-! ### Names of files -/

namespace ExternalUnit

/-- The name that an OPEN tries to connect the unit to, if it tries at all. -/
def openAttempt? (u : ExternalUnit) (spec : OpenSpecifiers) : Option (Option String) :=
  if u.reaffirms spec.status spec.file then none else some (u.openName spec.status spec.file)

/-- The name that a statement tries to connect the unit to when it is begun: a data transfer connects
an unconnected unit. -/
def beginAttempt? (u : ExternalUnit) (kind : StatementKind) : Option (Option String) :=
  if (StatementState.begin_ kind u.connection.modes).isTransfer && !u.isOpen then some u.defaultPath
  else none

end ExternalUnit

/-! ### Items -/

inductive Item where
  | receivers (r : Receivers)
  | nonAdvancing (yes : Bool)
  | record (number : ℕ)
  | specifiers (spec : OpenSpecifiers)
  | modes (modes : Modes)
  | inputInteger (edit : DataEdit) (kind : ℕ)
  | inputReal (edit : DataEdit) (kind : ℕ)
  | inputBlock (count : ℕ)
  | outputText (text : String)
  | outputInteger (value : ℤ)
  | outputBlock (data : Bytes)
  deriving Repr, DecidableEq

namespace Item

def perform : Item → Act Session Unit
  | .receivers r => Session.declare r
  | .nonAdvancing yes => Session.setNonAdvancing yes
  | .record number => discard (Session.setRecord number)
  | .specifiers spec => discard (Session.openWith spec)
  | .modes m => discard (Session.setModes m)
  | .inputInteger edit kind => discard (Session.inputInteger edit kind)
  | .inputReal edit kind => discard (Session.inputReal edit kind)
  | .inputBlock count => discard (Session.inputBlock count)
  | .outputText text => discard (Session.outputText text)
  | .outputInteger value => discard (Session.outputInteger value)
  | .outputBlock data => discard (Session.outputBlock data)

def attempt? (item : Item) (u : ExternalUnit) : Option (Option String) :=
  match item with
  | .specifiers spec => u.openAttempt? spec
  | _ => none

section

variable {C : Windowed Channel → Prop}

theorem perform_preserves (h : Channel.Stable C) {item : Item}
    (hitem : ∀ spec, item ≠ .specifiers spec) :
    Preserves (fun s => C s.channel) item.perform := by
  cases item with
  | receivers r => exact Session.modify_preserves fun _ => rfl
  | nonAdvancing yes => exact Session.modify_preserves fun _ => rfl
  | record number => exact (Session.setRecord_preserves number).discard
  | specifiers spec => exact absurd rfl (hitem spec)
  | modes m => exact (Session.setModes_preserves m).discard
  | inputInteger edit kind => exact (Session.inputInteger_preserves h edit kind).discard
  | inputReal edit kind => exact (Session.inputReal_preserves h edit kind).discard
  | inputBlock count => exact (Session.inputBlock_preserves h count).discard
  | outputText text => exact (Session.outputBytes_preserves h _).discard
  | outputInteger value => exact (Session.outputBytes_preserves h _).discard
  | outputBlock data => exact (Session.outputBlock_preserves h data).discard

end

theorem perform_leaves (item : Item) {s : Session} {name : Option String}
    (h : s.unit.attachment.Left name) :
    Ends item.perform s (fun _ t => t.unit.attachment.Left ((item.attempt? s.unit).getD name))
      fun _ _ => True := by
  -- All items but an OPEN are transfers, which leave the attachment as it is.
  have hkept (hitem : ∀ spec, item ≠ .specifiers spec) : Ends item.perform s
      (fun _ t => t.unit.attachment.Left name) fun _ _ => True := by
    refine (perform_preserves (Channel.stable_attachment s.unit.attachment) hitem s rfl).mono ?_
      fun _ _ _ => trivial
    intro _ t ht
    rwa [show t.unit.attachment = _ from ht]
  cases item with
  | specifiers spec =>
    rw [attempt?, ExternalUnit.openAttempt?]
    split_ifs with hsame
    · refine (Session.openUnit_of_reaffirms spec.position spec.form hsame).discard.mono ?_
        fun _ _ _ => trivial
      rintro _ t ⟨-, ht⟩
      rwa [ht]
    · have hopen := Session.openUnit_leaves spec.position spec.form (by simpa using hsame)
      exact hopen.success.discard_state
  | _ => exact hkept nofun

end Item

namespace Session

/-- The preparation of a transfer connects an unconnected unit, or leaves the name of its default
file. -/
theorem prepare_leaves (kind : StatementKind) (direction : Direction) (s : Session) :
    Ends (prepare kind direction) s
      (fun _ t => t.unit.attachment.Left (some s.unit.defaultPath) ∧
        (s.unit.isOpen = true → t.unit.attachment = s.unit.attachment)) fun _ _ => True := by
  cases hopen : s.unit.isOpen with
  | true =>
    refine (prepare_preserves (Channel.stable_attachment s.unit.attachment) ?_ kind direction s rfl).mono
      ?_ fun _ _ _ => trivial
    · intro t ht
      rw [← hopen]
      exact congrArg Attachment.isOpen ht
    · intro _ t ht
      exact ⟨Attachment.left_of_isOpen ((congrArg Attachment.isOpen ht).trans hopen) _, fun _ => ht⟩
  | false =>
    unfold prepare
    simp only [ends_get, hopen, Bool.not_false, if_true]
    have hfresh : s.unit.reaffirms .unknown none = false := by
      simp [ExternalUnit.reaffirms]
    -- The implicit OPEN fails or not; what it leaves the turn to the other direction keeps.
    refine Ends.bind (openUnit_leaves .asIs _ hfresh).success.discard ?_
    rintro _ t ⟨-, ht⟩
    refine (turn_preserves (Channel.stable_attachment t.unit.attachment) _ t rfl).success.mono ?_
      fun _ _ => id
    intro _ u hu
    rw [show u.unit.attachment = _ from hu]
    exact ⟨ht, fun hclosed => absurd hclosed Bool.false_ne_true⟩

theorem begin_leaves (kind : StatementKind) (source : SourceLine) {s : Session}
    {name : Option String} (h : s.unit.attachment.Left name) :
    Ends (begin_ kind source) s
      (fun _ t => t.unit.attachment.Left ((s.unit.beginAttempt? kind).getD name))
      fun _ _ => True := by
  refine (ends_modify_bind _ _).mpr ((ends_get _).mpr ?_)
  dsimp only
  unfold ExternalUnit.beginAttempt? StatementState.isTransfer
  cases hdirection : (StatementState.begin_ kind s.unit.connection.modes).direction? with
  | none => exact h
  | some direction =>
    dsimp only
    refine (prepare_leaves kind direction _).mono ?_ fun _ _ => id
    rintro _ t ⟨hleft, hkept⟩
    cases hopen : s.unit.isOpen with
    | true =>
      rw [hkept hopen]
      exact h
    | false => exact hleft

end Session

/-! ### Calls -/

namespace Program

def Found.id? : Found → Option ℕ
  | .live id => some id
  | .created id => some id
  | .waiting => none

/-- The attempt to connect a unit that a statement makes when it is begun. It has to wait for the
statement that holds the unit. -/
def beginAttempt? (p : Program) (id : ℕ) (kind : StatementKind) : Option (Option String) := do
  let u ← p.unit? id
  if u.held then none else u.beginAttempt? kind

end Program

/-- A program with the statements it has begun, none in the place of one that is over or has to wait,
and its attempts to connect units, the last one first: which unit, and the name of the file. -/
structure Activity where
  program : Program
  statements : List (Option Statement) := []
  attempts : List (ℕ × Option String) := []

inductive Call where
  | begin_ (n : ℤ) (kind : StatementKind) (source : SourceLine)
  | beginNew (source : SourceLine)
  | beginClose (n : ℤ) (source : SourceLine)
  /-- Gives an item to the `k`-th statement. -/
  | item (k : ℕ) (item : Item)
  | closeStatus (k : ℕ) (status : CloseStatus)
  | finish (k : ℕ)
  | drop (k : ℕ)
  | closeAll
  deriving Repr, DecidableEq

namespace Activity

def onProgram {α : Type} (act : Act Program α) : Act Activity α :=
  act.within (·.program) fun a program => { a with program }

theorem onProgram_ends {α : Type} {a : Activity} {act : Act Program α} {Q : α → Activity → Prop}
    {R : Crash → Program → Prop}
    (h : Ends act a.program (fun x q => Q x { a with program := q }) R) :
    Ends (onProgram act) a Q fun c b => R c b.program := by
  unfold Ends at h
  unfold Ends onProgram Act.within
  cases hact : act a.program <;> rw [hact] at h <;> exact h

def start (act : Act Program (Option Statement)) : Act Activity Unit := do
  let st ← onProgram act
  modify fun a => { a with statements := a.statements ++ [st] }

def go (k : ℕ) (act : Statement → Act Program (Option Statement)) : Act Activity Unit := do
  match (← get).statements[k]? with
  | some (some st) =>
    let st ← onProgram (act st)
    modify fun a => { a with statements := a.statements.set k st }
  | _ => pure ()

def lastName (a : Activity) (id : ℕ) : Option String := (a.attempts.lookup id).join

end Activity

namespace Call

open Activity

def act : Call → Act Activity Unit
  | .begin_ n kind source => start (Statement.begin_ n kind source)
  | .beginNew source => start do return (← Statement.beginOpenNew source).2
  | .beginClose n source => start (Statement.beginClose n source)
  | .item k given => go k fun st => do return some (← st.run given.perform).2
  | .closeStatus k status => go k fun st => return some { st with closeStatus := status }
  | .finish k => go k fun st => do discard st.finish; return none
  | .drop k => go k fun st => do st.drop; return none
  | .closeAll => onProgram Program.closeAll

def attempt? (a : Activity) : Call → Option (ℕ × Option String)
  | .begin_ n kind _ => do
    let (found, p) := a.program.lookUpOrCreate n
    let id ← found.id?
    (p.beginAttempt? id kind).map (id, ·)
  | .item k given => do
    let st ← (a.statements[k]?).join
    let u ← a.program.unit? st.unit
    (given.attempt? u).map (st.unit, ·)
  | _ => none

def perform (call : Call) : Act Activity Unit := do
  let attempt := call.attempt? (← get)
  call.act
  modify fun a => { a with attempts := attempt.toList ++ a.attempts }

end Call

def Activity.run (calls : List Call) : Act Activity Unit :=
  match calls with
  | [] => pure ()
  | call :: calls => do
    call.perform
    run calls

end DataTransfer
