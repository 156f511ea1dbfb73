import DataTransfer.Proofs.Program.Activity
import DataTransfer.Proofs.Unit.Faults

/-!
Data transfers of any shape: steps in any order, each an operation or an item, between a beginning and
an end. What every kind of operation carries, all items and whole transfers carry.
-/

namespace DataTransfer

/-! ### Transfers -/

inductive TransferStep where
  | operation (op : Operation)
  | item (item : Item)

namespace TransferStep

def perform : TransferStep → Act Session Unit
  | .operation op => op.perform
  | .item given => given.perform

/-- The step does not reach behind the unit of its transfer. -/
def isOwn : TransferStep → Bool
  | .operation (.elsewhere _) => false
  | .item (.specifiers _) => false
  | _ => true

end TransferStep

inductive TransferForm where
  | formatted | listDirected | unformatted
  deriving Repr, DecidableEq

def TransferForm.kind : TransferForm → Direction → StatementKind
  | .formatted, direction => .formatted direction
  | .listDirected, direction => .listDirected direction
  | .unformatted, direction => .unformatted direction

theorem TransferForm.direction_begin (form : TransferForm) (direction : Direction) (modes : Modes) :
    (StatementState.begin_ (form.kind direction) modes).direction? = some direction := by
  cases form <;> rfl

structure Transfer where
  form : TransferForm := .formatted
  direction : Direction
  source : SourceLine := {}
  receivers : Receivers := { iostat := true }
  steps : List TransferStep := []

namespace Transfer

def kind (t : Transfer) : StatementKind := t.form.kind t.direction

def enter (t : Transfer) : Act Session Unit := do
  Session.begin_ t.kind t.source
  Session.declare t.receivers
  t.steps.forM TransferStep.perform

def perform (t : Transfer) : Act Session Iostat := do
  t.enter
  Session.finish

def isOwn (t : Transfer) : Bool := t.steps.all TransferStep.isOwn

end Transfer

namespace Session

variable {tabs : Prop} {P : Session → Prop} {s : Session}

/-- The operations of a unit carry `P`, that which sets the left tab limit where `tabs` holds. Of ADVANCE=
nothing is said. -/
structure PlainSteps (tabs : Prop) (P : Session → Prop) : Prop where
  peek : Attempt.Carries True P peek
  getData : ∀ count, Attempt.Carries True P (getData count)
  putData : ∀ data, Attempt.Carries True P (putData data)
  moveTo : ∀ column, Attempt.Carries True P (moveTo column)
  advanceRecord : Attempt.Carries True P advanceRecord
  flush : Attempt.Carries True P flush
  handler : ∀ s handler, P s → s.handler.status.rank ≤ handler.status.rank → P { s with handler }
  items : ∀ s items, P s → P { s with items }
  statement : ∀ s statement, P s → statement.direction? = s.unit.statement.direction? →
    P { s with unit := { s.unit with statement } }
  record : ∀ s length record, P s → s.unit.connection.fixedRecordLength = some length →
    P { s with
      unit := { s.unit with
        offset := (record - 1) * length
        connection := { s.unit.connection with record }.beginRecord
        located := false } }
  leftTabLimit : tabs → ∀ s, P s →
    P { s with
      unit := s.unit.setConnection fun c =>
        { c with leftTabLimit := some c.furthest, position := c.furthest } }

structure OperationSteps (tabs : Prop) (P : Session → Prop) : Prop extends PlainSteps tabs P where
  nonAdvancing : ∀ s yes, P s →
    P { s with unit := s.unit.setConnection fun c => { c with nonAdvancing := yes } }

namespace PlainSteps

variable (h : PlainSteps tabs P)
include h

theorem report {act : Attempt Session Unit} (hact : Attempt.Carries True P act) :
    Preserves P (report act) := by
  refine Preserves.bind hact.preserves fun r => ?_
  cases r with
  | ok _ => exact .get_bind fun _ _ => .pure _
  | error f =>
    intro s hs
    unfold Ends
    dsimp only
    cases hfault : s.handler.fault f with
    | ok handler => exact h.handler s handler hs (Handler.rank_le_of_fault hfault)
    | error _ => exact hs

theorem refuse (f : Fault) : Preserves P (Session.report (throw f)) := h.report (.throw f)

theorem signal {change : Handler → Except Crash Handler}
    (hchange : ∀ g g', change g = .ok g' → g.status.rank ≤ g'.status.rank) :
    Preserves P (FieldSource.signal change : Act Session Unit) := by
  intro s hs
  unfold Ends FieldSource.signal
  cases hsignal : change (FieldSource.handler s) with
  | ok handler => exact h.handler s handler hs (hchange _ _ hsignal)
  | error _ => exact hs

theorem nextChar : Preserves P nextChar := by
  refine Preserves.bind h.peek.preserves fun found => ?_
  cases found with
  | ok _ => exact .pure _
  | error f => exact (h.refuse f).discard.bind fun _ => .pure _

theorem receive (count : ℕ) : Preserves P (receive count) := by
  refine Preserves.bind (h.getData count).preserves fun found => ?_
  cases found with
  | ok _ => exact .get_bind fun _ _ => .pure _
  | error f => exact (h.refuse f).discard.bind fun _ => .pure _

theorem emit (data : Bytes) : Preserves P (emit data) := h.report (h.putData data)

theorem advance : Preserves P advance := h.report h.advanceRecord

theorem move (m : Move) : Preserves P (move m) :=
  .get_bind fun _ _ => h.report (h.moveTo _)

theorem call {looks emits advances : Bool} (c : RecordCall looks emits advances) :
    Preserves P (call c) := by
  cases c with
  | char => exact h.nextChar.bind fun _ => .pure _
  | emit data => exact (h.emit data).bind fun _ => .pure _
  | move m => exact (h.move m).bind fun _ => .pure _
  | advance => exact h.advance.bind fun _ => .pure _

theorem setRecord (record : ℕ) : Preserves P (setRecord record) := by
  refine .get_bind fun s hs => ?_
  dsimp only
  cases hlength : s.unit.connection.fixedRecordLength with
  | none => exact h.refuse _
  | some length =>
    dsimp only
    split_ifs
    · exact h.refuse _
    · exact .bind (.set (h.record s length record hs hlength)) fun _ => .pure _

theorem setModes (modes : Modes) : Preserves P (setModes modes) := by
  refine .get_bind fun s hs => ?_
  dsimp only
  cases hmodes : s.unit.statement.setModes? modes with
  | none => exact h.refuse _
  | some statement =>
    exact .bind (.set (h.statement s statement hs (StatementState.direction_of_setModes hmodes)))
      fun _ => .pure _

theorem flushIfTerminal : Preserves P flushIfTerminal := by
  refine .get_bind fun s _ => ?_
  split_ifs
  · exact (h.report h.flush).discard
  · exact .pure _

theorem endOfRecord : Preserves P (FieldSource.signalEndOfRecord : Act Session Unit) :=
  h.signal fun _ _ => Handler.rank_le_of_endOfRecord

theorem fault (f : Fault) : Preserves P (FieldSource.signalFault f : Act Session Unit) :=
  h.signal fun _ _ => Handler.rank_le_of_fault

theorem declare (r : Receivers) : Preserves P (declare r) :=
  .modify fun s hs => h.handler s _ hs le_rfl

theorem operation {op : Operation} (hown : (TransferStep.operation op).isOwn = true)
    (htabs : op = .leftTabLimit → tabs)
    (hadvance : ∀ yes, op = .nonAdvancing yes → ∀ s, P s →
      P { s with unit := s.unit.setConnection fun c => { c with nonAdvancing := yes } }) :
    Preserves P op.perform := by
  cases op with
  | call c => exact (h.call c).discard
  | receive count => exact (h.receive count).discard
  | record number => exact (h.setRecord number).discard
  | flush => exact (h.report h.flush).discard
  | flushIfTerminal => exact h.flushIfTerminal
  | leftTabLimit => exact .modify (h.leftTabLimit (htabs rfl))
  | nonAdvancing yes => exact .modify (hadvance yes rfl)
  | modes m => exact (h.setModes m).discard
  | receivers r => exact h.declare r
  | item => exact .modify fun s hs => h.items s _ hs
  | endOfRecord => exact h.endOfRecord
  | fault f => exact h.fault f
  | elsewhere system => cases hown

theorem inputSteps : InputSteps True P where
  isInput := .inl trivial
  count s hs := h.items s _ hs
  nextChar := h.nextChar.carries
  moveRelative n := (h.move (.relative n)).carries
  advance := h.advance.carries
  endOfRecord := h.endOfRecord.carries
  fault f := (h.fault f).carries

theorem item {item : Item} (hown : (TransferStep.item item).isOwn = true)
    (hadvance : ∀ yes, item = .nonAdvancing yes → ∀ s, P s →
      P { s with unit := s.unit.setConnection fun c => { c with nonAdvancing := yes } }) :
    Preserves P item.perform := by
  have hcount (s : Session) (hs : P s) : P { s with items := s.items + 1 } := h.items s _ hs
  have hemit (data : Bytes) : Carries True P (Session.emit data) := (h.emit data).carries
  cases item with
  | receivers r => exact h.declare r
  | nonAdvancing yes => exact .modify (hadvance yes rfl)
  | record number => exact (h.setRecord number).discard
  | specifiers spec => cases hown
  | modes m => exact (h.setModes m).discard
  | inputInteger edit kind => exact (h.inputSteps.inputInteger edit (.inr trivial)).preserves.discard
  | inputReal edit kind => exact (h.inputSteps.inputReal edit (.inr trivial)).preserves.discard
  | inputBlock count =>
    exact (inputBlock_carries hcount (h.receive count).carries).preserves.discard
  | outputText text => exact (outputBytes_carries hcount hemit _).preserves.discard
  | outputInteger value => exact (outputBytes_carries hcount hemit _).preserves.discard
  | outputBlock data => exact (outputBlock_carries hcount (hemit data)).preserves.discard

/-- The end of a transfer. Only output that does not advance sets the left tab limit there. -/
theorem finish_ends (htabs : ∀ s, P s → s.unit.statement.isOutput = true → tabs) (hs : P s) :
    Ends finish s (fun status t => ∃ u, P u ∧ status = u.handler.status ∧ t = u.ended)
      fun _ _ => True := by
  have hend : Preserves P endTransfer := by
    refine .get_bind fun s hs => ?_
    dsimp only
    split_ifs with _ houtput
    · exact h.advance.discard.bind fun _ => h.flushIfTerminal
    · exact .bind (.modify (h.leftTabLimit (htabs s hs houtput))) fun _ => h.flushIfTerminal
    · exact h.flushIfTerminal
  cases htransfer : s.unit.statement.isTransfer with
  | true =>
    exact finish_of_endTransfer htransfer
      ((hend s hs).mono (fun _ t ht => ⟨t, ht, rfl, rfl⟩) fun _ _ _ => trivial)
  | false =>
    refine (finish_of_not_transfer htransfer).mono ?_ fun _ _ => False.elim
    rintro _ _ ⟨rfl, rfl⟩
    exact ⟨s, hs, rfl, rfl⟩

end PlainSteps

namespace OperationSteps

variable (h : OperationSteps tabs P)
include h

theorem step {step : TransferStep} (hown : step.isOwn = true)
    (htabs : step = .operation .leftTabLimit → tabs) : Preserves P step.perform := by
  cases step with
  | operation op =>
    have hop : Preserves P op.perform :=
      h.operation hown (fun hop => htabs (congrArg _ hop)) fun yes _ s hs => h.nonAdvancing s yes hs
    exact hop
  | item given =>
    have hitem : Preserves P given.perform := h.item hown fun yes _ s hs => h.nonAdvancing s yes hs
    exact hitem

theorem steps {steps : List TransferStep} (hown : ∀ step ∈ steps, step.isOwn = true)
    (htabs : TransferStep.operation .leftTabLimit ∈ steps → tabs) :
    Preserves P (steps.forM TransferStep.perform) :=
  .forM fun step hstep => h.step (hown step hstep) fun htab => htabs (htab ▸ hstep)

theorem body_ends {t : Transfer} (hown : t.isOwn = true)
    (htabs : TransferStep.operation .leftTabLimit ∈ t.steps → tabs) (hs : P s) :
    Ends (do
        Session.declare t.receivers
        t.steps.forM TransferStep.perform) s (fun _ u => P u) fun _ _ => True := by
  have hbody := (h.declare t.receivers).bind fun _ => h.steps (List.all_eq_true.mp hown) htabs
  exact (hbody s hs).success

theorem enter_ends {t : Transfer} (hown : t.isOwn = true)
    (htabs : TransferStep.operation .leftTabLimit ∈ t.steps → tabs)
    (hbegin : Ends (begin_ t.kind t.source) s (fun _ u => P u) fun _ _ => True) :
    Ends t.enter s (fun _ u => P u) fun _ _ => True :=
  hbegin.bind fun _ _ hu => h.body_ends hown htabs hu

end OperationSteps

/-! ### What transfers leave alone -/

/-- A property of the channel, and one of the direction in which the unit goes, of that of the
statement and of its status. -/
def Kept (C : Windowed Channel → Prop) (K : Bool → Option Direction → Iostat → Prop) (s : Session) :
    Prop :=
  C s.channel ∧ K s.unit.reading s.unit.statement.direction? s.handler.status

section

variable {C : Windowed Channel → Prop} {K : Bool → Option Direction → Iostat → Prop}
variable (hK : ∀ reading direction a b, K reading direction a → a.rank ≤ b.rank →
  K reading direction b)
include hK

theorem modifyHandler_kept {change : Handler → Except Crash Handler}
    (hchange : ∀ g g', change g = .ok g' → g.status.rank ≤ g'.status.rank) :
    Attempt.Carries True (Kept C K) (modifyHandler change) := by
  rintro s ⟨hC, hs⟩
  unfold Ends
  simp only [ExceptT.run, modifyHandler]
  cases hsignal : change s.handler with
  | ok handler => exact ⟨hC, hK _ _ _ _ hs (hchange _ _ hsignal)⟩
  | error c => exact ⟨trivial, hC, hs⟩

omit hK in
theorem windowed_kept {α : Type} {act : Windowed.Op Channel α} (hact : Preserves C act) :
    Attempt.Carries True (Kept C K) (windowed act) :=
  windowed_carries fun s hs => (hact s.channel hs.1).mono (fun _ _ hw => ⟨hw, hs.2⟩)
    fun _ _ hw => ⟨hw, hs.2⟩

omit hK in
theorem attached_flushed_kept (hflushed : ∀ w, C w → C { w with device := w.device.flushed }) :
    Attempt.Carries True (Kept C K) (attached (modify Channel.flushed)) :=
  fun s hs => ⟨hflushed s.channel hs.1, hs.2⟩

theorem lookSteps_kept (hread : ∀ offset count, Preserves C (Windowed.read offset count)) :
    LookSteps True (Kept C K) where
  windowRead offset count := windowed_kept (hread offset count)
  unit f hf := by
    rintro s ⟨hC, hs⟩
    obtain ⟨hattachment, hwindow, hstatement, hreading, -⟩ := hf s.unit
    refine ⟨?_, ?_⟩
    · change C ⟨⟨s.system, (f s.unit).attachment⟩, (f s.unit).window⟩
      rwa [hattachment, hwindow]
    · change K (f s.unit).reading (f s.unit).statement.direction? s.handler.status
      rwa [hstatement, hreading]
  endOfFile := modifyHandler_kept hK fun _ _ => Handler.rank_le_of_endOfFile
  endOfRecord := modifyHandler_kept hK fun _ _ => Handler.rank_le_of_endOfRecord

theorem recordSteps_kept (h : Channel.Stable C) : RecordSteps True (Kept C K) where
  toLookSteps := lookSteps_kept hK h.read
  windowWrite offset data := windowed_kept (h.write offset data)
  windowFlush := windowed_kept h.flush
  fileFlush := attached_flushed_kept h.flushed

theorem operationSteps_of_stable (h : Channel.Stable C) : OperationSteps tabs (Kept C K) where
  peek := (lookSteps_kept hK h.read).peek (.inl trivial) (.inl trivial)
  getData count := (lookSteps_kept hK h.read).getData count (.inl trivial) (.inl trivial)
  putData data := (recordSteps_kept hK h).putData data (.inl trivial) (.inl trivial)
  moveTo column := (lookSteps_kept hK h.read).moveTo column
  advanceRecord := (recordSteps_kept hK h).advanceRecord
  flush := (recordSteps_kept hK h).flush
  handler _ _ hs hrank := ⟨hs.1, hK _ _ _ _ hs.2 hrank⟩
  items _ _ hs := hs
  statement s statement hs hdirection := ⟨hs.1, by
    change K s.unit.reading statement.direction? s.handler.status
    rw [hdirection]
    exact hs.2⟩
  nonAdvancing _ _ hs := hs
  record _ _ _ hs _ := hs
  leftTabLimit _ _ hs := hs

/-- Operations of a READ are made of reads and flushes: what is emitted there ends the program. -/
theorem operationSteps_of_reading (hread : ∀ offset count, Preserves C (Windowed.read offset count))
    (hflush : Preserves C Windowed.flush)
    (hflushed : ∀ w, C w → C { w with device := w.device.flushed })
    (hreading : ∀ reading direction status, K reading direction status →
      reading = true ∧ direction = some .input) : OperationSteps tabs (Kept C K) := by
  have hlook := lookSteps_kept hK hread
  refine
    { peek := hlook.peek (.inl trivial) (.inl trivial)
      getData := fun count => hlook.getData count (.inl trivial) (.inl trivial)
      putData := fun data => .get_bind fun s hs => ?_
      moveTo := hlook.moveTo
      advanceRecord := hlook.advanceRecord fun s hs => (hreading _ _ _ hs.2).1
      flush := .get_bind fun s _ => ?_
      handler := fun _ _ hs hrank => ⟨hs.1, hK _ _ _ _ hs.2 hrank⟩
      items := fun _ _ hs => hs
      statement := fun s statement hs hdirection => ⟨hs.1, ?_⟩
      nonAdvancing := fun _ _ hs => hs
      record := fun _ _ _ hs _ => hs
      leftTabLimit := fun _ _ hs => hs }
  · rw [if_pos (by rw [StatementState.isInput, (hreading _ _ _ hs.2).2]; rfl)]
    exact fun _ ht => ⟨trivial, ht⟩
  · split_ifs
    · exact .bind (windowed_kept hflush) fun _ => attached_flushed_kept hflushed
    · exact .pure _
  · change K s.unit.reading statement.direction? s.handler.status
    rw [hdirection]
    exact hs.2

end

end Session

end DataTransfer
