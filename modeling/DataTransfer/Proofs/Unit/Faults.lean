import DataTransfer.Proofs.RecordCall
import DataTransfer.Proofs.Unit.Preservation
import DataTransfer.Proofs.Unit.Session

/-!
The faults of a data transfer that has declared a way to receive errors. Its operations note the faults
that they come to and do not end the program, and the status at its end is that of the first one.
-/

namespace DataTransfer

def Attempt.fault? {σ α : Type} (act : Attempt σ α) (s : σ) : Option Fault :=
  match act.run s with
  | .ok (.error f) _ => some f
  | _ => none

theorem StatementState.direction_of_setModes {s t : StatementState} {modes : Modes}
    (h : s.setModes? modes = some t) : t.direction? = s.direction? := by
  cases s <;> cases h <;> rfl

def Iostat.Tells (status : Iostat) : List Fault → Prop
  | [] => status.isError = false
  | f :: _ => status = f.iostat

/-! ### Operations -/

namespace RecordCall

variable {looks emits advances : Bool}

def fault? (s : Session) : RecordCall looks emits advances → Option Fault
  | .char => Session.peek.fault? s
  | .emit data => (Session.putData data).fault? s
  | .move m => (Session.moveTo (s.unit.connection.target m)).fault? s
  | .advance => Session.advanceRecord.fault? s

/-- Looks need a formatted unit that may be read, emissions one that may be written and a statement that
is not a READ. -/
def suits (u : ExternalUnit) : RecordCall looks emits advances → Bool
  | .char => u.connection.formatted && u.attachment.mayRead
  | .emit _ => !u.statement.isInput && u.attachment.mayWrite
  | _ => true

end RecordCall

/-- What a data transfer does with its unit, and what is done elsewhere meanwhile. -/
inductive Operation where
  | call (c : RecordCall true true true)
  | receive (count : ℕ)
  | record (number : ℕ)
  | flush
  | flushIfTerminal
  | leftTabLimit
  | nonAdvancing (yes : Bool)
  | modes (modes : Modes)
  | receivers (r : Receivers)
  /-- One more item is transferred. -/
  | item
  /-- The end of a record, or a fault, that an item finds in its field. -/
  | endOfRecord
  | fault (f : Fault)
  /-- Other statements and other programs have changed the system. -/
  | elsewhere (system : System)

namespace Operation

def perform : Operation → Act Session Unit
  | .call c => discard (Session.call c)
  | .receive count => discard (Session.receive count)
  | .record number => discard (Session.setRecord number)
  | .flush => discard Session.flushUnit
  | .flushIfTerminal => Session.flushIfTerminal
  | .leftTabLimit => Session.setLeftTabLimit
  | .nonAdvancing yes => Session.setNonAdvancing yes
  | .modes m => discard (Session.setModes m)
  | .receivers r => Session.declare r
  | .item => modify fun s => { s with items := s.items + 1 }
  | .endOfRecord => FieldSource.signalEndOfRecord
  | .fault f => FieldSource.signalFault f
  | .elsewhere system => modify fun s => { s with system }

def recordFault? (u : ExternalUnit) (number : ℕ) : Option Fault :=
  match u.connection.fixedRecordLength with
  | none => some (.badKeyword "REC= requires a fixed record length")
  | some _ =>
    if u.connection.access ≠ .direct || number = 0 then
      some (.badKeyword ("REC=" ++ toString number ++ " on a unit not open for direct access"))
    else none

def fault? (s : Session) : Operation → Option Fault
  | .call c => c.fault? s
  | .receive count => (Session.getData count).fault? s
  | .record number => recordFault? s.unit number
  | .flush => Session.flush.fault? s
  | .flushIfTerminal => if s.unit.attachment.isTerminal then Session.flush.fault? s else none
  | .modes m =>
    match s.unit.statement.setModes? m with
    | some _ => none
    | none => some (.badKeyword ("edit modes given for a " ++ s.unit.statement.name ++ " statement"))
  | .fault f => some f
  | _ => none

/-- The operation has its place in a data transfer on this unit: it fits the form of the unit and the
direction of the transfer, and the unit may be used in this direction. Any other operation is a mistake
of the program, which it ends. -/
def suits (u : ExternalUnit) : Operation → Bool
  | .call c => c.suits u
  | .receive _ => !u.connection.formatted && u.attachment.mayRead
  | _ => true

def run (ops : List Operation) : Act Session Unit := ops.forM perform

theorem run_append (ops more : List Operation) :
    run (ops ++ more) = run ops >>= fun _ => run more := List.forM_append

def faults : List Operation → Session → List Fault
  | [], _ => []
  | op :: ops, s =>
    (op.fault? s).toList ++
      match op.perform s with
      | .ok _ t => faults ops t
      | .error _ _ => []

end Operation

namespace Session

variable {s t : Session} {u : ExternalUnit} {first : Option Fault}

def endOperations (s : Session) : List Operation :=
  let metEnd := s.unit.statement.isInput && s.handler.status = .endOfRecord
  if !s.unit.connection.nonAdvancing || metEnd then [.call .advance, .flushIfTerminal]
  else if s.unit.statement.isOutput then [.leftTabLimit, .flushIfTerminal]
  else [.flushIfTerminal]

theorem endTransfer_eq (s : Session) : endTransfer s = Operation.run s.endOperations s := by
  have hlast : Operation.run [.flushIfTerminal] = flushIfTerminal := bind_pure_unit
  have hadvance : discard advance = Operation.perform (.call .advance) := (discard_return _ _).symm
  unfold endTransfer endOperations
  rw [get_bind_run, ← hlast, hadvance]
  dsimp only
  split_ifs <;> rfl

theorem suits_endOperations (s : Session) (u : ExternalUnit) :
    ∀ op ∈ s.endOperations, op.suits u = true := by
  unfold endOperations
  intro op hop
  dsimp only at hop
  split_ifs at hop <;> simp at hop <;> rcases hop with rfl | rfl <;> rfl

/-- The faults that a data transfer comes to with these operations and until it has ended. -/
def faults (ops : List Operation) (s : Session) : List Fault :=
  Operation.faults ops s ++
    match Operation.run ops s with
    | .ok _ t => Operation.faults t.endOperations t
    | .error _ _ => []

/-! ### Transfers in progress -/

/-- A data transfer in progress that receives errors, and the first fault that it has come to. The unit
is as `u` in all that decides which operations are in place. -/
structure Running (u : ExternalUnit) (first : Option Fault) (s : Session) : Prop where
  attachment_eq : s.unit.attachment = u.attachment
  formatted_eq : s.unit.connection.formatted = u.connection.formatted
  direction_eq : s.unit.statement.direction? = u.statement.direction?
  receives : s.handler.declared.receivesError = true
  status : ∀ f, first = some f → s.handler.status = f.iostat
  clear : first = none → s.handler.inError = false

namespace Running

variable (h : Running u first s)
include h

theorem of_same {t : Session} (hhandler : t.handler = s.handler)
    (hattachment : t.unit.attachment = s.unit.attachment)
    (hformatted : t.unit.connection.formatted = s.unit.connection.formatted)
    (hdirection : t.unit.statement.direction? = s.unit.statement.direction?) :
    Running u first t where
  attachment_eq := hattachment.trans h.attachment_eq
  formatted_eq := hformatted.trans h.formatted_eq
  direction_eq := hdirection.trans h.direction_eq
  receives := by rw [hhandler]; exact h.receives
  status := by rw [hhandler]; exact h.status
  clear := by rw [hhandler]; exact h.clear

theorem isInput_eq : s.unit.statement.isInput = u.statement.isInput := by
  rw [StatementState.isInput, h.direction_eq]
  rfl

theorem record_condition {condition : Iostat} (hcondition : condition.isError = false) :
    Running u first { s with handler := s.handler.record condition } := by
  refine { h with
    receives := by rw [Handler.record_declared]; exact h.receives, status := ?_, clear := ?_ }
  · intro f hf
    have hrank : condition.rank ≤ s.handler.status.rank := by
      rw [h.status f hf, f.rank_iostat]
      exact condition.rank_le
    rw [Handler.record_of_rank_le hrank]
    exact h.status f hf
  · intro hnone
    unfold Handler.record
    split_ifs
    · exact hcondition
    · exact h.clear hnone

/-- The first fault becomes the status, and stays it. -/
theorem record_fault (f : Fault) : ∃ handler, s.handler.fault f = .ok handler ∧
    Running u (first.or (some f)) { s with handler } := by
  obtain ⟨handler, hfault, hdeclared, hstatus⟩ := Handler.fault_received f h.receives
  have hrank : f.iostat.rank = 3 := f.rank_iostat
  refine ⟨handler, hfault, { h with
    receives := by rw [hdeclared]; exact h.receives, status := ?_, clear := ?_ }⟩
  · intro g hg
    change handler.status = g.iostat
    rw [hstatus]
    cases first with
    | none =>
      obtain rfl := Option.some.inj hg
      have hclear : s.handler.status.rank ≠ 3 := by
        rw [Ne, ← Iostat.isError_iff_rank]
        simpa [Handler.inError] using h.clear rfl
      rw [if_pos]
      cases hs : s.handler.status <;> simp_all [Iostat.rank]
    | some g' =>
      obtain rfl := Option.some.inj hg
      have hfirst := h.status _ rfl
      rw [if_neg, hfirst]
      rw [hfirst, g'.rank_iostat, hrank]
      exact lt_irrefl 3
  · intro hnone
    cases first <;> cases hnone

theorem endOfFile_eq : s.handler.endOfFile = .ok (s.handler.record .endOfFile) :=
  Handler.endOfFile_eq (Receivers.admits_of_receivesError h.receives _)

theorem endOfRecord_eq : s.handler.endOfRecord = .ok (s.handler.record .endOfRecord) :=
  Handler.endOfRecord_eq (Receivers.admits_of_receivesError h.receives _)

omit h

/-- Whatever comes of work on the records of the unit, the transfer goes on. -/
theorem recordSteps : RecordSteps False (Running u first) := by
  have hwindow {α : Type} {act : Windowed.Op Channel α}
      (hact : ∀ a, Preserves (fun w : Windowed Channel => w.device.attachment = a) act) :
      Attempt.Carries False (Running u first) (windowed act) := by
    refine windowed_carries fun s hs => ?_
    exact (hact s.unit.attachment s.channel rfl).mono (fun _ _ hw => hs.of_same rfl hw rfl rfl)
      fun _ _ hw => hs.of_same rfl hw rfl rfl
  refine
    { windowRead := fun _ _ => hwindow fun a => (Channel.stable_attachment a).read _ _
      windowWrite := fun _ _ => hwindow fun a => (Channel.stable_attachment a).write _ _
      windowFlush := hwindow fun a => (Channel.stable_attachment a).flush
      fileFlush := fun s hs => hs.of_same rfl s.channel.device.attachment_flushed rfl rfl
      unit := fun f hf s hs => ?_
      endOfFile := fun s hs => ?_
      endOfRecord := fun s hs => ?_ }
  · obtain ⟨hattachment, -, hstatement, -, hformatted, -⟩ := hf s.unit
    exact hs.of_same rfl hattachment hformatted (congrArg StatementState.direction? hstatement)
  · unfold Ends
    simp only [ExceptT.run, signalEndOfFile, modifyHandler, hs.endOfFile_eq]
    exact hs.record_condition rfl
  · unfold Ends
    simp only [ExceptT.run, signalEndOfRecord, modifyHandler, hs.endOfRecord_eq]
    exact hs.record_condition rfl

theorem peek_carries (hformatted : u.connection.formatted = true)
    (hread : u.attachment.mayRead = true) : Attempt.Carries False (Running u first) peek :=
  recordSteps.peek (.inr fun _ hs => hs.formatted_eq.trans hformatted)
    (.inr fun _ hs => by rw [hs.attachment_eq, hread])

theorem getData_carries (count : ℕ) (hunformatted : u.connection.formatted = false)
    (hread : u.attachment.mayRead = true) :
    Attempt.Carries False (Running u first) (getData count) :=
  recordSteps.getData count (.inr fun _ hs => hs.formatted_eq.trans hunformatted)
    (.inr fun _ hs => by rw [hs.attachment_eq, hread])

theorem putData_carries (data : Bytes) (houtput : u.statement.isInput = false)
    (hwrite : u.attachment.mayWrite = true) :
    Attempt.Carries False (Running u first) (putData data) :=
  recordSteps.putData data (.inr fun _ hs => hs.isInput_eq.trans houtput)
    (.inr fun _ hs => by rw [hs.attachment_eq, hwrite])

theorem attempt_completes {α β : Type} {act : Attempt Session α}
    {next : Except Fault α → Act Session β} (hact : Attempt.Carries False (Running u first) act)
    (hok : ∀ a t, Completes (next (.ok a)) t fun _ v => v = t)
    (herror : ∀ f t handler, t.handler.fault f = .ok handler →
      Completes (next (.error f)) t fun _ v => v = { t with handler })
    (h : Running u first s) :
    Completes (act.run >>= next) s fun _ t => Running u (first.or (act.fault? s)) t := by
  obtain ⟨_, _, hrun, ht⟩ := (hact.completes h).exists_run
  refine Ends.bind (Completes.of_run hrun) ?_
  rintro r t ⟨rfl, rfl⟩
  unfold Attempt.fault?
  rw [hrun]
  cases r with
  | ok a =>
    refine (hok a _).mono ?_ fun _ _ => id
    rintro _ _ rfl
    rw [Option.or_none]
    exact ht
  | error f =>
    obtain ⟨handler, hfault, hv⟩ := ht.record_fault f
    refine (herror f _ handler hfault).mono ?_ fun _ _ => id
    rintro _ _ rfl
    exact hv

theorem report_completes {act : Attempt Session Unit} (hact : Attempt.Carries False (Running u first) act)
    (h : Running u first s) :
    Completes (report act) s fun _ t => Running u (first.or (act.fault? s)) t := by
  refine h.attempt_completes hact (fun _ _ => rfl) ?_
  intro f t handler hfault
  unfold Completes Ends
  dsimp only
  rw [hfault]

theorem refuse_completes (f : Fault) (h : Running u first s) :
    Completes (report (throw f)) s fun _ t => Running u (first.or (some f)) t :=
  h.report_completes (.throw f)

theorem nextChar_completes (hformatted : u.connection.formatted = true)
    (hread : u.attachment.mayRead = true) (h : Running u first s) :
    Completes nextChar s fun _ t => Running u (first.or (peek.fault? s)) t := by
  refine h.attempt_completes (peek_carries hformatted hread) (fun _ _ => rfl) ?_
  intro f t handler hfault
  exact (noting_completes hfault).bind fun _ _ hv => hv

theorem receive_completes (count : ℕ) (hunformatted : u.connection.formatted = false)
    (hread : u.attachment.mayRead = true) (h : Running u first s) :
    Completes (receive count) s fun _ t => Running u (first.or ((getData count).fault? s)) t := by
  refine h.attempt_completes (getData_carries count hunformatted hread) (fun _ _ => rfl) ?_
  intro f t handler hfault
  exact (noting_completes hfault).bind fun _ _ hv => hv

theorem quiet_completes {f : Session → Session} (hf : Running u first (f s)) :
    Completes (modify f : Act Session PUnit) s fun _ t => Running u (first.or none) t := by
  rw [Option.or_none]
  exact hf

theorem call_completes {looks emits advances : Bool} {c : RecordCall looks emits advances}
    (hc : c.suits u = true) (h : Running u first s) :
    Completes (discard (call c)) s fun _ t => Running u (first.or (c.fault? s)) t := by
  -- What a call answers does not matter.
  have hanswer {α : Type} {act : Act Session α} {answer : α → RecordCall.Answer} {f : Option Fault}
      (hact : Completes act s fun _ t => Running u (first.or f) t) :
      Completes (discard (do return answer (← act))) s fun _ t => Running u (first.or f) t :=
    Ends.discard_state (hact.bind fun _ _ => id)
  cases c with
  | char =>
    obtain ⟨hformatted, hread⟩ := Bool.and_eq_true_iff.mp hc
    exact hanswer (h.nextChar_completes hformatted hread)
  | emit data =>
    obtain ⟨houtput, hwrite⟩ := Bool.and_eq_true_iff.mp hc
    exact hanswer (h.report_completes (putData_carries data (by simpa using houtput) hwrite))
  | move m => exact hanswer ((ends_get _).mpr (h.report_completes (recordSteps.moveTo _)))
  | advance => exact hanswer (h.report_completes recordSteps.advanceRecord)

theorem setRecord_completes (number : ℕ) (h : Running u first s) :
    Completes (discard (setRecord number)) s fun _ t =>
      Running u (first.or (Operation.recordFault? s.unit number)) t := by
  refine Ends.discard_state ((ends_get _).mpr ?_)
  unfold Operation.recordFault?
  dsimp only
  cases s.unit.connection.fixedRecordLength with
  | none => exact h.refuse_completes _
  | some length =>
    dsimp only
    split_ifs
    · exact h.refuse_completes _
    · rw [Option.or_none]
      exact (ends_set_bind _ _).mpr ((ends_pure _).mpr (h.of_same rfl rfl rfl rfl))

theorem setModes_completes (m : Modes) (h : Running u first s) :
    Completes (discard (setModes m)) s fun _ t =>
      Running u (first.or ((Operation.modes m).fault? s)) t := by
  refine Ends.discard_state ((ends_get _).mpr ?_)
  unfold Operation.fault?
  dsimp only
  cases hmodes : s.unit.statement.setModes? m with
  | none => exact h.refuse_completes _
  | some statement =>
    dsimp only
    rw [Option.or_none]
    exact (ends_set_bind _ _).mpr ((ends_pure _).mpr
      (h.of_same rfl rfl rfl (StatementState.direction_of_setModes hmodes)))

theorem flushIfTerminal_completes (h : Running u first s) :
    Completes flushIfTerminal s fun _ t =>
      Running u (first.or (Operation.flushIfTerminal.fault? s)) t := by
  refine (ends_get _).mpr ?_
  unfold Operation.fault?
  dsimp only
  split_ifs
  · exact Ends.discard_state (h.report_completes recordSteps.flush)
  · rw [Option.or_none]
    exact h

theorem declare_completes (r : Receivers) (h : Running u first s) :
    Completes (declare r) s fun _ t => Running u (first.or none) t := by
  refine quiet_completes { h with receives := ?_ }
  have hr := h.receives
  simp only [Handler.declare, Receivers.union, Receivers.receivesError, Bool.or_eq_true] at hr ⊢
  exact hr.imp Or.inl Or.inl

theorem perform_completes {op : Operation} (hop : op.suits u = true) (h : Running u first s) :
    Completes op.perform s fun _ t => Running u (first.or (op.fault? s)) t := by
  cases op with
  | call c => exact h.call_completes hop
  | receive count =>
    obtain ⟨hformatted, hread⟩ := Bool.and_eq_true_iff.mp hop
    exact Ends.discard_state (h.receive_completes count (by simpa using hformatted) hread)
  | flush => exact Ends.discard_state (h.report_completes recordSteps.flush)
  | record number => exact h.setRecord_completes number
  | modes m => exact h.setModes_completes m
  | flushIfTerminal => exact h.flushIfTerminal_completes
  | receivers r => exact h.declare_completes r
  | leftTabLimit => exact quiet_completes (h.of_same rfl rfl rfl rfl)
  | nonAdvancing yes => exact quiet_completes (h.of_same rfl rfl rfl rfl)
  | item => exact quiet_completes (h.of_same rfl rfl rfl rfl)
  | elsewhere system => exact quiet_completes (h.of_same rfl rfl rfl rfl)
  | endOfRecord =>
    rw [show Operation.fault? s .endOfRecord = none from rfl, Option.or_none]
    unfold Completes Ends
    rw [Operation.perform, FieldSource.signalEndOfRecord, FieldSource.signal_eq h.endOfRecord_eq]
    exact h.record_condition rfl
  | fault f =>
    obtain ⟨handler, hfault, ht⟩ := h.record_fault f
    unfold Completes Ends
    rw [Operation.perform, FieldSource.signalFault, FieldSource.signal_eq hfault]
    exact ht

theorem run_completes {ops : List Operation} (hops : ∀ op ∈ ops, op.suits u = true)
    (h : Running u first s) : Completes (Operation.run ops) s fun _ t =>
      Running u (first.or (Operation.faults ops s).head?) t := by
  induction ops generalizing s first with
  | nil =>
    rw [Operation.faults, List.head?_nil, Option.or_none]
    exact h
  | cons op ops ih =>
    obtain ⟨_, t, hrun, ht⟩ := (h.perform_completes (hops op List.mem_cons_self)).exists_run
    refine Ends.bind (Completes.of_run hrun) ?_
    rintro _ t ⟨-, rfl⟩
    rw [Operation.faults, hrun, List.head?_append, Option.head?_toList, ← Option.or_assoc]
    exact ih (fun op hop => hops op (List.mem_cons_of_mem _ hop)) ht

theorem endTransfer_completes (h : Running u first s) : Completes endTransfer s fun _ t =>
    Running u (first.or (Operation.faults s.endOperations s).head?) t := by
  unfold Completes Ends
  rw [endTransfer_eq]
  exact h.run_completes (suits_endOperations s u)

theorem tells {faults : List Fault} (h : Running u faults.head? s) : s.handler.status.Tells faults := by
  cases faults with
  | nil => exact h.clear rfl
  | cons f _ => exact h.status f rfl

theorem finish_completes (htransfer : u.statement.isTransfer = true) (h : Running u first s) :
    Completes finish s fun status _ => ∀ faults : List Fault,
      faults.head? = first.or (Operation.faults s.endOperations s).head? → status.Tells faults := by
  have htransfer' : s.unit.statement.isTransfer = true := by
    rw [StatementState.isTransfer, h.direction_eq]
    exact htransfer
  refine finish_of_endTransfer htransfer' (h.endTransfer_completes.mono ?_ fun _ _ => id)
  intro _ t ht faults hfaults
  rw [← hfaults] at ht
  exact ht.tells

end Running

end Session

end DataTransfer
