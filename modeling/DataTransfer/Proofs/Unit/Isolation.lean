import DataTransfer.Proofs.Unit.Guarded

/-!
What one statement leaves for the next. A statement that ends takes its ADVANCE= with it, and every
statement begins with modes, receivers and a status of its own; but one that is left in the middle leaves
ADVANCE='NO' behind. Unless that happens, a READ or WRITE without ADVANCE= finishes its record.
-/

namespace DataTransfer

/-- What is done in a statement: the steps of a transfer, OPEN among them, or a CLOSE. -/
inductive StatementStep where
  | transfer (step : TransferStep)
  | disconnect (status : CloseStatus)

namespace StatementStep

def perform : StatementStep → Act Session Unit
  | .transfer step => step.perform
  | .disconnect status => discard (Session.closeUnit status)

def holdsBack (before : Bool) : StatementStep → Bool
  | .transfer (.operation (.nonAdvancing yes)) => yes
  | .transfer (.item (.nonAdvancing yes)) => yes
  | _ => before

end StatementStep

/-- A statement from its beginning on, which is ended, or left in the middle. -/
structure Course where
  kind : StatementKind
  source : SourceLine := {}
  steps : List StatementStep := []
  ended : Bool := true

namespace Course

def enter (c : Course) : Act Session Unit := do
  Session.begin_ c.kind c.source
  c.steps.forM StatementStep.perform

def perform (c : Course) : Act Session Unit := do
  c.enter
  if c.ended then discard Session.finish
  else modify fun s => { s with unit := Session.release s.unit }

/-- Statements leave ADVANCE='NO' behind: one was left where it was in force, and none has ended since. -/
def holdsBack (before : Bool) (c : Course) : Bool :=
  if c.ended then false else c.steps.foldl StatementStep.holdsBack before

end Course

/-- The modes are those of a new connection, and ADVANCE='NO' is in force only where `held` says so. -/
structure Connection.Plain (held : Bool) (c : Connection) : Prop where
  modes_eq : c.modes = {}
  advances : c.nonAdvancing = true → held = true

namespace Session

variable {held : Bool} {s : Session}

def Notes (K : Connection → Option Direction → ℕ → Prop) (s : Session) : Prop :=
  K s.unit.connection s.unit.statement.direction? s.items

/-! ### OPEN, CLOSE and the beginning -/

section

variable {K : Connection → Option Direction → ℕ → Prop}

theorem windowed_notes {α : Type} (act : Windowed.Op Channel α) :
    Attempt.Carries True (Notes K) (windowed act) := by
  refine windowed_carries fun s hs => ?_
  exact (Ends.trivial act s.channel).mono (fun _ _ _ => hs) fun _ _ _ => hs

theorem attached_notes {α : Type} (act : Channel.Op Fault α) :
    Attempt.Carries True (Notes K) (attached act) := by
  intro s hs
  unfold Ends
  simp only [ExceptT.run, attached]
  cases act s.channel.device <;> exact hs

theorem flush_notes : Attempt.Carries True (Notes K) flush := by
  refine .get_bind fun s _ => ?_
  split_ifs
  · exact (windowed_notes _).bind fun _ => attached_notes _
  · exact .pure _

theorem report_notes {act : Attempt Session Unit} (h : Attempt.Carries True (Notes K) act) :
    Preserves (Notes K) (report act) :=
  fun s hs => report_leaves (fun _ _ h => h) (h.preserves s hs)

theorem connect_notes (hform : ∀ c d n form, K c d n → K (c.withForm form) d n)
    (hfirst : ∀ c d n, K c d n → K { c with record := 1, endRecord := none }.beginRecord d n)
    (status : OpenStatus) (position : Position) (path : Option String) (form : Form) :
    Attempt.Carries True (Notes K) (connect status position path form) := by
  refine connect_of_parts flush_notes (attached_notes _) (fun name => ?_) path
  refine .bind (fun _ hs => hform _ _ _ form hs) fun _ => (attached_notes _).bind fun start => ?_
  exact fun _ hs => hfirst _ _ _ hs

theorem disconnect_notes (hnew : ∀ c d n, K c d n → K {} d n) (status : CloseStatus) :
    Attempt.Carries True (Notes K) (disconnect status) :=
  disconnect_of_parts flush_notes (attached_notes _) fun _ hs => hnew _ _ _ hs

theorem prepare_notes (hform : ∀ c d n form, K c d n → K (c.withForm form) d n)
    (hfirst : ∀ c d n, K c d n → K { c with record := 1, endRecord := none }.beginRecord d n)
    (kind : StatementKind) (direction : Direction) :
    Preserves (Notes K) (prepare kind direction) := by
  have hturn : Preserves (Notes K) (do
      if decide (direction = .input) ≠ (← get).unit.reading then
        noting (windowed Windowed.flush)
        modify fun s : Session =>
          { s with unit := { s.unit with reading := decide (direction = .input), located := false } }) := by
    refine .get_bind fun s _ => ?_
    split_ifs
    · exact (report_notes (windowed_notes _)).discard.bind fun _ => .modify fun _ hs => hs
    · exact .pure _
  refine .get_bind fun s _ => .when_bind ?_ fun _ => hturn
  exact (report_notes (connect_notes hform hfirst _ _ _ _)).discard

end

/-- A statement that has just begun: the modes of the connection, which are those of a new one, are its
own, it has no receivers and no items, and nothing has happened yet. -/
structure Fresh (kind : StatementKind) (source : SourceLine) (s : Session) : Prop where
  modes_eq : s.unit.connection.modes = {}
  statement_eq : s.unit.statement = .begin_ kind {}
  handler_eq : s.handler = { source }
  items_eq : s.items = 0

theorem begin_fresh (h : s.unit.connection.Plain held) (kind : StatementKind) (source : SourceLine) :
    Ends (begin_ kind source) s (fun _ t => t.Fresh kind source ∧ t.unit.connection.Plain held)
      fun _ _ => True := by
  refine Ends.bind (P := fun _ t => s.Begun kind source {} t ∧ t.items = 0) ⟨⟨rfl, rfl, rfl⟩, rfl⟩ ?_
  rintro _ t ⟨ht, hitems⟩
  have hplain : t.unit.connection.Plain held := by
    rw [ht.unit_eq]
    exact h
  have hstatement : t.unit.statement = .begin_ kind {} := by
    rw [ht.unit_eq, ← h.modes_eq]
  have hhandler : t.handler = { source } := ht.handler_eq
  refine (ends_get _).mpr ?_
  split
  · next direction _ =>
    have hnotes := prepare_notes (K := fun c _ n => c.Plain held ∧ n = 0)
      (fun c _ n form hc => ⟨⟨hc.1.modes_eq, hc.1.advances⟩, hc.2⟩)
      (fun c _ n hc => ⟨⟨hc.1.modes_eq, hc.1.advances⟩, hc.2⟩) kind direction t ⟨hplain, hitems⟩
    refine (hnotes.and (prepare_ends kind direction hhandler)).mono ?_ fun _ _ _ => trivial
    rintro _ u ⟨⟨hconnection, hcount⟩, -, hhandler', hstatement'⟩
    exact ⟨⟨hconnection.modes_eq, hstatement'.trans hstatement, hhandler', hcount⟩, hconnection⟩
  · exact ⟨⟨hplain.modes_eq, hstatement, hhandler, hitems⟩, hplain⟩

/-! ### Steps -/

variable {direction : Option Direction}

def Plain (held : Bool) (direction : Option Direction) : Session → Prop :=
  Notes fun c d _ => c.Plain held ∧ d = direction

theorem recordSteps_plain (held : Bool) (direction : Option Direction) :
    RecordSteps True (Plain held direction) where
  windowRead _ _ := windowed_notes _
  windowWrite _ _ := windowed_notes _
  windowFlush := windowed_notes _
  fileFlush := attached_notes _
  endOfFile := modifyHandler_leaves (fun _ _ hs => hs) _
  endOfRecord := modifyHandler_leaves (fun _ _ hs => hs) _
  unit f hf := by
    intro s hs
    obtain ⟨-, -, hstatement, -, -, hmodes, hadvance⟩ := hf s.unit
    refine ⟨⟨hmodes.trans hs.1.modes_eq, fun h => hs.1.advances (hadvance.symm.trans h)⟩, ?_⟩
    exact (congrArg StatementState.direction? hstatement).trans hs.2

/-- No operation but ADVANCE= itself changes what `Plain` is about. -/
theorem plainSteps_plain (held : Bool) (direction : Option Direction) :
    PlainSteps True (Plain held direction) where
  peek := (recordSteps_plain held direction).peek (.inl trivial) (.inl trivial)
  getData count := (recordSteps_plain held direction).getData count (.inl trivial) (.inl trivial)
  putData data := (recordSteps_plain held direction).putData data (.inl trivial) (.inl trivial)
  moveTo column := (recordSteps_plain held direction).moveTo column
  advanceRecord := (recordSteps_plain held direction).advanceRecord
  flush := flush_notes
  handler _ _ hs _ := hs
  items _ _ hs := hs
  statement _ _ hs hdirection := ⟨hs.1, hdirection.trans hs.2⟩
  record _ _ _ hs _ := ⟨⟨hs.1.modes_eq, hs.1.advances⟩, hs.2⟩
  leftTabLimit _ _ hs := ⟨⟨hs.1.modes_eq, hs.1.advances⟩, hs.2⟩

theorem operation_plain (op : Operation) (hs : Plain held direction s) :
    Ends op.perform s
      (fun _ t => Plain ((StatementStep.transfer (.operation op)).holdsBack held) direction t)
      fun _ _ => True := by
  have hsteps := plainSteps_plain held direction
  cases op with
  | nonAdvancing yes => exact ⟨⟨hs.1.modes_eq, id⟩, hs.2⟩
  | elsewhere system => exact hs
  | _ => exact (hsteps.operation rfl (fun _ => trivial) (fun _ hop => by cases hop) s hs).success

theorem item_plain (item : Item) (hs : Plain held direction s) :
    Ends item.perform s
      (fun _ t => Plain ((StatementStep.transfer (.item item)).holdsBack held) direction t)
      fun _ _ => True := by
  have hsteps := plainSteps_plain held direction
  cases item with
  | nonAdvancing yes => exact ⟨⟨hs.1.modes_eq, id⟩, hs.2⟩
  | specifiers spec =>
    have hopen : Preserves (Plain held direction) (openWith spec) :=
      report_notes (connect_notes (fun _ _ _ _ hc => ⟨⟨hc.1.modes_eq, hc.1.advances⟩, hc.2⟩)
        (fun _ _ _ hc => ⟨⟨hc.1.modes_eq, hc.1.advances⟩, hc.2⟩) _ _ _ _)
    exact (hopen.discard s hs).success
  | _ => exact (hsteps.item rfl (fun _ hitem => by cases hitem) s hs).success

theorem step_plain (step : StatementStep) (hs : Plain held direction s) :
    Ends step.perform s (fun _ t => Plain (step.holdsBack held) direction t) fun _ _ => True := by
  match step with
  | .transfer (.operation op) => exact operation_plain op hs
  | .transfer (.item item) => exact item_plain item hs
  | .disconnect status =>
    have hclose : Preserves (Plain held direction) (closeUnit status) :=
      report_notes (disconnect_notes (fun _ _ _ hc => ⟨⟨rfl, nofun⟩, hc.2⟩) status)
    exact (hclose.discard s hs).success

theorem steps_plain (steps : List StatementStep) (hs : Plain held direction s) :
    Ends (steps.forM StatementStep.perform) s
      (fun _ t => Plain (steps.foldl StatementStep.holdsBack held) direction t) fun _ _ => True := by
  induction steps generalizing held s with
  | nil => exact hs
  | cons step steps ih => exact (step_plain step hs).bind fun _ t ht => ih ht

/-! ### Statements -/

theorem enter_plain (c : Course) (h : s.unit.connection.Plain held) :
    Ends c.enter s (fun _ t => Plain (c.steps.foldl StatementStep.holdsBack held)
      (StatementState.begin_ c.kind {}).direction? t) fun _ _ => True := by
  refine (begin_fresh h c.kind c.source).bind fun _ t ht => steps_plain c.steps ?_
  exact ⟨ht.2, congrArg StatementState.direction? ht.1.statement_eq⟩

theorem course_plain (c : Course) (h : s.unit.connection.Plain held) :
    Ends c.perform s (fun _ t => t.unit.connection.Plain (c.holdsBack held)) fun _ _ => True := by
  refine (enter_plain c h).bind fun _ u hu => ?_
  unfold Course.holdsBack
  split_ifs with hended
  · refine Ends.discard_state (((plainSteps_plain _ _).finish_ends (fun _ _ _ => trivial) hu).mono ?_
      fun _ _ => id)
    rintro _ _ ⟨v, hv, -, rfl⟩
    exact ⟨hv.1.modes_eq, nofun⟩
  · exact hu.1

theorem courses_plain (history : List Course) (h : s.unit.connection.Plain held) :
    Ends (history.forM Course.perform) s
      (fun _ t => t.unit.connection.Plain (history.foldl Course.holdsBack held)) fun _ _ => True := by
  -- By induction over the statements; of each only what it does to ADVANCE= matters to the next.
  induction history generalizing held s with
  | nil => exact h
  | cons c history ih => exact (course_plain c h).bind fun _ t ht => ih ht

/-! ### The end of a record -/

/-- The record that the unit of `s` is in is done with on the connection `c`: that stands at the next record,
or input has met the end of the file, or the record could not be completed. -/
inductive RecordDone (s : Session) (c : Connection) : Prop where
  | next (record_eq : c.record = s.unit.connection.record + 1) (start_eq : c.beginRecord = c)
  | atEnd (reading : s.unit.reading = true) (atEnd : c.atEnd = true)
  | refused (f : Fault) (fault_eq : advanceRecord.fault? s = some f)

/-- A search does not leave the record, and where it finds none the file is at its end. -/
theorem ensureLocated_leaves_record : Ends ensureLocated.run s
    (fun found t => t.unit.connection.record = s.unit.connection.record ∧
      (found = .ok false → t.unit.connection.atEnd = true)) fun _ _ => True := by
  have hfind : FindSteps True fun t : Session =>
      t.unit.connection.record = s.unit.connection.record :=
    { windowRead := fun _ _ => windowed_notes (K := fun c _ _ => c.record = _) _
      found := fun f hf t ht => by
        obtain ⟨_, _, _, _, hu⟩ := hf t.unit
        change (f t.unit).connection.record = _
        rwa [hu]
      endOfFile := modifyHandler_leaves (fun _ _ => id) _ }
  have hend {t : Session} (hrecord : t.unit.connection.record = s.unit.connection.record)
      (hatEnd : t.unit.connection.atEnd = true) : Ends (do
        signalEndOfFile
        return false : Attempt Session Bool).run t
      (fun found t => t.unit.connection.record = s.unit.connection.record ∧
        (found = .ok false → t.unit.connection.atEnd = true)) fun _ _ => True := by
    have hsignal := modifyHandler_leaves
      (P := fun u => u.unit.connection.record = s.unit.connection.record ∧
        u.unit.connection.atEnd = true) (fun _ _ => id) Handler.endOfFile t ⟨hrecord, hatEnd⟩
    exact Ends.attempt_bind hsignal.success (fun _ u hu => ⟨hu.1, fun _ => hu.2⟩)
      fun _ u hu => ⟨hu.1, nofun⟩
  refine (Ends.attempt_get _).mpr ?_
  split_ifs
  · exact ⟨rfl, nofun⟩
  refine (Ends.attempt_get _).mpr ?_
  dsimp only
  split_ifs with hatEnd
  · exact hend rfl hatEnd
  · refine Ends.attempt_bind (hfind.findRecord s rfl).success (fun found t ht => ?_) fun _ _ ht =>
      ⟨ht, nofun⟩
    cases found with
    | true => exact ⟨ht, nofun⟩
    | false => exact hend ht (decide_eq_true le_rfl)

/-- To advance is to be done with the record, unless there is a fault. -/
theorem advanceRecord_ends : Ends advanceRecord.run s
    (fun result t => result = .ok () → s.RecordDone t.unit.connection) fun _ _ => True := by
  refine (Ends.attempt_get _).mpr ?_
  split_ifs with hreading
  · refine Ends.attempt_bind ensureLocated_leaves_record (fun found t ht => ?_) fun _ _ _ => nofun
    cases found with
    | true => exact fun _ => .next (congrArg (· + 1) ht.1) rfl
    | false => exact fun _ => .atEnd hreading (ht.2 rfl)
  · -- What comes before the move to the next record leaves the number of this one.
    let K : Connection → Option Direction → ℕ → Prop := fun c _ _ =>
      c.record = s.unit.connection.record
    have hcomplete : Attempt.Carries True (Notes K) completeRecord :=
      RecordSteps.completeRecord_carries fun _ _ => windowed_notes _
    have hflush : Attempt.Carries True (Notes K) flush := flush_notes
    have hnext {t : Session} (ht : t.Notes K) : Ends (modifyUnit nextRecord : Attempt Session Unit).run t
        (fun result u => result = .ok () → s.RecordDone u.unit.connection) fun _ _ => True :=
      fun _ => .next (congrArg (· + 1) ht) rfl
    refine Ends.attempt_bind (hcomplete s rfl).success (fun stride t ht => ?_) fun _ _ _ => nofun
    have hmove : Attempt.Carries True (Notes K)
        (modifyUnit fun u => { u with offset := u.offset + stride }) := fun _ hu => hu
    refine Ends.attempt_bind (hmove t ht).success (fun _ u hu => ?_) fun _ _ _ => nofun
    refine (Ends.attempt_get _).mpr ?_
    split_ifs
    · exact Ends.attempt_bind (hflush u hu).success (fun _ v hv => hnext hv) fun _ _ _ => nofun
    · exact hnext hu

theorem advance_ends : Ends advance s (fun _ t => s.RecordDone t.unit.connection) fun _ _ => True := by
  have hdone : Ends advanceRecord.run s (fun _ t => s.RecordDone t.unit.connection)
      fun _ _ => True := by
    have hends := advanceRecord_ends (s := s)
    unfold Ends at hends ⊢
    cases hrun : advanceRecord.run s with
    | error _ _ => trivial
    | ok result t =>
      rw [hrun] at hends
      cases result with
      | ok _ => exact hends rfl
      | error f => exact .refused f (by rw [Attempt.fault?, hrun])
  refine Ends.bind hdone fun result t ht => ?_
  cases result with
  | ok _ => exact ht
  | error f =>
    unfold Ends
    dsimp only
    cases t.handler.fault f with
    | ok _ => exact ht
    | error _ => trivial

theorem finish_ends_record (htransfer : s.unit.statement.isTransfer = true)
    (hadvances : s.unit.connection.nonAdvancing = false) :
    Ends finish s (fun _ t => s.RecordDone t.unit.connection) fun _ _ => True := by
  have hterminal : Preserves (Notes fun c _ _ => s.RecordDone c) flushIfTerminal := by
    refine .get_bind fun t _ => ?_
    split_ifs
    · exact (report_notes flush_notes).discard
    · exact .pure _
  have hend : Ends endTransfer s (fun _ t => s.RecordDone t.unit.connection) fun _ _ => True := by
    refine (ends_get _).mpr ?_
    dsimp only
    rw [hadvances, Bool.not_false, Bool.true_or, if_pos rfl]
    exact advance_ends.discard_state.bind fun _ t ht => (hterminal t ht).success
  refine finish_of_endTransfer htransfer (hend.mono (fun _ t ht => ?_) fun _ _ => id)
  cases ht with
  | next hrecord hstart =>
    exact .next hrecord (congrArg (fun c : Connection => { c with nonAdvancing := false }) hstart)
  | atEnd hreading hatEnd => exact .atEnd hreading hatEnd
  | refused f hfault => exact .refused f hfault

/-- On a unit that has had any statements, ended or left in the middle, the next one begins with modes of
its own, no receivers and nothing that has happened, and nothing of the last statement matters to it. If
ADVANCE='NO' has not been left behind, it advances unless it says otherwise itself: what a READ or WRITE
does to its record is done when it ends. -/
theorem statements_isolated (hfirst : s.unit.IsFirst) (history : List Course) :
    Ends (history.forM Course.perform) s (fun _ t =>
      (∀ kind source, Ends (begin_ kind source) t (fun _ u => u.Fresh kind source) fun _ _ => True) ∧
      (∀ kind source statement held handler items,
        begin_ kind source { t with unit := { t.unit with statement, held }, handler, items } =
          begin_ kind source t) ∧
      (history.foldl Course.holdsBack false = false →
        (∀ kind source, Ends (begin_ kind source) t
          (fun _ u => u.unit.connection.nonAdvancing = false) fun _ _ => True) ∧
        ∀ c : Course, (StatementState.begin_ c.kind {}).isTransfer = true →
          c.steps.foldl StatementStep.holdsBack false = false →
          Ends c.enter t (fun _ u => Ends finish u (fun _ v => u.RecordDone v.unit.connection)
            fun _ _ => True) fun _ _ => True)) fun _ _ => True := by
  have hplain : s.unit.connection.Plain false := by
    obtain ⟨number, readChunk, hnew | ⟨descriptor, utf8, hnew⟩⟩ := hfirst <;> rw [hnew]
    · exact ⟨rfl, nofun⟩
    · exact ⟨rfl, nofun⟩
  refine (courses_plain history hplain).mono ?_ fun _ _ => id
  intro _ t ht
  refine ⟨fun kind source => ?_, fun _ _ _ _ _ _ => rfl, fun hkept => ⟨fun kind source => ?_, ?_⟩⟩
  · exact (begin_fresh ht kind source).mono (fun _ _ => And.left) fun _ _ => id
  · rw [hkept] at ht
    refine (begin_fresh ht kind source).mono ?_ fun _ _ => id
    intro _ u hu
    exact Bool.eq_false_iff.mpr fun h => Bool.noConfusion (hu.2.advances h)
  · intro c htransfer hadvances
    rw [hkept] at ht
    refine (enter_plain c ht).mono ?_ fun _ _ => id
    rintro _ u ⟨hu, hdirection⟩
    refine finish_ends_record ?_ ?_
    · rw [StatementState.isTransfer, hdirection]
      exact htransfer
    · exact Bool.eq_false_iff.mpr fun h => Bool.noConfusion (hadvances ▸ hu.advances h)

/-- A WRITE left in the middle, where it does not advance. -/
def leftWrite : Course where
  kind := .formatted .output
  steps := [.transfer (.operation (.nonAdvancing true))]
  ended := false

def plainWrite : Course where
  kind := .formatted .output
  steps := [.transfer (.operation (.call (.emit [65])))]

def onStandardOutput : Session where
  system := {}
  unit := (ExternalUnit.new 6 256).predefine 1 false

/-- One WRITE was left, and one has ended since. -/
theorem statements_isolated_after_end :
    let history := [leftWrite, plainWrite]
    onStandardOutput.unit.IsFirst ∧ history.foldl Course.holdsBack false = false ∧
      ∃ t u v status, history.forM Course.perform onStandardOutput = .ok () t ∧
        plainWrite.enter t = .ok () u ∧ finish u = .ok status v ∧ u.RecordDone v.unit.connection ∧
        v.system.output = [65, 65, 10] := by
  intro history
  have hfirst : onStandardOutput.unit.IsFirst := ⟨6, 256, .inr ⟨1, false, rfl⟩⟩
  have h := statements_isolated hfirst history
  obtain ⟨-, -, hkept⟩ := h.of_run rfl
  have hdone := ((hkept rfl).2 plainWrite rfl rfl).of_run rfl
  exact ⟨hfirst, rfl, _, _, _, _, rfl, rfl, rfl, hdone.of_run rfl, rfl⟩

/-- A WRITE behind one that was left does not finish its record. -/
theorem left_statement_holds_record :
    ∃ t u v, leftWrite.perform onStandardOutput = .ok () t ∧ plainWrite.enter t = .ok () u ∧
      finish u = .ok .ok v ∧ ¬ u.RecordDone v.unit.connection ∧ v.system.output = [] := by
  refine ⟨_, _, _, rfl, rfl, rfl, ?_, rfl⟩
  rintro (⟨hrecord, -⟩ | ⟨hreading, -⟩ | ⟨f, hfault⟩)
  · cases hrecord
  · cases hreading
  · cases hfault

end Session

end DataTransfer
