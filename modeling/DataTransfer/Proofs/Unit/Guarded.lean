import DataTransfer.Proofs.Program.Failures
import DataTransfer.Proofs.Unit.ReadOnly
import DataTransfer.Proofs.Unit.Steps

/-!
Whatever is done to a unit, with OPEN, CLOSE, READ and WRITE: as long as it may not be written, its window
is one on what can only be read, and nothing waits there to be written while the unit reads.
-/

namespace DataTransfer

def Attachment.IsReadOnly (a : Attachment) : Prop := a.isOpen = true ∧ a.mayWrite = false

namespace Channel

/-- What an OPEN attaches for reading only is a file. Where it attaches nothing, what was attached
stays. -/
theorem attach_readOnly (status : OpenStatus) (position : Position) (name : Option String)
    (c : Channel) : Ends (attach status position name) c
      (fun _ d => d.attachment.mayWrite = false → ∃ n, d.ReadsFile n)
      fun _ d => d.attachment.backing = c.attachment.backing := by
  by_cases hstatus : status = .scratch
  · subst hstatus
    exact nofun
  cases name with
  | none => cases status <;> first | exact rfl | exact absurd rfl hstatus
  | some path =>
    rw [attach_named hstatus]
    refine (ends_modify_bind _ _).mpr ((ends_modify_bind _ _).mpr ?_)
    refine Ends.bind ((openNamed_ends status path rfl).mono (fun _ _ => id) ?_) ?_
    · rintro _ d ⟨mayWrite, hd⟩
      rw [hd]
    · rintro ⟨ref, writable⟩ d ⟨hd, -, hnode⟩ hmay
      obtain rfl : writable = false := by
        rw [← hmay]
        exact (congrArg Attachment.mayWrite hd).symm
      obtain ⟨n, rfl⟩ := hnode rfl
      exact ⟨n, rfl, congrArg Attachment.mayRead hd, congrArg Attachment.mayPosition hd, rfl⟩

/-- A CLOSE lets go of the file, whether or not it can be removed. -/
theorem detach_disconnects (status : CloseStatus) (c : Channel) : Ends (detach status) c
    (fun _ d => d.attachment.backing = none) fun _ d => d.attachment.backing = none := by
  unfold detach
  refine (ends_modify_bind _ _).mpr ((ends_modify_bind _ _).mpr ((ends_get _).mpr ?_))
  dsimp only
  split
  · split <;> exact rfl
  · exact rfl

end Channel

namespace Windowed

variable {stream : Bytes} {reading : Bool} {w : Windowed Channel}

/-- The window of a unit that goes in this direction. If the unit may not be written, the window is one on
what can only be read, and nothing waits there to be written when the unit reads. -/
def Guarded (stream : Bytes) (reading : Bool) (w : Windowed Channel) : Prop :=
  w.device.attachment.IsReadOnly →
    Sealed stream w.device w ∧ (reading = true → w.window.dirty = none)

theorem guarded_of_attachment {a : Attachment} (ha : ¬ a.IsReadOnly) (h : w.device.attachment = a) :
    w.Guarded stream reading := fun hreadOnly => absurd (h ▸ hreadOnly) ha

theorem Guarded.flushed (hw : w.Guarded stream reading) :
    Guarded stream reading { w with device := w.device.flushed } := by
  intro ha
  have hsealed := hw (by rwa [← w.device.attachment_flushed])
  rw [Channel.flushed_of_ne hsealed.1.backing_ne]
  exact hsealed

/-- Writes do not matter, as long as the unit does not read. -/
theorem guarded_stable (stream : Bytes) : Channel.Stable (Guarded stream false) := by
  have hpreserves {α : Type} {act : Op Channel α}
      (hact : ∀ C : Windowed Channel → Prop, Stable C → Preserves C act) :
      Preserves (Guarded stream false) act := by
    intro w hw
    by_cases ha : w.device.attachment.IsReadOnly
    · exact (hact _ (Sealed.stable stream w.device).toStable w (hw ha).1).mono
        (fun _ _ ht _ => ⟨ht.again, nofun⟩) fun _ _ ht _ => ⟨ht.again, nofun⟩
    · exact (hact _ (Channel.stable_attachment w.device.attachment).toStable w rfl).mono
        (fun _ _ => guarded_of_attachment ha) fun _ _ => guarded_of_attachment ha
  exact ⟨⟨fun _ _ => hpreserves fun _ hC => hC.read _ _, fun _ _ => hpreserves fun _ hC => hC.write _ _,
    hpreserves fun _ hC => hC.flush⟩, fun _ => Guarded.flushed⟩

theorem Guarded.flush_ends (hw : w.Guarded stream reading) : Ends flush w
    (fun _ t => t.Guarded stream reading ∧ t.window.dirty = none)
    fun _ t => t.Guarded stream reading := by
  cases reading with
  | false =>
    exact (((guarded_stable stream).flush w hw).and (flush_cleans w)).mono (fun _ _ => id)
      fun _ _ => And.left
  | true =>
    by_cases ha : w.device.attachment.IsReadOnly
    · unfold Ends
      rw [flush_of_clean ((hw ha).2 rfl)]
      exact ⟨hw, (hw ha).2 rfl⟩
    · exact (((Channel.stable_attachment w.device.attachment).flush w rfl).and (flush_cleans w)).mono
        (fun _ _ ht => ⟨guarded_of_attachment ha ht.1, ht.2⟩)
        fun _ _ ht => guarded_of_attachment ha ht.1

theorem Guarded.read_preserves (stream : Bytes) (offset count : ℕ) :
    Preserves (Guarded stream true) (Windowed.read offset count) := by
  intro w hw
  by_cases ha : w.device.attachment.IsReadOnly
  · have hread := ((Sealed.stable stream w.device).read offset count).and
      (read_leaves_clean offset count) w ⟨(hw ha).1, (hw ha).2 rfl⟩
    exact hread.mono (fun _ _ ht _ => ⟨ht.1.again, fun _ => ht.2⟩)
      fun _ _ ht _ => ⟨ht.1.again, fun _ => ht.2⟩
  · exact ((Channel.stable_attachment w.device.attachment).read offset count w rfl).mono
      (fun _ _ => guarded_of_attachment ha) fun _ _ => guarded_of_attachment ha

end Windowed

inductive UnitStatement where
  | connect (status : OpenStatus) (position : Position) (path : Option String) (form : Form)
    (source : SourceLine) (r : Receivers)
  | disconnect (status : CloseStatus) (source : SourceLine) (r : Receivers)
  | transfer (t : Transfer)

namespace UnitStatement

def perform : UnitStatement → Act Session Unit
  | .connect status position path form source r =>
    discard (Session.statement .connect source r (Session.openUnit status position path form))
  | .disconnect status source r =>
    discard (Session.statement .disconnect source r (Session.closeUnit status))
  | .transfer t => discard t.perform

def isOwn : UnitStatement → Bool
  | .transfer t => t.isOwn
  | _ => true

end UnitStatement

/-- A unit before its first statement. It is not connected, unless to a standard stream. -/
def ExternalUnit.IsFirst (u : ExternalUnit) : Prop :=
  ∃ number readChunk, u = .new number readChunk ∨
    ∃ descriptor utf8, u = (new number readChunk).predefine descriptor utf8

namespace Session

variable {stream : Bytes} {s t : Session} {g : Handler} {st : StatementState}

def Guarded (stream : Bytes) (s : Session) : Prop := s.channel.Guarded stream s.unit.reading

structure AtRest (stream : Bytes) (s : Session) : Prop where
  guarded : s.Guarded stream
  advancing : s.unit.connection.nonAdvancing = false

/-! ### OPEN and CLOSE -/

/-- A guarded unit in a statement that has come to nothing yet. -/
structure Resting (stream : Bytes) (g : Handler) (st : StatementState) (s : Session) : Prop where
  guarded : s.Guarded stream
  handler_eq : s.handler = g
  statement_eq : s.unit.statement = st

namespace Resting

theorem of_closed (hclosed : s.unit.isOpen = false) (hhandler : s.handler = g)
    (hstatement : s.unit.statement = st) : Resting stream g st s where
  guarded hreadOnly := absurd (hreadOnly.1.symm.trans hclosed) Bool.true_eq_false_eq_False
  handler_eq := hhandler
  statement_eq := hstatement

variable (h : Resting stream g st s)
include h

theorem flush : Attempts Session.flush s (fun _ t => Resting stream g st t)
    fun _ t => Resting stream g st t := by
  by_cases hopen : s.unit.isOpen = true
  · refine flush_of_windowed hopen
      ((windowed_attempts (Windowed.Guarded.flush_ends h.guarded)).mono ?_ ?_)
    · rintro _ _ ⟨w, ⟨hw, -⟩, rfl⟩
      exact { h with guarded := hw.flushed }
    · rintro _ _ ⟨_, w, hw, -, rfl⟩
      exact { h with guarded := hw }
  · rw [Session.flush, attempts_get, if_neg hopen]
    exact h

theorem detach (status : CloseStatus) : Attempts (attached (Channel.detach status)) s
    (fun _ t => Resting stream g st t ∧ t.unit.isOpen = false)
    fun _ t => Resting stream g st t := by
  have hclosed {d : Channel} (hd : d.attachment.backing = none) :
      (s.withChannel { s.channel with device := d }).unit.isOpen = false := by
    change d.attachment.isOpen = false
    rw [Attachment.isOpen, hd]
    rfl
  refine (attached_attempts (Channel.detach_disconnects status _)).mono ?_ ?_
  · rintro _ _ ⟨d, hd, rfl⟩
    exact ⟨.of_closed (hclosed hd) h.handler_eq h.statement_eq, hclosed hd⟩
  · rintro _ _ ⟨d, hd, rfl⟩
    exact .of_closed (hclosed hd) h.handler_eq h.statement_eq

theorem attach (hclosed : s.unit.isOpen = false) (status : OpenStatus) (position : Position)
    (name : Option String) (form : Form) : Attempts (do
        modifyConnection (·.withForm form)
        let start ← attached (Channel.attach status position name)
        modifyUnit (atFirstRecord start)) s (fun _ t => Resting stream g st t)
      fun _ t => Resting stream g st t := by
  refine Attempts.bind (modifyConnection_succeeds _).attempts ?_
  rintro _ _ rfl
  refine Attempts.bind ((attached_attempts (Channel.attach_readOnly status position name _)).mono
    (fun _ _ => id) ?_) ?_
  · rintro _ _ ⟨d, hd, rfl⟩
    exact .of_closed ((congrArg Option.isSome hd).trans hclosed) h.handler_eq h.statement_eq
  · rintro start _ ⟨d, hd, rfl⟩
    refine { h with guarded := fun hreadOnly => ?_ }
    obtain ⟨n, hn⟩ := hd hreadOnly.2
    exact ⟨.file hn (Windowed.coherent_of_clean rfl rfl rfl), nofun⟩

theorem connect (status : OpenStatus) (position : Position) (path : Option String) (form : Form) :
    Attempts (Session.connect status position path form) s (fun _ t => Resting stream g st t)
      fun _ t => Resting stream g st t := by
  refine (attempts_get _).mpr ?_
  dsimp only
  by_cases hsame : (s.unit.isOpen && decide (status = .old) &&
      path.all fun path => s.unit.attachment.path.any (Path.same path)) = true
  · rw [if_pos hsame]
    exact h
  rw [if_neg hsame]
  by_cases hopen : s.unit.isOpen = true
  · rw [if_pos hopen]
    refine Attempts.bind h.flush fun _ t ht => Attempts.bind (ht.detach .keep) fun _ u hu => ?_
    exact hu.1.attach hu.2 status position _ form
  · rw [if_neg hopen]
    exact h.attach (Bool.eq_false_iff.mpr hopen) status position _ form

theorem disconnect (status : CloseStatus) : Attempts (Session.disconnect status) s
    (fun _ t => Resting stream g st t) fun _ t => Resting stream g st t := by
  have hflush : Completes Session.flush.run s fun _ t => Resting stream g st t :=
    Ends.mono h.flush (fun r _ ht => by cases r <;> exact ht) fun _ _ => id
  refine Attempts.bind (Succeeds.lift hflush).attempts fun flushed t ht => ?_
  refine Attempts.bind (ht.detach status) ?_
  rintro _ u ⟨hu, hclosed⟩
  refine Attempts.bind (modifyUnit_succeeds _).attempts ?_
  rintro _ _ rfl
  have hrest : Resting stream g st { u with
      unit := { u.unit with window := {}, offset := 0, located := false, connection := {} } } :=
    .of_closed hclosed hu.handler_eq hu.statement_eq
  cases flushed <;> exact hrest

omit h in
theorem report {act : Attempt Session Unit} (hact : Attempts act s (fun _ t => Resting stream g st t)
    fun _ t => Resting stream g st t) :
    Ends (Session.report act) s (fun _ t => t.Guarded stream ∧ t.unit.statement = st)
      fun _ _ => True := by
  refine Ends.bind (Ends.mono hact (fun _ _ => id) fun _ _ => False.elim) fun r t hr => ?_
  cases r with
  | ok _ => exact ⟨hr.guarded, hr.statement_eq⟩
  | error f =>
    unfold Ends
    dsimp only
    cases t.handler.fault f with
    | ok handler => exact ⟨hr.guarded, hr.statement_eq⟩
    | error _ => trivial

end Resting

theorem Guarded.statement_ends (h : s.Guarded stream) {kind : StatementKind}
    (hkind : kind = .connect ∨ kind = .disconnect) (source : SourceLine) (r : Receivers)
    {work : Act Session Bool}
    (hwork : ∀ t g st, Resting stream g st t →
      Ends work t (fun _ u => u.Guarded stream ∧ u.unit.statement = st) fun _ _ => True) :
    Ends (statement kind source r work) s
      (fun _ t => AtRest stream t) fun _ _ => True := by
  have hbegin : Ends (begin_ kind source) s
      (fun _ t => t.Guarded stream ∧ t.unit.statement.isTransfer = false) fun _ _ => True := by
    rcases hkind with rfl | rfl <;> exact ⟨h, rfl⟩
  refine hbegin.bind fun _ t ht => ?_
  refine Ends.bind (P := fun _ (u : Session) => u.Guarded stream ∧ u.unit.statement.isTransfer = false)
    ht fun _ u hu => ?_
  refine (hwork u _ _ ⟨hu.1, rfl, rfl⟩).bind fun _ v hv => ?_
  have hidle : v.unit.statement.isTransfer = false := by
    rw [hv.2]
    exact hu.2
  refine ((finish_of_not_transfer hidle).mono (fun _ _ => id) fun _ _ => False.elim).bind ?_
  rintro _ _ ⟨-, rfl⟩
  exact ⟨hv.1, rfl⟩

/-! ### Transfers -/

def Conducts (stream : Bytes) (direction : Direction) : Session → Prop :=
  Kept (Windowed.Guarded stream (decide (direction = .input)))
    fun reading current _ => reading = decide (direction = .input) ∧ current = some direction

theorem Conducts.guarded {direction : Direction} (h : Conducts stream direction s) :
    s.Guarded stream := by
  unfold Guarded
  rw [h.2.1]
  exact h.1

theorem operationSteps_conducts (stream : Bytes) (direction : Direction) :
    OperationSteps True (Conducts stream direction) := by
  cases direction with
  | input =>
    refine operationSteps_of_reading (fun _ _ _ _ => fun h _ => h)
      (Windowed.Guarded.read_preserves stream) ?_ (fun _ => .flushed) fun _ _ _ => id
    exact fun w hw => hw.flush_ends.mono (fun _ _ => And.left) fun _ _ => id
  | output =>
    exact operationSteps_of_stable (fun _ _ _ _ => fun h _ => h) (Windowed.guarded_stable stream)

/-- The unit is turned around. What waits to be written, and cannot be, ends the program. -/
theorem Resting.turn {source : SourceLine} (h : Resting stream { source } st s) (reading : Bool) :
    Ends (do
      if reading ≠ (← get).unit.reading then
        noting (windowed Windowed.flush)
        modify fun s : Session => { s with unit := { s.unit with reading, located := false } }) s
      (fun _ t => t.channel.Guarded stream reading ∧ t.unit.reading = reading ∧
        t.unit.statement = st) fun _ _ => True := by
  refine (ends_get _).mpr ?_
  split_ifs with hturn
  · refine Ends.bind ((noting_ends source (windowed_attempts
      (Windowed.Guarded.flush_ends h.guarded)) ?_).success) ?_
    · rintro f _ ⟨_, w, -, -, rfl⟩
      exact h.handler_eq
    · rintro _ _ ⟨w, ⟨hw, hclean⟩, rfl⟩
      exact ⟨fun hreadOnly => ⟨(hw hreadOnly).1, fun _ => hclean⟩, rfl, h.statement_eq⟩
  · obtain rfl := not_not.mp hturn
    exact ⟨h.guarded, rfl, h.statement_eq⟩

theorem Guarded.begin_ends (h : s.Guarded stream) (t : Transfer) :
    Ends (begin_ t.kind t.source) s (fun _ u => Conducts stream t.direction u) fun _ _ => True := by
  have hkind := t.form.direction_begin t.direction
  refine Ends.bind (P := fun _ u => s.Begun t.kind t.source {} u) ⟨rfl, rfl, rfl⟩ fun _ u hu => ?_
  have hdirection : u.unit.statement.direction? = some t.direction := by
    rw [hu.unit_eq]
    exact hkind _
  have hrest : Resting stream { source := t.source } u.unit.statement u := by
    refine ⟨?_, hu.handler_eq, rfl⟩
    unfold Guarded
    rw [hu.channel_eq, hu.unit_eq]
    exact h
  have hturn (v : Session) (hv : Resting stream { source := t.source } u.unit.statement v) :=
    (hv.turn (decide (t.direction = .input))).mono (Q := fun _ w => Conducts stream t.direction w)
      (fun _ w hw => ⟨hw.1, hw.2.1, by rw [hw.2.2]; exact hdirection⟩) fun _ _ => id
  refine (ends_get _).mpr ?_
  rw [hdirection]
  refine (ends_get _).mpr ?_
  split_ifs
  · refine Ends.bind (noting_ends t.source (hrest.connect _ _ _ _)
      fun _ _ hv => hv.handler_eq).success fun _ => hturn
  · exact hturn u hrest

theorem Guarded.transfer_ends (h : s.Guarded stream) {t : Transfer} (hown : t.isOwn = true) :
    Ends t.perform s (fun _ u => AtRest stream u)
      fun _ _ => True := by
  have hsteps : OperationSteps True (Conducts stream t.direction) := operationSteps_conducts stream _
  refine (hsteps.enter_ends hown (fun _ => trivial) (h.begin_ends t)).bind fun _ u hu => ?_
  refine (hsteps.finish_ends (fun _ _ _ => trivial) hu).mono ?_ fun _ _ => id
  rintro _ _ ⟨v, hv, -, rfl⟩
  exact ⟨hv.guarded, rfl⟩

/-! ### Histories -/

theorem AtRest.of_isFirst (h : s.unit.IsFirst) : AtRest s.system.input s := by
  obtain ⟨number, readChunk, hunit | ⟨descriptor, utf8, hunit⟩⟩ := h
  · refine ⟨fun hreadOnly => ?_, by rw [hunit]; rfl⟩
    have hopen : s.unit.attachment.isOpen = true := hreadOnly.1
    rw [hunit] at hopen
    cases hopen
  · have hattachment : s.unit.attachment = .standard descriptor := by rw [hunit]; rfl
    have hwindow : s.channel.window = {} := congrArg ExternalUnit.window hunit
    refine ⟨fun hreadOnly => ?_, by rw [hunit]; rfl⟩
    have hdescriptor : descriptor = 0 := by
      have hmay : s.unit.attachment.mayWrite = false := hreadOnly.2
      simpa [hattachment, Attachment.standard] using hmay
    subst hdescriptor
    refine ⟨.input hattachment ⟨rfl, List.suffix_rfl, fun _ => ?_⟩, fun _ => by rw [hwindow]⟩
    rw [hwindow]
    exact List.suffix_rfl

theorem AtRest.statement_ends (h : AtRest stream s) {st : UnitStatement} (hown : st.isOwn = true) :
    Ends st.perform s (fun _ t => AtRest stream t) fun _ _ => True := by
  cases st with
  | connect status position path form source r =>
    exact Ends.discard_state (h.guarded.statement_ends (.inl rfl) source r
      fun _ _ _ ht => Resting.report (ht.connect status position path form))
  | disconnect status source r =>
    exact Ends.discard_state (h.guarded.statement_ends (.inr rfl) source r
      fun _ _ _ ht => Resting.report (ht.disconnect status))
  | transfer t => exact Ends.discard_state (h.guarded.transfer_ends hown)

theorem AtRest.history_ends (h : AtRest stream s) {history : List UnitStatement}
    (hown : ∀ st ∈ history, st.isOwn = true) :
    Ends (history.forM UnitStatement.perform) s (fun _ t => AtRest stream t) fun _ _ => True :=
  Ends.forM_invariant (fun st hst _ ht => ht.statement_ends (hown st hst)) h

end Session

end DataTransfer
