import DataTransfer.Proofs.Field.Simulation
import DataTransfer.Proofs.Preservation
import DataTransfer.Proofs.Storage.Flat
import DataTransfer.Statement

/-!
What statements leave alone. Whatever a statement transfers, it reaches its file only by reads, writes
and flushes through the window of its unit, so that a property which these preserve outlives all
transfers. The attachment is one: only OPEN, CLOSE and the first transfer on an unconnected unit change
it.
-/

namespace DataTransfer

namespace Windowed

variable {δ : Type} [ByteDevice δ]

structure Stable (C : Windowed δ → Prop) : Prop where
  read : ∀ offset count, Preserves C (read offset count)
  write : ∀ offset data, Preserves C (write offset data)
  flush : Preserves C flush

omit [ByteDevice δ] in
theorem onDevice_preserves {α : Type} {D : δ → Prop} {act : EStateM OsError δ α}
    (h : Preserves D act) : Preserves (fun w => D w.device) (onDevice act) := by
  intro s hs
  exact (ends_onDevice (h s.device hs)).mono (fun _ _ => And.left) fun _ _ => And.left

theorem Stable.ofDevice {D : δ → Prop}
    (hread : ∀ offset count, Preserves D (ByteDevice.readAt offset count))
    (hwrite : ∀ offset data, Preserves D (ByteDevice.writeAt offset data)) :
    Stable fun w : Windowed δ => D w.device := by
  have hflush : Preserves (fun w : Windowed δ => D w.device) Windowed.flush := by
    unfold Windowed.flush
    refine Preserves.get_bind fun s _ => ?_
    dsimp only
    split
    · exact .pure _
    · exact (onDevice_preserves (hwrite _ _)).bind fun _ => .modify fun _ h => h
  have hslide (offset : ℕ) : Preserves (fun w : Windowed δ => D w.device) (slide offset) := by
    unfold slide
    refine Preserves.get_bind fun s _ => ?_
    dsimp only
    split_ifs
    · exact hflush.bind fun _ => .modify fun _ h => h
    · exact .pure _
    · exact hflush.bind fun _ => .modify fun _ h => h
    · exact .modify fun _ h => h
    · exact .pure _
  have hreads (offset count : ℕ) :
      Preserves (fun w : Windowed δ => D w.device) (Windowed.read offset count) := by
    unfold Windowed.read
    refine (hslide offset).bind fun _ => .get_bind fun s _ => ?_
    dsimp only
    split_ifs
    · refine (onDevice_preserves (hread _ _)).bind fun _ => .bind (.modify fun _ h => h) fun _ => ?_
      exact .get_bind fun _ _ => .pure _
    · exact .get_bind fun _ _ => .pure _
  refine ⟨hreads, fun offset data => ?_, hflush⟩
  unfold Windowed.write
  refine (hslide offset).bind fun _ => .get_bind fun s _ => ?_
  dsimp only
  split_ifs
  · exact (hreads _ _).discard.bind fun _ => .modify fun _ h => h
  · exact .modify fun _ h => h

end Windowed

namespace Channel

theorem readAt_leaves_attachment (offset count : ℕ) (c : Channel) :
    Ends (readAt offset count) c (fun _ d => d.attachment = c.attachment)
      fun _ d => d.attachment = c.attachment := by
  unfold Ends readAt
  rcases c.attachment.backing with _ | ⟨ref, writable⟩ | _ | _ | _
  · rfl
  · dsimp only
    cases c.system.files.read ref offset count <;> rfl
  · rfl
  · rfl
  · rfl

theorem writeAt_leaves_attachment (offset : ℕ) (data : Bytes) (c : Channel) :
    Ends (writeAt offset data) c (fun _ d => d.attachment = c.attachment)
      fun _ d => d.attachment = c.attachment := by
  unfold Ends writeAt
  rcases c.attachment.backing with _ | ⟨ref, writable⟩ | _ | _ | _
  · rfl
  · dsimp only
    cases c.system.files.write ref writable offset data <;> rfl
  · rfl
  · rfl
  · rfl

structure Stable (C : Windowed Channel → Prop) : Prop extends Windowed.Stable C where
  flushed : ∀ w, C w → C { w with device := w.device.flushed }

theorem stable_attachment (a : Attachment) :
    Stable fun w : Windowed Channel => w.device.attachment = a where
  toStable := by
    refine .ofDevice (D := fun c : Channel => c.attachment = a) ?_ ?_
    · rintro offset count c rfl
      exact readAt_leaves_attachment offset count c
    · rintro offset data c rfl
      exact writeAt_leaves_attachment offset data c
  flushed w hw := w.device.attachment_flushed.trans hw

end Channel

/-- A change of the unit's place in its file and its record. -/
def ExternalUnit.Moves (f : ExternalUnit → ExternalUnit) : Prop :=
  ∀ u, (f u).attachment = u.attachment ∧ (f u).window = u.window ∧ (f u).statement = u.statement ∧
    (f u).reading = u.reading ∧ (f u).connection.formatted = u.connection.formatted ∧
    (f u).connection.modes = u.connection.modes ∧
    (f u).connection.nonAdvancing = u.connection.nonAdvancing

/-- A change of what is known of the unit's current record, and of the end of the file. -/
def ExternalUnit.Finds (f : ExternalUnit → ExternalUnit) : Prop :=
  ∀ u, ∃ located terminator recordLength endRecord, f u =
    { u with located, terminator, connection := { u.connection with recordLength, endRecord } }

theorem ExternalUnit.Finds.moves {f : ExternalUnit → ExternalUnit} (h : Finds f) : Moves f := by
  intro u
  obtain ⟨_, _, _, _, hu⟩ := h u
  rw [hu]
  exact ⟨rfl, rfl, rfl, rfl, rfl, rfl, rfl⟩

namespace Session

/-! ### Records -/

/-- The steps that the search for a record is made of carry `P`. -/
structure FindSteps (mayEnd : Prop) (P : Session → Prop) : Prop where
  windowRead : ∀ offset count, Attempt.Carries mayEnd P (windowed (Windowed.read offset count))
  found : ∀ f, ExternalUnit.Finds f → Attempt.Carries mayEnd P (modifyUnit f)
  endOfFile : Attempt.Carries mayEnd P signalEndOfFile

namespace FindSteps

variable {mayEnd : Prop} {P : Session → Prop} (h : FindSteps mayEnd P)
include h

theorem recordLength (recordLength : Option ℕ) :
    Attempt.Carries mayEnd P (modifyConnection fun c => { c with recordLength }) :=
  h.found _ fun u => ⟨u.located, u.terminator, recordLength, u.connection.endRecord, rfl⟩

theorem terminator (terminator : ℕ) :
    Attempt.Carries mayEnd P (modifyUnit fun u => { u with terminator }) :=
  h.found _ fun u => ⟨u.located, terminator, u.connection.recordLength, u.connection.endRecord, rfl⟩

theorem locateFormattedIn (fuel window : ℕ) :
    Attempt.Carries mayEnd P (locateFormattedIn fuel window) := by
  induction fuel generalizing window with
  | zero => exact .pure _
  | succ fuel ih =>
    have hfound (length terminator : ℕ) :
        Attempt.Carries mayEnd P (locateFormattedIn.found length terminator) :=
      .bind (h.recordLength _) fun _ => .bind (h.terminator _) fun _ => .pure _
    unfold Session.locateFormattedIn
    refine .get_bind fun s _ => (h.windowRead _ _).bind fun got => ?_
    split_ifs
    · exact .pure _
    · refine .get_bind fun t _ => ?_
      dsimp only
      split
      · exact hfound _ _
      · exact hfound _ _
      · exact ih _

theorem locateUnformatted : Attempt.Carries mayEnd P locateUnformatted := by
  refine .get_bind fun s _ => (h.windowRead _ _).bind fun got => ?_
  split_ifs
  · exact .pure _
  · exact .throw _
  · refine Attempt.Carries.bind (.get_bind fun _ _ => .pure _) fun header => ?_
    refine (h.windowRead _ _).bind fun got => ?_
    split_ifs
    · exact .throw _
    · refine Attempt.Carries.bind (.get_bind fun _ _ => .pure _) fun footer => ?_
      split_ifs
      · exact .throw _
      · exact .bind (h.recordLength _) fun _ => .pure _

theorem findRecord : Attempt.Carries mayEnd P findRecord := by
  refine .get_bind fun s _ => ?_
  dsimp only
  split
  · exact .bind (h.terminator _) fun _ => .bind (h.windowRead _ _) fun _ => .pure _
  · split_ifs
    · exact .get_bind fun t _ => h.locateFormattedIn _ _
    · exact .bind (h.recordLength _) fun _ => .pure _
    · exact h.locateUnformatted

theorem locate : Attempt.Carries mayEnd P locate := by
  refine .get_bind fun s _ => ?_
  dsimp only
  split_ifs
  · exact h.endOfFile.bind fun _ => .pure _
  · refine h.findRecord.bind fun found => ?_
    split_ifs
    · refine .bind (h.found _ fun u => ?_) fun _ => .pure _
      exact ⟨true, u.terminator, u.connection.recordLength, u.connection.endRecord, rfl⟩
    · refine .bind (h.found _ fun u => ?_) fun _ => h.endOfFile.bind fun _ => .pure _
      exact ⟨u.located, u.terminator, u.connection.recordLength, some u.connection.record, rfl⟩

theorem ensureLocated : Attempt.Carries mayEnd P ensureLocated := by
  refine .get_bind fun s _ => ?_
  split_ifs
  · exact .pure _
  · exact h.locate

end FindSteps

structure LookSteps (mayEnd : Prop) (P : Session → Prop) : Prop where
  windowRead : ∀ offset count, Attempt.Carries mayEnd P (windowed (Windowed.read offset count))
  unit : ∀ f, ExternalUnit.Moves f → Attempt.Carries mayEnd P (modifyUnit f)
  endOfFile : Attempt.Carries mayEnd P signalEndOfFile
  endOfRecord : Attempt.Carries mayEnd P signalEndOfRecord

/-- The steps that all work on records is made of carry `P`. -/
structure RecordSteps (mayEnd : Prop) (P : Session → Prop) : Prop extends LookSteps mayEnd P where
  windowWrite : ∀ offset data, Attempt.Carries mayEnd P (windowed (Windowed.write offset data))
  windowFlush : Attempt.Carries mayEnd P (windowed Windowed.flush)
  fileFlush : Attempt.Carries mayEnd P (attached (modify Channel.flushed))

namespace LookSteps

variable {mayEnd : Prop} {P : Session → Prop}

theorem crash {α : Type} {c : Prop} (text : String) (h : mayEnd ∨ ¬ c) (hc : c) :
    Attempt.Carries mayEnd P (crash text : Attempt Session α) :=
  fun _ hs => ⟨h.resolve_right (not_not_intro hc), hs⟩

theorem requireReadable (hread : mayEnd ∨ ∀ s, P s → s.unit.attachment.mayRead = true) :
    Attempt.Carries mayEnd P requireReadable := by
  refine .get_bind fun s hs => ?_
  dsimp only
  split_ifs with hc
  · exact crash _ (hread.imp_right fun h => by simp [h s hs]) hc
  · exact .pure _

theorem peek_carries
    (hwindow : ∀ offset count, Attempt.Carries mayEnd P (windowed (Windowed.read offset count)))
    (hlocate : Attempt.Carries mayEnd P Session.ensureLocated)
    (hformatted : mayEnd ∨ ∀ s, P s → s.unit.connection.formatted = true)
    (hread : mayEnd ∨ ∀ s, P s → s.unit.attachment.mayRead = true) :
    Attempt.Carries mayEnd P Session.peek := by
  refine .get_bind fun s hs => .when_bind
    (crash _ (hformatted.imp_right fun h => by simp [h s hs])) fun _ => ?_
  refine (requireReadable hread).bind fun _ => hlocate.bind fun found => ?_
  split_ifs
  · exact .pure _
  · refine .get_bind fun t _ => ?_
    dsimp only
    split_ifs
    · exact .pure _
    · refine (hwindow _ _).bind fun got => ?_
      split_ifs
      · exact .pure _
      · exact .get_bind fun _ _ => .pure _

variable (h : LookSteps mayEnd P)
include h

theorem connection {f : Connection → Connection} (hf : ∀ c, (f c).formatted = c.formatted ∧
      (f c).modes = c.modes ∧ (f c).nonAdvancing = c.nonAdvancing) :
    Attempt.Carries mayEnd P (modifyConnection f) :=
  h.unit _ fun u => ⟨rfl, rfl, rfl, rfl, hf u.connection⟩

theorem findSteps : FindSteps mayEnd P where
  windowRead := h.windowRead
  found f hf := h.unit f hf.moves
  endOfFile := h.endOfFile

theorem ensureLocated : Attempt.Carries mayEnd P ensureLocated := h.findSteps.ensureLocated

theorem passRecord : Attempt.Carries mayEnd P (do
    if ← Session.ensureLocated then
      modifyUnit fun u =>
        nextRecord { u with offset := u.offset + inputStride u, located := false }) := by
  refine h.ensureLocated.bind fun found => ?_
  split_ifs
  · exact h.unit _ fun _ => ⟨rfl, rfl, rfl, rfl, rfl, rfl, rfl⟩
  · exact .pure _

theorem advanceRecord (hreading : ∀ s, P s → s.unit.reading = true) :
    Attempt.Carries mayEnd P advanceRecord := by
  refine .get_bind fun s hs => ?_
  rw [if_pos (hreading s hs)]
  exact h.passRecord

/-! ### Transfers -/

theorem peek (hformatted : mayEnd ∨ ∀ s, P s → s.unit.connection.formatted = true)
    (hread : mayEnd ∨ ∀ s, P s → s.unit.attachment.mayRead = true) :
    Attempt.Carries mayEnd P peek :=
  peek_carries h.windowRead h.ensureLocated hformatted hread

theorem getData (count : ℕ)
    (hunformatted : mayEnd ∨ ∀ s, P s → s.unit.connection.formatted = false)
    (hread : mayEnd ∨ ∀ s, P s → s.unit.attachment.mayRead = true) :
    Attempt.Carries mayEnd P (getData count) := by
  refine .get_bind fun s hs => .when_bind
    (crash _ (hunformatted.imp_right fun h => by simp [h s hs])) fun _ => ?_
  refine (requireReadable hread).bind fun _ => h.ensureLocated.bind fun found => ?_
  split_ifs
  · exact .pure _
  · refine .get_bind fun t _ => .when_bind (fun _ => .throw _) fun _ => ?_
    refine (h.windowRead _ _).bind fun got => ?_
    split_ifs
    · exact h.endOfFile.bind fun _ => .pure _
    · exact .get_bind fun _ _ => .bind (h.connection fun _ => ⟨rfl, rfl, rfl⟩) fun _ => .pure _

theorem moveTo (column : ℕ) : Attempt.Carries mayEnd P (moveTo column) := by
  refine .get_bind fun s _ => ?_
  dsimp only
  split
  · split
    · refine .bind (h.connection fun _ => ⟨rfl, rfl, rfl⟩) fun _ => ?_
      split
      · exact h.endOfRecord
      · exact .throw _
    · exact h.connection fun _ => ⟨rfl, rfl, rfl⟩
  · exact h.connection fun _ => ⟨rfl, rfl, rfl⟩

end LookSteps

namespace RecordSteps

variable {mayEnd : Prop} {P : Session → Prop}

theorem requireWritable (hwrite : mayEnd ∨ ∀ s, P s → s.unit.attachment.mayWrite = true) :
    Attempt.Carries mayEnd P requireWritable := by
  refine .get_bind fun s hs => ?_
  dsimp only
  split_ifs with hc
  · exact LookSteps.crash _ (hwrite.imp_right fun h => by simp [h s hs]) hc
  · exact .pure _

theorem completeRecord_carries
    (hwrite : ∀ offset data, Attempt.Carries mayEnd P (windowed (Windowed.write offset data))) :
    Attempt.Carries mayEnd P completeRecord := by
  refine .get_bind fun s _ => ?_
  dsimp only
  split
  · exact .when_bind (fun _ => hwrite _ _) fun _ => .pure _
  · by_cases hformatted : s.unit.connection.formatted = true
    · rw [if_pos hformatted]
      exact (hwrite _ _).bind fun _ => .pure _
    rw [if_neg hformatted]
    by_cases hstream : s.unit.connection.access = .stream
    · rw [if_pos hstream]
      exact .pure _
    · rw [if_neg hstream]
      refine .when_bind (fun _ => .throw _) fun _ => (hwrite _ _).bind fun _ => ?_
      exact (hwrite _ _).bind fun _ => .pure _

variable (h : RecordSteps mayEnd P)
include h

theorem flush : Attempt.Carries mayEnd P flush := by
  refine .get_bind fun s _ => ?_
  split_ifs
  · exact h.windowFlush.bind fun _ => h.fileFlush
  · exact .pure _

theorem advanceRecord : Attempt.Carries mayEnd P advanceRecord := by
  refine .get_bind fun s _ => ?_
  split_ifs
  · exact h.passRecord
  · refine (completeRecord_carries h.windowWrite).bind fun stride => ?_
    refine .bind (h.unit _ fun _ => ⟨rfl, rfl, rfl, rfl, rfl, rfl, rfl⟩) fun _ => .get_bind fun t _ => ?_
    exact .when_bind (fun _ => h.flush) fun _ => h.unit _ fun _ => ⟨rfl, rfl, rfl, rfl, rfl, rfl, rfl⟩

theorem putData (data : Bytes) (houtput : mayEnd ∨ ∀ s, P s → s.unit.statement.isInput = false)
    (hwrite : mayEnd ∨ ∀ s, P s → s.unit.attachment.mayWrite = true) :
    Attempt.Carries mayEnd P (putData data) := by
  refine .get_bind fun s hs => .when_bind
    (LookSteps.crash _ (houtput.imp_right fun h => by simp [h s hs])) fun _ => ?_
  refine (requireWritable hwrite).bind fun _ => .get_bind fun t _ => ?_
  refine .when_bind (fun _ => .throw _) fun _ => .when_bind (fun _ => h.windowWrite _ _) fun _ => ?_
  exact (h.windowWrite _ _).bind fun _ => h.connection fun _ => ⟨rfl, rfl, rfl⟩

end RecordSteps

/-! ### OPEN and CLOSE -/

section

variable {mayEnd : Prop} {P : Session → Prop}

theorem connect_of_parts {status : OpenStatus} {position : Position} {form : Form}
    (hflush : Attempt.Carries mayEnd P flush)
    (hdetach : Attempt.Carries mayEnd P (attached (Channel.detach .keep)))
    (hattach : ∀ path : Option String, Attempt.Carries mayEnd P (do
      modifyConnection (·.withForm form)
      let start ← attached (Channel.attach status position path)
      modifyUnit (atFirstRecord start)))
    (path : Option String) : Attempt.Carries mayEnd P (connect status position path form) := by
  refine .get_bind fun s _ => ?_
  dsimp only
  by_cases hsame : (s.unit.isOpen && decide (status = .old) &&
      path.all fun path => s.unit.attachment.path.any (Path.same path)) = true
  · rw [if_pos hsame]
    exact .pure _
  rw [if_neg hsame]
  by_cases hopen : s.unit.isOpen = true
  · rw [if_pos hopen]
    exact hflush.bind fun _ => hdetach.bind fun _ => hattach _
  · rw [if_neg hopen]
    exact hattach _

theorem disconnect_of_parts {status : CloseStatus} (hflush : Attempt.Carries mayEnd P flush)
    (hdetach : Attempt.Carries mayEnd P (attached (Channel.detach status)))
    (hnew : Attempt.Carries mayEnd P
      (modifyUnit fun u => { u with window := {}, offset := 0, located := false, connection := {} })) :
    Attempt.Carries mayEnd P (disconnect status) := by
  have hflushed : Attempt.Carries mayEnd P
      (ExceptT.lift flush.run : Attempt Session (Except Fault Unit)) :=
    Carries.bind hflush fun _ => .pure _
  refine hflushed.bind fun flushed => hdetach.bind fun _ => hnew.bind fun _ => ?_
  cases flushed with
  | ok _ => exact .pure _
  | error f => exact .throw f

end

/-! ### Steps -/

section

/-! What does not depend on the status keeper outlives signals and reports. -/

variable {P : Session → Prop} (hP : ∀ s handler, P s → P { s with handler })
include hP

theorem modifyHandler_leaves (change : Handler → Except Crash Handler) :
    Attempt.Carries True P (modifyHandler change) := by
  intro s hs
  unfold Ends
  simp only [ExceptT.run, modifyHandler]
  cases change s.handler with
  | ok handler => exact hP s handler hs
  | error c => exact ⟨trivial, hs⟩

theorem signal_leaves (change : Handler → Except Crash Handler) :
    Preserves P (FieldSource.signal change : Act Session Unit) := by
  intro s hs
  unfold Ends FieldSource.signal
  cases change (FieldSource.handler s) with
  | ok handler => exact hP s handler hs
  | error c => exact hs

theorem report_leaves {s : Session} {act : Attempt Session Unit}
    (h : Ends act.run s (fun _ t => P t) fun _ t => P t) :
    Ends (report act) s (fun _ t => P t) fun _ t => P t := by
  refine Ends.bind h fun r t ht => ?_
  cases r with
  | ok _ => exact ht
  | error f =>
    unfold Ends
    dsimp only
    cases t.handler.fault f with
    | ok handler => exact hP t handler ht
    | error c => exact ht

end

theorem windowed_carries {mayEnd : Prop} {P : Session → Prop} {α : Type} {act : Windowed.Op Channel α}
    (h : ∀ s, P s → Ends act s.channel (fun _ w => P (s.withChannel w))
      fun _ w => P (s.withChannel w)) : Attempt.Carries mayEnd P (windowed act) := by
  intro s hs
  have hends := h s hs
  unfold Ends at hends ⊢
  simp only [ExceptT.run, windowed]
  cases hact : act s.channel <;> rwa [hact] at hends

variable {C : Windowed Channel → Prop}

theorem modify_preserves {f : Session → Session} (hf : ∀ s, (f s).channel = s.channel) :
    Preserves (fun s => C s.channel) (modify f : Act Session PUnit) := by
  refine .modify fun s hs => ?_
  rwa [hf]

theorem modifyHandler_carries (change : Handler → Except Crash Handler) :
    Attempt.Carries True (fun s => C s.channel) (modifyHandler change) :=
  modifyHandler_leaves (fun _ _ => id) change

theorem recordSteps (h : Channel.Stable C) : RecordSteps True fun s => C s.channel where
  windowRead offset count := windowed_carries fun s => h.read offset count s.channel
  windowWrite offset data := windowed_carries fun s => h.write offset data s.channel
  windowFlush := windowed_carries fun s => h.flush s.channel
  fileFlush s hs := h.flushed s.channel hs
  unit f hf := by
    intro s hs
    obtain ⟨hattachment, hwindow, -⟩ := hf s.unit
    change C ⟨⟨s.system, (f s.unit).attachment⟩, (f s.unit).window⟩
    rwa [hattachment, hwindow]
  endOfFile := modifyHandler_carries _
  endOfRecord := modifyHandler_carries _

theorem report_preserves {act : Attempt Session Unit}
    (h : Attempt.Carries True (fun s => C s.channel) act) :
    Preserves (fun s => C s.channel) (report act) :=
  fun s hs => report_leaves (fun _ _ => id) (h.preserves s hs)

theorem noting_preserves {act : Attempt Session Unit}
    (h : Attempt.Carries True (fun s => C s.channel) act) :
    Preserves (fun s => C s.channel) (noting act) :=
  (report_preserves h).discard

/-! ### Operations -/

theorem setModes_preserves (modes : Modes) : Preserves (fun s => C s.channel) (setModes modes) := by
  refine .get_bind fun s hs => ?_
  dsimp only
  split
  · exact .bind (.set hs) fun _ => .pure _
  · exact report_preserves (.throw _)

theorem setRecord_preserves (record : ℕ) :
    Preserves (fun s => C s.channel) (setRecord record) := by
  refine .get_bind fun s hs => ?_
  dsimp only
  split
  · exact report_preserves (.throw _)
  · split_ifs
    · exact report_preserves (.throw _)
    · exact .bind (.set hs) fun _ => .pure _

section

variable (h : Channel.Stable C)
include h

theorem nextChar_preserves : Preserves (fun s => C s.channel) nextChar := by
  refine Preserves.bind ((recordSteps h).peek (.inl trivial) (.inl trivial)).preserves fun found => ?_
  cases found with
  | ok _ => exact .pure _
  | error _ => exact (noting_preserves (.throw _)).bind fun _ => .pure _

theorem receive_preserves (count : ℕ) : Preserves (fun s => C s.channel) (receive count) := by
  refine Preserves.bind ((recordSteps h).getData count (.inl trivial) (.inl trivial)).preserves
    fun found => ?_
  cases found with
  | ok _ => exact .get_bind fun _ _ => .pure _
  | error _ => exact (noting_preserves (.throw _)).bind fun _ => .pure _

theorem moveRelative_preserves (n : ℤ) : Preserves (fun s => C s.channel) (moveRelative n) :=
  .get_bind fun _ _ => report_preserves ((recordSteps h).moveTo _)

theorem advance_preserves : Preserves (fun s => C s.channel) advance :=
  report_preserves (recordSteps h).advanceRecord

theorem endTransfer_preserves : Preserves (fun s => C s.channel) endTransfer := by
  have hterminal : Preserves (fun s => C s.channel) flushIfTerminal := by
    refine .get_bind fun s _ => ?_
    split_ifs
    · exact (report_preserves (recordSteps h).flush).discard
    · exact .pure _
  refine .get_bind fun s _ => ?_
  dsimp only
  split_ifs
  · exact (advance_preserves h).discard.bind fun _ => hterminal
  · exact .bind (modify_preserves fun _ => rfl) fun _ => hterminal
  · exact hterminal

theorem finish_preserves : Preserves (fun s => C s.channel) finish := by
  refine .get_bind fun s _ => .when_bind (endTransfer_preserves h) fun _ => ?_
  refine .bind (modify_preserves fun _ => rfl) fun _ => .bind (modify_preserves fun _ => rfl) fun _ => ?_
  exact .get_bind fun _ _ => .pure _

theorem turn_preserves (reading : Bool) : Preserves (fun s => C s.channel) (do
    if reading ≠ (← get).unit.reading then
      noting (windowed Windowed.flush)
      modify fun s : Session => { s with unit := { s.unit with reading, located := false } }) := by
  refine .get_bind fun s _ => ?_
  split_ifs
  · exact (noting_preserves (recordSteps h).windowFlush).bind fun _ => modify_preserves fun _ => rfl
  · exact .pure _

theorem prepare_preserves (hopen : ∀ s : Session, C s.channel → s.unit.isOpen = true)
    (kind : StatementKind) (direction : Direction) :
    Preserves (fun s => C s.channel) (prepare kind direction) := by
  refine .get_bind fun s hs => ?_
  rw [hopen s hs]
  exact turn_preserves h _

theorem begin_preserves (hopen : ∀ s : Session, C s.channel → s.unit.isOpen = true)
    (kind : StatementKind) (source : SourceLine) :
    Preserves (fun s => C s.channel) (begin_ kind source) := by
  refine .bind (modify_preserves fun _ => rfl) fun _ => .get_bind fun t _ => ?_
  cases t.unit.statement.direction? with
  | none => exact .pure _
  | some direction => exact prepare_preserves h hopen kind direction

end

/-! ### Items -/

theorem signal_preserves (change : Handler → Except Crash Handler) :
    Preserves (fun s => C s.channel) (FieldSource.signal change : Act Session Unit) :=
  signal_leaves (fun _ _ => id) change

structure InputSteps (mayEnd : Prop) (P : Session → Prop) : Prop where
  isInput : mayEnd ∨ ∀ s, P s → s.unit.statement.isInput = true
  count : ∀ s, P s → P { s with items := s.items + 1 }
  nextChar : Carries mayEnd P nextChar
  moveRelative : ∀ n, Carries mayEnd P (moveRelative n)
  advance : Carries mayEnd P advance
  endOfRecord : Carries mayEnd P (FieldSource.signalEndOfRecord : Act Session Unit)
  fault : ∀ f, Carries mayEnd P (FieldSource.signalFault f : Act Session Unit)

section

variable {mayEnd : Prop} {P : Session → Prop}

namespace InputSteps

variable (h : InputSteps mayEnd P)
include h

theorem alike : FieldSource.Alike (fun s t : Session => s = t ∧ P s) mayEnd where
  current := h.nextChar.simulates
  moveBy n := (h.moveRelative n).discard.simulates
  endOfRecord := h.endOfRecord.simulates
  crash text hend := Carries.simulates fun _ hs => ⟨hend, hs⟩
  pastFixedRecord := by
    rintro s _ ⟨rfl, -⟩
    rfl
  nonAdvancing := by
    rintro s _ ⟨rfl, -⟩
    rfl
  measured := by
    left
    rintro s _ ⟨rfl, -⟩
    rfl

theorem skipBlanks : Carries mayEnd P (Field.skipBlanks : Act Session Unit) :=
  .of_simulates h.alike.skipBlanks

theorem seekValueIn (fuel : ℕ) : Carries mayEnd P (seekValueIn fuel) := by
  induction fuel with
  | zero => exact .pure _
  | succ fuel ih =>
    refine h.skipBlanks.bind fun _ => h.nextChar.bind fun ch => .get_bind fun s _ => ?_
    split_ifs
    · refine h.advance.bind fun more => ?_
      split_ifs
      · exact ih
      · exact .pure _
    · exact .pure _

theorem beginListItem (modes : Modes) : Carries mayEnd P (beginListItem modes) := by
  have hseek : Carries mayEnd P (do Session.seekValueIn ((← get).reach + 2)) :=
    .get_bind fun _ _ => h.seekValueIn _
  refine .get_bind fun s _ => ?_
  split
  · refine h.skipBlanks.bind fun _ => h.nextChar.bind fun ch => ?_
    exact .when_bind (fun _ => (h.moveRelative 1).discard) fun _ => hseek
  · exact hseek

theorem item {α : Type} {act : Attempt Session α} (hact : Carries mayEnd P act.run) :
    Carries mayEnd P (do
      modify fun s : Session => { s with items := s.items + 1 }
      match ← act.run with
      | .ok a => return if (← get).handler.status = .ok then some a else none
      | .error f =>
        FieldSource.signalFault f
        return none) := by
  refine .bind (.modify h.count) fun _ => hact.bind fun r => ?_
  cases r with
  | ok a => exact .get_bind fun _ _ => .pure _
  | error f => exact (h.fault f).bind fun _ => .pure _

theorem inputItem {α : Type} (edit : DataEdit) {act : Attempt Session α}
    (hact : Carries mayEnd P act.run) : Carries mayEnd P (inputItem edit act) := by
  have hitem := h.item hact
  refine .get_bind fun s hs => .when_bind (fun hother _ ht => ?_) fun _ => ?_
  · refine ⟨h.isInput.resolve_right fun hinput => ?_, ht⟩
    rw [hinput s hs] at hother
    exact Bool.false_ne_true hother
  dsimp only
  split_ifs
  · exact .pure _
  · refine (h.beginListItem _).bind fun _ => .get_bind fun t _ => ?_
    split_ifs
    · exact .pure _
    · exact hitem
  · exact hitem

theorem inputInteger (edit : DataEdit) {kind : ℕ}
    (hkind : (IntegerKind.ofBytes? kind).isSome = true ∨ mayEnd) :
    Carries mayEnd P (inputInteger edit kind) :=
  h.inputItem edit (.of_simulates (h.alike.editInteger edit hkind))

theorem inputReal (edit : DataEdit) {kind : ℕ}
    (hkind : (Precision.ofKind? kind).isSome = true ∨ mayEnd) :
    Carries mayEnd P (inputReal edit kind) :=
  h.inputItem edit (.of_simulates (h.alike.editRealKind edit hkind))

end InputSteps

variable (hcount : ∀ s, P s → P { s with items := s.items + 1 })
include hcount

theorem outputBlock_carries {data : Bytes} (hemit : Carries mayEnd P (emit data)) :
    Carries mayEnd P (outputBlock data) := by
  refine .get_bind fun s _ => ?_
  split_ifs
  · exact .pure _
  · exact .bind (.modify hcount) fun _ => hemit

theorem outputBytes_carries (hemit : ∀ data, Carries mayEnd P (emit data)) (data : Bytes) :
    Carries mayEnd P (outputBytes data) := by
  have hitem : Carries mayEnd P (do
      modify fun s : Session => { s with items := s.items + 1 }
      emit data) :=
    .bind (.modify hcount) fun _ => hemit data
  refine .get_bind fun s _ => ?_
  split_ifs
  · exact .pure _
  · refine (hemit [blank]).bind fun ok => ?_
    split_ifs
    · exact .pure _
    · exact hitem
  · exact hitem

theorem inputBlock_carries {count : ℕ} (hreceive : Carries mayEnd P (receive count)) :
    Carries mayEnd P (inputBlock count) := by
  refine .get_bind fun s _ => ?_
  split_ifs
  · exact .pure _
  · exact .bind (.modify hcount) fun _ => hreceive

end

section

variable (h : Channel.Stable C)
include h

theorem inputSteps : InputSteps True fun s => C s.channel where
  isInput := .inl trivial
  count _ hs := hs
  nextChar := (nextChar_preserves h).carries
  moveRelative n := (moveRelative_preserves h n).carries
  advance := (advance_preserves h).carries
  endOfRecord := (signal_preserves _).carries
  fault _ := (signal_preserves _).carries

theorem inputInteger_preserves (edit : DataEdit) (kind : ℕ) :
    Preserves (fun s => C s.channel) (inputInteger edit kind) :=
  ((inputSteps h).inputInteger edit (.inr trivial)).preserves

theorem inputReal_preserves (edit : DataEdit) (kind : ℕ) :
    Preserves (fun s => C s.channel) (inputReal edit kind) :=
  ((inputSteps h).inputReal edit (.inr trivial)).preserves

theorem emit_preserves (data : Bytes) : Preserves (fun s => C s.channel) (emit data) :=
  report_preserves ((recordSteps h).putData data (.inl trivial) (.inl trivial))

theorem outputBlock_preserves (data : Bytes) :
    Preserves (fun s => C s.channel) (outputBlock data) :=
  (outputBlock_carries (fun _ hs => hs) (emit_preserves h data).carries).preserves

theorem outputBytes_preserves (data : Bytes) :
    Preserves (fun s => C s.channel) (outputBytes data) :=
  (outputBytes_carries (fun _ hs => hs) (fun data => (emit_preserves h data).carries) data).preserves

theorem inputBlock_preserves (count : ℕ) :
    Preserves (fun s => C s.channel) (inputBlock count) :=
  (inputBlock_carries (fun _ hs => hs) (receive_preserves h count).carries).preserves

end

end Session

end DataTransfer
