import DataTransfer.Proofs.Unit.Spared
import DataTransfer.Proofs.Unit.SplitOutput
import DataTransfer.Proofs.Unit.Steps
import Mathlib.Algebra.Group.Int.Defs

/-!
The left tab limit. WRITEs that do not advance leave their data in the record, and the limit behind it.
What later WRITEs do with the record happens at or behind the columns that their moves can reach, and
leaves alone all that lies before them.
-/

namespace DataTransfer

/-- The unit puts nothing before the file offset `stop`, as long as its cursor stays within `margin`
columns of the left tab limit. -/
structure ExternalUnit.Clears (stop margin : ℕ) (u : ExternalUnit) : Prop where
  isOpen_eq : u.isOpen = true
  formatted_eq : u.connection.formatted = true
  reading_eq : u.reading = false
  stop_le : stop ≤ u.offset + (u.connection.tabFloor - margin)
  limit_le : u.connection.tabFloor ≤ u.connection.furthest
  limit_le_position : u.connection.tabFloor ≤ u.connection.position + margin
  within : ∀ length ∈ u.connection.fixedRecordLength, u.connection.furthest ≤ length

/-- An output record that nothing has been put into. -/
structure ExternalUnit.AtEmptyRecord (u : ExternalUnit) : Prop where
  isOpen_eq : u.isOpen = true
  formatted_eq : u.connection.formatted = true
  furthest_eq : u.connection.furthest = 0
  leftTabLimit_eq : u.connection.leftTabLimit = none

namespace Session

/-- The unit puts nothing before `stop`, and nothing that lies there has changed since `v`. -/
structure Confined (stop margin : ℕ) (v : Windowed Channel) (s : Session) : Prop
    extends s.unit.Clears stop margin where
  spares : v.Spares stop s.channel

variable {stop margin : ℕ} {v : Windowed Channel} {s : Session}

theorem confined_of_clears (h : s.unit.Clears stop margin) : s.Confined stop margin s.channel :=
  ⟨h, .refl stop _⟩

namespace Confined

theorem withChannel (h : s.Confined stop margin v) {w : Windowed Channel}
    (hw : s.channel.Spares stop w) : (s.withChannel w).Confined stop margin v :=
  { h with
    isOpen_eq := (congrArg Attachment.isOpen hw.attachment_eq).trans h.isOpen_eq
    spares := h.spares.trans hw }

theorem windowed_attempts {α : Type} {act : Windowed.Op Channel α} (h : s.Confined stop margin v)
    (hact : Ends act s.channel (fun _ w => s.channel.Spares stop w)
      fun _ w => s.channel.Spares stop w) :
    Attempts (windowed act) s
      (fun _ t => ∃ w, (s.withChannel w).Confined stop margin v ∧ t = s.withChannel w)
      fun _ t => t.Confined stop margin v := by
  refine (Session.windowed_attempts hact).mono ?_ ?_
  · rintro _ _ ⟨w, hw, rfl⟩
    exact ⟨w, h.withChannel hw, rfl⟩
  · rintro _ _ ⟨_, w, hw, -, rfl⟩
    exact h.withChannel hw

theorem write_attempts (h : s.Confined stop margin v) {offset : ℕ} (hstop : stop ≤ offset)
    (data : Bytes) : Attempts (windowed (Windowed.write offset data)) s
      (fun _ t => ∃ w, (s.withChannel w).Confined stop margin v ∧ t = s.withChannel w)
      fun _ t => t.Confined stop margin v :=
  h.windowed_attempts (Windowed.write_spares hstop data _)

theorem flush_attempts (h : s.Confined stop margin v) : Attempts flush s
    (fun _ t => ∃ w, (s.withChannel w).Confined stop margin v ∧ t = s.withChannel w)
    fun _ t => t.Confined stop margin v := by
  refine flush_of_windowed h.isOpen_eq ((h.windowed_attempts (Windowed.flush_spares stop _)).mono ?_
    fun _ _ => id)
  rintro _ _ ⟨w, hw, rfl⟩
  exact ⟨{ w with device := w.device.flushed }, hw.withChannel (Windowed.flushed_spares stop w), rfl⟩

theorem stop_le_furthest (h : s.Confined stop margin v) :
    stop ≤ s.unit.offset + s.unit.connection.furthest := by
  have := h.stop_le
  have := h.limit_le
  omega

theorem stop_le_position (h : s.Confined stop margin v) :
    stop ≤ s.unit.offset + s.unit.connection.position := by
  have := h.stop_le
  have := h.limit_le_position
  omega

theorem moved (h : s.Confined stop margin v) {column : ℕ}
    (hcolumn : s.unit.connection.tabFloor ≤ column + margin) :
    ({ s with unit := s.unit.setConnection fun c => { c with position := column } } :
      Session).Confined stop margin v :=
  { h with limit_le_position := hcolumn }

/-- The limit goes up to the furthest column. -/
theorem limited (h : s.Confined stop margin v) :
    ({ s with unit := s.unit.setConnection fun c =>
      { c with leftTabLimit := some c.furthest, position := c.furthest } } :
        Session).Confined stop margin v :=
  { h with
    stop_le := by
      have hstop := h.stop_le
      have hlimit := h.limit_le
      change stop ≤ s.unit.offset + (s.unit.connection.furthest - margin)
      omega
    limit_le := le_rfl
    limit_le_position := Nat.le_add_right _ _ }

/-! ### Operations -/

theorem withHandler (s : Session) (handler : Handler) (h : s.Confined stop margin v) :
    ({ s with handler } : Session).Confined stop margin v := { h with }

theorem report_ends {act : Attempt Session Unit} (hact : Ends act.run s
    (fun _ t => t.Confined stop margin v) fun _ t => t.Confined stop margin v) :
    Ends (report act) s (fun _ t => t.Confined stop margin v)
      fun _ t => t.Confined stop margin v :=
  report_leaves withHandler hact

theorem report {act : Attempt Session Unit} (hact : Attempt.Carries True (Confined stop margin v) act) :
    Preserves (Confined stop margin v) (report act) :=
  fun s hs => report_ends (hact.preserves s hs)

theorem carries_of_attempts {act : Attempt Session Unit}
    (hact : ∀ s, s.Confined stop margin v →
      Attempts act s (fun _ t => t.Confined stop margin v) fun _ t => t.Confined stop margin v) :
    Attempt.Carries True (Confined stop margin v) act := by
  intro s hs
  refine Ends.mono (hact s hs) ?_ fun _ _ => False.elim
  rintro (_ | _) _ ht <;> exact ht

theorem overlay_attempts (h : s.Confined stop margin v) (data : Bytes)
    (hfits : ∀ length ∈ s.unit.connection.fixedRecordLength,
      max s.unit.connection.furthest (s.unit.connection.position + data.length) ≤ length) :
    Attempts (do
        windowed (Windowed.write (s.unit.offset + s.unit.connection.position) data)
        modifyConnection fun c =>
          { c with
            position := s.unit.connection.position + data.length
            furthest := max s.unit.connection.furthest (s.unit.connection.position + data.length) }) s
      (fun _ t => t.Confined stop margin v) fun _ t => t.Confined stop margin v := by
  refine (h.write_attempts h.stop_le_position data).bind ?_
  rintro _ _ ⟨w, hw, rfl⟩
  refine (modifyConnection_succeeds _).attempts.mono ?_ fun _ _ => id
  rintro _ _ rfl
  have hlimit := hw.limit_le
  have hposition := hw.limit_le_position
  exact { hw with
    limit_le := hlimit.trans (le_max_left _ _)
    limit_le_position := by
      change s.unit.connection.tabFloor ≤ s.unit.connection.position + margin at hposition
      change s.unit.connection.tabFloor ≤ s.unit.connection.position + data.length + margin
      omega
    within := hfits }

theorem putData (data : Bytes) :
    Attempt.Carries True (Confined stop margin v) (putData data) := by
  refine .get_bind fun _ _ => .when_bind (fun _ _ ht => ⟨trivial, ht⟩) fun _ => ?_
  refine Attempt.Carries.bind (.get_bind fun _ _ => ?_) fun _ => carries_of_attempts fun s h => ?_
  · dsimp only
    split_ifs
    · exact fun _ ht => ⟨trivial, ht⟩
    · exact .pure _
  refine (attempts_get _).mpr ?_
  dsimp only
  rw [ExternalUnit.dataOffset_of_formatted h.formatted_eq]
  split_ifs with hover hgap hgap
  · exact h
  · exact h
  all_goals
    have hfits : ∀ length ∈ s.unit.connection.fixedRecordLength,
        max s.unit.connection.furthest (s.unit.connection.position + data.length) ≤ length := by
      intro length hlength
      rw [Option.mem_def] at hlength
      simpa [hlength] using hover
  -- The gap before the cursor is filled, which starts behind everything that was put.
  · refine (h.write_attempts h.stop_le_furthest _).bind ?_
    rintro _ _ ⟨w, hw, rfl⟩
    exact hw.overlay_attempts data hfits
  · exact h.overlay_attempts data hfits

theorem moveTo_ends (h : s.Confined stop margin v) {column : ℕ}
    (hcolumn : s.unit.connection.tabFloor ≤ column + margin) :
    Ends (moveTo column).run s (fun _ t => t.Confined stop margin v)
      fun _ t => t.Confined stop margin v := by
  refine (Ends.attempt_get _).mpr ?_
  dsimp only
  cases hlength : s.unit.connection.fixedRecordLength with
  | none => exact h.moved hcolumn
  | some length =>
    dsimp only
    by_cases hover : length < column
    -- The end of the record, where the cursor stops, is behind the limit.
    · have hparked := h.moved
        ((h.limit_le.trans (h.within length hlength)).trans (Nat.le_add_right length margin))
      rw [if_pos hover]
      refine Ends.attempt_bind
        (P := fun (_ : Except Fault Unit) (t : Session) => t.Confined stop margin v) hparked
        (fun _ t ht => ?_) fun _ _ => id
      split
      · exact (modifyHandler_leaves withHandler Handler.endOfRecord t ht).mono (fun _ _ => id)
          fun _ _ => And.right
      · exact ht
    · rw [if_neg hover]
      exact h.moved hcolumn

/-- What completes a record stands behind all that was put into it, and the record takes no less. -/
theorem completeRecord_attempts (h : s.Confined stop margin v) : Attempts completeRecord s
    (fun stride t => t.Confined stop margin v ∧ t.unit.connection.furthest ≤ stride)
    fun _ t => t.Confined stop margin v := by
  have hwrite (data : Bytes) {stride : ℕ} (hstride : s.unit.connection.furthest ≤ stride) :
      Attempts (do
          windowed (Windowed.write (s.unit.offset + s.unit.connection.furthest) data)
          return stride) s
        (fun stride t => t.Confined stop margin v ∧ t.unit.connection.furthest ≤ stride)
        fun _ t => t.Confined stop margin v := by
    refine (h.write_attempts h.stop_le_furthest data).bind ?_
    rintro _ _ ⟨w, hw, rfl⟩
    exact ⟨hw, hstride⟩
  refine (attempts_get _).mpr ?_
  dsimp only
  cases hlength : s.unit.connection.fixedRecordLength with
  | some length =>
    dsimp only
    split_ifs
    · exact hwrite _ (h.within length hlength)
    · exact ⟨h, h.within length hlength⟩
  | none =>
    dsimp only
    rw [if_pos h.formatted_eq]
    exact hwrite _ (Nat.le_succ _)

theorem next (h : s.Confined stop margin v) (hstop : stop ≤ s.unit.offset) :
    ({ s with unit := nextRecord s.unit } : Session).Confined stop margin v :=
  { h with
    stop_le := hstop.trans (Nat.le_add_right _ _)
    limit_le := le_rfl
    limit_le_position := Nat.zero_le _
    within := fun _ _ => Nat.zero_le _ }

theorem advanceRecord : Attempt.Carries True (Confined stop margin v) advanceRecord := by
  refine carries_of_attempts fun s h => (attempts_get _).mpr ?_
  rw [if_neg (by rw [h.reading_eq]; exact Bool.false_ne_true)]
  refine h.completeRecord_attempts.bind ?_
  rintro stride t ⟨ht, hstride⟩
  have hstop : stop ≤ t.unit.offset + stride := by
    have := ht.stop_le_furthest
    omega
  have hpassed : ({ t with unit := { t.unit with offset := t.unit.offset + stride } } :
      Session).Confined stop margin v :=
    { ht with stop_le := hstop.trans (Nat.le_add_right _ _) }
  refine (modifyUnit_succeeds _).attempts.bind ?_
  rintro _ _ rfl
  refine (attempts_get _).mpr ?_
  split_ifs
  · refine hpassed.flush_attempts.bind ?_
    rintro _ _ ⟨w, hw, rfl⟩
    exact hw.next hstop
  · exact hpassed.next hstop

theorem flush : Attempt.Carries True (Confined stop margin v) flush := by
  refine carries_of_attempts fun s h => h.flush_attempts.mono ?_ fun _ _ => id
  rintro _ _ ⟨w, hw, rfl⟩
  exact hw

end Confined

end Session

/-! ### Steps of WRITEs -/

/-- A move to a column leads no more than `margin` columns to the left of the left tab limit, and the
column that a move starts from or leads to does not overflow. -/
def Move.staysWithin (margin : ℕ) (u : ExternalUnit) : Move → Bool
  | .absolute n => -(margin : ℤ) ≤ n ∧ u.connection.tabFloor + n < 2 ^ 63
  | .relative _ => u.connection.tabFloor < 2 ^ 63

/-- A move by columns does not pass the limit at all. -/
theorem Session.Confined.move {stop margin : ℕ} {v : Windowed Channel} {s : Session}
    (h : s.Confined stop margin v) {m : Move} (hm : m.staysWithin margin s.unit = true) :
    Ends (move m) s (fun _ t => t.Confined stop margin v) fun _ t => t.Confined stop margin v := by
  refine (ends_get _).mpr (report_ends (h.moveTo_ends ?_))
  cases m with
  | absolute n =>
    obtain ⟨hn, hsum⟩ := of_decide_eq_true hm
    rw [Connection.target]
    -- A margin that takes the sum below the range allows every column.
    by_cases hlow : -2 ^ 63 ≤ s.unit.connection.tabFloor + n
    · rw [Connection.shifted_of_lt hlow hsum]
      omega
    · omega
  | relative n =>
    have hlimit : s.unit.connection.tabFloor < 2 ^ 63 := of_decide_eq_true hm
    rw [Connection.target, Connection.shifted_zero hlimit]
    omega

def Operation.staysWithin (margin : ℕ) (u : ExternalUnit) : Operation → Bool
  | .call (.move m) => m.staysWithin margin u
  | .call .char | .receive _ | .record _ | .elsewhere _ => false
  | _ => true

/-- What a program does with a unit that it writes to: it begins WRITEs, works on them and ends them. -/
inductive WriteStep where
  | begin_ (kind : StatementKind) (source : SourceLine) (receivers : Receivers)
  | operation (op : Operation)
  | finish

namespace WriteStep

def perform : WriteStep → Act Session Unit
  | begin_ kind source receivers => Session.beginWith kind source receivers
  | operation op => op.perform
  | finish => discard Session.finish

def staysWithin (margin : ℕ) (u : ExternalUnit) : WriteStep → Bool
  | begin_ kind _ _ => kind.isWrite
  | operation op => op.staysWithin margin u
  | finish => true

def stayWithin (margin : ℕ) : List WriteStep → Session → Bool
  | [], _ => true
  | step :: steps, s =>
    step.staysWithin margin s.unit &&
      match step.perform s with
      | .ok _ t => stayWithin margin steps t
      | .error _ _ => true

theorem stayWithin_cons {margin : ℕ} {step : WriteStep} {steps : List WriteStep} {s : Session}
    (h : stayWithin margin (step :: steps) s = true) : step.staysWithin margin s.unit = true ∧
      Ends step.perform s (fun _ t => stayWithin margin steps t = true) fun _ _ => True := by
  obtain ⟨hstep, hrest⟩ := (Bool.and_eq_true _ _).mp h
  refine ⟨hstep, ?_⟩
  unfold Ends
  cases hrun : step.perform s with
  | ok _ t =>
    rw [hrun] at hrest
    exact hrest
  | error _ _ => trivial

end WriteStep

namespace Session.Confined

variable {stop margin : ℕ} {v : Windowed Channel} {s : Session}

theorem flushIfTerminal : Preserves (Confined stop margin v) flushIfTerminal := by
  refine .get_bind fun s _ => ?_
  split_ifs
  · exact (report flush).discard
  · exact .pure _

theorem setModes (m : Modes) : Preserves (Confined stop margin v) (setModes m) := by
  refine .get_bind fun s h => ?_
  dsimp only
  split
  · exact .bind (.set { h with }) fun _ => .pure _
  · exact report (.throw _)

theorem call (h : s.Confined stop margin v) {c : RecordCall true true true}
    (hc : (Operation.call c).staysWithin margin s.unit = true) :
    Ends (call c) s (fun _ t => t.Confined stop margin v) fun _ t => t.Confined stop margin v := by
  cases c with
  | char => cases hc
  | emit data => exact (report (putData data)).bind (fun _ => .pure _) s h
  | move m => exact (h.move hc).bind fun _ _ => id
  | advance => exact (report advanceRecord).bind (fun _ => .pure _) s h

theorem operation (h : s.Confined stop margin v) {op : Operation}
    (hop : op.staysWithin margin s.unit = true) :
    Ends op.perform s (fun _ t => t.Confined stop margin v) fun _ t => t.Confined stop margin v := by
  cases op with
  | call c => exact (h.call hop).discard_state
  | flush => exact (report flush).discard s h
  | flushIfTerminal => exact flushIfTerminal s h
  | leftTabLimit => exact h.limited
  | nonAdvancing yes => exact { h with }
  | modes m => exact (setModes m).discard s h
  | receivers r => exact { h with }
  | item => exact { h with }
  | endOfRecord => exact signal_leaves withHandler _ s h
  | fault f => exact signal_leaves withHandler (fun h => h.fault f) s h
  | receive count => cases hop
  | record number => cases hop
  | elsewhere system => cases hop

theorem finish : Preserves (Confined stop margin v) finish := by
  have hend : Preserves (Confined stop margin v) endTransfer := by
    refine .get_bind fun s _ => ?_
    dsimp only
    split_ifs
    · exact (report advanceRecord).discard.bind fun _ => flushIfTerminal
    · exact .bind (.modify fun s h => h.limited) fun _ => flushIfTerminal
    · exact flushIfTerminal
  refine .get_bind fun s _ => .when_bind hend fun _ => ?_
  refine .bind (.modify fun s h => { h with }) fun _ => .bind (.modify fun s h => { h with }) fun _ => ?_
  exact .get_bind fun _ _ => .pure _

theorem begin_ (h : s.Confined stop margin v) {kind : StatementKind} (hkind : kind.isWrite = true)
    (source : SourceLine) (r : Receivers) : Ends (beginWith kind source r) s
      (fun _ t => t.Confined stop margin v) fun _ t => t.Confined stop margin v := by
  refine (begin_completes_of_output hkind h.isOpen_eq h.reading_eq source r).mono ?_
    fun _ _ => False.elim
  intro _ t ht
  refine ⟨?_, ?_⟩
  · rw [ht.unit_eq]
    exact { h.toClears with }
  · rw [ht.channel_eq]
    exact h.spares

theorem step (h : s.Confined stop margin v) {step : WriteStep}
    (hstep : step.staysWithin margin s.unit = true) :
    Ends step.perform s (fun _ t => t.Confined stop margin v)
      fun _ t => t.Confined stop margin v := by
  cases step with
  | begin_ kind source receivers => exact h.begin_ hstep source receivers
  | operation op => exact h.operation hstep
  | finish => exact finish.discard s h

theorem steps (h : s.Confined stop margin v) {steps : List WriteStep}
    (hsteps : WriteStep.stayWithin margin steps s = true) : Ends (steps.forM WriteStep.perform) s
      (fun _ t => t.Confined stop margin v) fun _ t => t.Confined stop margin v := by
  induction steps generalizing s with
  | nil => exact h
  | cons step steps ih =>
    obtain ⟨hstep, hrest⟩ := WriteStep.stayWithin_cons hsteps
    have hboth := (h.step hstep).and hrest
    refine (hboth.mono (fun _ _ => id) fun _ _ => And.left).bind ?_
    rintro _ t ⟨ht, hlater⟩
    exact ih ht hlater

end Session.Confined

/-! ### The first WRITE, and the end of one -/

/-- All that the record of `u` holds stands before the left tab limit, and the cursor is there. -/
structure ExternalUnit.Limits (u t : ExternalUnit) : Prop where
  offset_eq : t.offset = u.offset
  furthest_eq : t.connection.furthest = u.connection.furthest
  leftTabLimit_eq : t.connection.leftTabLimit = some u.connection.furthest
  position_eq : t.connection.position = u.connection.furthest

theorem ExternalUnit.AtEmptyRecord.clears {u t : ExternalUnit} (h : u.AtEmptyRecord) (margin : ℕ)
    (hconnection : t.connection = u.connection) (hopen : t.isOpen = true) (hreading : t.reading = false) :
    t.Clears 0 margin := by
  have hlimit : t.connection.tabFloor = 0 := by
    rw [hconnection, Connection.tabFloor, h.leftTabLimit_eq]
    rfl
  refine ⟨hopen, ?_, hreading, Nat.zero_le _, by omega, by omega, fun length _ => ?_⟩
  · rw [hconnection]
    exact h.formatted_eq
  · rw [hconnection, h.furthest_eq]
    exact Nat.zero_le _

namespace Session

variable {s : Session}

theorem begin_clears (h : s.unit.AtEmptyRecord) {kind : StatementKind} (hkind : kind.isWrite = true)
    (source : SourceLine) (r : Receivers) (margin : ℕ) :
    Ends (beginWith kind source r) s (fun _ t => t.unit.Clears 0 margin)
      fun _ t => t.unit.connection = s.unit.connection := by
  refine Ends.bind (P := fun _ t => t.unit.Clears 0 margin) ?_ fun _ t ht => { ht with }
  refine Ends.bind (P := fun _ t => s.Begun kind source {} t) ⟨rfl, rfl, rfl⟩ fun _ t ht => ?_
  have hconnection : t.unit.connection = s.unit.connection := by rw [ht.unit_eq]
  have hopen : t.unit.isOpen = true := by
    rw [ht.unit_eq]
    exact h.isOpen_eq
  have hdirection : t.unit.statement.direction? = some .output := by
    rw [ht.unit_eq]
    exact StatementKind.direction_of_isWrite hkind _
  refine (ends_get _).mpr ?_
  rw [hdirection]
  refine (ends_get _).mpr ?_
  rw [hopen]
  refine (ends_get _).mpr ?_
  by_cases hturn : decide (Direction.output = .input) ≠ t.unit.reading
  · rw [if_pos hturn]
    have hflush := windowed_attempts
      ((Channel.stable_attachment t.unit.attachment).flush t.channel rfl)
    have hnoted : Ends (noting (windowed Windowed.flush)) t
        (fun _ u => u.unit.connection = s.unit.connection ∧ u.unit.isOpen = true)
        fun _ u => u.unit.connection = s.unit.connection ∧ u.unit.isOpen = true := by
      refine (report_unit_ends (P := fun u => u.connection = s.unit.connection ∧ u.isOpen = true)
        (hflush.mono ?_ ?_)).discard_state
      · rintro _ _ ⟨w, hw, rfl⟩
        exact ⟨hconnection, (congrArg Attachment.isOpen hw).trans hopen⟩
      · rintro _ _ ⟨_, w, hw, -, rfl⟩
        exact ⟨hconnection, (congrArg Attachment.isOpen hw).trans hopen⟩
    refine (hnoted.mono (fun _ _ => id) fun _ _ => And.left).bind ?_
    rintro _ u ⟨hconnection, hopen⟩
    exact h.clears margin hconnection hopen rfl
  · rw [if_neg hturn]
    exact h.clears margin hconnection hopen (not_not.mp hturn).symm

theorem finish_limits (houtput : s.unit.statement.isOutput = true)
    (hnonAdvancing : s.unit.connection.nonAdvancing = true) :
    Ends finish s (fun _ t => s.unit.Limits t.unit) fun _ t => s.unit.Limits t.unit := by
  have hdirection : s.unit.statement.direction? = some .output := of_decide_eq_true houtput
  have htransfer : s.unit.statement.isTransfer = true := by
    rw [StatementState.isTransfer, hdirection]
    rfl
  have hinput : s.unit.statement.isInput = false := by
    rw [StatementState.isInput, hdirection]
    rfl
  have hend : Ends endTransfer s (fun _ t => s.unit.Limits t.unit)
      fun _ t => s.unit.Limits t.unit := by
    refine (ends_get _).mpr ?_
    dsimp only
    rw [hinput, houtput, hnonAdvancing, if_neg (by simp), if_pos rfl]
    refine (ends_modify_bind _ _).mpr ((ends_get _).mpr ?_)
    split_ifs
    · refine (report_unit_ends (P := s.unit.Limits) (flush_attempts.mono ?_ ?_)).discard_state
      all_goals
        rintro _ _ ⟨w, rfl, -⟩
        exact ⟨rfl, rfl, rfl, rfl⟩
    · exact ⟨rfl, rfl, rfl, rfl⟩
  unfold Ends
  rw [finish_eq htransfer]
  exact hend.bind fun _ t ht => { ht with }

/-- Where a unit is at an empty formatted record, it is written to by WRITEs whose moves to a column lead
no more than `margin` columns to the left of the left tab limit; moves by columns may be any. The
cursor is then never further to the left than that. A WRITE that does not advance sets the limit behind
all that its record holds, and nothing that is done from then on changes what lies more than `margin`
columns before the limit, in a file or in what goes to an output stream. -/
theorem tab_limit_protects (h : s.unit.AtEmptyRecord) {kind : StatementKind}
    (hkind : kind.isWrite = true) (source : SourceLine) (r : Receivers) (margin : ℕ)
    {past : List WriteStep}
    (hpast : ∀ t, beginWith kind source r s = .ok ⟨⟩ t → WriteStep.stayWithin margin past t = true) :
    Ends (do
        beginWith kind source r
        past.forM WriteStep.perform) s
      (fun _ t => t.unit.connection.tabFloor ≤ t.unit.connection.position + margin ∧
        (t.unit.statement.isOutput = true → t.unit.connection.nonAdvancing = true →
          Ends finish t (fun _ u => t.unit.Limits u.unit) fun _ u => t.unit.Limits u.unit) ∧
        ∀ later, WriteStep.stayWithin margin later t = true → Ends (later.forM WriteStep.perform) t
          (fun _ u => u.unit.connection.tabFloor ≤ u.unit.connection.position + margin ∧
            t.channel.Spares (t.unit.offset + (t.unit.connection.tabFloor - margin)) u.channel)
          fun _ u => u.unit.connection.tabFloor ≤ u.unit.connection.position + margin ∧
            t.channel.Spares (t.unit.offset + (t.unit.connection.tabFloor - margin)) u.channel)
      fun _ t => t.unit.connection.tabFloor ≤ t.unit.connection.position + margin := by
  have hbegin := (begin_clears h hkind source r margin).and (.runs _ s)
  refine (hbegin.mono (fun _ _ => id) ?_).bind ?_
  · rintro _ t ⟨ht, -⟩
    rw [ht, Connection.tabFloor, h.leftTabLimit_eq]
    exact Nat.zero_le _
  rintro _ t ⟨ht, hrun⟩
  refine ((confined_of_clears ht).steps (hpast t hrun)).mono ?_ fun _ _ hu => hu.limit_le_position
  intro _ u hu
  refine ⟨hu.limit_le_position, finish_limits, fun later hlater => ?_⟩
  have hclears : u.unit.Clears (u.unit.offset + (u.unit.connection.tabFloor - margin)) margin :=
    { hu.toClears with stop_le := le_rfl }
  exact ((confined_of_clears hclears).steps hlater).mono
    (fun _ _ hv => ⟨hv.limit_le_position, hv.spares⟩) fun _ _ hv => ⟨hv.limit_le_position, hv.spares⟩

def onFiveBytes : Session where
  system := { files := { nodes := [{ content := [122, 122, 122, 122, 122] }], names := [(["a"], 0)] } }
  unit := { number := 10, attachment := .ofFile "a" 0 }

/-- A WRITE that has begun puts three bytes and does not advance, and another one begins. -/
def putThree : List WriteStep :=
  [.operation (.nonAdvancing true), .operation (.call (.emit [97, 98, 99])), .finish,
    .begin_ (.formatted .output) {} { iostat := true }]

/-- Moves to the left end at the limit, and the next byte is put behind the three. -/
theorem tab_limit_protects_three :
    let later : List WriteStep := [.operation (.call (.absolute 0)), .operation (.call (.relative (-9))),
      .operation (.call (.emit [88])), .operation .flush]
    ∃ t u, (do
        beginWith (.formatted .output) {} { iostat := true }
        putThree.forM WriteStep.perform) onFiveBytes = .ok ⟨⟩ t ∧
      t.unit.connection.tabFloor = 3 ∧
      later.forM WriteStep.perform t = .ok ⟨⟩ u ∧
      u.unit.connection.tabFloor ≤ u.unit.connection.position ∧ t.channel.Spares 3 u.channel ∧
      u.system.files.contentAt 0 = [97, 98, 99, 88, 122] := by
  intro later
  have hempty : onFiveBytes.unit.AtEmptyRecord := ⟨rfl, rfl, rfl, rfl⟩
  have hkind : (StatementKind.formatted .output).isWrite = true := rfl
  have hpast : ∀ t, beginWith (.formatted .output) {} { iostat := true } onFiveBytes = .ok ⟨⟩ t →
      WriteStep.stayWithin 0 putThree t = true := by
    intro t ht
    cases ht
    rfl
  have h := tab_limit_protects hempty hkind {} { iostat := true } 0 hpast
  have hruns : Completes (do
      beginWith (.formatted .output) {} { iostat := true }
      putThree.forM WriteStep.perform) onFiveBytes fun _ t =>
        t.unit.connection.tabFloor = 3 ∧ t.unit.offset = 0 ∧ WriteStep.stayWithin 0 later t = true ∧
        Completes (later.forM WriteStep.perform) t fun _ u =>
          u.system.files.contentAt 0 = [97, 98, 99, 88, 122] := by decide +kernel
  obtain ⟨_, t, hrun, hfloor, hoffset, hwithin, hlater⟩ := hruns.exists_run
  obtain ⟨_, u, hrun', hcontent⟩ := hlater.exists_run
  obtain ⟨-, -, hrest⟩ := h.of_run hrun
  obtain ⟨hcursor, hspares⟩ := (hrest later hwithin).of_run hrun'
  rw [hfloor, hoffset] at hspares
  exact ⟨t, u, hrun, hfloor, hrun', hcursor, hspares, hcontent⟩

/-- A move to a negative column leads to the left of the limit, and what is put there takes the place of
what a WRITE that is completed has put into the record. -/
theorem negative_column_passes_limit :
    ∃ t u, (do
        beginWith (.formatted .output) {} { iostat := true }
        putThree.forM WriteStep.perform) onFiveBytes = .ok ⟨⟩ t ∧
      moveAbsolute (-2) t = .ok true u ∧
      u.unit.connection.position = 1 ∧ u.unit.connection.tabFloor = 3 ∧
      Completes (do discard (emit [88]); flushUnit) u fun _ w =>
        w.system.files.contentAt 0 = [97, 88, 99, 122, 122] :=
  ⟨_, _, rfl, rfl, rfl, rfl, rfl⟩

end Session

end DataTransfer
