import Mathlib
import DataTransfer.Proofs.Unit.Guarded

/-!
Units that may not be written: on a file that is open for reading, or on standard input. READs see
nothing but what is there. Output that puts data out ends the program; but a record that is finished goes
into the window without a look at whether the unit may be written.
-/

namespace DataTransfer

namespace Windowed

/-- Whether something waits in the window to be written, which then cannot be. -/
def Waits (w : Windowed Channel) (yes : Bool) : Prop :=
  w.window.dirty.isSome = yes ∧ (failure? flush w).isSome = yes

theorem waits_of_clean {w : Windowed Channel} (h : w.window.dirty = none) : w.Waits false := by
  refine ⟨by rw [h]; rfl, ?_⟩
  rw [failure?, flush_of_clean h]
  rfl

end Windowed

theorem Channel.ReadsFile.waits {w : Windowed Channel} {n low high : ℕ} (h : w.device.ReadsFile n)
    (hdirty : w.window.dirty = some (low, high))
    (hdata : w.window.bytes.slice low (high - low) ≠ []) : w.Waits true := by
  obtain ⟨e, hflush⟩ := h.flush_error hdirty hdata
  refine ⟨by rw [hdirty]; rfl, ?_⟩
  rw [failure?, hflush]
  rfl

namespace TransferStep

def putsOut : TransferStep → Bool
  | .operation (.call (.emit _)) => true
  | .item (.outputText _) => true
  | .item (.outputInteger _) => true
  | .item (.outputBlock _) => true
  | _ => false

end TransferStep

def Transfer.putsOut (t : Transfer) : Bool := t.steps.any TransferStep.putsOut

namespace Session

variable {stream : Bytes} {c : Channel} {s : Session}

theorem emit_ends_program (h : s.unit.attachment.mayWrite = false) (data : Bytes)
    {Q : Bool → Session → Prop} : Ends (emit data) s Q fun _ _ => True := by
  have hwritable : Ends requireWritable.run s (fun _ _ => False) fun _ _ => True := by
    refine (Ends.attempt_get _).mpr ?_
    dsimp only
    rw [h]
    exact trivial
  have hput : Ends (putData data).run s (fun _ _ => False) fun _ _ => True := by
    refine (Ends.attempt_get _).mpr ?_
    split_ifs
    · exact trivial
    · exact Ends.bind hwritable fun _ _ => False.elim
  exact Ends.bind hput fun _ _ => False.elim

theorem outputBytes_ends (h : s.unit.attachment.mayWrite = false) (data : Bytes) :
    Ends (outputBytes data) s (fun _ t => t.handler.inError = true) fun _ _ => True := by
  refine (ends_get _).mpr ?_
  split_ifs with herror
  · exact herror
  · exact (emit_ends_program h _ (Q := fun _ _ => False)).bind fun _ _ => False.elim
  · exact (ends_modify_bind _ _).mpr (emit_ends_program (by exact h) data)

theorem outputBlock_ends (h : s.unit.attachment.mayWrite = false) (data : Bytes) :
    Ends (outputBlock data) s (fun _ t => t.handler.inError = true) fun _ _ => True := by
  refine (ends_get _).mpr ?_
  split_ifs with herror
  · exact herror
  · exact (ends_modify_bind _ _).mpr (emit_ends_program (by exact h) data)

theorem puts_ends {step : TransferStep} (hputs : step.putsOut = true)
    (h : s.unit.attachment.mayWrite = false) :
    Ends step.perform s (fun _ t => t.handler.inError = true) fun _ _ => True := by
  cases step with
  | operation op =>
    cases op with
    | call c =>
      cases c with
      | emit data =>
        exact Ends.discard_state ((emit_ends_program h data (Q := fun _ _ => False)).bind
          fun _ _ => False.elim)
      | _ => cases hputs
    | _ => cases hputs
  | item given =>
    cases given with
    | outputText text => exact Ends.discard_state (outputBytes_ends h _)
    | outputInteger value => exact Ends.discard_state (outputBytes_ends h _)
    | outputBlock data => exact Ends.discard_state (outputBlock_ends h data)
    | _ => cases hputs

/-- A transfer on what can only be read. If it has put data out, it has come to an error. -/
def Spares (stream : Bytes) (c : Channel) (puts : Bool) : Session → Prop :=
  Kept (Windowed.Sealed stream c) fun _ _ status => puts = true → status.isError = true

theorem operationSteps_spares (stream : Bytes) (c : Channel) (puts : Bool) :
    OperationSteps True (Spares stream c puts) := by
  refine operationSteps_of_stable ?_ (Windowed.Sealed.stable stream c)
  intro _ _ a b ha hrank hputs
  rw [Iostat.isError_iff_rank]
  exact b.rank_le.antisymm ((Iostat.isError_iff_rank a).mp (ha hputs) ▸ hrank)

variable {puts : Bool}

theorem Spares.mayWrite_eq (h : Spares stream c puts s) (hc : c.attachment.mayWrite = false) :
    s.unit.attachment.mayWrite = false := by
  have hdevice := congrArg (fun d : Channel => d.attachment.mayWrite) h.1.device_eq
  exact hdevice.trans hc

theorem Spares.step_ends (h : Spares stream c puts s) (hc : c.attachment.mayWrite = false)
    {step : TransferStep} (hown : step.isOwn = true) :
    Ends step.perform s (fun _ t => Spares stream c (puts || step.putsOut) t) fun _ _ => True := by
  have hstep := ((operationSteps_spares stream c puts).step hown fun _ => trivial) s h
  cases hputs : step.putsOut with
  | false =>
    rw [Bool.or_false]
    exact hstep.success
  | true =>
    refine (hstep.and (puts_ends hputs (h.mayWrite_eq hc))).mono ?_ fun _ _ _ => trivial
    exact fun _ t ⟨ht, herror⟩ => ⟨ht.1, fun _ => herror⟩

theorem Spares.steps_end (h : Spares stream c puts s) (hc : c.attachment.mayWrite = false)
    {steps : List TransferStep} (hown : ∀ step ∈ steps, step.isOwn = true) :
    Ends (steps.forM TransferStep.perform) s
      (fun _ t => Spares stream c (puts || steps.any TransferStep.putsOut) t) fun _ _ => True := by
  induction steps generalizing s puts with
  | nil =>
    rw [List.any_nil, Bool.or_false]
    exact h
  | cons step steps ih =>
    rw [List.any_cons, ← Bool.or_assoc]
    refine (h.step_ends hc (hown step List.mem_cons_self)).bind fun _ t ht => ?_
    exact ih ht fun step hstep => hown step (List.mem_cons_of_mem _ hstep)

theorem sealed_begin (hs : Windowed.Sealed stream c s.channel) (hopen : c.attachment.isOpen = true)
    (kind : StatementKind) (source : SourceLine) : Ends (begin_ kind source) s
      (fun _ t => Spares stream c false t) fun _ _ => True := by
  have hbegin := begin_preserves (Windowed.Sealed.stable stream c) ?_ kind source s hs
  · exact hbegin.mono (fun _ _ ht => ⟨ht, nofun⟩) fun _ _ _ => trivial
  · intro t ht
    exact (congrArg (fun d : Channel => d.attachment.isOpen) ht.device_eq).trans hopen

theorem Guarded.enter_spares (h : s.Guarded stream) (hreadOnly : s.unit.attachment.IsReadOnly)
    {t : Transfer} (hown : t.isOwn = true) :
    Ends t.enter s (fun _ u => Spares stream s.channel.device t.putsOut u) fun _ _ => True := by
  refine (sealed_begin (h hreadOnly).1 hreadOnly.1 _ _).bind fun _ u hu => ?_
  refine Ends.bind (P := fun _ v => Spares stream s.channel.device false v) hu fun _ v hv => ?_
  have hsteps := hv.steps_end hreadOnly.2 (List.all_eq_true.mp hown)
  rw [Bool.false_or] at hsteps
  exact hsteps

/-- A transfer on a unit that may not be written changes nothing but how much is left of the input, and
comes to an error where it puts data out. -/
theorem Guarded.perform_spares (h : s.Guarded stream) (hreadOnly : s.unit.attachment.IsReadOnly)
    {t : Transfer} (hown : t.isOwn = true) : Ends t.perform s (fun status u =>
      u.system = { s.system with input := u.system.input } ∧ (t.putsOut = true → status.isError = true))
      fun _ _ => True := by
  have hsteps := operationSteps_spares stream s.channel.device t.putsOut
  refine (h.enter_spares hreadOnly hown).bind fun _ u hu => ?_
  refine (hsteps.finish_ends (fun _ _ _ => trivial) hu).mono ?_ fun _ _ => id
  rintro _ _ ⟨v, hv, rfl, rfl⟩
  exact ⟨congrArg Channel.system hv.1.device_eq, hv.2⟩

theorem Guarded.enter_faithful (h : s.Guarded stream) (hreadOnly : s.unit.attachment.IsReadOnly)
    {t : Transfer} (hown : t.isOwn = true) (hinput : t.direction = .input) :
    Ends t.enter s (fun _ u => u.channel.Faithful stream) fun _ _ => True := by
  have hsteps : OperationSteps True (Conducts stream t.direction) := operationSteps_conducts stream _
  refine ((hsteps.enter_ends hown (fun _ => trivial) (h.begin_ends t)).and
    (h.enter_spares hreadOnly hown)).mono ?_ fun _ _ _ => trivial
  rintro _ u ⟨hu, hsealed, -⟩
  have hattachment := congrArg Channel.attachment hsealed.device_eq
  have hguarded := hu.1 (by rw [hattachment]; exact hreadOnly)
  exact hguarded.1.faithful (hguarded.2 (by rw [hinput]; rfl))

/-! ### Records that are finished -/

/-- A WRITE that has just begun where nothing waits to be written. -/
structure BeginsClean (s t : Session) : Prop where
  channel_eq : t.channel = s.channel
  connection_eq : t.unit.connection = s.unit.connection
  offset_eq : t.unit.offset = s.unit.offset
  reading_eq : t.unit.reading = false
  direction_eq : t.unit.statement.direction? = some .output
  status_eq : t.handler.status = .ok

theorem begins_clean {kind : StatementKind} (hopen : s.unit.isOpen = true)
    (hclean : s.unit.window.dirty = none)
    (hkind : ∀ modes, (StatementState.begin_ kind modes).direction? = some .output)
    (source : SourceLine) : Completes (begin_ kind source) s fun _ t => s.BeginsClean t := by
  refine begin_of_prepare hkind fun t ht => ?_
  replace hopen : t.unit.isOpen = true := by
    rw [ht.unit_eq]
    exact hopen
  replace hclean : t.unit.window.dirty = none := by
    rw [ht.unit_eq]
    exact hclean
  refine (prepare_of_nothing_dirty hopen hclean).mono ?_ fun _ _ => id
  rintro _ _ ⟨located, -, rfl⟩
  refine ⟨ht.channel_eq, ?_, ?_, rfl, ?_, ?_⟩
  · rw [ht.unit_eq]
  · rw [ht.unit_eq]
  · rw [ht.unit_eq]
    exact hkind _
  · rw [ht.handler_eq]
    rfl

section

variable {content : Bytes} {n : ℕ} (h : s.channel.Shows content) (hn : s.channel.device.ReadsFile n)
variable (hformatted : s.unit.connection.formatted = true)
variable (hoffset : s.unit.offset + s.unit.connection.furthest < FileSystem.offsetLimit)
variable (hsize : content.length < FileSystem.offsetLimit)
include h hn hformatted hoffset hsize

/-- A formatted record is finished without a look at whether its unit may be written: the window takes
its newline, or the blanks that a record of fixed length still lacks. -/
theorem completeRecord_of_shows :
    Succeeds completeRecord s fun _ t => ∃ w : Windowed Channel, t = s.withChannel w ∧
      w.device = s.channel.device ∧
        w.Waits (s.unit.connection.fixedRecordLength.all (s.unit.connection.furthest < ·)) := by
  have hwrite (data : Bytes) (hdata : data ≠ []) :
      Succeeds (windowed (Windowed.write (s.unit.offset + s.unit.connection.furthest) data)) s
        fun _ t => ∃ w : Windowed Channel, t = s.withChannel w ∧ w.device = s.channel.device ∧
          w.Waits true := by
    refine (windowed_succeeds (h.write_completes hoffset hsize data)).mono ?_ fun _ _ => id
    rintro _ _ ⟨w, ⟨hdevice, hdirty, hslice⟩, rfl⟩
    rw [← hdevice] at hn
    exact ⟨w, rfl, hdevice, hn.waits hdirty (by rwa [Nat.sub_zero, hslice])⟩
  refine (attempts_get _).mpr ?_
  dsimp only
  cases hfixed : s.unit.connection.fixedRecordLength with
  | none =>
    dsimp only
    rw [if_pos hformatted]
    exact Attempts.bind (hwrite [newline] nofun) fun _ _ hw => hw
  | some length =>
    dsimp only
    rw [Option.all_some]
    by_cases hshort : s.unit.connection.furthest < length
    · rw [if_pos (by simp [hformatted, hshort]), decide_eq_true hshort]
      refine Attempts.bind (hwrite _ ?_) fun _ _ hw => hw
      simpa [Bytes.fill, Nat.sub_eq_zero_iff_le] using hshort
    · rw [if_neg (by simp [hshort]), decide_eq_false hshort]
      exact ⟨s.channel, rfl, rfl, Windowed.waits_of_clean h.clean⟩

theorem advance_of_shows (hreading : s.unit.reading = false) :
    Completes advance s fun _ t => t.handler = s.handler ∧ t.channel.device = s.channel.device ∧
      t.channel.Waits
        (s.unit.connection.fixedRecordLength.all (s.unit.connection.furthest < ·)) := by
  refine report_completes ((attempts_get _).mpr ?_)
  rw [if_neg (by rw [hreading]; exact Bool.false_ne_true)]
  refine Attempts.bind (completeRecord_of_shows h hn hformatted hoffset hsize).attempts ?_
  rintro stride _ ⟨w, rfl, hdevice, hwaits⟩
  refine Attempts.bind (modifyUnit_succeeds _).attempts ?_
  rintro _ _ rfl
  have hposition : w.device.attachment.mayPosition = true := by
    rw [hdevice]
    exact hn.mayPosition
  refine (attempts_get _).mpr ?_
  split_ifs with hstuck
  · cases (congrArg not hposition).symm.trans hstuck
  · exact ⟨rfl, hdevice, hwaits⟩

theorem write_nothing (hadvancing : s.unit.connection.nonAdvancing = false) {t : Transfer}
    (houtput : t.direction = .output) (hsteps : t.steps = []) :
    Completes t.perform s fun status u => status = .ok ∧ u.channel.Waits
      (s.unit.connection.fixedRecordLength.all (s.unit.connection.furthest < ·)) := by
  have henter : Completes t.enter s fun _ u => s.BeginsClean u := by
    unfold Transfer.enter
    rw [hsteps]
    refine (begins_clean (isOpen_of_shows h) h.clean (fun modes => ?_) t.source).bind
      fun _ u hu => ⟨hu.1, hu.2, hu.3, hu.4, hu.5, hu.6⟩
    rw [← houtput]
    exact t.form.direction_begin t.direction modes
  refine henter.bind fun _ u hu => ?_
  rw [← hu.connection_eq] at hadvancing hformatted hoffset ⊢
  rw [← hu.offset_eq] at hoffset
  rw [← hu.channel_eq] at h hn
  refine finish_of_transfer ?_ hadvancing ?_
  · rw [StatementState.isTransfer, hu.direction_eq]
    rfl
  refine (advance_of_shows h hn hformatted hoffset hsize hu.reading_eq).mono ?_ fun _ _ => id
  rintro _ v ⟨hhandler, hdevice, hwaits⟩
  refine ⟨?_, hhandler ▸ hu.status_eq, hwaits⟩
  have hterminal := congrArg (fun d : Channel => d.attachment.isTerminal) hdevice
  exact hterminal.trans hn.isTerminal

end

/-- The unit is in a formatted record of a file that is open for reading. Nothing waits to be written, and
the file system still accepts reads. -/
structure InCleanRecord (s : Session) (n : ℕ) : Prop where
  backing : s.unit.attachment.backing = some (.file (.node n) false)
  clean : s.unit.window.dirty = none
  formatted : s.unit.connection.formatted = true
  reachable : s.unit.offset + s.unit.connection.furthest < FileSystem.offsetLimit
  size : (s.system.files.contentAt n).length < FileSystem.offsetLimit

theorem enter_of_waits (hopen : s.unit.isOpen = true) (hreading : s.unit.reading = false)
    (hwaits : s.channel.Waits true) {t : Transfer} (hinput : t.direction = .input) :
    Ends t.enter s (fun _ _ => False) fun _ _ => True := by
  have hkind (modes : Modes) : (StatementState.begin_ t.kind modes).direction? = some .input := by
    rw [← hinput]
    exact t.form.direction_begin t.direction modes
  refine (begin_ends t.source hkind).success.bind ?_
  rintro _ _ ⟨hfault, -⟩
  rw [beginFault?, if_pos hopen, hreading, if_neg (by decide), Option.map_eq_none_iff] at hfault
  have hfails := hwaits.2
  rw [hfault] at hfails
  cases hfails

theorem Guarded.enter_awaits_nothing (h : s.Guarded stream)
    (hreadOnly : s.unit.attachment.IsReadOnly) {t : Transfer} (hinput : t.direction = .input) :
    Ends t.enter s (fun _ _ => ¬ s.channel.Waits true) fun _ _ => True := by
  by_cases hwaits : s.channel.Waits true
  · have hreading : s.unit.reading = false := by
      rw [Bool.eq_false_iff]
      intro hreading
      have hdirty := hwaits.1
      rw [(h hreadOnly).2 hreading] at hdirty
      cases hdirty
    exact (enter_of_waits hreadOnly.1 hreading hwaits hinput).mono (fun _ _ => False.elim) fun _ _ => id
  · exact (Ends.trivial _ _).mono (fun _ _ _ => hwaits) fun _ _ => id

/-- Whatever OPENs, CLOSEs, READs and WRITEs have been done, as long as the unit may not be written, a
READ sees nothing but what its file holds or what has come from standard input, a WRITE changes neither
the file nor anything else, and data that it puts out ends the program, or the WRITE has come to an error
before. But the end of a formatted record is no such data: a WRITE that transfers nothing ends in success
and leaves it in the window, where it waits to end the program at the next READ. -/
theorem unwritable_takes_record_ends {s₀ : Session} {history : List UnitStatement}
    (hfirst : s₀.unit.IsFirst) (hown : ∀ st ∈ history, st.isOwn = true)
    (hrun : history.forM UnitStatement.perform s₀ = .ok () s)
    (hreadOnly : s.unit.attachment.IsReadOnly) :
    (s.unit.reading = true → s.channel.Faithful s₀.system.input) ∧
      (∀ t : Transfer, t.isOwn = true →
        (t.direction = .input → Ends t.enter s
          (fun _ u => ¬ s.channel.Waits true ∧ u.channel.Faithful s₀.system.input)
          fun _ _ => True) ∧
        Ends t.perform s (fun status u => u.system = { s.system with input := u.system.input } ∧
          (t.putsOut = true → status.isError = true)) fun _ _ => True) ∧
      ∀ (t : Transfer) (n : ℕ), t.direction = .output → t.steps = [] → s.InCleanRecord n →
        Completes t.perform s fun status u => status = .ok ∧ u.channel.Waits
          (s.unit.connection.fixedRecordLength.all (s.unit.connection.furthest < ·)) := by
  obtain ⟨hguarded, hadvancing⟩ := ((AtRest.of_isFirst hfirst).history_ends hown).of_run hrun
  obtain ⟨hsealed, hclean⟩ := hguarded hreadOnly
  refine ⟨fun hreading => hsealed.faithful (hclean hreading), fun t hown => ⟨fun hinput => ?_, ?_⟩, ?_⟩
  · exact ((hguarded.enter_awaits_nothing hreadOnly hinput).and
      (hguarded.enter_faithful hreadOnly hown hinput)).mono (fun _ _ => id) fun _ _ => And.left
  · exact hguarded.perform_spares hreadOnly hown
  · intro t n houtput hsteps h
    obtain ⟨hn, hshows⟩ := hsealed.of_file h.backing h.clean
    exact write_nothing hshows hn h.formatted h.reachable h.size hadvancing houtput hsteps

def protectedLine : System :=
  { files := { nodes := [{ content := [107, 10], writable := false }], names := [(["r"], 0)] } }

def onProtectedLine : Session where
  system := protectedLine
  unit :=
    { number := 10
      readChunk := 256
      attachment :=
        { path := some "r"
          backing := some (.file (.node 0) false)
          mayRead := true
          mayPosition := true } }

theorem protectedLine_open_old : statement .connect {} {} (openUnit .old .asIs (some "r") {})
    { system := protectedLine, unit := .new 10 256 } = .ok (true, .ok) onProtectedLine := by
  cbv

/-- A WRITE without items on a file that has been opened for reading. -/
theorem unwritable_takes_record_ends_protected :
    [UnitStatement.connect .old .asIs (some "r") {} {} {}].forM UnitStatement.perform
      { system := protectedLine, unit := .new 10 256 } = .ok () onProtectedLine ∧
    onProtectedLine.unit.attachment.IsReadOnly ∧ onProtectedLine.InCleanRecord 0 ∧
    Completes ({ direction := .output } : Transfer).perform onProtectedLine fun status t =>
      status = .ok ∧ t.channel.Waits true := by
  have hrun : [UnitStatement.connect .old .asIs (some "r") {} {} {}].forM UnitStatement.perform
      { system := protectedLine, unit := .new 10 256 } = .ok () onProtectedLine :=
    bind_run_eq (bind_run_eq protectedLine_open_old)
  have hreadOnly : onProtectedLine.unit.attachment.IsReadOnly := ⟨rfl, rfl⟩
  have hrecord : onProtectedLine.InCleanRecord 0 := ⟨rfl, rfl, rfl, by decide, by decide⟩
  have hlaw := unwritable_takes_record_ends ⟨10, 256, .inl rfl⟩ (by simp [UnitStatement.isOwn]) hrun
    hreadOnly
  exact ⟨hrun, hreadOnly, hrecord, hlaw.2.2 { direction := .output } 0 rfl rfl hrecord⟩

/-- A WRITE that transfers nothing ends with IOSTAT=0 on a file that may not be written, and leaves a
newline in the window. -/
theorem write_nothing_on_protected :
    Completes (do
        discard (statement .connect {} {} (openUnit .old .asIs (some "r") {}))
        statement (.formatted .output) {} { iostat := true } (pure ()))
      { system := protectedLine, unit := .new 10 256 } fun out t =>
      out.2 = .ok ∧ t.unit.attachment.mayWrite = false ∧ t.unit.window.dirty = some (0, 1) := by
  refine Ends.bind (Completes.of_run protectedLine_open_old).discard ?_
  rintro _ _ ⟨_, -, rfl⟩
  exact ⟨rfl, rfl, rfl⟩

end Session

end DataTransfer
