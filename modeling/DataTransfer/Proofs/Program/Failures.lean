import DataTransfer.Proofs.Program.Activity
import DataTransfer.Proofs.Unit.Faults

/-!
What becomes of failures. A data transfer that can receive errors gives the first fault that it comes to
as its status. Only its beginning, before it can declare a way to receive them, ends the program when a
file cannot be opened or written.
-/

namespace DataTransfer

def failure? {ε σ α : Type} (act : EStateM ε σ α) (s : σ) : Option ε :=
  match act s with
  | .ok _ _ => none
  | .error e _ => some e

theorem failure?_ends {ε σ α : Type} (act : EStateM ε σ α) (s : σ) :
    Ends act s (fun _ _ => failure? act s = none) fun e _ => failure? act s = some e := by
  unfold Ends failure?
  cases act s <;> rfl

/-- The item has its place in a data transfer on this unit, and its kind exists. -/
def Item.suits (u : ExternalUnit) : Item → Bool
  | .specifiers _ => false
  | .inputInteger _ kind => u.statement.isInput && u.connection.formatted && u.attachment.mayRead &&
    (IntegerKind.ofBytes? kind).isSome
  | .inputReal _ kind => u.statement.isInput && u.connection.formatted && u.attachment.mayRead &&
    (Precision.ofKind? kind).isSome
  | .inputBlock _ => !u.connection.formatted && u.attachment.mayRead
  | .outputText _ => !u.statement.isInput && u.attachment.mayWrite
  | .outputInteger _ => !u.statement.isInput && u.attachment.mayWrite
  | .outputBlock _ => !u.statement.isInput && u.attachment.mayWrite
  | _ => true

namespace Session

variable {s t : Session} {u : ExternalUnit} {first : Option Fault}

/-! ### Items -/

def Reaches (u : ExternalUnit) (s t : Session) : Prop :=
  ∃ ops, (∀ op ∈ ops, op.suits u = true) ∧ Operation.run ops s = .ok () t

namespace Running

variable (h : Running u first s)
include h

theorem perform_carries (op : Operation) (hop : op.suits u = true) :
    Carries False (Reaches u s) op.perform := by
  refine .of_completes ?_
  rintro t ⟨ops, hops, hrun⟩
  have ht := Ends.of_run (h.run_completes hops) hrun
  obtain ⟨_, v, hstep, -⟩ := (ht.perform_completes hop).exists_run
  refine (Completes.of_run hstep).mono ?_ fun _ _ => id
  rintro _ _ ⟨-, rfl⟩
  refine ⟨ops ++ [op], ?_, ?_⟩
  · intro op' hop'
    rcases List.mem_append.mp hop' with hmem | hmem
    · exact hops op' hmem
    · rwa [List.mem_singleton.mp hmem]
  · rw [Operation.run_append, bind_run_eq hrun]
    exact bind_run_eq hstep

theorem call_carries {α : Type} {act : Act Session α} {answer : α → RecordCall.Answer}
    (c : RecordCall true true true) (hc : c.suits u = true)
    (hact : call c = do return answer (← act)) : Carries False (Reaches u s) act := by
  have hcall := h.perform_carries (.call c) hc
  rw [Operation.perform, hact, discard_return] at hcall
  exact .of_discard hcall

theorem isInput_of_reaches (ht : Reaches u s t) :
    t.unit.statement.isInput = u.statement.isInput := by
  obtain ⟨ops, hops, hrun⟩ := ht
  exact (Ends.of_run (h.run_completes hops) hrun).isInput_eq

theorem count_of_reaches (ht : Reaches u s t) : Reaches u s { t with items := t.items + 1 } :=
  (h.perform_carries .item rfl).completes ht

theorem inputSteps (hinput : u.statement.isInput = true) (hformatted : u.connection.formatted = true)
    (hread : u.attachment.mayRead = true) : InputSteps False (Reaches u s) where
  isInput := .inr fun _ ht => (h.isInput_of_reaches ht).trans hinput
  count _ ht := h.count_of_reaches ht
  nextChar := h.call_carries .char (by rw [RecordCall.suits, hformatted, hread]; rfl) rfl
  moveRelative n := h.call_carries (.relative n) rfl rfl
  advance := h.call_carries .advance rfl rfl
  endOfRecord := h.perform_carries .endOfRecord rfl
  fault f := h.perform_carries (.fault f) rfl

theorem item_carries {item : Item} (hitem : item.suits u = true) :
    Carries False (Reaches u s) item.perform := by
  have hcount (t : Session) (ht : Reaches u s t) := h.count_of_reaches ht
  have hemit (houtput : (!u.statement.isInput && u.attachment.mayWrite) = true) (data : Bytes) :
      Carries False (Reaches u s) (emit data) :=
    h.call_carries (.emit data) houtput rfl
  cases item with
  | receivers r => exact h.perform_carries (.receivers r) rfl
  | nonAdvancing yes => exact h.perform_carries (.nonAdvancing yes) rfl
  | record number => exact h.perform_carries (.record number) rfl
  | modes m => exact h.perform_carries (.modes m) rfl
  | specifiers spec => cases hitem
  | inputInteger edit kind =>
    simp only [Item.suits, Bool.and_eq_true] at hitem
    obtain ⟨⟨⟨hinput, hformatted⟩, hread⟩, hkind⟩ := hitem
    exact ((h.inputSteps hinput hformatted hread).inputInteger edit (.inl hkind)).discard
  | inputReal edit kind =>
    simp only [Item.suits, Bool.and_eq_true] at hitem
    obtain ⟨⟨⟨hinput, hformatted⟩, hread⟩, hkind⟩ := hitem
    exact ((h.inputSteps hinput hformatted hread).inputReal edit (.inl hkind)).discard
  | inputBlock count =>
    exact (inputBlock_carries hcount
      (.of_discard (h.perform_carries (.receive count) hitem))).discard
  | outputText text => exact (outputBytes_carries hcount (hemit hitem) _).discard
  | outputInteger value => exact (outputBytes_carries hcount (hemit hitem) _).discard
  | outputBlock data => exact (outputBlock_carries hcount (hemit hitem data)).discard

/-- An item is so many operations of the unit. -/
theorem item_eq_run {item : Item} (hitem : item.suits u = true) :
    ∃ ops, (∀ op ∈ ops, op.suits u = true) ∧ item.perform s = Operation.run ops s := by
  obtain ⟨_, t, hperform, ops, hops, hrun⟩ :=
    ((h.item_carries hitem).completes ⟨[], nofun, rfl⟩).exists_run
  exact ⟨ops, hops, hperform.trans hrun.symm⟩

end Running

/-! ### The beginning -/

/-- The fault that the beginning of a data transfer comes to: an unconnected unit cannot be connected,
or what the unit holds cannot be written before it is turned around. -/
def beginFault? (s : Session) (direction : Direction) : Option Fault :=
  if s.unit.isOpen then
    if decide (direction = .input) = s.unit.reading then none
    else (failure? Windowed.flush s.channel).map .ofOs
  else
    failure? (Channel.attach .unknown .asIs (some s.unit.defaultPath)) s.channel.device

theorem connect_default_attempts (form : Form) (hclosed : s.unit.isOpen = false) :
    Attempts (connect .unknown .asIs none form) s
      (fun _ t => failure? (Channel.attach .unknown .asIs (some s.unit.defaultPath))
        s.channel.device = none ∧ t.unit.window.dirty = none ∧ t.handler = s.handler ∧
        t.unit.statement = s.unit.statement)
      (fun f t => failure? (Channel.attach .unknown .asIs (some s.unit.defaultPath))
        s.channel.device = some f ∧ t.handler = s.handler) := by
  simp only [connect, attempts_get, hclosed, Bool.false_and, Bool.false_eq_true, if_false]
  refine Attempts.bind (modifyConnection_succeeds _).attempts ?_
  rintro _ _ rfl
  refine Attempts.bind ((attached_attempts (failure?_ends _ _)).mono (fun _ _ => id) ?_) ?_
  · rintro f _ ⟨d, hd, rfl⟩
    exact ⟨hd, rfl⟩
  · rintro start _ ⟨d, hd, rfl⟩
    exact ⟨hd, rfl, rfl, rfl⟩

theorem turn_ends {source : SourceLine} (reading : Bool) (hsource : s.handler = { source }) :
    Ends (do
      if reading ≠ (← get).unit.reading then
        noting (windowed Windowed.flush)
        modify fun s : Session => { s with unit := { s.unit with reading, located := false } }) s
      (fun _ t => (reading = s.unit.reading ∨ failure? Windowed.flush s.channel = none) ∧
        t.handler = s.handler ∧ t.unit.statement = s.unit.statement)
      fun c _ => reading ≠ s.unit.reading ∧
        ∃ f, (failure? Windowed.flush s.channel).map Fault.ofOs = some f ∧
          c = source.crash f.message := by
  refine (ends_get _).mpr ?_
  split_ifs with hturn
  · refine Ends.bind ((noting_ends source (windowed_attempts (failure?_ends _ _)) ?_).mono
      (fun _ _ => id) ?_) ?_
    · rintro f _ ⟨e, w, -, -, rfl⟩
      exact hsource
    · rintro c _ ⟨_, ⟨e, w, he, rfl, -⟩, hc⟩
      exact ⟨hturn, _, congrArg (Option.map Fault.ofOs) he, hc⟩
    · rintro _ _ ⟨w, hnone, rfl⟩
      exact ⟨.inr hnone, rfl, rfl⟩
  · exact ⟨.inl (not_not.mp hturn), rfl, rfl⟩

theorem prepare_ends {source : SourceLine} (kind : StatementKind) (direction : Direction)
    (hsource : s.handler = { source }) :
    Ends (prepare kind direction) s
      (fun _ t => s.beginFault? direction = none ∧ t.handler = { source } ∧
        t.unit.statement = s.unit.statement)
      fun c _ => ∃ f, s.beginFault? direction = some f ∧ c = source.crash f.message := by
  unfold prepare beginFault?
  refine (ends_get _).mpr ?_
  cases hopen : s.unit.isOpen with
  | true =>
    dsimp only
    refine (turn_ends (decide (direction = .input)) hsource).mono ?_ ?_
    · rintro _ t ⟨hnone, hhandler, hstatement⟩
      refine ⟨?_, hhandler.trans hsource, hstatement⟩
      rw [if_pos rfl]
      split_ifs with hsame
      · rfl
      · rw [hnone.resolve_left hsame]
        rfl
    · rintro c t ⟨hturn, f, hf, hc⟩
      rw [if_pos rfl, if_neg hturn]
      exact ⟨f, hf, hc⟩
  | false =>
    dsimp only
    refine Ends.bind ((noting_ends source (connect_default_attempts _ hopen) ?_).mono (fun _ _ => id) ?_) ?_
    · rintro f t ⟨-, hhandler⟩
      exact hhandler.trans hsource
    · rintro c t ⟨f, ⟨hf, -⟩, hc⟩
      exact ⟨f, hf, hc⟩
    · rintro _ t ⟨hnone, hdirty, hhandler, hstatement⟩
      -- A window that has just been opened holds nothing that could not be written.
      have hflush : failure? Windowed.flush t.channel = none := by
        unfold failure? Windowed.flush
        rw [get_bind_run]
        dsimp only
        rw [show t.channel.window.dirty = none from hdirty]
        rfl
      refine (turn_ends (decide (direction = .input)) (hhandler.trans hsource)).mono ?_ ?_
      · rintro _ v ⟨-, hhandler', hstatement'⟩
        exact ⟨hnone, hhandler'.trans (hhandler.trans hsource), hstatement'.trans hstatement⟩
      · rintro c v ⟨-, f, hf, -⟩
        rw [hflush] at hf
        cases hf

theorem begin_ends {kind : StatementKind} {direction : Direction} (source : SourceLine)
    (hkind : ∀ modes, (StatementState.begin_ kind modes).direction? = some direction) :
    Ends (begin_ kind source) s
      (fun _ t => s.beginFault? direction = none ∧ t.handler = { source } ∧
        t.unit.statement.direction? = some direction)
      fun c _ => ∃ f, s.beginFault? direction = some f ∧ c = source.crash f.message := by
  refine Ends.bind (P := fun _ t => s.Begun kind source {} t) ⟨rfl, rfl, rfl⟩ ?_
  intro _ t ht
  have hdirection : t.unit.statement.direction? = some direction := by
    rw [ht.unit_eq]
    exact hkind _
  have hfault : t.beginFault? direction = s.beginFault? direction := by
    unfold beginFault?
    rw [ht.channel_eq, ht.unit_eq]
    rfl
  refine (ends_get _).mpr ?_
  rw [hdirection, ← hfault]
  refine (prepare_ends kind direction ht.handler_eq).mono ?_ fun _ _ => id
  rintro _ v ⟨hnone, hhandler, hstatement⟩
  exact ⟨hnone, hhandler, by rw [hstatement]; exact hdirection⟩

/-! ### The whole transfer -/

/-- A data transfer that declares IOSTAT= or ERR= when it has begun never ends the program: whatever
fault an operation comes to, also an implicit one like the advance at the end, the transfer ends with
the status of the first one. Its items are made of such operations. The program ends only where the
beginning itself comes to a fault. -/
theorem failures_received (s : Session) (kind : StatementKind) {direction : Direction}
    (source : SourceLine) {r : Receivers}
    (hkind : ∀ modes, (StatementState.begin_ kind modes).direction? = some direction)
    (hr : r.receivesError = true) :
    Ends (do begin_ kind source; declare r) s
      (fun _ t => s.beginFault? direction = none ∧
        ∀ ops, (∀ op ∈ ops, op.suits t.unit = true) → Completes (Operation.run ops) t fun _ v =>
          Completes finish v (fun status _ => status.Tells (t.faults ops)) ∧
          ∀ item : Item, item.suits t.unit = true →
            ∃ more : List Operation, (∀ op ∈ more, op.suits t.unit = true) ∧
              item.perform v = Operation.run more v)
      fun c _ => ∃ f, s.beginFault? direction = some f ∧ c = source.crash f.message := by
  refine (begin_ends source hkind).bind ?_
  rintro _ t ⟨hnone, hhandler, hdirection⟩
  refine (ends_modify _).mpr ⟨hnone, fun ops hops => ?_⟩
  have hrunning : Running t.unit none { t with handler := t.handler.declare r } := by
    refine ⟨rfl, rfl, rfl, ?_, nofun, fun _ => ?_⟩
    · dsimp only
      rw [hhandler]
      exact hr
    · dsimp only
      rw [hhandler]
      rfl
  have htransfer : t.unit.statement.isTransfer = true := by
    rw [StatementState.isTransfer, hdirection]
    rfl
  obtain ⟨_, v, hrun, hv⟩ := (hrunning.run_completes hops).exists_run
  refine (Completes.of_run hrun).mono ?_ fun _ _ => id
  rintro _ _ ⟨-, rfl⟩
  refine ⟨(hv.finish_completes htransfer).mono ?_ fun _ _ => id, fun item hitem => hv.item_eq_run hitem⟩
  intro status _ htells
  refine htells _ ?_
  rw [faults, hrun, List.head?_append, Option.none_or]

/-- A WRITE to the device that is always full comes to a fault when its unit is flushed. It goes on and
ends with the number of that fault. -/
theorem failures_received_full :
    ∃ t, (do begin_ (.formatted .output) {}; declare { iostat := true })
        { system := {}
          unit := { ExternalUnit.new 10 256 with
            attachment := .opened .unknown (some "/dev/full") .fullDevice true } } = .ok () t ∧
      Completes (Operation.run [.call (.emit [97]), .flush, .call (.emit [98])]) t fun _ v =>
        Completes finish v fun status _ => status = .os 28 := by
  generalize hops : ([.call (.emit [97]), .flush, .call (.emit [98])] : List Operation) = ops
  generalize hs : ({
    system := {}
    unit := { ExternalUnit.new 10 256 with
      attachment := .opened .unknown (some "/dev/full") .fullDevice true } } : Session) = s
  obtain ⟨t, hrun, hsuits, hfaults⟩ : ∃ t,
      (do begin_ (.formatted .output) {}; declare { iostat := true }) s = .ok () t ∧
      (∀ op ∈ ops, op.suits t.unit = true) ∧ t.faults ops = [.ofOs (.errno Errno.noSpace)] := by
    subst hops hs
    exact ⟨_, rfl, by decide, rfl⟩
  have hends := failures_received s (.formatted .output) {} (fun _ => rfl)
    (r := { iostat := true }) rfl
  refine ⟨t, hrun, ((hends.of_run hrun).2 ops hsuits).mono ?_ fun _ _ => id⟩
  rintro _ v ⟨hfinish, -⟩
  rw [hfaults] at hfinish
  exact hfinish

/-! ### Faults before the receivers -/

/-- A transfer whose beginning comes to a fault ends the program, whatever it would declare and do. -/
theorem statement_of_beginFault {α : Type} {kind : StatementKind} {direction : Direction} {f : Fault}
    (source : SourceLine) (r : Receivers) (work : Act Session α)
    (hkind : ∀ modes, (StatementState.begin_ kind modes).direction? = some direction)
    (h : s.beginFault? direction = some f) :
    failure? (statement kind source r work) s = some (source.crash f.message) := by
  have hends := begin_ends source hkind (s := s)
  unfold Ends at hends
  cases hbegin : begin_ kind source s with
  | ok _ t =>
    rw [hbegin, h] at hends
    cases hends.1
  | error c t =>
    rw [hbegin, h] at hends
    obtain ⟨_, hf, rfl⟩ := hends
    cases hf
    have hrun : statement kind source r work s = .error (source.crash f.message) t :=
      bind_run_error hbegin
    rw [failure?, hrun]

theorem beginFault?_of_closed (direction : Direction) {e : OsError} (hclosed : s.unit.isOpen = false)
    (h : s.system.files.open_ s.unit.defaultPath (Channel.request .unknown) = .error e) :
    s.beginFault? direction = some (.ofOsAt s.unit.defaultPath e) := by
  have hnamed (a : Attachment) : Channel.openNamed .unknown s.unit.defaultPath ⟨s.system, a⟩ =
      .error (.ofOsAt s.unit.defaultPath e) ⟨s.system, a⟩ := by
    unfold Channel.openNamed
    dsimp only
    rw [h]
    simp
  obtain ⟨d, hattach⟩ : ∃ d, Channel.attach .unknown .asIs (some s.unit.defaultPath) s.channel.device =
      .error (.ofOsAt s.unit.defaultPath e) d := by
    rw [Channel.attach_named (by decide)]
    exact ⟨_, (bind_run_eq rfl).trans ((bind_run_eq rfl).trans (bind_run_error (hnamed _)))⟩
  rw [beginFault?, if_neg (by rw [hclosed]; exact Bool.false_ne_true), failure?, hattach]

theorem parts_fort_10 : Path.parts "fort.10" = ["fort.10"] := by
  unfold Path.parts String.splitOn
  rw [if_neg (by decide)]
  iterate 7 rw [String.splitOnAux, if_neg (by decide +kernel), if_neg (by decide +kernel)]
  rw [String.splitOnAux, if_pos (by decide +kernel)]
  decide +kernel

theorem open_fort_10 :
    FileSystem.open_ { directories := [{ name := [], writable := false }] } "fort.10"
      (Channel.request .unknown) = .error (.errno Errno.accessDenied) := by
  have hlocate : FileSystem.locate { directories := [{ name := [], writable := false }] } "fort.10" =
      .ok (.vacant ["fort.10"] { name := [], writable := false }) := by
    unfold FileSystem.locate
    rw [if_neg (by decide +kernel), if_neg (by decide +kernel), if_neg (by decide +kernel),
      if_neg (by decide +kernel), parts_fort_10]
    rfl
  unfold FileSystem.open_
  rw [hlocate]
  decide +kernel

/-- Where the default file may not be made, a WRITE ends the program although it would declare IOSTAT=.
So does a READ that first has to write out what a WRITE to the full device has left. -/
theorem begin_ends_program :
    failure? (statement (.formatted .output) {} { iostat := true } (pure ()))
        { system := { files := { directories := [{ name := [], writable := false }] } }
          unit := ExternalUnit.new 10 256 } =
      some ⟨"I/O error (errno=13): fort.10: Permission denied (os error 13)"⟩ ∧
    failure? (statement (.formatted .input) {} { iostat := true } (pure ()))
        { system := {}
          unit := { ExternalUnit.new 10 256 with
            attachment := .opened .unknown (some "/dev/full") .fullDevice true
            window := { bytes := [97, 10], dirty := some (0, 2) } } } =
      some ⟨"I/O error (errno=28): No space left on device (os error 28)"⟩ := by
  constructor
  · have hfault := beginFault?_of_closed .output
      (s := { system := { files := { directories := [{ name := [], writable := false }] } }
              unit := ExternalUnit.new 10 256 }) rfl open_fort_10
    rw [statement_of_beginFault {} _ _ (fun _ => rfl) hfault]
    decide +kernel
  · rw [statement_of_beginFault (f := .ofOs (.errno Errno.noSpace)) {} _ _ (fun _ => rfl) rfl]
    decide +kernel

end Session

end DataTransfer
