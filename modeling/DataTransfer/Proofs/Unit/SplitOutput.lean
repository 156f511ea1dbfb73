import DataTransfer.Proofs.Unit.FormWriting
import DataTransfer.Proofs.Unit.Opening

/-!
Output split over statements. WRITEs that do not advance leave the unit as one WRITE of the same data
does that is still in progress, but for what a statement keeps for itself; so any number of them and the
WRITE behind them come to what one WRITE comes to.
-/

namespace DataTransfer

namespace Session

/-- A unit without what its statement keeps for itself. -/
def settled (u : ExternalUnit) : ExternalUnit :=
  { u with
    statement := .idle
    held := false
    connection := { u.connection with leftTabLimit := none, nonAdvancing := false } }

structure SamePlace (s t : Session) : Prop where
  system_eq : t.system = s.system
  settled_eq : settled t.unit = settled s.unit

def during (s : Session) (statement : StatementState) (held : Bool) (leftTabLimit : Option ℕ)
    (nonAdvancing : Bool) (handler : Handler) (items : ℕ) : Session :=
  { s with
    unit := { s.unit with
      statement, held, connection := { s.unit.connection with leftTabLimit, nonAdvancing } }
    handler, items }

theorem SamePlace.refl (s : Session) : SamePlace s s := ⟨rfl, rfl⟩

theorem SamePlace.symm {s t : Session} (h : SamePlace s t) : SamePlace t s :=
  ⟨h.system_eq.symm, h.settled_eq.symm⟩

theorem SamePlace.trans {s t u : Session} (h : SamePlace s t) (h' : SamePlace t u) : SamePlace s u :=
  ⟨h'.system_eq.trans h.system_eq, h'.settled_eq.trans h.settled_eq⟩

theorem SamePlace.exists_during {s t : Session} (h : SamePlace s t) :
    ∃ statement held leftTabLimit nonAdvancing handler items,
      t = s.during statement held leftTabLimit nonAdvancing handler items := by
  obtain ⟨system, unit, handler, items⟩ := t
  obtain ⟨hsystem, hsettled⟩ := h
  dsimp only at hsystem hsettled
  subst hsystem
  refine ⟨unit.statement, unit.held, unit.connection.leftTabLimit, unit.connection.nonAdvancing,
    handler, items, ?_⟩
  have hunit : unit = { settled unit with
      statement := unit.statement, held := unit.held,
      connection := { (settled unit).connection with
        leftTabLimit := unit.connection.leftTabLimit
        nonAdvancing := unit.connection.nonAdvancing } } := rfl
  rw [hsettled] at hunit
  rw [during]
  congr 1

/-- A WRITE in progress at the furthest column of its record. -/
structure Emits (source : SourceLine) (declared : Receivers) (nonAdvancing : Bool) (s : Session) :
    Prop where
  isOpen_eq : s.unit.isOpen = true
  isTerminal_eq : s.unit.attachment.isTerminal = false
  reading_eq : s.unit.reading = false
  furthest_eq : s.unit.connection.furthest = s.unit.connection.position
  statement_eq : s.unit.statement.direction? = some .output
  nonAdvancing_eq : s.unit.connection.nonAdvancing = nonAdvancing
  source_eq : s.handler.source = source
  declared_eq : s.handler.declared = declared

structure Abreast (source : SourceLine) (declared : Receivers) (nonAdvancing : Bool) (s t : Session) :
    Prop extends SamePlace s t where
  left : s.Emits source declared nonAdvancing
  right : t.Emits source declared false

variable {source : SourceLine} {declared : Receivers} {nonAdvancing : Bool} {s t : Session}

theorem Abreast.channel_eq (h : Abreast source declared nonAdvancing s t) : t.channel = s.channel := by
  obtain ⟨_, _, _, _, _, _, rfl⟩ := h.exists_during
  rfl

theorem Emits.withChannel (h : s.Emits source declared nonAdvancing) {w : Windowed Channel}
    (hw : w.device.attachment = s.unit.attachment) :
    (s.withChannel w).Emits source declared nonAdvancing :=
  { h with
    isOpen_eq := (congrArg Attachment.isOpen hw).trans h.isOpen_eq
    isTerminal_eq := (congrArg Attachment.isTerminal hw).trans h.isTerminal_eq }

theorem Abreast.withChannel (h : Abreast source declared nonAdvancing s t) {w : Windowed Channel}
    (hw : w.device.attachment = s.unit.attachment) :
    Abreast source declared nonAdvancing (s.withChannel w) (t.withChannel w) where
  system_eq := rfl
  settled_eq := by
    obtain ⟨_, _, _, _, _, _, rfl⟩ := h.exists_during
    rfl
  left := h.left.withChannel hw
  right := h.right.withChannel (hw.trans (congrArg (·.device.attachment) h.channel_eq).symm)

/-! ### What the data of both comes to -/

theorem windowed_abreast {α : Type} {act : Windowed.Op Channel α}
    (hact : ∀ a, Preserves (fun w : Windowed Channel => w.device.attachment = a) act) :
    Attempt.Simulates (Abreast source declared nonAdvancing) True (windowed act) (windowed act) := by
  intro s t h
  have hends := hact s.unit.attachment s.channel rfl
  unfold Ends at hends
  simp only [ExceptT.run, windowed]
  rw [h.channel_eq]
  cases hrun : act s.channel with
  | ok a w =>
    rw [hrun] at hends
    exact .ok _ (h.withChannel hends)
  | error e w =>
    rw [hrun] at hends
    exact .ok _ (h.withChannel hends)

theorem write_abreast (offset : ℕ) (data : Bytes) :
    Attempt.Simulates (Abreast source declared nonAdvancing) True
      (windowed (Windowed.write offset data)) (windowed (Windowed.write offset data)) :=
  windowed_abreast fun a => (Channel.stable_attachment a).write offset data

/-- A change of the unit that does not look at what its statement keeps for itself. -/
theorem modifyUnit_abreast {f : ExternalUnit → ExternalUnit}
    (hf : ∀ u, settled (f u) = settled (f (settled u)))
    (hemits : ∀ {nonAdvancing : Bool} {s : Session}, s.Emits source declared nonAdvancing →
      ({ s with unit := f s.unit } : Session).Emits source declared nonAdvancing) :
    Attempt.Simulates (Abreast source declared nonAdvancing) True (modifyUnit f) (modifyUnit f) :=
  fun s t h => .ok _ {
    system_eq := h.system_eq
    settled_eq := by
      change settled (f t.unit) = settled (f s.unit)
      rw [hf, h.settled_eq, ← hf]
    left := hemits h.left
    right := hemits h.right }

theorem crash_abreast (text : String) :
    Attempt.Simulates (Abreast source declared nonAdvancing) True
      (crash text : Attempt Session Unit) (crash text) := by
  intro s t h
  have hsource : t.handler.source = s.handler.source := h.right.source_eq.trans h.left.source_eq.symm
  simp only [ExceptT.run, crash]
  rw [hsource]
  exact .error trivial _ h

theorem requireWritable_abreast :
    Attempt.Simulates (Abreast source declared nonAdvancing) True requireWritable requireWritable := by
  refine .get_bind fun s t h => ?_
  obtain ⟨_, _, _, _, _, _, rfl⟩ := h.exists_during
  dsimp only [during]
  split_ifs
  · exact crash_abreast _ _ _ h
  · exact .ok _ h

theorem putData_abreast (data : Bytes) :
    Attempt.Simulates (Abreast source declared nonAdvancing) True (putData data) (putData data) := by
  refine .get_bind fun s t h => ?_
  have hleft : s.unit.statement.isInput = false := by
    rw [StatementState.isInput, h.left.statement_eq]
    rfl
  have hright : t.unit.statement.isInput = false := by
    rw [StatementState.isInput, h.right.statement_eq]
    rfl
  rw [hleft, hright]
  refine requireWritable_abreast.bind (fun _ => .get_bind fun s t h => ?_) s t h
  have hfurthest := h.left.furthest_eq
  have hafter : max s.unit.connection.furthest (s.unit.connection.position + data.length) =
      s.unit.connection.position + data.length := by omega
  have hdata : Attempt.Simulates (Abreast source declared nonAdvancing) True (do
      windowed (Windowed.write (s.unit.dataOffset + s.unit.connection.position) data)
      modifyConnection fun c => { c with
        position := s.unit.connection.position + data.length
        furthest := max s.unit.connection.furthest (s.unit.connection.position + data.length) })
      (do
        windowed (Windowed.write (s.unit.dataOffset + s.unit.connection.position) data)
        modifyConnection fun c => { c with
          position := s.unit.connection.position + data.length
          furthest := max s.unit.connection.furthest (s.unit.connection.position + data.length) }) := by
    rw [hafter]
    exact (write_abreast _ data).bind fun _ =>
      modifyUnit_abreast (fun _ => rfl) fun hemits => { hemits with furthest_eq := rfl }
  have hsame := h
  obtain ⟨_, _, _, _, _, _, rfl⟩ := hsame.exists_during
  refine Attempt.Simulates.when_bind (.throw _) (fun _ => ?_) s _ h
  exact .when_bind (write_abreast _ _) fun _ => hdata

theorem Emits.withHandler (h : s.Emits source declared nonAdvancing) {f : Fault} {handler : Handler}
    (hfault : s.handler.fault f = .ok handler) :
    ({ s with handler } : Session).Emits source declared nonAdvancing := by
  obtain ⟨_, hsame, hdeclared, -⟩ :=
    s.handler.fault_received f (Handler.receivesError_of_fault hfault)
  obtain rfl := Except.ok.inj (hfault.symm.trans hsame)
  exact { h with
    source_eq := (Handler.source_of_fault hfault).trans h.source_eq
    declared_eq := hdeclared.trans h.declared_eq }

theorem report_abreast {act : Attempt Session Unit}
    (hact : Attempt.Simulates (Abreast source declared nonAdvancing) True act act) :
    Simulates (Abreast source declared nonAdvancing) True (discard (report act))
      (discard (report act)) := by
  refine Simulates.discard_bind hact fun r s t h => ?_
  cases r with
  | ok a => exact .ok _ h
  | error f =>
    have hdiscard (note : Act Session Bool) :
        Functor.discard note = EStateM.bind note fun _ => EStateM.pure () := rfl
    rw [hdiscard]
    unfold EStateM.bind
    dsimp only
    cases hleft : s.handler.fault f with
    | ok handler =>
      have hreceives := Handler.receivesError_of_fault hleft
      rw [h.left.declared_eq, ← h.right.declared_eq] at hreceives
      obtain ⟨handler', hright, -⟩ := t.handler.fault_received f hreceives
      rw [hright]
      exact .ok _ {
        system_eq := h.system_eq
        settled_eq := h.settled_eq
        left := h.left.withHandler hleft
        right := h.right.withHandler hright }
    | error c =>
      have hright : t.handler.fault f = .error c := by
        unfold Handler.fault at hleft ⊢
        rw [h.left.declared_eq, h.left.source_eq] at hleft
        rw [h.right.declared_eq, h.right.source_eq]
        split_ifs at hleft ⊢
        exact hleft
      rw [hright]
      exact .error trivial c h

theorem emit_abreast (data : Bytes) : Simulates (Abreast source declared nonAdvancing) True
    (discard (emit data)) (discard (emit data)) := report_abreast (putData_abreast data)

theorem completeRecord_abreast : Attempt.Simulates (Abreast source declared nonAdvancing) True
    completeRecord completeRecord := by
  refine .get_bind fun s t h => ?_
  have hsame := h
  obtain ⟨_, _, _, _, _, _, rfl⟩ := hsame.exists_during
  refine (?_ : Attempt.Simulates _ True _ _) s _ h
  dsimp only [during, Connection.fixedRecordLength]
  generalize (if s.unit.connection.fixedLength then s.unit.connection.recordLength else none) = fixed
  cases fixed with
  | some length => exact .when_bind (write_abreast _ _) fun _ => .pure _
  | none =>
    refine .ite ((write_abreast _ _).bind fun _ => .pure _) (.ite (.pure _) ?_)
    refine .when_bind (.throw _) fun _ => (write_abreast _ _).bind fun _ => ?_
    exact (write_abreast _ _).bind fun _ => .pure _

theorem flush_abreast : Attempt.Simulates (Abreast source declared nonAdvancing) True flush flush := by
  refine .get_bind fun s t h => ?_
  rw [h.left.isOpen_eq, h.right.isOpen_eq]
  refine (windowed_abreast fun a => (Channel.stable_attachment a).flush).bind (fun _ u v h => ?_) s t h
  refine .ok _ ?_
  rw [h.channel_eq]
  exact h.withChannel u.channel.device.attachment_flushed

theorem advanceRecord_abreast : Attempt.Simulates (Abreast source declared nonAdvancing) True
    advanceRecord advanceRecord := by
  refine .get_bind fun s t h => ?_
  rw [h.left.reading_eq, h.right.reading_eq]
  refine (completeRecord_abreast.bind fun stride => ?_) s t h
  refine (modifyUnit_abreast (fun _ => rfl) fun hemits => { hemits with }).bind fun _ =>
    .get_bind fun s t h => ?_
  have hnext : Attempt.Simulates (Abreast source declared nonAdvancing) True
      (modifyUnit nextRecord) (modifyUnit nextRecord) :=
    modifyUnit_abreast (fun _ => rfl) fun hemits => { hemits with furthest_eq := rfl }
  have hsame := h
  obtain ⟨_, _, _, _, _, _, rfl⟩ := hsame.exists_during
  exact Attempt.Simulates.when_bind flush_abreast (fun _ => hnext) s _ h

/-! ### The beginning and the end -/

/-- A unit between two statements, with its cursor at the furthest column of its record. -/
structure Level (s : Session) : Prop where
  isTerminal_eq : s.unit.attachment.isTerminal = false
  furthest_eq : s.unit.connection.furthest = s.unit.connection.position
  nonAdvancing_eq : s.unit.connection.nonAdvancing = false

theorem Opened.level {status : OpenStatus} {position : Position} {path : Option String} {form : Form}
    {ref : FileRef} {writable : Bool} (h : s.Opened status position path form ref writable t) :
    t.Level where
  isTerminal_eq := by rw [h.attachment_eq]; rfl
  furthest_eq := by rw [h.connection_eq]
  nonAdvancing_eq := by rw [h.connection_eq]

theorem connect_level (h : s.unit.isOpen = false) (form : Form)
    (hadvancing : s.unit.connection.nonAdvancing = false) :
    Attempts (connect .unknown .asIs none form) s
      (fun _ t => t.Level ∧ t.unit.isOpen = true ∧ t.handler = s.handler ∧
        t.unit.statement = s.unit.statement)
      fun _ t => t.handler = s.handler := by
  simp only [connect, attempts_get, h, Bool.false_and, Bool.false_eq_true, if_false]
  refine Attempts.bind (modifyConnection_succeeds _).attempts ?_
  rintro _ _ rfl
  refine Attempts.bind ((attached_attempts (Channel.attach_ends .unknown .asIs _ (by simp))).mono
    (fun _ _ => id) ?_) ?_
  · rintro f _ ⟨d, hd, rfl⟩
    rfl
  · rintro start _ ⟨d, ⟨ref, writable, hd, -⟩, rfl⟩
    have hattachment : d.attachment = .opened .unknown _ ref writable := hd
    exact ⟨⟨congrArg Attachment.isTerminal hattachment, rfl, hadvancing⟩,
      congrArg Attachment.isOpen hattachment, rfl, rfl⟩

structure Readied (source : SourceLine) (s : Session) : Prop extends Level s where
  isOpen_eq : s.unit.isOpen = true
  statement_eq : s.unit.statement.direction? = some .output
  handler_eq : s.handler = { source }

theorem Readied.turn_ends (h : s.Readied source) : Ends (do
      if decide (Direction.output = .input) ≠ (← get).unit.reading then
        noting (windowed Windowed.flush)
        modify fun s : Session =>
          { s with unit := { s.unit with
            reading := decide (Direction.output = .input), located := false } }) s
      (fun _ t => t.Readied source ∧ t.unit.reading = false) fun _ _ => True := by
  refine (ends_get _).mpr ?_
  by_cases hturn : decide (Direction.output = .input) ≠ s.unit.reading
  · rw [if_pos hturn]
    have hflush : Attempts (windowed Windowed.flush) s (fun _ t => t.Readied source)
        fun _ t => t.handler = { source } := by
      refine (windowed_attempts
        ((Channel.stable_attachment s.unit.attachment).flush s.channel rfl)).mono ?_ ?_
      · rintro _ _ ⟨w, hw, rfl⟩
        exact { h with
          isTerminal_eq := (congrArg Attachment.isTerminal hw).trans h.isTerminal_eq
          isOpen_eq := (congrArg Attachment.isOpen hw).trans h.isOpen_eq }
      · rintro _ _ ⟨_, w, -, -, rfl⟩
        exact h.handler_eq
    refine Ends.bind ((noting_ends source hflush fun _ _ => id).mono (fun _ _ => id)
      fun _ _ _ => trivial) ?_
    exact fun _ t ht => ⟨{ ht with }, rfl⟩
  · rw [if_neg hturn]
    exact ⟨h, (not_not.mp hturn).symm⟩

def beginWith (kind : StatementKind) (source : SourceLine) (r : Receivers) : Act Session Unit := do
  begin_ kind source
  declare r

theorem Level.begin_ends (h : s.Level) {kind : StatementKind} (hkind : kind.isWrite = true)
    (source : SourceLine) (r : Receivers) :
    Ends (beginWith kind source r) s
      (fun _ t => t.Emits source (({} : Receivers).union r) false) fun _ _ => True := by
  have hbegin : Ends (begin_ kind source) s
      (fun _ t => t.Readied source ∧ t.unit.reading = false) fun _ _ => True := by
    refine Ends.bind (P := fun _ t => s.Begun kind source {} t) ⟨rfl, rfl, rfl⟩ ?_
    intro _ t ht
    have hstatement : t.unit.statement.direction? = some .output := by
      rw [ht.unit_eq]
      exact StatementKind.direction_of_isWrite hkind _
    have hlevel : t.Level := by
      obtain ⟨hterminal, hfurthest, hadvancing⟩ := h
      constructor <;> rw [ht.unit_eq] <;> assumption
    refine (ends_get _).mpr ?_
    rw [hstatement]
    refine (ends_get _).mpr ?_
    cases hopen : t.unit.isOpen with
    | true => exact Readied.turn_ends ⟨hlevel, hopen, hstatement, ht.handler_eq⟩
    | false =>
      refine Ends.bind ((noting_ends (Q := fun _ u => u.Readied source) source
        ((connect_level hopen _ hlevel.nonAdvancing_eq).mono ?_ ?_) fun _ _ => id).mono
          (fun _ _ => id) fun _ _ _ => trivial) ?_
      · rintro _ u ⟨hu, hopen', hhandler, hsame⟩
        exact ⟨hu, hopen', by rw [hsame, hstatement], hhandler.trans ht.handler_eq⟩
      · exact fun _ u hu => hu.trans ht.handler_eq
      · exact fun _ u hu => hu.turn_ends
  refine Ends.bind hbegin ?_
  rintro _ t ⟨ht, hreading⟩
  exact {
    isOpen_eq := ht.isOpen_eq
    isTerminal_eq := ht.isTerminal_eq
    reading_eq := hreading
    furthest_eq := ht.furthest_eq
    statement_eq := ht.statement_eq
    nonAdvancing_eq := ht.nonAdvancing_eq
    source_eq := congrArg Handler.source ht.handler_eq
    declared_eq := congrArg (fun h : Handler => h.declared.union r) ht.handler_eq }

theorem begin_completes_of_output {kind : StatementKind} (hkind : kind.isWrite = true)
    (hopen : s.unit.isOpen = true) (hreading : s.unit.reading = false) (source : SourceLine)
    (r : Receivers) : Completes (beginWith kind source r) s
      fun _ t => s.Begun kind source r t := by
  have hbegin : Completes (begin_ kind source) s fun _ t => s.Begun kind source {} t := by
    refine begin_of_prepare (StatementKind.direction_of_isWrite hkind) fun t ht => ?_
    refine (prepare_of_same (by rw [ht.unit_eq]; exact hopen)
      (by rw [ht.unit_eq, hreading]; rfl)).mono ?_ fun _ _ => id
    rintro _ _ rfl
    exact ht
  refine Ends.bind hbegin ?_
  intro _ t ht
  exact ⟨ht.system_eq, ht.unit_eq, congrArg (fun h : Handler => h.declare r) ht.handler_eq⟩

theorem Emits.isTransfer_eq (h : s.Emits source declared nonAdvancing) :
    s.unit.statement.isTransfer = true := by
  rw [StatementState.isTransfer, h.statement_eq]
  rfl

def conclude : Act Session Iostat := fun s => .ok s.handler.status s.ended

theorem finish_eq (h : s.unit.statement.isTransfer = true) :
    finish s = (endTransfer >>= fun _ => conclude) s := by
  unfold finish
  rw [get_bind_run, if_pos h]
  rfl

theorem Emits.finish_completes (h : s.Emits source declared true) :
    Completes finish s fun _ t => SamePlace s t ∧ t.Level ∧ t.unit.isOpen = true ∧
      t.unit.reading = false := by
  have hinput : s.unit.statement.isInput = false := by
    rw [StatementState.isInput, h.statement_eq]
    rfl
  have houtput : s.unit.statement.isOutput = true := by
    rw [StatementState.isOutput, h.statement_eq]
    rfl
  have htransfer : Completes endTransfer s fun _ t => SamePlace s t.ended ∧ t.ended.Level ∧
      t.ended.unit.isOpen = true ∧ t.ended.unit.reading = false := by
    rw [endTransfer]
    refine (ends_get _).mpr ?_
    dsimp only
    rw [hinput, houtput, h.nonAdvancing_eq, if_neg (by simp), if_pos rfl]
    refine (ends_modify_bind _ _).mpr ((ends_get _).mpr ?_)
    rw [if_neg (by exact Bool.eq_false_iff.mp h.isTerminal_eq)]
    refine ⟨⟨rfl, ?_⟩, ⟨h.isTerminal_eq, rfl, rfl⟩, h.isOpen_eq, h.reading_eq⟩
    simp [settled, ended, release, ExternalUnit.setConnection, h.furthest_eq]
  exact finish_of_endTransfer h.isTransfer_eq htransfer

theorem endTransfer_abreast :
    Simulates (Abreast source declared false) True endTransfer endTransfer := by
  refine Simulates.get_bind fun s t h => ?_
  dsimp only
  rw [h.left.nonAdvancing_eq, h.right.nonAdvancing_eq, if_pos (by rfl), if_pos (by rfl)]
  refine ((report_abreast advanceRecord_abreast).bind fun _ => ?_) s t h
  refine Simulates.get_bind fun s t h => ?_
  rw [h.left.isTerminal_eq, h.right.isTerminal_eq]
  exact .ok _ h

theorem Abreast.finish_agree (h : Abreast source declared false s t) :
    Agree SamePlace True ((discard finish : Act Session PUnit) s)
      ((discard finish : Act Session PUnit) t) := by
  have hrun {u : Session} (hu : u.Emits source declared false) :
      (discard finish : Act Session PUnit) u =
        (discard (endTransfer >>= fun _ => conclude) : Act Session PUnit) u := by
    change EStateM.bind finish _ u = EStateM.bind _ _ u
    unfold EStateM.bind
    rw [finish_eq hu.isTransfer_eq]
  rw [hrun h.left, hrun h.right, discard_bind]
  refine Agree.bind_of (fun _ _ h => h.toSamePlace) (endTransfer_abreast s t h) ?_
  intro _ u v _ huv
  exact .ok () ⟨huv.system_eq, huv.settled_eq⟩

/-! ### Split statements -/

def emitAll (chunks : List Bytes) : Act Session PUnit := forM chunks fun data => discard (emit data)

/-- A WRITE of these data; unless it advances it says so. -/
def writeData (kind : StatementKind) (source : SourceLine) (r : Receivers) (nonAdvancing : Bool)
    (chunks : List Bytes) : Act Session (PUnit × Iostat) :=
  statement kind source r do
    if nonAdvancing then setNonAdvancing true
    emitAll chunks

theorem emitAll_abreast (chunks : List Bytes) :
    Simulates (Abreast source declared nonAdvancing) True (emitAll chunks) (emitAll chunks) := by
  induction chunks with
  | nil => exact .pure _
  | cons data chunks ih =>
    rw [emitAll, List.forM_cons]
    exact (emit_abreast data).bind fun _ => ih

theorem emitAll_append (chunks later : List Bytes) :
    emitAll (chunks ++ later) = emitAll chunks >>= fun _ => emitAll later := by
  unfold emitAll
  rw [List.forM_append]

theorem discard_writeData (kind : StatementKind) (source : SourceLine) (r : Receivers)
    (nonAdvancing : Bool) (chunks : List Bytes) :
    discard (writeData kind source r nonAdvancing chunks) = (do
      beginWith kind source r
      if nonAdvancing then setNonAdvancing true
      emitAll chunks
      discard finish) := by
  unfold writeData statement beginWith
  simp only [discard_bind, bind_assoc]
  cases nonAdvancing <;> rfl

/-- A WRITE that begins where another has come to stands beside it. -/
theorem Abreast.begun {u v : Session} (h : SamePlace s u) (hright : t.Emits source declared false)
    (hst : SamePlace s t) {kind : StatementKind} (hkind : kind.isWrite = true) (hlevel : u.Level)
    (hopen : u.unit.isOpen = true) (hreading : u.unit.reading = false) {r : Receivers}
    (hdeclared : declared = ({} : Receivers).union r) (hbegun : u.Begun kind source r v) :
    Abreast source declared false v t where
  toSamePlace := by
    have huv : SamePlace u v := ⟨hbegun.system_eq, by rw [hbegun.unit_eq]; rfl⟩
    exact (h.trans huv).symm.trans hst
  left := by
    have hunit := hbegun.unit_eq
    exact {
      isOpen_eq := by rw [hunit]; exact hopen
      isTerminal_eq := by rw [hunit]; exact hlevel.isTerminal_eq
      reading_eq := by rw [hunit]; exact hreading
      furthest_eq := by rw [hunit]; exact hlevel.furthest_eq
      statement_eq := by rw [hunit]; exact StatementKind.direction_of_isWrite hkind _
      nonAdvancing_eq := by rw [hunit]; exact hlevel.nonAdvancing_eq
      source_eq := by rw [hbegun.handler_eq]; rfl
      declared_eq := by rw [hbegun.handler_eq, hdeclared]; rfl }
  right := hright

/-- A WRITE that does not advance is as good as the beginning of the WRITE behind it. -/
theorem Level.merge_agree (h : s.Level) {kind : StatementKind} (hkind : kind.isWrite = true)
    (source : SourceLine) (r : Receivers) (chunks later : List Bytes) :
    Agree SamePlace True
      ((do
        discard (writeData kind source r true chunks)
        discard (writeData kind source r false later) : Act Session PUnit) s)
      ((discard (writeData kind source r false (chunks ++ later)) : Act Session PUnit) s) := by
  rw [discard_writeData, discard_writeData, discard_writeData, bind_assoc]
  have hbegin := h.begin_ends hkind source r
  cases hrun : beginWith kind source r s with
  | error c u =>
    rw [bind_run_error hrun, bind_run_error hrun]
    exact .error trivial c (SamePlace.refl u)
  | ok _ u =>
    rw [bind_run_eq hrun, bind_run_eq hrun]
    have hu : u.Emits source (({} : Receivers).union r) false := hbegin.of_run hrun
    simp only [if_true, Bool.false_eq_true, if_false, bind_assoc, emitAll_append]
    have hset : Completes (setNonAdvancing true) u fun _ v =>
        Abreast source (({} : Receivers).union r) true v u :=
      ⟨⟨rfl, rfl⟩, { hu with nonAdvancing_eq := rfl }, hu⟩
    refine Agree.bind_left (hset.mono ?_ fun _ _ => id)
    intro _ v habreast
    refine Agree.bind_of (fun _ _ h => h.toSamePlace) (emitAll_abreast chunks v u habreast) ?_
    intro _ v w _ hvw
    refine Agree.bind_left (hvw.left.finish_completes.discard_state.mono ?_ fun _ _ => id)
    rintro _ v' ⟨hv, hlevel, hopen, hreading⟩
    refine Agree.bind_left ((begin_completes_of_output hkind hopen hreading source r).mono ?_
      fun _ _ => id)
    intro _ x hx
    have hxw := Abreast.begun hv hvw.right hvw.toSamePlace hkind hlevel hopen hreading rfl hx
    refine Agree.bind_of (fun _ _ h => h.toSamePlace) (emitAll_abreast later x w hxw) ?_
    intro _ _ _ _ hend
    exact hend.finish_agree

theorem Level.writeData_ends (h : s.Level) {kind : StatementKind} (hkind : kind.isWrite = true)
    (source : SourceLine) (r : Receivers) (chunks : List Bytes) :
    Ends (discard (writeData kind source r true chunks)) s (fun _ t => t.Level) fun _ _ => True := by
  rw [discard_writeData]
  refine (h.begin_ends hkind source r).bind fun _ t ht => ?_
  have hset : Completes (setNonAdvancing true) t fun _ u =>
      Abreast source (({} : Receivers).union r) true u t :=
    ⟨⟨rfl, rfl⟩, { ht with nonAdvancing_eq := rfl }, ht⟩
  refine Ends.bind (hset.mono (fun _ _ => id) fun _ _ => False.elim) fun _ u hu => ?_
  refine Ends.bind ((emitAll_abreast chunks u t hu).ends.mono (fun _ _ => id) fun _ _ _ => trivial) ?_
  rintro _ v ⟨w, hv⟩
  exact hv.left.finish_completes.discard_state.mono (fun _ _ hx => hx.2.1) fun _ _ => False.elim

/-- WRITEs that do not advance, and one behind them that does. -/
def writePieces (kind : StatementKind) (source : SourceLine) (r : Receivers)
    (pieces : List (List Bytes)) (last : List Bytes) : Act Session PUnit := do
  forM pieces fun chunks => discard (writeData kind source r true chunks)
  discard (writeData kind source r false last)

theorem Level.split_agree (h : s.Level) {kind : StatementKind} (hkind : kind.isWrite = true)
    (source : SourceLine) (r : Receivers) (pieces : List (List Bytes)) (last : List Bytes) :
    Agree SamePlace True (writePieces kind source r pieces last s)
      ((discard (writeData kind source r false (pieces.flatten ++ last)) : Act Session PUnit) s) := by
  induction pieces generalizing s with
  | nil => exact Agree.refl SamePlace.refl trivial _
  | cons chunks pieces ih =>
    have hcons : writePieces kind source r (chunks :: pieces) last = (do
        discard (writeData kind source r true chunks)
        writePieces kind source r pieces last) := by
      rw [writePieces, List.forM_cons, bind_assoc]
      rfl
    rw [hcons, List.flatten_cons, List.append_assoc]
    have hrest := Agree.bind_same SamePlace.refl trivial (h.writeData_ends hkind source r chunks)
      fun _ _ ht => ih ht
    exact hrest.trans (fun hleft hright => hleft.trans hright)
      (h.merge_agree hkind source r chunks (pieces.flatten ++ last))

end Session

end DataTransfer
