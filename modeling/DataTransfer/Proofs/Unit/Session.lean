import DataTransfer.Proofs.Status.Handler
import DataTransfer.Proofs.Storage.Names
import DataTransfer.Unit.Operations

/-!
Statements on a unit that is connected to a file: how an operation of a statement follows from one
on its window or attachment, and what OPEN and CLOSE leave behind.
-/

namespace DataTransfer

def Attachment.ofFile (path : String) (n : ℕ) : Attachment :=
  { path := some path, backing := some (.file (.node n) true)
    mayRead := true, mayWrite := true, mayPosition := true }

theorem ExternalUnit.dataOffset_of_formatted {u : ExternalUnit} (h : u.connection.formatted = true) :
    u.dataOffset = u.offset := by
  rw [dataOffset, hasMarkers, h]
  rfl

theorem FieldSource.signal_eq {σ : Type} [FieldSource σ] {change : Handler → Except Crash Handler}
    {s : σ} {h : Handler} (hchange : change (handler s) = .ok h) :
    signal change s = .ok () (withHandler s h) := by
  unfold signal
  rw [hchange]

namespace System

variable {system : System} {n : ℕ} (hn : n < system.files.nodes.length) (path : String)

/-- A file of the system, opened by name, as a flat device. -/
def device : FlatDevice Channel :=
  Channel.AttachedTo.device (c := ⟨system, .ofFile path n⟩) ⟨rfl, rfl, hn⟩

def withContent (system : System) (n : ℕ) (content : Bytes) : System :=
  { system with files := system.files.setContent (.node n) content }

variable {hn path}

theorem openTo (hn : n < system.files.nodes.length) (path : String) :
    (⟨system, .ofFile path n⟩ : Channel).OpenTo n :=
  ⟨⟨rfl, rfl, hn⟩, rfl, rfl, rfl⟩

theorem eq_of_valid {d : Channel} (h : (device hn path).Valid d) :
    d = ⟨system.withContent n ((device hn path).content d), .ofFile path n⟩ :=
  (openTo hn path).eq_of_valid h

theorem holds_opened (start : ℕ) :
    Windowed.Holds (device hn path) ⟨⟨system, .ofFile path n⟩, { offset := start }⟩
      (system.files.contentAt n) :=
  (openTo hn path).holds_opened start

end System

namespace Windowed.Holds

variable {system : System} {n : ℕ} {hn : n < system.files.nodes.length} {path : String}
variable {w : Windowed Channel} {content : Bytes} (h : w.Holds (system.device hn path) content)
include h

theorem attachment_eq : w.device.attachment = .ofFile path n :=
  congrArg Channel.attachment (System.eq_of_valid h.coherent.valid)

theorem read_file {offset : ℕ} (count : ℕ) (hoffset : offset ≤ content.length)
    (hsize : content.length < FileSystem.offsetLimit) :
    Completes (read offset count) w fun got t => t.Holds (system.device hn path) content ∧
      got = min count (content.length - offset) ∧
      t.window.bytesAt offset got = content.slice offset got := by
  refine h.read_completes fun i _ hi => ?_
  rw [max_eq_right hoffset] at hi
  exact hi.trans_lt hsize

theorem read_accepted {offset : ℕ} (count : ℕ) (hoffset : offset < FileSystem.offsetLimit)
    (hsize : content.length < FileSystem.offsetLimit) :
    Completes (read offset count) w fun got t => t.Holds (system.device hn path) content ∧
      got = min count (content.length - offset) ∧
      t.window.bytesAt offset got = content.slice offset got :=
  h.read_completes fun _ _ hi => hi.trans_lt (max_lt hoffset hsize)

theorem write_file {offset : ℕ} (data : Bytes)
    (hsize : offset + data.length < FileSystem.offsetLimit) :
    Completes (write offset data) w fun _ t =>
      t.Holds (system.device hn path) (content.put offset data) :=
  Channel.AttachedTo.write_completes _ h data hsize

end Windowed.Holds

theorem Session.attachment_eq {s : Session} {system : System} {n : ℕ}
    {hn : n < system.files.nodes.length} {path : String} {content : Bytes}
    (h : s.channel.Holds (system.device hn path) content) : s.unit.attachment = .ofFile path n :=
  h.attachment_eq

namespace Channel

theorem setAttachment_completes (f : Attachment → Attachment) (c : Channel) :
    Completes (setAttachment f) c fun _ d => d = { c with attachment := f c.attachment } := rfl

theorem attach_completes {c : Channel} {status : OpenStatus} {path : String} {n : ℕ}
    {files : FileSystem} (hstatus : status ≠ .scratch)
    (hopen : c.system.files.open_ path (request status) = .ok (.node n, files)) :
    Completes (attach status .asIs (some path)) c fun start d =>
      start = 0 ∧ d = ⟨{ c.system with files }, .ofFile path n⟩ := by
  have hnamed (d : Channel) (hd : d.system = c.system) : Completes (openNamed status path) d
      fun opened e =>
        opened = (.node n, true) ∧ e = { d with system := { c.system with files } } := by
    unfold Completes Ends openNamed
    simp only [hd, hopen, and_self]
  apply Ends.bind (setAttachment_completes _ c)
  rintro _ _ rfl
  cases status with
  | scratch => exact absurd rfl hstatus
  | old | new | replace | unknown =>
    apply Ends.bind (setAttachment_completes _ _)
    rintro _ _ rfl
    refine Ends.bind (hnamed _ rfl) ?_
    rintro _ _ ⟨rfl, rfl⟩
    exact ⟨rfl, rfl⟩

theorem detach_completes (c : Channel) : Completes (detach .keep) c fun _ d =>
    d = ⟨c.flushed.system, { c.attachment with backing := none, isScratch := false }⟩ := by
  rw [← attachment_flushed c]
  rfl

end Channel

namespace Session

variable {s : Session}

/-! ### Operations of a session -/

theorem windowed_succeeds {α : Type} {act : Windowed.Op Channel α} {P : α → Windowed Channel → Prop}
    (h : Completes act s.channel P) :
    Succeeds (windowed act) s fun a t => ∃ w, P a w ∧ t = s.withChannel w := by
  obtain ⟨a, w, hrun, hP⟩ := h.exists_run
  unfold Succeeds Attempts Completes Ends windowed
  simp only [ExceptT.run, hrun]
  exact ⟨w, hP, rfl⟩

theorem attached_succeeds {α : Type} {act : Channel.Op Fault α} {P : α → Channel → Prop}
    (h : Completes act s.channel.device P) :
    Succeeds (attached act) s fun a t =>
      ∃ d, P a d ∧ t = s.withChannel { s.channel with device := d } := by
  obtain ⟨a, d, hrun, hP⟩ := h.exists_run
  unfold Succeeds Attempts Completes Ends attached
  simp only [ExceptT.run, hrun]
  exact ⟨d, hP, rfl⟩

def synced (s : Session) : Session :=
  s.withChannel { s.channel with device := s.channel.device.flushed }

theorem synced_of_ne (h : s.unit.attachment.backing ≠ some .standardOutput) : s.synced = s := by
  rw [synced, Channel.flushed_of_ne h]
  rfl

theorem flush_of_windowed {P : Session → Prop} {R : Fault → Session → Prop}
    (hopen : s.unit.isOpen = true)
    (h : Attempts (windowed Windowed.flush) s (fun _ t => P t.synced) R) :
    Attempts flush s (fun _ => P) R := by
  rw [flush, attempts_get, if_pos hopen]
  exact Attempts.bind h fun _ _ => id

theorem lift_succeeds {α : Type} {act : Attempt Session α} {P : α → Session → Prop}
    (h : Succeeds act s P) :
    Succeeds (ExceptT.lift act.run : Attempt Session (Except Fault α)) s fun r t =>
      ∃ a, r = .ok a ∧ P a t := by
  apply Ends.bind h
  intro r t hr
  cases r with
  | ok a => exact ⟨a, rfl, hr⟩
  | error f => exact hr.elim

theorem modifyUnit_succeeds (f : ExternalUnit → ExternalUnit) :
    Succeeds (modifyUnit f) s fun _ t => t = { s with unit := f s.unit } := rfl

theorem modifyConnection_succeeds (f : Connection → Connection) :
    Succeeds (modifyConnection f) s fun _ t => t = { s with unit := s.unit.setConnection f } := rfl

theorem report_completes {act : Attempt Session Unit} {Q : Bool → Session → Prop}
    (h : Attempts act s (fun _ t => Q (!t.handler.inError) t)
      (fun f t => ∃ handler, t.handler.fault f = .ok handler ∧ Q false { t with handler })) :
    Completes (report act) s Q := by
  apply Ends.bind h
  intro r t hr
  cases r with
  | ok a => exact hr
  | error f =>
    obtain ⟨handler, hfault, hQ⟩ := hr
    unfold Ends
    simp only [hfault]
    exact hQ

theorem noting_completes {f : Fault} {handler : Handler} (h : s.handler.fault f = .ok handler) :
    Completes (noting (throw f)) s fun _ t => t = { s with handler } := by
  have hreport : Completes (report (throw f)) s fun _ t => t = { s with handler } :=
    report_completes ⟨handler, h, rfl⟩
  exact hreport.discard_state

theorem signalEndOfFile_succeeds (h : s.handler.declared.admits .endOfFile = true) :
    Succeeds signalEndOfFile s fun _ t =>
      t = { s with handler := s.handler.record .endOfFile } := by
  have hend : s.handler.endOfFile = .ok (s.handler.record .endOfFile) := if_pos h
  unfold Succeeds Attempts Completes Ends signalEndOfFile modifyHandler
  simp only [ExceptT.run, hend]

/-! ### Statements -/

def statement {α : Type} (kind : StatementKind) (source : SourceLine) (r : Receivers)
    (work : Act Session α) : Act Session (α × Iostat) := do
  begin_ kind source
  declare r
  let a ← work
  return (a, ← finish)

theorem statement_completes {α : Type} {kind : StatementKind} {source : SourceLine} {r : Receivers}
    {work : Act Session α} {B : Session → Prop} {Q : α × Iostat → Session → Prop}
    (hbegin : Completes (begin_ kind source) s fun _ t =>
      B { t with handler := t.handler.declare r })
    (hwork : ∀ t, B t → Completes work t fun a t =>
      Completes finish t fun status u => Q (a, status) u) :
    Completes (statement kind source r work) s Q := by
  apply Ends.bind hbegin
  intro _ t hB
  refine Ends.bind (P := fun _ t => B t) hB ?_
  intro _ t hB
  apply Ends.bind (hwork t hB)
  intro a t hfinish
  apply Ends.bind hfinish
  intro status u hQ
  exact hQ

/-- What completes as a statement, does so in each of its parts. -/
theorem statement_completes_inv {α : Type} {kind : StatementKind} {source : SourceLine} {r : Receivers}
    {work : Act Session α} {Q : α × Iostat → Session → Prop}
    (h : Completes (statement kind source r work) s Q) :
    Completes (begin_ kind source) s fun _ t =>
      Completes work { t with handler := t.handler.declare r } fun a u =>
        Completes finish u fun status v => Q (a, status) v := by
  refine h.of_bind.mono (fun _ t hrest => ?_) fun _ _ => id
  have hwork : Completes (do let a ← work; return (a, ← finish))
      { t with handler := t.handler.declare r } Q := hrest
  exact hwork.of_bind.mono (fun _ _ hend => hend.of_bind) fun _ _ => id

theorem statement_ends {α : Type} {kind : StatementKind} {source : SourceLine} {r : Receivers}
    {work : Act Session α} {B : Session → Prop} {Q : α → Prop}
    (hbegin : Completes (begin_ kind source) s fun _ t =>
      B { t with handler := t.handler.declare r })
    (hwork : ∀ t, B t → Ends work t (fun a _ => Q a) fun _ _ => True) :
    Ends (statement kind source r work) s (fun out _ => Q out.1) fun _ _ => True := by
  refine Ends.bind (Ends.mono hbegin (fun _ _ => id) fun _ _ => False.elim) ?_
  intro _ t hB
  refine Ends.bind (P := fun _ t => B t) hB ?_
  intro _ t hB
  refine (hwork t hB).bind fun a u ha => ?_
  exact (Ends.trivial finish u).bind fun _ _ _ => ha

structure Begun (s : Session) (kind : StatementKind) (source : SourceLine) (r : Receivers)
    (t : Session) : Prop where
  system_eq : t.system = s.system
  unit_eq : t.unit = { s.unit with
    held := true
    statement := .begin_ kind s.unit.connection.modes }
  handler_eq : t.handler = ({ source } : Handler).declare r

theorem Begun.channel_eq {kind : StatementKind} {source : SourceLine} {r : Receivers} {t : Session}
    (h : s.Begun kind source r t) : t.channel = s.channel := by
  rw [channel, channel, h.system_eq, h.unit_eq]

def ended (s : Session) : Session :=
  { s with
    unit := release { s.unit.setConnection (fun c => { c with nonAdvancing := false }) with
      statement := .idle } }

theorem finish_of_not_transfer (h : s.unit.statement.isTransfer = false) :
    Completes finish s fun status t => status = s.handler.status ∧ t = s.ended := by
  simp only [finish, ends_get, h]
  exact ⟨rfl, rfl⟩

/-- A transfer tells its status when it has ended, and leaves the unit idle. -/
theorem finish_of_endTransfer {Q : Iostat → Session → Prop} {R : Crash → Session → Prop}
    (h : s.unit.statement.isTransfer = true)
    (hend : Ends endTransfer s (fun _ t => Q t.handler.status t.ended) R) : Ends finish s Q R := by
  simp only [finish, ends_get, h, if_true]
  exact hend.bind fun _ _ => id

theorem finish_of_transfer {Q : Iostat → Session → Prop} (h : s.unit.statement.isTransfer = true)
    (hadvancing : s.unit.connection.nonAdvancing = false)
    (hadvance : Completes advance s fun _ t =>
      t.unit.attachment.isTerminal = false ∧ Q t.handler.status t.ended) :
    Completes finish s Q := by
  refine finish_of_endTransfer h ?_
  simp only [endTransfer, ends_get, hadvancing, Bool.not_false, Bool.true_or, if_true]
  apply Ends.bind hadvance.discard
  rintro _ t ⟨_, hterminal, hQ⟩
  simp only [flushIfTerminal, ends_get, hterminal]
  exact hQ

theorem prepare_of_same {kind : StatementKind} {direction : Direction}
    (hopen : s.unit.isOpen = true) (hreading : decide (direction = .input) = s.unit.reading) :
    Completes (prepare kind direction) s fun _ t => t = s := by
  unfold prepare
  refine (ends_get _).mpr ?_
  dsimp only
  rw [if_neg (by rw [hopen]; exact Bool.false_ne_true)]
  refine (ends_get _).mpr ?_
  rw [if_neg (not_not_intro hreading)]
  exact rfl

/-- On a change of direction the window is written out. -/
theorem prepare_of_turn {F : FlatDevice Channel} {content : Bytes} {kind : StatementKind}
    {direction : Direction} (h : s.channel.Holds F content) (hopen : s.unit.isOpen = true)
    (hreading : decide (direction = .input) ≠ s.unit.reading) :
    Completes (prepare kind direction) s fun _ t =>
      ∃ w, w.Holds F content ∧
        t = { s.withChannel w with
          unit := { (s.withChannel w).unit with
            reading := decide (direction = .input), located := false } } := by
  have hflush : Completes (noting (windowed Windowed.flush)) s fun _ t =>
      ∃ w, w.Holds F content ∧ t = s.withChannel w := by
    refine Ends.discard_state (report_completes ?_)
    refine (windowed_succeeds h.flush_completes).mono ?_ fun _ _ => False.elim
    rintro _ _ ⟨w, ⟨hw, -⟩, rfl⟩
    exact ⟨w, hw, rfl⟩
  unfold prepare
  refine (ends_get _).mpr ?_
  dsimp only
  rw [if_neg (by rw [hopen]; exact Bool.false_ne_true)]
  refine (ends_get _).mpr ?_
  rw [if_pos hreading]
  apply Ends.bind hflush
  rintro _ _ ⟨w, hw, rfl⟩
  exact ⟨w, hw, rfl⟩

theorem begin_of_prepare {kind : StatementKind} {direction : Direction} {source : SourceLine}
    {Q : Session → Prop}
    (hkind : ∀ modes, (StatementState.begin_ kind modes).direction? = some direction)
    (hprepare : ∀ t, s.Begun kind source {} t →
      Completes (prepare kind direction) t fun _ u => Q u) :
    Completes (begin_ kind source) s fun _ t => Q t := by
  refine Ends.bind (P := fun _ t => s.Begun kind source {} t) ⟨rfl, rfl, rfl⟩ ?_
  intro _ t ht
  have hdirection : t.unit.statement.direction? = some direction := by
    rw [ht.unit_eq]
    exact hkind _
  refine (ends_get _).mpr ?_
  rw [hdirection]
  exact hprepare t ht

theorem begin_of_same {kind : StatementKind} {direction : Direction} {source : SourceLine}
    (r : Receivers)
    (hkind : ∀ modes, (StatementState.begin_ kind modes).direction? = some direction)
    (hopen : s.unit.isOpen = true) (hreading : decide (direction = .input) = s.unit.reading) :
    Completes (begin_ kind source) s fun _ t =>
      s.Begun kind source r { t with handler := t.handler.declare r } := by
  refine begin_of_prepare hkind ?_
  intro t ht
  refine (prepare_of_same (by rw [ht.unit_eq]; exact hopen)
    (by rw [ht.unit_eq]; exact hreading)).mono ?_ fun _ _ => id
  intro _ u hu
  rw [hu]
  exact ⟨ht.system_eq, ht.unit_eq, congrArg (·.declare r) ht.handler_eq⟩

/-- A transfer that has just begun on a unit with a file, and has declared its receivers. The unit has
been turned around if the transfer before went the other way. -/
structure Starts (s : Session) (F : FlatDevice Channel) (content : Bytes) (kind : StatementKind)
    (direction : Direction) (r : Receivers) (t : Session) : Prop where
  holds : t.channel.Holds F content
  connection_eq : t.unit.connection = s.unit.connection
  offset_eq : t.unit.offset = s.unit.offset
  located : t.unit.located = true → s.unit.located = true
  reading_eq : t.unit.reading = decide (direction = .input)
  statement_eq : t.unit.statement = .begin_ kind s.unit.connection.modes
  status_eq : t.handler.status = .ok
  declared_eq : t.handler.declared = r

theorem starts_of_begin {F : FlatDevice Channel} {content : Bytes} {kind : StatementKind}
    {direction : Direction} (h : s.channel.Holds F content) (hopen : s.unit.isOpen = true)
    (hkind : ∀ modes, (StatementState.begin_ kind modes).direction? = some direction)
    (source : SourceLine) (r : Receivers) :
    Completes (begin_ kind source) s fun _ t =>
      s.Starts F content kind direction r { t with handler := t.handler.declare r } := by
  refine begin_of_prepare hkind ?_
  intro t ht
  rw [← ht.channel_eq] at h
  replace hopen : t.unit.isOpen = true := by
    rw [ht.unit_eq]
    exact hopen
  have hstatus : t.handler.status = .ok := by
    rw [ht.handler_eq]
    rfl
  have hdeclared : (t.handler.declare r).declared = r := by
    rw [ht.handler_eq]
    rfl
  have hconnection : t.unit.connection = s.unit.connection := by rw [ht.unit_eq]
  have hoffset : t.unit.offset = s.unit.offset := by rw [ht.unit_eq]
  have hlocated : t.unit.located = s.unit.located := by rw [ht.unit_eq]
  have hstatement : t.unit.statement = .begin_ kind s.unit.connection.modes := by rw [ht.unit_eq]
  by_cases hreading : decide (direction = .input) = t.unit.reading
  · refine (prepare_of_same hopen hreading).mono ?_ fun _ _ => id
    rintro _ _ rfl
    exact ⟨h, hconnection, hoffset, fun htrue => hlocated.symm.trans htrue, hreading.symm, hstatement,
      hstatus, hdeclared⟩
  · refine (prepare_of_turn h hopen hreading).mono ?_ fun _ _ => id
    rintro _ _ ⟨w, hw, rfl⟩
    exact ⟨hw, hconnection, hoffset, nofun, rfl, hstatement, hstatus, hdeclared⟩

def openedUnit (u : ExternalUnit) (path : String) (n : ℕ) (form : Form) : ExternalUnit :=
  { atFirstRecord 0
      { u with attachment := .ofFile path n, connection := u.connection.withForm form } with
    statement := .idle
    held := false }.setConnection fun c => { c with nonAdvancing := false }

def closedUnit (u : ExternalUnit) (path : String) (n : ℕ) : ExternalUnit :=
  { u with
    connection := {}
    attachment := { Attachment.ofFile path n with backing := none }
    window := {}
    offset := 0
    located := false
    statement := .idle
    held := false }

theorem connect_succeeds {status : OpenStatus} {path : String} {n : ℕ} {files : FileSystem}
    (form : Form) (hclosed : s.unit.isOpen = false) (hstatus : status ≠ .scratch)
    (hopen : s.system.files.open_ path (Channel.request status) = .ok (.node n, files)) :
    Succeeds (connect status .asIs (some path) form) s fun _ t =>
      t = { s with
        system := { s.system with files }
        unit := atFirstRecord 0
          { s.unit with
            attachment := .ofFile path n
            connection := s.unit.connection.withForm form } } := by
  simp only [connect, attempts_get, hclosed, Bool.false_and, Bool.false_eq_true, if_false, hstatus]
  apply Attempts.bind (modifyConnection_succeeds _)
  rintro _ _ rfl
  refine Attempts.bind (attached_succeeds (Channel.attach_completes hstatus hopen)) ?_
  rintro _ _ ⟨_, ⟨rfl, rfl⟩, rfl⟩
  rfl

theorem open_completes {status : OpenStatus} {path : String} {n : ℕ} {files : FileSystem}
    (form : Form) (source : SourceLine) (r : Receivers) (hclosed : s.unit.isOpen = false)
    (hstatus : status ≠ .scratch)
    (hopen : s.system.files.open_ path (Channel.request status) = .ok (.node n, files)) :
    Completes (statement .connect source r (openUnit status .asIs (some path) form)) s fun out t =>
      out = (true, .ok) ∧ t.system = { s.system with files } ∧
        t.unit = openedUnit s.unit path n form := by
  refine statement_completes (B := s.Begun .connect source r) ⟨rfl, rfl, rfl⟩ ?_
  intro t ht
  have hclosed' : t.unit.isOpen = false := by rw [ht.unit_eq]; exact hclosed
  rw [← ht.system_eq] at hopen
  refine report_completes ((connect_succeeds form hclosed' hstatus hopen).mono ?_ ?_)
  · rintro _ _ rfl
    have hidle : t.unit.statement.isTransfer = false := by rw [ht.unit_eq]; rfl
    refine (finish_of_not_transfer (by exact hidle)).mono ?_ fun _ _ => id
    rintro _ _ ⟨rfl, rfl⟩
    rw [ht.handler_eq]
    refine ⟨rfl, ?_, ?_⟩
    · rw [← ht.system_eq]
      rfl
    · unfold ended
      dsimp only
      rw [ht.unit_eq]
      rfl
  · exact fun _ _ => False.elim

section

variable {system : System} {n : ℕ} {hn : n < system.files.nodes.length} {path : String}
variable {content : Bytes}

theorem isOpen_of_holds (h : s.channel.Holds (system.device hn path) content) :
    s.unit.isOpen = true := by
  rw [ExternalUnit.isOpen, attachment_eq h]
  rfl

theorem mayRead_of_holds (h : s.channel.Holds (system.device hn path) content) :
    s.unit.attachment.mayRead = true := by
  rw [attachment_eq h]
  rfl

theorem requireWritable_of_mayWrite (h : s.unit.attachment.mayWrite = true) :
    Succeeds requireWritable s fun _ t => t = s := by
  simp only [requireWritable, attempts_get, h]
  rfl

theorem requireWritable_succeeds (h : s.channel.Holds (system.device hn path) content) :
    Succeeds requireWritable s fun _ t => t = s :=
  requireWritable_of_mayWrite (by rw [attachment_eq h]; rfl)

def detachedUnit (u : ExternalUnit) (a : Attachment) : ExternalUnit :=
  { u with
    connection := {}
    attachment := { a with backing := none, isScratch := false }
    window := {}
    offset := 0
    located := false
    statement := .idle
    held := false }

section

variable {c : Channel} (hc : c.OpenTo n)
include hc

theorem isOpen_of_openTo (h : s.channel.Holds hc.device content) : s.unit.isOpen = true := by
  rw [ExternalUnit.isOpen, Attachment.isOpen, show s.unit.attachment = _ from hc.attachment_eq h,
    hc.backing]
  rfl

theorem disconnect_succeeds (h : s.channel.Holds hc.device content) :
    Succeeds (disconnect .keep) s fun _ t =>
      t = { s with
        system := (c.withContent n content).system
        unit := { s.unit with
          attachment := { c.attachment with backing := none, isScratch := false }
          connection := {}, window := {}, offset := 0, located := false } } := by
  have hopen := isOpen_of_openTo hc h
  have hflush : Succeeds flush s fun _ t => ∃ w, t = s.withChannel w ∧
      w.device = c.withContent n content := by
    refine flush_of_windowed hopen ((windowed_succeeds h.flush_completes).mono ?_ fun _ _ => id)
    rintro _ _ ⟨w, ⟨hw, hcontent⟩, rfl⟩
    have hdevice : w.device = c.withContent n content := by
      rw [← hcontent]
      exact hc.eq_of_valid hw.coherent.valid
    have hfile : w.device.attachment.backing ≠ some .standardOutput := by
      rw [hdevice]
      exact hc.backing_ne
    exact ⟨w, synced_of_ne hfile, hdevice⟩
  apply Attempts.bind (lift_succeeds hflush)
  rintro _ _ ⟨_, rfl, w, rfl, hw⟩
  have hdevice : (s.withChannel w).channel.device = c.withContent n content := hw
  have hfile : (c.withContent n content).flushed = c.withContent n content :=
    Channel.flushed_of_ne hc.backing_ne
  apply Attempts.bind (attached_succeeds (Channel.detach_completes _))
  rintro _ _ ⟨_, rfl, rfl⟩
  rw [hdevice, hfile]
  rfl

theorem close_of_openTo (source : SourceLine) (r : Receivers)
    (h : s.channel.Holds hc.device content) :
    Completes (statement .disconnect source r (closeUnit .keep)) s fun out t =>
      out = (true, .ok) ∧ t.system = (c.withContent n content).system ∧
        t.unit = detachedUnit s.unit c.attachment := by
  refine statement_completes (B := s.Begun .disconnect source r) ⟨rfl, rfl, rfl⟩ ?_
  intro t ht
  rw [← ht.channel_eq] at h
  refine report_completes ((disconnect_succeeds hc h).mono ?_ ?_)
  · rintro _ _ rfl
    have hidle : t.unit.statement.isTransfer = false := by rw [ht.unit_eq]; rfl
    refine (finish_of_not_transfer (by exact hidle)).mono ?_ fun _ _ => id
    rintro _ _ ⟨rfl, rfl⟩
    rw [ht.handler_eq]
    refine ⟨rfl, rfl, ?_⟩
    unfold ended
    dsimp only
    rw [ht.unit_eq]
    rfl
  · exact fun _ _ => False.elim

end

theorem close_completes (source : SourceLine) (r : Receivers)
    (h : s.channel.Holds (system.device hn path) content) :
    Completes (statement .disconnect source r (closeUnit .keep)) s fun out t =>
      out = (true, .ok) ∧ t.system = system.withContent n content ∧
        t.unit = closedUnit s.unit path n :=
  close_of_openTo (System.openTo hn path) source r h

end

end Session

end DataTransfer
