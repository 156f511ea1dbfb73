import DataTransfer.Proofs.Unit.Clean
import DataTransfer.Proofs.Unit.Preservation
import DataTransfer.Proofs.Unit.Session

/-!
What an OPEN that succeeds leaves behind. Whatever the unit was connected to before, all that counts
for the transfers to come is told by the specifiers and by the file that was opened.
-/

namespace DataTransfer

def Attachment.opened (status : OpenStatus) (name : Option String) (ref : FileRef)
    (writable : Bool) : Attachment :=
  { path := name, backing := some (.file ref writable)
    mayRead := true, mayWrite := writable, mayPosition := true, isScratch := status = .scratch }

/-- Unless a file is attached, all that is left of attempts to attach one is this name. -/
def Attachment.Left (a : Attachment) (name : Option String) : Prop :=
  a.isOpen = false → a.isScratch = false ∧ a.path = name

theorem Attachment.left_of_isOpen {a : Attachment} (h : a.isOpen = true) (name : Option String) :
    a.Left name := by
  intro hclosed
  rw [h] at hclosed
  cases hclosed

theorem Attachment.opened_eq_ofFile {status : OpenStatus} (hstatus : status ≠ .scratch)
    (name : String) (n : ℕ) :
    Attachment.opened status (some name) (.node n) true = .ofFile name n := by
  simp [opened, ofFile, hstatus]

namespace ExternalUnit

/-- The name of the file that an OPEN connects the unit to; scratch files have none. -/
def openName (u : ExternalUnit) (status : OpenStatus) (path : Option String) : Option String :=
  if status = .scratch then none else some (path.getD u.defaultPath)

/-- An OPEN of the old file that the unit is connected to already: it leaves everything as it is. -/
def reaffirms (u : ExternalUnit) (status : OpenStatus) (path : Option String) : Bool :=
  u.isOpen && status = .old && path.all fun path => u.attachment.path.any (Path.same path)

end ExternalUnit

namespace Channel

theorem openNamed_ends (status : OpenStatus) (path : String) {c : Channel}
    (hwrite : c.attachment.mayWrite = true) :
    Ends (openNamed status path) c
      (fun opened d => d.attachment = { c.attachment with mayWrite := opened.2 } ∧
        (∀ n, opened = (.node n, true) → d.system.files.LeadsTo path n) ∧
        (opened.2 = false → ∃ n, opened.1 = .node n))
      fun _ d => ∃ mayWrite, d.attachment = { c.attachment with mayWrite } := by
  have hrequest : (request status).write = true := by cases status <;> rfl
  unfold Ends openNamed
  cases hopen : c.system.files.open_ path (request status) with
  | ok opened =>
    obtain ⟨ref, files⟩ := opened
    refine ⟨?_, ?_, nofun⟩
    · dsimp only
      rw [← hwrite]
    · rintro n heq
      cases heq
      exact FileSystem.leadsTo_of_open hrequest hopen
  | error e =>
    dsimp only
    split_ifs with hdenied
    · obtain rfl : status = .old := of_decide_eq_true (Bool.and_eq_true_iff.mp hdenied).2
      cases hagain : c.system.files.open_ path { write := false } with
      | ok opened =>
        obtain ⟨ref, files⟩ := opened
        exact ⟨rfl, nofun, fun _ => FileSystem.exists_node_of_denied hopen hagain⟩
      | error e => exact ⟨false, rfl⟩
    · exact ⟨c.attachment.mayWrite, rfl⟩

def attachNamed (status : OpenStatus) (position : Position) (path : String) : Op Fault ℕ := do
  let (ref, writable) ← openNamed status path
  setAttachment fun a => { a with backing := some (.file ref writable), isTerminal := false }
  let c ← get
  return if position = .append then c.system.files.size ref else 0

theorem attach_named {status : OpenStatus} (hstatus : status ≠ .scratch) (position : Position)
    (path : String) : attach status position (some path) = (do
      setAttachment fun a =>
        { a with isScratch := false, mayRead := true, mayWrite := true, mayPosition := true }
      setAttachment fun a => { a with path := some path }
      attachNamed status position path) := by
  cases status with
  | scratch => exact absurd rfl hstatus
  | old | new | replace | unknown => rfl

/-- What an attachment to this name has become. -/
def Attached (status : OpenStatus) (position : Position) (name : Option String) (start : ℕ)
    (d : Channel) : Prop :=
  ∃ ref writable, d.attachment = .opened status name ref writable ∧
    start = (if position = .append then d.system.files.size ref else 0) ∧
    ∀ path n, name = some path → ref = .node n → writable = true →
      d.system.files.LeadsTo path n

theorem attach_ends (status : OpenStatus) (position : Position) {name : Option String} (c : Channel)
    (hname : name = none ↔ status = .scratch) :
    Ends (attach status position name) c (Attached status position name)
      fun _ d => d.attachment.Left name := by
  by_cases hstatus : status = .scratch
  · obtain rfl := hname.mpr hstatus
    subst hstatus
    exact ⟨_, _, rfl, rfl, nofun⟩
  obtain ⟨path, rfl⟩ := Option.ne_none_iff_exists'.mp (mt hname.mp hstatus)
  rw [attach_named hstatus]
  refine (ends_modify_bind _ _).mpr ((ends_modify_bind _ _).mpr ?_)
  refine Ends.bind ((openNamed_ends status path rfl).mono (fun _ _ => id) ?_) ?_
  · rintro _ d ⟨mayWrite, hd⟩ -
    rw [hd]
    exact ⟨rfl, rfl⟩
  rintro ⟨ref, writable⟩ d ⟨hd, hleads, -⟩
  refine ⟨ref, writable, ?_, rfl, ?_⟩
  · change { d.attachment with backing := some (.file ref writable), isTerminal := false } = _
    rw [hd]
    simp [Attachment.opened, hstatus]
  · rintro _ n hpath rfl rfl
    cases hpath
    exact hleads n rfl

end Channel

theorem Channel.detach_keep_ends (c : Channel) :
    Completes (Channel.detach .keep) c fun _ _ => True := trivial

namespace Session

variable {s : Session}

theorem attached_attempts {α : Type} {act : Channel.Op Fault α} {P : α → Channel → Prop}
    {R : Fault → Channel → Prop} (h : Ends act s.channel.device P R) :
    Attempts (attached act) s
      (fun a t => ∃ d, P a d ∧ t = s.withChannel { s.channel with device := d })
      (fun f t => ∃ d, R f d ∧ t = s.withChannel { s.channel with device := d }) := by
  unfold Ends at h
  unfold Attempts Completes Ends attached
  simp only [ExceptT.run]
  cases hact : act s.channel.device with
  | ok a d =>
    rw [hact] at h
    exact ⟨d, h, rfl⟩
  | error e d =>
    rw [hact] at h
    exact ⟨d, h, rfl⟩

theorem windowed_attempts {α : Type} {act : Windowed.Op Channel α} {P : α → Windowed Channel → Prop}
    {R : OsError → Windowed Channel → Prop} (h : Ends act s.channel P R) :
    Attempts (windowed act) s (fun a t => ∃ w, P a w ∧ t = s.withChannel w)
      (fun f t => ∃ e w, R e w ∧ f = .ofOs e ∧ t = s.withChannel w) := by
  unfold Ends at h
  unfold Attempts Completes Ends windowed
  simp only [ExceptT.run]
  cases hact : act s.channel with
  | ok a w =>
    rw [hact] at h
    exact ⟨w, h, rfl⟩
  | error e w =>
    rw [hact] at h
    exact ⟨e, w, h, rfl, rfl⟩

theorem noting_ends {act : Attempt Session Unit} {Q : Unit → Session → Prop}
    {R : Fault → Session → Prop} (source : SourceLine) (h : Attempts act s Q R)
    (hsource : ∀ f t, R f t → t.handler = { source }) :
    Ends (noting act) s (fun _ t => Q () t)
      fun c t => ∃ f, R f t ∧ c = source.crash f.message := by
  have hreport : Ends (report act) s (fun _ t => Q () t)
      fun c t => ∃ f, R f t ∧ c = source.crash f.message := by
    refine Ends.bind (Ends.mono h (fun _ _ => id) fun _ _ => False.elim) ?_
    intro r t hr
    cases r with
    | ok a => exact hr
    | error f =>
      unfold Ends
      dsimp only
      rw [hsource f t hr]
      exact ⟨f, hr, rfl⟩
  exact hreport.discard_state

theorem flush_attempts : Attempts flush s
    (fun _ t => ∃ w, t = s.withChannel w ∧ w.device.attachment = s.unit.attachment)
    (fun _ t => ∃ w, t = s.withChannel w ∧ w.device.attachment = s.unit.attachment) := by
  by_cases hopen : s.unit.isOpen = true
  · refine flush_of_windowed hopen ((windowed_attempts
      ((Channel.stable_attachment s.unit.attachment).flush s.channel rfl)).mono ?_ ?_)
    · rintro _ _ ⟨w, hw, rfl⟩
      exact ⟨{ w with device := w.device.flushed }, rfl, w.device.attachment_flushed.trans hw⟩
    · rintro _ _ ⟨_, w, hw, -, rfl⟩
      exact ⟨w, rfl, hw⟩
  · rw [flush, attempts_get, if_neg hopen]
    exact ⟨s.channel, rfl, rfl⟩

theorem report_ends {act : Attempt Session Unit} {Q : Unit → Session → Prop}
    {R : Fault → Session → Prop} (h : Attempts act s Q R) :
    Ends (report act) s (fun ok t => ok = true → Q () t) fun _ _ => True := by
  refine Ends.bind (Ends.mono h (fun _ _ => id) fun _ _ => False.elim) ?_
  intro r t hr
  cases r with
  | ok a => exact fun _ => hr
  | error f =>
    unfold Ends
    dsimp only
    cases t.handler.fault f with
    | ok handler => exact nofun
    | error c => trivial

theorem report_unit_ends {act : Attempt Session Unit} {P : ExternalUnit → Prop}
    (h : Attempts act s (fun _ t => P t.unit) fun _ t => P t.unit) :
    Ends (report act) s (fun _ t => P t.unit) fun _ t => P t.unit := by
  refine report_leaves (P := fun t => P t.unit) (fun _ _ => id) ?_
  exact Ends.mono h (fun r _ hr => by cases r <;> exact hr) fun _ _ => False.elim

def connectedUnit (s : Session) (form : Form) (attachment : Attachment) (offset : ℕ) : ExternalUnit :=
  atFirstRecord offset { s.unit with attachment, connection := s.unit.connection.withForm form }

structure Connected (s : Session) (status : OpenStatus) (position : Position) (path : Option String)
    (form : Form) (t : Session) : Prop where
  attached : Channel.Attached status position (s.unit.openName status path) t.unit.offset
    t.channel.device
  unit_eq : t.unit = s.connectedUnit form t.unit.attachment t.unit.offset

/-- Where the file cannot be attached, only its name is left. -/
theorem connect_attempts {status : OpenStatus} (position : Position) {path : Option String}
    (form : Form) (hfresh : s.unit.reaffirms status path = false) :
    Attempts (connect status position path form) s
      (fun _ t => s.Connected status position path form t)
      fun _ t => t.unit.attachment.Left (s.unit.openName status path) := by
  have hname : s.unit.openName status path = none ↔ status = .scratch := by
    unfold ExternalUnit.openName
    split_ifs with hscratch <;> simp [hscratch]
  have hattach (w : Windowed Channel) : Attempts (do
        modifyConnection (·.withForm form)
        let start ← attached (Channel.attach status position (s.unit.openName status path))
        modifyUnit (atFirstRecord start)) (s.withChannel w)
      (fun _ t => s.Connected status position path form t)
      fun _ t => t.unit.attachment.Left (s.unit.openName status path) := by
    refine Attempts.bind (modifyConnection_succeeds _).attempts ?_
    rintro _ _ rfl
    refine Attempts.bind ((attached_attempts
      (Channel.attach_ends status position _ hname)).mono (fun _ _ => id) ?_) ?_
    · rintro _ _ ⟨d, hd, rfl⟩
      exact hd
    · rintro start _ ⟨d, hd, rfl⟩
      exact ⟨hd, rfl⟩
  unfold ExternalUnit.reaffirms at hfresh
  simp only [connect, attempts_get, hfresh, Bool.false_eq_true, if_false]
  by_cases hopen : s.unit.isOpen = true
  · rw [if_pos hopen]
    refine Attempts.bind (flush_attempts.mono (fun _ _ => id) ?_) ?_
    · rintro _ _ ⟨w, rfl, hw⟩
      exact Attachment.left_of_isOpen (by rw [← hopen]; exact congrArg Attachment.isOpen hw) _
    rintro _ _ ⟨w, rfl, -⟩
    refine Attempts.bind ((attached_attempts (Channel.detach_keep_ends _)).mono (fun _ _ => id) ?_) ?_
    · rintro _ _ ⟨_, hfalse, -⟩
      exact hfalse.elim
    · rintro _ _ ⟨d, -, rfl⟩
      exact hattach _
  · rw [if_neg hopen]
    exact hattach s.channel

theorem Connected.isOpen {status : OpenStatus} {position : Position} {path : Option String}
    {form : Form} {t : Session} (h : s.Connected status position path form t) :
    t.unit.isOpen = true := by
  obtain ⟨ref, writable, hattachment, -⟩ := h.attached
  rw [ExternalUnit.isOpen, show t.unit.attachment = _ from hattachment]
  rfl

theorem openUnit_of_reaffirms {status : OpenStatus} (position : Position) {path : Option String}
    (form : Form) (h : s.unit.reaffirms status path = true) :
    Ends (openUnit status position path form) s (fun _ t => t.unit = s.unit)
      fun _ t => t.unit = s.unit := by
  have hconnect : Succeeds (connect status position path form) s fun _ t => t.unit = s.unit := by
    unfold ExternalUnit.reaffirms at h
    simp only [connect, attempts_get, h, if_true]
    exact rfl
  exact report_unit_ends (P := fun u => u = s.unit) hconnect.attempts

theorem openUnit_leaves {status : OpenStatus} (position : Position) {path : Option String}
    (form : Form) (hfresh : s.unit.reaffirms status path = false) :
    Ends (openUnit status position path form) s
      (fun _ t => t.unit.attachment.Left (s.unit.openName status path))
      fun _ t => t.unit.attachment.Left (s.unit.openName status path) := by
  refine report_unit_ends (P := fun u => u.attachment.Left (s.unit.openName status path)) ?_
  refine (connect_attempts position form hfresh).mono ?_ fun _ _ => id
  intro _ t ht
  exact Attachment.left_of_isOpen ht.isOpen _

/-- A session that an OPEN has left with this file connected. -/
structure Opened (s : Session) (status : OpenStatus) (position : Position) (path : Option String)
    (form : Form) (ref : FileRef) (writable : Bool) (t : Session) : Prop where
  attachment_eq : t.unit.attachment = .opened status (s.unit.openName status path) ref writable
  offset_eq : t.unit.offset = if position = .append then t.system.files.size ref else 0
  unit_eq : t.unit = { s.connectedUnit form t.unit.attachment t.unit.offset with
    statement := .idle
    held := false }.setConnection fun c => { c with nonAdvancing := false }
  leadsTo : ∀ name n, s.unit.openName status path = some name → ref = .node n → writable = true →
    t.system.files.LeadsTo name n

section

variable {status : OpenStatus} {position : Position} {path : Option String} {form : Form}
variable {ref : FileRef} {writable : Bool} {t : Session}
variable (h : s.Opened status position path form ref writable t)
include h

theorem Opened.connection_eq : t.unit.connection =
    { s.unit.connection.withForm form with
      record := 1
      endRecord := none
      position := 0
      furthest := 0
      leftTabLimit := none
      nonAdvancing := false } := by
  rw [h.unit_eq]
  rfl

theorem Opened.located_eq : t.unit.located = false := by
  rw [h.unit_eq]
  rfl

theorem Opened.shows {n : ℕ} {writable' : Bool}
    (hfile : t.unit.attachment.backing = some (.file (.node n) writable')) :
    t.channel.Shows (t.system.files.contentAt n) := by
  refine shows_of_connected ?_ hfile t.unit.offset ?_
  · rw [h.attachment_eq]
    rfl
  · rw [h.unit_eq]
    rfl

end

theorem Opened.holds {status : OpenStatus} {position : Position} {path : Option String} {form : Form}
    {name : String} {n : ℕ} {t : Session} (h : s.Opened status position path form (.node n) true t)
    (hname : s.unit.openName status path = some name) (hn : n < t.system.files.nodes.length) :
    t.channel.Holds (System.device hn name) (t.system.files.contentAt n) := by
  have hstatus : status ≠ .scratch := by
    rintro rfl
    cases hname
  have hattachment : t.unit.attachment = .ofFile name n := by
    rw [h.attachment_eq, hname, Attachment.opened_eq_ofFile hstatus]
  have hwindow : t.unit.window = { offset := t.unit.offset } := by
    rw [h.unit_eq]
    rfl
  rw [channel, hattachment, hwindow]
  exact System.holds_opened _

theorem opened_of_open {status : OpenStatus} {position : Position} {path : Option String}
    {form : Form} {source : SourceLine} {r : Receivers} {iostat : Iostat} {t : Session}
    (hfresh : s.unit.reaffirms status path = false)
    (hopen : statement .connect source r (openUnit status position path form) s =
      .ok (true, iostat) t) :
    ∃ ref writable, s.Opened status position path form ref writable t := by
  have hends : Ends (statement .connect source r (openUnit status position path form)) s
      (fun out t => out.1 = true → ∃ ref writable,
        s.Opened status position path form ref writable t) fun _ _ => True := by
    refine Ends.bind (P := fun _ t => s.Begun .connect source {} t) ⟨rfl, rfl, rfl⟩ ?_
    intro _ t ht
    refine Ends.bind (P := fun _ (u : Session) => u.unit = t.unit) rfl ?_
    intro _ u hu
    rw [ht.unit_eq] at hu
    have hfresh' : u.unit.reaffirms status path = false := by
      rw [hu]
      exact hfresh
    refine (report_ends (connect_attempts position form hfresh')).bind ?_
    intro ok v hv
    cases ok with
    | false => exact (Ends.trivial finish v).bind fun _ _ _ => nofun
    | true =>
      obtain ⟨⟨ref, writable, hattachment, hoffset, hleads⟩, hunit⟩ := hv rfl
      have hidle : v.unit.statement.isTransfer = false := by
        rw [hunit, connectedUnit, hu]
        rfl
      refine ((finish_of_not_transfer hidle).mono (fun _ _ => id) fun _ _ => False.elim).bind ?_
      rintro _ _ ⟨-, rfl⟩ -
      rw [hu] at hattachment hleads
      refine ⟨ref, writable, hattachment, hoffset, ?_, hleads⟩
      unfold ended
      dsimp only
      rw [hunit, connectedUnit, hu]
      rfl
  exact hends.of_run hopen rfl

/-- An OPEN that finds a file of this name and may write to it. -/
theorem opened_on_file {status : OpenStatus} {position : Position} {path : Option String}
    {form : Form} {source : SourceLine} {r : Receivers} {iostat : Iostat} {t : Session} {n : ℕ}
    (hstatus : status ≠ .scratch) (hfresh : s.unit.reaffirms status path = false)
    (hopen : statement .connect source r (openUnit status position path form) s =
      .ok (true, iostat) t)
    (hfile : t.unit.attachment.backing = some (.file (.node n) true)) :
    s.Opened status position path form (.node n) true t ∧
      t.system.files.LeadsTo (path.getD s.unit.defaultPath) n ∧
      ∃ hn : n < t.system.files.nodes.length,
        t.channel.Holds (System.device hn (path.getD s.unit.defaultPath))
          (t.system.files.contentAt n) := by
  obtain ⟨ref, writable, hopened⟩ := opened_of_open hfresh hopen
  obtain ⟨rfl, rfl⟩ : ref = .node n ∧ writable = true := by
    rw [hopened.attachment_eq] at hfile
    cases hfile
    exact ⟨rfl, rfl⟩
  have hname : s.unit.openName status path = some (path.getD s.unit.defaultPath) := if_neg hstatus
  have hleads := hopened.leadsTo _ n hname rfl rfl
  exact ⟨hopened, hleads, hleads.lt_length, hopened.holds hname hleads.lt_length⟩

end Session

end DataTransfer
