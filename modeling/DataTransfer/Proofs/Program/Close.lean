import Mathlib
import DataTransfer.Proofs.Program.Attempts

/-!
What CLOSE does to a unit that is not connected. It has nothing to write and nothing to detach, but it
goes by the name that is left of the last attempt to connect the unit: asked to delete, it removes the
file of this name, whoever it belongs to.
-/

namespace DataTransfer

/-- The status of removing a file, and what is there afterwards. Without a name there is nothing to
remove. -/
def System.removing (system : System) : Option String → Iostat × System
  | none => (.ok, system)
  | some path =>
    match system.files.remove path with
    | .ok files => (.ok, { system with files })
    | .error e => ((Fault.ofOsAt path e).iostat, system)

/-- To remove a file never goes without notice. -/
theorem System.removing_eq_iff {system : System} {name : Option String} :
    system.removing name = (.ok, system) ↔ name = none := by
  refine ⟨fun h => ?_, ?_⟩
  · cases name with
    | none => rfl
    | some path =>
      unfold removing at h
      dsimp only at h
      cases hremove : system.files.remove path with
      | ok files =>
        rw [hremove] at h
        have hsame : files = system.files := congrArg (fun x => x.2.files) h
        exact absurd hsame (FileSystem.ne_of_remove hremove)
      | error e =>
        rw [hremove] at h
        have herror := (Fault.ofOsAt path e).isError_iostat
        rw [show (Fault.ofOsAt path e).iostat = .ok from congrArg Prod.fst h] at herror
        cases herror
  · rintro rfl
    rfl

def Attachment.removed (a : Attachment) (status : CloseStatus) : Option String :=
  if status = .delete && !a.isScratch then a.path else none

namespace Channel

theorem detach_ends (status : CloseStatus) (c : Channel) :
    Ends (detach status) c
      (fun _ d => c.flushed.system.removing (c.attachment.removed status) = (.ok, d.system))
      fun f d => c.flushed.system.removing (c.attachment.removed status) = (f.iostat, d.system) := by
  refine (ends_modify_bind _ _).mpr ?_
  rw [← attachment_flushed c]
  generalize c.flushed = c
  obtain ⟨system, path, backing, mayRead, mayWrite, mayPosition, isTerminal, isScratch⟩ := c
  cases status with
  | keep => rfl
  | delete =>
    cases isScratch with
    | true => rfl
    | false =>
      cases path with
      | none => rfl
      | some path =>
        refine (ends_modify_bind _ _).mpr ((ends_get _).mpr ?_)
        dsimp only
        cases hremove : system.files.remove path with
        | ok files =>
          have hremoving : system.removing (some path) = (.ok, { system with files }) := by
            simp [System.removing, hremove]
          exact hremoving
        | error e =>
          have hremoving : system.removing (some path) = ((Fault.ofOsAt path e).iostat, system) := by
            simp [System.removing, hremove]
          exact hremoving

end Channel

namespace Session

variable {s : Session}

theorem disconnect_attempts (hclosed : s.unit.isOpen = false) (status : CloseStatus) :
    Attempts (disconnect status) s
      (fun _ t => t.handler = s.handler ∧ t.unit.statement = s.unit.statement ∧
        s.system.removing (s.unit.attachment.removed status) = (.ok, t.system))
      fun f t => t.handler = s.handler ∧ t.unit.statement = s.unit.statement ∧
        s.system.removing (s.unit.attachment.removed status) = (f.iostat, t.system) := by
  -- Without a file the window is not written, so the rest sees the session as it was.
  have hflush : Succeeds flush s fun _ t => t = s := by
    simp only [flush, attempts_get, hclosed]
    exact rfl
  have hfile : s.channel.device.flushed = s.channel.device := by
    refine Channel.flushed_of_ne fun hbacking => ?_
    rw [ExternalUnit.isOpen, Attachment.isOpen,
      show s.unit.attachment.backing = some .standardOutput from hbacking] at hclosed
    cases hclosed
  have hdetach := Channel.detach_ends status s.channel.device
  rw [hfile] at hdetach
  unfold disconnect
  refine Attempts.bind (lift_succeeds hflush).attempts ?_
  rintro _ _ ⟨_, rfl, rfl⟩
  refine Attempts.bind ((attached_attempts hdetach).mono (fun _ _ => id) ?_) ?_
  · rintro f _ ⟨d, hd, rfl⟩
    exact ⟨rfl, rfl, hd⟩
  · rintro _ _ ⟨d, hd, rfl⟩
    exact ⟨rfl, rfl, hd⟩

theorem close_of_unconnected {source : SourceLine} {r : Receivers} {t : Session}
    (ht : s.Begun .disconnect source r t) (hclosed : s.unit.isOpen = false) (status : CloseStatus)
    (hr : r.receivesError = true ∨ s.unit.attachment.removed status = none) :
    Completes (do discard (closeUnit status); finish) t fun iostat u =>
      s.system.removing (s.unit.attachment.removed status) = (iostat, u.system) := by
  have hidle : t.unit.statement.isTransfer = false := by
    rw [ht.unit_eq]
    rfl
  have hattempts := disconnect_attempts (s := t) (by rw [ht.unit_eq]; exact hclosed) status
  have hname : t.unit.attachment.removed status = s.unit.attachment.removed status := by
    rw [ht.unit_eq]
  rw [hname, ht.system_eq] at hattempts
  have hclose : Completes (closeUnit status) t fun _ u => u.unit.statement = t.unit.statement ∧
      s.system.removing (s.unit.attachment.removed status) = (u.handler.status, u.system) := by
    refine report_completes (hattempts.mono ?_ ?_)
    · rintro _ u ⟨hhandler, hstatement, hsystem⟩
      rw [hhandler, ht.handler_eq]
      exact ⟨hstatement, hsystem⟩
    · rintro f u ⟨hhandler, hstatement, hsystem⟩
      have hreceived : u.handler.declared.receivesError = true := by
        rw [hhandler, ht.handler_eq]
        -- A failure comes from the removal alone: with nothing to remove there is none to receive.
        rcases hr with hr | hnone
        · simpa [Handler.declare, Receivers.union, Receivers.receivesError] using hr
        · rw [hnone] at hsystem
          have herror := f.isError_iostat
          rw [← show Iostat.ok = f.iostat from congrArg Prod.fst hsystem] at herror
          cases herror
      obtain ⟨handler, hfault, -, hiostat⟩ := Handler.fault_received f hreceived
      refine ⟨handler, hfault, hstatement, ?_⟩
      rw [hsystem, hiostat, hhandler, ht.handler_eq, (Iostat.isError_iff_rank _).mp f.isError_iostat]
      rfl
  refine hclose.discard.bind ?_
  rintro _ u ⟨-, hstatement, hsystem⟩
  refine (finish_of_not_transfer (by rw [hstatement]; exact hidle)).mono ?_ fun _ _ => id
  rintro _ _ ⟨rfl, rfl⟩
  exact hsystem

end Session

namespace Program

/-- CLOSE(UNIT=n, STATUS=status) as a whole; none where it has to wait for another statement. -/
def close (n : ℤ) (status : CloseStatus) (source : SourceLine) (r : Receivers) :
    Act Program (Option Iostat) := do
  match ← Statement.beginClose n source with
  | none => return none
  | some st =>
    let (_, st) ← { st with closeStatus := status }.run (Session.declare r)
    return some (← st.finish)

/-- The number belongs to no unit, or to one that is not connected and that no statement holds. -/
def unconnected (p : Program) (n : ℤ) : Bool :=
  (p.lookUp? n).all fun id => (p.unit? id).any fun u => !u.isOpen && !u.held

def Initial (p : Program) : Prop :=
  ∃ config system, p = .new config system ∨ p = .withStandardUnits config system

def removed (p : Program) (n : ℤ) (status : CloseStatus) : Option String :=
  ((p.lookUp? n).bind p.unit?).bind (·.attachment.removed status)

/-- What a CLOSE finds when it begins: the session `s` on an unconnected unit. -/
structure Closing (p : Program) (n : ℤ) (source : SourceLine) (s : Session) (st : Statement)
    (q : Program) : Prop where
  system_eq : s.system = p.system
  isOpen : s.unit.isOpen = false
  removed_eq : ∀ status, s.unit.attachment.removed status = p.removed n status
  closing : st.closing = true
  begun : ∃ t, st.session? q = some t ∧
    ∀ r, s.Begun .disconnect source r { t with handler := t.handler.declare r }

theorem beginOn_closing {p q : Program} {n : ℤ} {id : ℕ} {u : ExternalUnit}
    (hunit : q.unit? id = some u) (hsystem : q.system = p.system) (hclosed : u.isOpen = false)
    (hfree : u.held = false)
    (hremoved : ∀ status, u.attachment.removed status = p.removed n status) (source : SourceLine) :
    Completes (Statement.beginOn id true .disconnect source) q fun out q =>
      ∃ st s, out = some st ∧ p.Closing n source s st q := by
  have hbegin : Completes (Session.begin_ .disconnect source) { system := q.system, unit := u }
      fun _ t => ∀ r, ({ system := q.system, unit := u } : Session).Begun .disconnect source r
        { t with handler := t.handler.declare r } := fun _ => ⟨rfl, rfl, rfl⟩
  refine (Statement.beginOn_completes hunit hfree hbegin).mono ?_ fun _ _ => False.elim
  rintro _ q' ⟨st, t, rfl, ht, hsession, -, hclosing, -⟩
  exact ⟨st, _, rfl, hsystem, hclosed, hremoved, hclosing, t, hsession, ht⟩

theorem beginClose_completes {p : Program} {n : ℤ} (hn : p.unconnected n = true)
    (source : SourceLine) :
    Completes (Statement.beginClose n source) p fun out q =>
      ∃ st s, out = some st ∧ p.Closing n source s st q := by
  have hlookup : p.lookUp? n = (p.directory.find? n).map (·.id) := rfl
  unfold unconnected at hn
  refine (ends_get _).mpr ?_
  unfold takeForClose
  cases htake : p.directory.takeForClose n with
  | none =>
    refine (ends_set_bind _ _).mpr ?_
    have hunit : (p.addUnit (.new n 256)).2.unit? p.units.length = some (.new n 256) := by
      simp [addUnit, unit?]
    refine beginOn_closing (p := p) hunit rfl rfl rfl ?_ source
    intro status
    rw [removed, hlookup, Directory.takeForClose_eq_none htake]
    cases status <;> rfl
  | some taken =>
    obtain ⟨e, directory⟩ := taken
    obtain ⟨-, hfind⟩ := Directory.live_takeForClose htake
    rw [hlookup, hfind] at hn
    simp only [Option.map_some, Option.all_some, Option.any_eq_true] at hn
    obtain ⟨u, hunit, hu⟩ := hn
    simp only [Bool.and_eq_true, Bool.not_eq_true'] at hu
    refine (ends_set_bind _ _).mpr ?_
    refine beginOn_closing (p := p) (q := { p with directory }) hunit rfl hu.1 hu.2 ?_ source
    intro status
    rw [removed, hlookup, hfind]
    simp [hunit]

/-- A CLOSE of what is not connected, in any state of the program. -/
theorem close_completes {p : Program} {n : ℤ} (hn : p.unconnected n = true) {status : CloseStatus}
    (source : SourceLine) {r : Receivers}
    (hr : r.receivesError = true ∨ p.removed n status = none) :
    Completes (close n status source r) p fun out q => ∃ iostat, out = some iostat ∧
      p.system.removing (p.removed n status) = (iostat, q.system) := by
  refine (beginClose_completes hn source).bind ?_
  rintro _ q ⟨st, s, rfl, h⟩
  obtain ⟨t, hsession, hbegun⟩ := h.begun
  rw [← h.removed_eq] at hr
  have hdeclare : Completes (Session.declare r) t fun _ v =>
      v = { t with handler := t.handler.declare r } := rfl
  refine (Statement.run_completes { st with closeStatus := status } hsession hdeclare).bind ?_
  rintro ⟨_, st'⟩ q' ⟨v, rfl, hsession', hst', -⟩
  have hclosing : st'.closing = true := by rw [show st' = _ from hst', h.closing]
  have hstatus : st'.closeStatus = status := by rw [show st' = _ from hst']
  have hclose := Session.close_of_unconnected (hbegun r) h.isOpen status hr
  have hfinish : Completes st'.finish q' fun iostat q =>
      p.system.removing (p.removed n status) = (iostat, q.system) := by
    unfold Statement.finish
    simp only [hclosing, hstatus, if_true]
    refine (Statement.run_completes st' hsession' hclose).bind ?_
    rintro ⟨iostat, st''⟩ q'' ⟨w, hw, hsession'', -⟩
    obtain ⟨_, -, rfl⟩ := Option.map_eq_some_iff.mp hsession''
    rw [h.system_eq, h.removed_eq] at hw
    exact hw
  exact hfinish.bind fun iostat q'' hq'' => ⟨iostat, rfl, hq''⟩

end Program

namespace Activity

def leftover (a : Activity) (n : ℤ) (status : CloseStatus) : Option String :=
  if status = .delete then (a.program.lookUp? n).bind a.lastName else none

theorem Consistent.removed_eq {a : Activity} (h : a.Consistent) {n : ℤ}
    (hn : a.program.unconnected n = true) (status : CloseStatus) :
    a.program.removed n status = a.leftover n status := by
  unfold Program.removed leftover
  unfold Program.unconnected at hn
  have hlookup : a.program.lookUp? n = (a.program.directory.find? n).map (·.id) := rfl
  rw [hlookup] at hn ⊢
  cases hfind : a.program.directory.find? n with
  | none => cases status <;> rfl
  | some e =>
    rw [hfind] at hn
    simp only [Option.map_some, Option.all_some, Option.any_eq_true] at hn
    obtain ⟨u, hunit, hu⟩ := hn
    simp only [Bool.and_eq_true, Bool.not_eq_true'] at hu
    obtain ⟨hscratch, hpath⟩ := h.left e (Directory.live_of_find? hfind) u hunit hu.1
    simp only [Option.map_some, Option.bind_some, hunit, Attachment.removed, hscratch, hpath,
      Bool.not_false, Bool.and_true, decide_eq_true_eq]

/-- A CLOSE of a number that is not connected, at any time. It always comes to an end; it changes
nothing and succeeds just when no name is left to delete; and otherwise it is no more and no less than
the removal of the file of that name. -/
theorem unconnected_close {start : Program} (hstart : start.Initial) {calls : List Call}
    {a : Activity} (hrun : run calls { program := start } = .ok () a) {n : ℤ}
    (hn : a.program.unconnected n = true) (status : CloseStatus) (source : SourceLine)
    {r : Receivers} (hr : r.receivesError = true ∨ a.leftover n status = none) :
    Completes (Program.close n status source r) a.program fun out q => ∃ iostat, out = some iostat ∧
      a.program.system.removing (a.leftover n status) = (iostat, q.system) ∧
      (iostat = .ok ∧ q.system = a.program.system ↔ a.leftover n status = none) := by
  have hinitial : ({ program := start } : Activity).Consistent := by
    obtain ⟨config, system, rfl | rfl⟩ := hstart
    · exact .new config system
    · exact .withStandardUnits config system
  have hconsistent : a.Consistent := (hinitial.run_calls calls).of_run hrun
  -- The invariant says that what the unit keeps is the last name of the log.
  rw [← hconsistent.removed_eq hn] at hr ⊢
  refine (Program.close_completes hn source hr).mono ?_ fun _ _ => id
  rintro _ q ⟨iostat, rfl, hq⟩
  refine ⟨iostat, rfl, hq, ?_⟩
  rw [← System.removing_eq_iff, hq, Prod.mk.injEq]

section

def oneFile : System := { files := { nodes := [{ content := [107] }], names := [(["a"], 0)] } }

def failedOpen : List Call :=
  [.begin_ 10 .connect {}, .item 0 (.receivers { iostat := true }),
    .item 0 (.specifiers { file := some "a", status := .new }), .finish 0]

theorem run_failedOpen : ∃ a, run failedOpen { program := .new {} oneFile } = .ok () a ∧
    a.program.unconnected 10 = true ∧ a.leftover 10 .delete = some "a" ∧
    a.program.system = oneFile := by
  have hrun : (match run failedOpen { program := .new {} oneFile } with
      | .ok _ a => decide (a.program.unconnected 10 = true ∧ a.leftover 10 .delete = some "a" ∧
        a.program.system = oneFile)
      | .error _ _ => false) = true := by cbv
  split at hrun
  · next a hok => exact ⟨a, hok, of_decide_eq_true hrun⟩
  · cases hrun

theorem unconnected_close_failed_open : ∃ a,
    run failedOpen { program := .new {} oneFile } = .ok () a ∧ a.program.unconnected 10 = true ∧
    Completes (Program.close 10 .delete {} { iostat := true }) a.program fun out q =>
      ∃ iostat, out = some iostat ∧
        a.program.system.removing (a.leftover 10 .delete) = (iostat, q.system) ∧
        (iostat = .ok ∧ q.system = a.program.system ↔ a.leftover 10 .delete = none) := by
  obtain ⟨a, hrun, hn, -⟩ := run_failedOpen
  exact ⟨a, hrun, hn, unconnected_close ⟨_, _, .inl rfl⟩ hrun hn .delete {} (.inl rfl)⟩

/-- After an OPEN that has failed, a CLOSE that deletes succeeds and removes a file that the unit was
never connected to. -/
theorem close_deletes_unopened : ∃ a q,
    run failedOpen { program := .new {} oneFile } = .ok () a ∧ a.program.unconnected 10 = true ∧
    a.program.system.files.listing = [("a", [107])] ∧
    Program.close 10 .delete {} { iostat := true } a.program = .ok (some .ok) q ∧
    q.system.files.listing = [] := by
  obtain ⟨a, hrun, hn, hleft, hsystem⟩ := run_failedOpen
  have hconsistent : a.Consistent := ((Consistent.new {} oneFile).run_calls failedOpen).of_run hrun
  have hclose : Completes (Program.close 10 .delete {} { iostat := true }) a.program _ :=
    Program.close_completes hn {} (.inl rfl)
  rw [hconsistent.removed_eq hn, hleft, hsystem] at hclose
  obtain ⟨out, q, hrun', iostat, rfl, hq⟩ := hclose.exists_run
  have hremoving : oneFile.removing (some "a") =
      (.ok, { files := { nodes := [{ content := [107] }] } }) := by cbv
  rw [hremoving, Prod.mk.injEq] at hq
  obtain ⟨rfl, hfiles⟩ := hq
  refine ⟨a, q, hrun, hn, ?_, hrun', ?_⟩
  · rw [hsystem]
    rfl
  · rw [← hfiles]
    rfl

end

end Activity

end DataTransfer
