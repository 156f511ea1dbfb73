import DataTransfer.Proofs.Program.Close
import DataTransfer.Proofs.Program.UnitHistory

/-!
Whole statements of a program. What a statement does in the session of its unit it does in the program,
which finds the unit by its number, or makes one, and has it free again when the statement has ended.
-/

namespace DataTransfer

namespace Session

/-- A statement starts afresh, whatever the one before has left of its status. -/
theorem statement_run_eq {α : Type} (kind : StatementKind) (source : SourceLine) (r : Receivers)
    (work : Act Session α) (s : Session) : statement kind source r work s =
      statement kind source r work { system := s.system, unit := s.unit } := rfl

theorem statement_releases {α : Type} (kind : StatementKind) (source : SourceLine) (r : Receivers)
    (work : Act Session α) (s : Session) :
    Ends (statement kind source r work) s (fun _ t => t.unit.held = false) fun _ _ => True := by
  refine (Ends.trivial (begin_ kind source) s).bind fun _ t _ => ?_
  refine (Ends.trivial (declare r) t).bind fun _ t _ => ?_
  refine (Ends.trivial work t).bind fun a t _ => ?_
  have hfinish : Ends finish t (fun _ u => u.unit.held = false) fun _ _ => True := by
    simp only [finish, ends_get]
    split_ifs
    · exact (Ends.trivial endTransfer t).bind fun _ _ _ => rfl
    · exact rfl
  exact hfinish.bind fun _ _ hfree => hfree

end Session

theorem Directory.Tracks.of_differsAt {past : List Directory.Event} {p q : Program} {id : ℕ}
    (h : Directory.Tracks past p) (hq : p.DiffersAt q id) : Directory.Tracks past q where
  numbering := by
    rw [hq.directory_eq]
    exact h.numbering
  known := by
    rw [hq.directory_eq, hq.length_eq]
    exact h.known
  made := by
    rw [hq.length_eq]
    exact h.made
  lookUp_eq n := (hq.lookUp?_eq n).trans (h.lookUp_eq n)
  closing_eq n := by
    rw [← h.closing_eq, Program.closing?, hq.directory_eq]
    rfl

namespace Statement

variable {p : Program} {s : Session} {α : Type} {r : Receivers} {work : Act Session α}

def rest (st : Statement) (r : Receivers) (work : Act Session α) : Act Program (α × Iostat) := do
  let (_, st) ← st.run (Session.declare r)
  let (a, st) ← st.run work
  return (a, ← st.finish)

theorem rest_completes {st : Statement} {Q : α × Iostat → Session → Prop}
    (hclosing : st.closing = false) (hsession : st.session? p = some s)
    (h : Completes (do Session.declare r; let a ← work; return (a, ← Session.finish)) s Q) :
    Completes (st.rest r work) p fun out q => ∃ t, Q out t ∧ q.unit? st.unit = some t.unit ∧
      q.system = t.system ∧ p.DiffersAt q st.unit := by
  obtain ⟨id, closing, closeStatus, handler, items⟩ := st
  obtain rfl : closing = false := hclosing
  refine (run_completes _ hsession h.of_bind).bind ?_
  rintro ⟨_, st₁⟩ p₁ ⟨t₁, h₁, hsession₁, hst₁, hdiff₁⟩
  refine (run_completes st₁ hsession₁ h₁.of_bind).bind ?_
  rintro ⟨a, st₂⟩ p₂ ⟨t₂, h₂, hsession₂, hst₂, hdiff₂⟩
  obtain rfl : st₁ = ⟨id, false, closeStatus, t₁.handler, t₁.items⟩ := hst₁
  obtain rfl : st₂ = ⟨id, false, closeStatus, t₂.handler, t₂.items⟩ := hst₂
  have hfinish : Completes (finish ⟨id, false, closeStatus, t₂.handler, t₂.items⟩) p₂
      fun status q => ∃ t, Q (a, status) t ∧ q.unit? id = some t.unit ∧ q.system = t.system ∧
        p.DiffersAt q id := by
    refine (run_completes _ hsession₂ h₂.of_bind).bind ?_
    rintro ⟨status, st₃⟩ q ⟨t, hQ, hsession₃, hst₃, hdiff₃⟩
    obtain rfl : st₃ = ⟨id, false, closeStatus, t.handler, t.items⟩ := hst₃
    obtain ⟨hunit, hsystem⟩ := unit_of_session? hsession₃
    exact ⟨t, hQ, hunit, hsystem, (hdiff₁.trans hdiff₂).trans hdiff₃⟩
  exact hfinish.bind fun _ _ hrest => hrest

end Statement

namespace Program

variable {p : Program} {n : ℤ} {id : ℕ} {s : Session} {α β : Type}
variable {kind : StatementKind} {source : SourceLine} {r : Receivers} {work : Act Session α}

/-- A statement on a unit number as a whole; none where it has to wait for another one. -/
def statement (n : ℤ) (kind : StatementKind) (source : SourceLine) (r : Receivers)
    (work : Act Session α) : Act Program (Option (α × Iostat)) := do
  match ← Statement.begin_ n kind source with
  | none => return none
  | some st => return some (← st.rest r work)

/-- The number belongs to no unit, nor to one that is being closed. -/
structure Vacant (p : Program) (n : ℤ) : Prop where
  tracks : ∃ past, Directory.Tracks past p
  lookUp_eq : p.lookUp? n = none
  closing_eq : p.closing? n = none

/-- The number belongs to the unit of this session, which no statement holds. -/
structure Serves (p : Program) (n : ℤ) (s : Session) : Prop where
  tracks : ∃ past, Directory.Tracks past p
  unit_eq : ∃ id, p.lookUp? n = some id ∧ p.unit? id = some s.unit
  held_eq : s.unit.held = false
  system_eq : p.system = s.system

/-! ### Statements on a unit -/

theorem begin_run_eq_of_live (h : p.lookUp? n = some id) :
    Statement.begin_ n kind source p = Statement.beginOn id false kind source p := by
  have hfound : p.lookUpOrCreate n = (.live id, p) := by simp only [lookUpOrCreate, h]
  unfold Statement.begin_
  rw [get_bind_run, hfound]
  rfl

theorem Serves.statement_completes (h : p.Serves n s) {Q : α × Iostat → Session → Prop}
    (hwork : Completes (Session.statement kind source r work) s Q) :
    Completes (statement n kind source r work) p fun out q => ∃ a t, out = some a ∧ Q a t ∧
      q.Serves n t := by
  obtain ⟨past, htracks⟩ := h.tracks
  obtain ⟨id, hlookup, hunit⟩ := h.unit_eq
  have hwhole := hwork.and (Session.statement_releases kind source r work s)
  unfold Completes Ends at hwhole
  rw [Session.statement_run_eq, ← h.system_eq] at hwhole
  have hbegin : Completes (Statement.beginOn id false kind source) p _ :=
    Statement.beginOn_completes hunit h.held_eq (Completes.of_bind hwhole)
  unfold Completes Ends at hbegin
  rw [← begin_run_eq_of_live hlookup] at hbegin
  refine Ends.bind hbegin ?_
  rintro _ p₁ ⟨st, t, rfl, hrest, hsession, rfl, hclosing, hdiff₁⟩
  refine (Statement.rest_completes hclosing hsession hrest).bind ?_
  rintro out q ⟨u, ⟨hQ, hheld⟩, hunit', hsystem, hdiff₂⟩
  have hdiff := hdiff₁.trans hdiff₂
  exact ⟨out, u, rfl, hQ, ⟨past, htracks.of_differsAt hdiff⟩,
    ⟨st.unit, (hdiff.lookUp?_eq n).trans hlookup, hunit'⟩, hheld, hsystem⟩

theorem Serves.statements_complete {xs : List β} {work : β → Act Session α}
    {Q : List (α × Iostat) → Session → Prop} (h : p.Serves n s)
    (hwork : Completes (xs.mapM fun x => Session.statement kind source r (work x)) s Q) :
    Completes (xs.mapM fun x => statement n kind source r (work x)) p fun outs q =>
      ∃ answers t, outs = answers.map some ∧ Q answers t ∧ q.Serves n t := by
  induction xs generalizing p s Q with
  | nil => exact ⟨[], s, rfl, hwork, h⟩
  | cons x xs ih =>
    rw [List.mapM_cons] at hwork ⊢
    refine (h.statement_completes hwork.of_bind).bind ?_
    rintro _ q ⟨a, t, rfl, hrest, hq⟩
    refine (ih hq hrest.of_bind).bind ?_
    rintro _ q' ⟨answers, u, rfl, hQ, hq'⟩
    exact ⟨a :: answers, u, rfl, hQ, hq'⟩

/-! ### Numbers that have no unit -/

def withUnit (p : Program) (n : ℤ) : Program :=
  { (p.addUnit (.new n p.readChunk)).2 with
    directory := p.directory.insert { number := n, id := p.units.length } }

section

variable (h : p.Vacant n)
include h

theorem Vacant.create : ∃ past, Directory.Step past p (.lookUpOrCreate n)
    (.search (.created p.units.length)) (p.withUnit n) := by
  obtain ⟨past, htracks⟩ := h.tracks
  have hlive := (htracks.lookUp_eq n).symm.trans h.lookUp_eq
  have hclosing := (htracks.closing_eq n).symm.trans h.closing_eq
  exact ⟨past, htracks.create hlive hclosing⟩

theorem Vacant.lookUp?_withUnit : (p.withUnit n).lookUp? n = some p.units.length := by
  obtain ⟨past, hstep⟩ := h.create
  exact (hstep.tracks.lookUp_eq n).trans (if_pos rfl)

theorem Vacant.serves_withUnit :
    (p.withUnit n).Serves n { system := p.system, unit := .new n p.readChunk } := by
  obtain ⟨past, hstep⟩ := h.create
  exact ⟨⟨_, hstep.tracks⟩, ⟨_, h.lookUp?_withUnit, (hstep.created n _ rfl rfl).2⟩, rfl, rfl⟩

theorem Vacant.lookUpOrCreate_eq :
    p.lookUpOrCreate n = (.created p.units.length, p.withUnit n) := by
  have hclosing : p.directory.isClosing n = false := by
    rw [Bool.eq_false_iff, Ne, Directory.isClosing_iff]
    have hnone := h.closing_eq
    rw [closing?, Option.map_eq_none_iff] at hnone
    simp [hnone]
  simp only [lookUpOrCreate, h.lookUp_eq, hclosing]
  rfl

theorem Vacant.begin_run_eq :
    Statement.begin_ n kind source p = Statement.begin_ n kind source (p.withUnit n) := by
  rw [begin_run_eq_of_live h.lookUp?_withUnit, Statement.begin_, get_bind_run, h.lookUpOrCreate_eq]
  rfl

/-- A statement on a number without a unit works on a new one. -/
theorem Vacant.statement_completes {Q : α × Iostat → Session → Prop}
    (hwork : Completes (Session.statement kind source r work)
      { system := p.system, unit := .new n p.readChunk } Q) :
    Completes (statement n kind source r work) p fun out q => ∃ a t, out = some a ∧ Q a t ∧
      q.Serves n t := by
  have hrun : statement n kind source r work p = statement n kind source r work (p.withUnit n) := by
    change EStateM.bind _ _ p = EStateM.bind _ _ (p.withUnit n)
    unfold EStateM.bind
    rw [h.begin_run_eq]
  have hcomplete := h.serves_withUnit.statement_completes hwork
  unfold Completes Ends at hcomplete ⊢
  rwa [hrun]

end

/-! ### Units that are closed -/

theorem exists_takeForClose (h : p.lookUp? n = some id) :
    ∃ directory, p.directory.takeForClose n = some (⟨n, id⟩, directory) := by
  rw [lookUp?, Option.map_eq_some_iff] at h
  obtain ⟨e, hfind, rfl⟩ := h
  cases htake : p.directory.takeForClose n with
  | none =>
    rw [Directory.takeForClose_eq_none htake] at hfind
    cases hfind
  | some taken =>
    obtain ⟨e', directory⟩ := taken
    obtain rfl := Option.some.inj ((Directory.live_takeForClose htake).2.symm.trans hfind)
    obtain rfl := Directory.number_of_find? hfind
    exact ⟨directory, rfl⟩

theorem vacant_destroyClosed {past : List Directory.Event}
    (h : Directory.Tracks ((.takeForClose n, .unit (some id)) :: past) p) :
    (p.destroyClosed id).Vacant n := by
  have hgone := (Ends.of_run (h.destroyClosed id) rfl).tracks
  refine ⟨⟨_, hgone⟩, (hgone.lookUp_eq n).trans (if_pos rfl), ?_⟩
  exact (hgone.closing_eq n).trans (if_pos (if_pos rfl))

theorem Serves.close_completes (h : p.Serves n s) {status : CloseStatus}
    {Q : Bool × Iostat → Session → Prop}
    (hwork : Completes (Session.statement .disconnect source r (Session.closeUnit status)) s Q) :
    Completes (close n status source r) p fun out q => ∃ ok iostat t, out = some iostat ∧
      Q (ok, iostat) t ∧ q.Vacant n ∧ q.system = t.system := by
  obtain ⟨past, htracks⟩ := h.tracks
  obtain ⟨id, hlookup, hunit⟩ := h.unit_eq
  obtain ⟨directory, htake⟩ := exists_takeForClose hlookup
  have htaken := (htracks.take htake).tracks
  unfold Completes Ends at hwork
  rw [Session.statement_run_eq, ← h.system_eq] at hwork
  have hbegin : Completes (Statement.beginClose n source) p fun out q => ∃ st t, out = some st ∧
      Completes (do Session.declare r; let ok ← Session.closeUnit status; return (ok, ← Session.finish))
        t Q ∧
      st.session? q = some t ∧ st.unit = id ∧ st.closing = true ∧
      DiffersAt { p with directory } q id := by
    refine (ends_get _).mpr ?_
    unfold takeForClose
    rw [htake]
    refine (ends_set_bind _ _).mpr ?_
    exact Statement.beginOn_completes (p := { p with directory }) hunit h.held_eq
      (Completes.of_bind hwork)
  refine hbegin.bind ?_
  rintro _ p₁ ⟨⟨id, closing, closeStatus, handler, items⟩, t₁, rfl, hrest₁, hsession₁, rfl, hclosing,
    hdiff₁⟩
  obtain rfl : closing = true := hclosing
  refine (Statement.run_completes ⟨id, true, status, handler, items⟩ hsession₁ hrest₁.of_bind).bind ?_
  rintro ⟨_, st₂⟩ p₂ ⟨t₂, hrest₂, hsession₂, hst₂, hdiff₂⟩
  obtain rfl : st₂ = ⟨id, true, status, t₂.handler, t₂.items⟩ := hst₂
  have hdisconnect : Completes (do discard (Session.closeUnit status); Session.finish) t₂
      fun iostat t => ∃ ok, Q (ok, iostat) t := by
    refine hrest₂.of_bind.discard.bind ?_
    rintro _ u ⟨ok, hrest⟩
    exact hrest.of_bind.mono (fun iostat t hQ => ⟨ok, hQ⟩) fun _ _ => False.elim
  have hfinish : Completes (Statement.finish ⟨id, true, status, t₂.handler, t₂.items⟩) p₂
      fun iostat q => ∃ ok t, Q (ok, iostat) t ∧ q.Vacant n ∧ q.system = t.system := by
    refine (Statement.run_completes _ hsession₂ hdisconnect).bind ?_
    rintro ⟨iostat, st₃⟩ p₃ ⟨t₃, ⟨ok, hQ⟩, hsession₃, -, hdiff₃⟩
    refine (ends_modify_bind _ _).mpr ?_
    have htracks₃ := htaken.of_differsAt ((hdiff₁.trans hdiff₂).trans hdiff₃)
    exact ⟨ok, t₃, hQ, vacant_destroyClosed htracks₃, (Statement.unit_of_session? hsession₃).2⟩
  refine hfinish.bind ?_
  rintro iostat q ⟨ok, t, hQ, hvacant, hsystem⟩
  exact ⟨ok, iostat, t, rfl, hQ, hvacant, hsystem⟩

end Program

end DataTransfer
