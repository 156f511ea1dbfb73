import DataTransfer.Proofs.Program.OtherUnits
import DataTransfer.Proofs.Unit.Console

/-!
What the WRITE statements of a program emit on the unit for standard output. At any time what was put on
standard output and what waits in the unit make up all that was emitted there, in order, whatever statements
on other units did in between.
-/

namespace DataTransfer

/-! ### What is emitted -/

def Item.emits : Item → Bool
  | .receivers _ => true
  | .nonAdvancing _ => true
  | .modes _ => true
  | .outputText _ => true
  | .outputInteger _ => true
  | .outputBlock _ => true
  | _ => false

/-- Characters that are an item of output. List-directed output has a blank before each. -/
def Item.characters (listDirected : Bool) (data : Bytes) : Bytes :=
  (if listDirected then [Session.blank] else []) ++ data

def Item.emission (listDirected : Bool) : Item → Bytes
  | .outputText text => characters listDirected (Bytes.ofText text)
  | .outputInteger value => characters listDirected (Bytes.ofText (toString value))
  | .outputBlock data => data
  | _ => []

/-- The operation emits, or does something else that leaves the cursor behind all that was emitted. -/
def Operation.emits : Operation → Bool
  | .call (.emit _) => true
  | .call .advance => true
  | .flush => true
  | .flushIfTerminal => true
  | .leftTabLimit => true
  | .nonAdvancing _ => true
  | .modes _ => true
  | .receivers _ => true
  | .item => true
  | _ => false

def Operation.emission : Operation → Bytes
  | .call (.emit data) => data
  | .call .advance => [Session.newline]
  | _ => []

namespace Session.Printing

variable {text : Bytes} {s : Session}

theorem item_completes (h : s.Printing text) {item : Item} (hitem : item.emits = true) :
    Completes item.perform s fun _ t =>
      t.Printing (text ++ item.emission s.unit.statement.isListDirected) := by
  have hstill {t : Session} (ht : t.Printing text) : t.Printing (text ++ []) := by
    rwa [List.append_nil]
  cases item with
  | receivers r => exact (ends_modify _).mpr (hstill (h.declare r))
  | nonAdvancing yes => exact (ends_modify _).mpr (hstill (h.setNonAdvancing yes))
  | modes m => exact (h.setModes_completes m).discard_state.mono (fun _ _ => hstill) fun _ _ => id
  | outputText text => exact (h.outputBytes_completes _).discard_state
  | outputInteger value => exact (h.outputBytes_completes _).discard_state
  | outputBlock data => exact (h.outputBlock_completes data).discard_state
  | _ => cases hitem

theorem call_completes (h : s.Printing text) {c : RecordCall true true true}
    (hc : (Operation.call c).emits = true) :
    Completes (call c) s fun _ t => t.Printing (text ++ (Operation.call c).emission) := by
  cases c with
  | emit data => exact (h.emit_completes data).bind fun _ _ => And.right
  | advance => exact h.advance_completes.bind fun _ _ => id
  | char => cases hc
  | move m => cases hc

theorem operation_completes (h : s.Printing text) {op : Operation} (hop : op.emits = true) :
    Completes op.perform s fun _ t => t.Printing (text ++ op.emission) := by
  have hstill {t : Session} (ht : t.Printing text) : t.Printing (text ++ []) := by
    rwa [List.append_nil]
  cases op with
  | call c => exact (h.call_completes hop).discard_state
  | flush => exact h.flushUnit_completes.discard_state.mono (fun _ _ => hstill) fun _ _ => id
  | flushIfTerminal =>
    refine h.flushIfTerminal_completes.mono ?_ fun _ _ => id
    rintro _ _ rfl
    exact hstill h
  | leftTabLimit => exact (ends_modify _).mpr (hstill h.setLeftTabLimit)
  | nonAdvancing yes => exact (ends_modify _).mpr (hstill (h.setNonAdvancing yes))
  | modes m => exact (h.setModes_completes m).discard_state.mono (fun _ _ => hstill) fun _ _ => id
  | receivers r => exact (ends_modify _).mpr (hstill (h.declare r))
  | item => exact (ends_modify _).mpr (hstill h.count_items)
  | _ => cases hop

end Session.Printing

def Program.numbered? (p : Program) (n : ℤ) : Option ExternalUnit := (p.lookUp? n).bind p.unit?

namespace ProgramStep

def emits : ProgramStep → Bool
  | .call (.begin_ _ kind _) => kind = .formatted .output || kind = .listDirected .output
  | .call (.item _ item) => item.emits
  | .call (.closeStatus _ _) => true
  | .call (.finish _) => true
  | .call (.drop _) => true
  | .operation _ op => op.emits
  | .lookUp _ _ => true
  | _ => false

/-- What the step emits on the unit that it is about. A WRITE that ends completes its record, unless it
does not advance; one that is left in the middle does not. -/
def emission (u : ExternalUnit) : ProgramStep → Bytes
  | .call (.item _ item) => item.emission u.statement.isListDirected
  | .call (.finish _) => if u.connection.nonAdvancing then [] else [Session.newline]
  | .operation _ op => op.emission
  | _ => []

/-- Of the steps, those that are about the unit of this number are parts of WRITE statements that only
emit, and none reaches behind the program. -/
def onlyEmits (n : ℤ) : List ProgramStep → Activity → Bool
  | [], _ => true
  | step :: steps, a =>
    step.isOwn && (!step.worksOn n a || step.emits) &&
      match step.perform a with
      | .ok _ b => onlyEmits n steps b
      | .error _ _ => true

def emitted (n : ℤ) : List ProgramStep → Activity → Bytes
  | [], _ => []
  | step :: steps, a =>
    (if step.worksOn n a then ((a.program.numbered? n).map step.emission).getD [] else []) ++
      match step.perform a with
      | .ok _ b => emitted n steps b
      | .error _ _ => []

end ProgramStep

/-! ### The program -/

namespace Program

variable {spared : Option Place} {hook : Option ℤ} {output text : Bytes} {p q : Program} {x : Place}
variable {n : ℤ} {id : ℕ} {u : ExternalUnit}

theorem onUnit_hook {α : Type} (handler : Handler) (items : ℕ) (act : Act Session α) :
    Preserves (fun p : Program => p.crashUnit = hook) (onUnit id handler items act) := by
  intro p h
  unfold Ends onUnit
  cases p.unit? id with
  | none => exact h
  | some u =>
    dsimp only
    cases act { system := p.system, unit := u, handler, items } <;> exact h

theorem Spares.occupy (h : p.Spares spared hook output) (hid : ∀ x ∈ spared, x.id = id)
    (hlookup : p.lookUp? n = some id) (hq : p.DiffersAt q id) (hhook : q.crashUnit = p.crashUnit)
    (hunit : q.unit? id = some u) : q.Spares (some ⟨n, id, u⟩) hook q.system.output where
  tracks := h.tracks.imp fun _ htracks => htracks.of_differsAt hq
  hook_eq := hhook.trans h.hook_eq
  output_eq := rfl
  number_eq := by
    rintro _ ⟨⟩
    exact (hq.lookUp?_eq n).trans hlookup
  unit_eq := by
    rintro _ ⟨⟩
    exact hunit
  apart j v hj hv := by
    have hne : j ≠ id := hj _ rfl
    exact h.apart j v (fun x hx => hid x hx ▸ hne) ((hq.unit_eq j hne).symm.trans hv)

/-- The unit at this place writes to standard output, where it is the one to be written out at the end,
and it is the only one there. What was put there and what waits in the unit make up the text. -/
structure Prints (x : Place) (text : Bytes) (p : Program) : Prop where
  spares : p.Spares (some x) (some x.number) p.system.output
  prints : x.unit.Prints p.system text

namespace Prints

variable (h : p.Prints x text)
include h

theorem lookUp_eq : p.lookUp? x.number = some x.id := h.spares.number_eq x rfl

theorem unit_eq : p.unit? x.id = some x.unit := h.spares.unit_eq x rfl

theorem numbered_eq : p.numbered? x.number = some x.unit := by
  rw [numbered?, h.lookUp_eq]
  exact h.unit_eq

theorem of_spares (hq : q.Spares (some x) (some x.number) p.system.output) : q.Prints x text where
  spares := by
    rw [hq.output_eq]
    exact hq
  prints := h.prints.of_output hq.output_eq

theorem lastAction (hfree : x.unit.held = false) :
    Completes Program.lastAction p fun _ q => q.system.delivered = text := by
  refine (ends_modify _).mpr ?_
  rw [h.spares.hook_eq]
  dsimp only [flushOnCrash]
  rw [h.lookUp_eq]
  dsimp only
  rw [h.unit_eq]
  exact h.prints.flushOnCrash hfree

theorem run_completes {α : Type} {st : Statement} {act : Act Session α} {Q : α → Session → Prop}
    (hst : st.unit = x.id)
    (hact : Completes act
      { system := p.system, unit := x.unit, handler := st.handler, items := st.items } Q) :
    Completes (st.run act) p fun out q => ∃ t, Q out.1 t ∧
      q.Spares (some { x with unit := t.unit }) (some x.number) q.system.output ∧ q.system = t.system ∧
      out.2 = { st with handler := t.handler, items := t.items } := by
  have hsession : st.session? p =
      some { system := p.system, unit := x.unit, handler := st.handler, items := st.items } := by
    rw [Statement.session?, hst, h.unit_eq]
    rfl
  have hhook : Preserves (fun p : Program => p.crashUnit = some x.number) (st.run act) :=
    (onUnit_hook _ _ _).bind fun _ => .pure _
  refine ((Statement.run_completes st hsession hact).and (hhook p h.spares.hook_eq)).mono ?_ fun _ _ => id
  rintro ⟨a, st'⟩ q ⟨⟨t, hQ, hsession', hst', hdiffers⟩, hcrash⟩
  dsimp only at hQ hsession' hst' hcrash
  obtain ⟨hunit, hsystem⟩ := Statement.unit_of_session? hsession'
  subst hst'
  rw [hst] at hdiffers
  rw [show Statement.unit _ = x.id from hst] at hunit
  refine ⟨t, hQ, ?_, hsystem, rfl⟩
  refine h.spares.occupy ?_ h.lookUp_eq hdiffers (hcrash.trans h.spares.hook_eq.symm) hunit
  rintro _ ⟨⟩
  rfl

end Prints

end Program

/-! ### Statements in progress -/

structure Statement.Printing (x : Place) (text : Bytes) (p : Program) (st : Statement) : Prop where
  closing_eq : st.closing = false
  session : Session.Printing text
    { system := p.system, unit := x.unit, handler := st.handler, items := st.items }

/-- Between two steps of the program. At most one statement is on the unit. -/
structure Activity.Printing (x : Place) (text : Bytes) (a : Activity) : Prop where
  program : a.program.Prints x text
  statement : ∃ k, ∀ (j : ℕ) (st : Statement), a.statements[j]? = some (some st) → st.unit = x.id →
    j = k ∧ st.Printing x text a.program

namespace Activity.Printing

variable {x : Place} {text text' : Bytes} {a b : Activity} {k : ℕ}

theorem of_leaves (h : a.Printing x text)
    (hb : a.Leaves (some x) (some x.number) a.program.system.output b) : b.Printing x text := by
  refine ⟨h.program.of_spares hb.program, ?_⟩
  obtain ⟨k, hk⟩ := h.statement
  refine ⟨k, fun j st hst hunit => ?_⟩
  obtain ⟨hj, hprinting⟩ := hk j st (hb.statements x rfl j st hst hunit) hunit
  have houtput : b.program.system.output = a.program.system.output := hb.program.output_eq
  exact ⟨hj, hprinting.closing_eq,
    { hprinting.session with prints := hprinting.session.prints.of_output houtput }⟩

def Next (x : Place) (text : Bytes) (next : Option Statement) (q : Program) : Prop :=
  ∃ u, q.Prints { x with unit := u } text ∧
    ∀ st, next = some st → st.Printing { x with unit := u } text q

section

variable (h : a.Printing x text)
include h

theorem unit_ne_of_free (hfree : x.unit.held = false) {j : ℕ} {st : Statement}
    (hst : a.statements[j]? = some (some st)) : st.unit ≠ x.id := by
  intro hunit
  obtain ⟨k, hk⟩ := h.statement
  have hheld := (hk j st hst hunit).2.session.held_eq
  exact Bool.false_ne_true (hfree.symm.trans hheld)

theorem start_completes {act : Act Program (Option Statement)}
    (hact : Completes act a.program fun begun q =>
      (begun = none ∧ q = a.program) ∨ (x.unit.held = false ∧ Next x text begun q)) :
    Completes (start act) a fun _ b => ∃ u, b.Printing { x with unit := u } text := by
  refine Ends.bind (P := fun begun b => b.statements = a.statements ∧
    ((begun = none ∧ b.program = a.program) ∨ (x.unit.held = false ∧ Next x text begun b.program)))
    (onProgram_ends (hact.mono (fun _ _ hq => ⟨rfl, hq⟩) fun _ _ => id)) ?_
  rintro begun b ⟨hstatements, hbegun⟩
  refine (ends_modify _).mpr ?_
  rw [hstatements]
  rcases hbegun with ⟨rfl, hprogram⟩ | ⟨hfree, u, hprogram, hbegun⟩
  · rw [hprogram]
    obtain ⟨k, hk⟩ := h.statement
    refine ⟨x.unit, h.program, k, fun j st hst => ?_⟩
    rcases getElem?_snoc hst with hold | ⟨-, heq⟩
    · exact hk j st hold
    · cases heq
  · refine ⟨u, hprogram, a.statements.length, fun j st hst hunit => ?_⟩
    rcases getElem?_snoc hst with hold | ⟨hj, heq⟩
    · exact absurd hunit (h.unit_ne_of_free hfree hold)
    · exact ⟨hj, hbegun st heq⟩

theorem go_completes {act : Statement → Act Program (Option Statement)}
    (hon : a.isOn k x.number = true)
    (hact : ∀ st : Statement, st.unit = x.id → st.Printing x text a.program →
      Completes (act st) a.program (Next x text')) :
    Completes (go k act) a fun _ b => ∃ u, b.Printing { x with unit := u } text' := by
  obtain ⟨st, hst, hunit⟩ : ∃ st, a.statements[k]? = some (some st) ∧ st.unit = x.id := by
    rw [isOn, h.program.lookUp_eq] at hon
    rcases hst : a.statements[k]? with _ | _ | st
    · simp [hst] at hon
    · simp [hst] at hon
    · exact ⟨st, rfl, by simpa [hst, eq_comm] using hon⟩
  obtain ⟨i, hi⟩ := h.statement
  obtain ⟨rfl, hprinting⟩ := hi k st hst hunit
  refine (ends_get _).mpr ?_
  rw [hst]
  refine Ends.bind (P := fun next b => b.statements = a.statements ∧ Next x text' next b.program)
    (onProgram_ends ((hact st hunit hprinting).mono (fun _ _ hq => ⟨rfl, hq⟩) fun _ _ => id)) ?_
  rintro next b ⟨hstatements, u, hprogram, hnext⟩
  refine (ends_modify _).mpr ⟨u, hprogram, k, fun j st' hst' hunit' => ?_⟩
  dsimp only at hst'
  rw [hstatements, List.getElem?_set] at hst'
  split_ifs at hst' with hj hlt
  · exact ⟨hj.symm, hnext st' (Option.some.inj hst')⟩
  · exact absurd (hi j st' hst' hunit').1.symm hj

end

/-! ### Steps on the unit -/

section

variable {p : Program} {st : Statement}

theorem begin_completes (h : p.Prints x text) {kind : StatementKind}
    (hkind : kind = .formatted .output ∨ kind = .listDirected .output) (source : SourceLine) :
    Completes (Statement.begin_ x.number kind source) p fun begun q =>
      (begun = none ∧ q = p) ∨ (x.unit.held = false ∧ Next x text begun q) := by
  unfold Completes Ends
  rw [Program.begin_run_eq_of_live h.lookUp_eq]
  change Completes _ _ _
  refine (ends_get _).mpr ?_
  rw [h.unit_eq]
  dsimp only
  split_ifs with hheld
  · exact .inl ⟨rfl, rfl⟩
  have hfree : x.unit.held = false := by simpa using hheld
  refine Ends.bind (h.run_completes rfl (Session.Printing.of_begin h.prints hkind source)) ?_
  rintro ⟨_, st⟩ q ⟨t, ht, hspares, hsystem, rfl⟩
  refine .inr ⟨hfree, t.unit, ⟨hspares, ?_⟩, ?_⟩
  · rw [hsystem]
    exact ht.prints
  · rintro _ ⟨⟩
    refine ⟨rfl, ?_⟩
    rw [hsystem]
    exact ht

theorem work_completes {act : Act Session Unit} (h : p.Prints x text) (hunit : st.unit = x.id)
    (hst : st.Printing x text p)
    (hact : Completes act
      { system := p.system, unit := x.unit, handler := st.handler, items := st.items }
      fun _ t => t.Printing text') :
    Completes (do return some (← st.run act).2) p (Next x text') := by
  refine (h.run_completes hunit hact).bind ?_
  rintro ⟨_, st'⟩ q ⟨t, ht, hspares, hsystem, rfl⟩
  refine (ends_pure _).mpr ⟨t.unit, ⟨hspares, ?_⟩, ?_⟩
  · rw [hsystem]
    exact ht.prints
  · rintro _ ⟨⟩
    refine ⟨hst.closing_eq, ?_⟩
    rw [hsystem]
    exact ht

theorem finish_completes (h : p.Prints x text) (hunit : st.unit = x.id) (hst : st.Printing x text p) :
    Completes (do discard st.finish; return none) p
      (Next x (text ++ if x.unit.connection.nonAdvancing then [] else [Session.newline])) := by
  obtain ⟨id, closing, closeStatus, handler, items⟩ := st
  obtain rfl : closing = false := hst.closing_eq
  have hfinish : Completes (Statement.finish ⟨id, false, closeStatus, handler, items⟩) p fun _ q =>
      Next x (text ++ if x.unit.connection.nonAdvancing then [] else [Session.newline]) none q := by
    refine Ends.bind (h.run_completes hunit hst.session.finish_completes) ?_
    rintro ⟨status, _⟩ q ⟨t, ⟨hprints, -⟩, hspares, hsystem, -⟩
    refine (ends_pure _).mpr ⟨t.unit, ⟨hspares, ?_⟩, fun _ hst => nomatch hst⟩
    rw [hsystem]
    exact hprints
  exact hfinish.discard_state.bind fun _ _ hq => hq

theorem drop_completes (h : p.Prints x text) (hunit : st.unit = x.id) :
    Completes (do st.drop; return none) p (Next x text) := by
  refine (ends_modify_bind _ _).mpr ?_
  rw [hunit, h.unit_eq]
  have hlt := (List.getElem?_eq_some_iff.mp h.unit_eq).1
  have hspares : (p.setUnit x.id (Session.release x.unit)).Spares
      (some { x with unit := Session.release x.unit }) (some x.number) p.system.output := by
    refine h.spares.occupy ?_ h.lookUp_eq (Program.differsAt_setUnit p.system) rfl
      (Program.unit?_setUnit_self hlt)
    rintro _ ⟨⟩
    rfl
  exact (ends_pure _).mpr ⟨_, ⟨hspares, { h.prints with }⟩, fun _ hst => nomatch hst⟩

end

/-! ### Runs -/

theorem perform_completes (h : a.Printing x text) {step : ProgramStep}
    (hon : step.worksOn x.number a = true) (hemits : step.emits = true) :
    Completes step.perform a fun _ b =>
      ∃ u, b.Printing { x with unit := u } (text ++ step.emission x.unit) := by
  have hstill {act : Act Activity Unit}
      (hact : Completes act a fun _ b => ∃ u, b.Printing { x with unit := u } text) :
      Completes act a fun _ b => ∃ u, b.Printing { x with unit := u } (text ++ []) := by
    rwa [List.append_nil]
  have hattempts {c : Call} {text' : Bytes}
      (hc : Completes c.act a fun _ b => ∃ u, b.Printing { x with unit := u } text') :
      Completes c.perform a fun _ b => ∃ u, b.Printing { x with unit := u } text' :=
    (ends_get _).mpr (hc.bind fun _ _ ⟨u, hb⟩ => ⟨u, hb.program, hb.statement⟩)
  cases step with
  | call c =>
    refine hattempts ?_
    cases c with
    | begin_ n kind source =>
      obtain rfl : n = x.number := of_decide_eq_true hon
      refine hstill (h.start_completes ?_)
      exact begin_completes h.program (by simpa [ProgramStep.emits] using hemits) source
    | item k item =>
      refine h.go_completes hon fun st hunit hst => ?_
      exact work_completes h.program hunit hst (hst.session.item_completes hemits)
    | closeStatus k status =>
      refine hstill (h.go_completes hon fun st _ hst => (ends_pure _).mpr ⟨x.unit, h.program, ?_⟩)
      rintro _ ⟨⟩
      exact ⟨hst.closing_eq, hst.session⟩
    | finish k => exact h.go_completes hon fun st hunit hst => finish_completes h.program hunit hst
    | drop k => exact hstill (h.go_completes hon fun st hunit _ => drop_completes h.program hunit)
    | _ => cases hemits
  | operation k op =>
    refine h.go_completes hon fun st hunit hst => ?_
    exact work_completes h.program hunit hst (hst.session.operation_completes hemits)
  | lookUp n source =>
    obtain rfl : n = x.number := of_decide_eq_true hon
    have hlookup : Completes (Program.lookUpOrCrash x.number source) a.program
        fun _ q => q = a.program := by
      unfold Completes Ends Program.lookUpOrCrash
      rw [h.program.lookUp_eq]
    refine hstill (onProgram_ends (hlookup.discard_state.mono ?_ fun _ _ => id))
    rintro _ _ rfl
    exact ⟨x.unit, h⟩

/-- Each step puts what it emits on the unit behind all that was emitted there before. -/
theorem step_ends (h : a.Printing x text) {step : ProgramStep} (hown : step.isOwn = true)
    (hemits : step.worksOn x.number a = true → step.emits = true) :
    Ends step.perform a
      (fun _ b => ∃ u, b.Printing { x with unit := u } (text ++
        if step.worksOn x.number a then
          ((a.program.numbered? x.number).map step.emission).getD []
        else []))
      fun _ _ => True := by
  rw [h.program.numbered_eq]
  split_ifs with hon
  · exact (h.perform_completes hon (hemits hon)).mono (fun _ _ => id) fun _ _ => False.elim
  · have hother : step.worksOn x.number a = false := by simpa using hon
    refine (ProgramStep.perform_leaves h.program.spares hown ?_ ?_).mono ?_ fun _ _ _ => trivial
    · rintro rfl
      exact hon rfl
    · rintro _ ⟨⟩
      exact hother
    · intro _ b hb
      refine ⟨x.unit, ?_⟩
      rw [List.append_nil]
      exact h.of_leaves hb

theorem run_ends (h : a.Printing x text) {steps : List ProgramStep}
    (hemits : ProgramStep.onlyEmits x.number steps a = true) :
    Ends (ProgramStep.run steps) a
      (fun _ b => ∃ u, b.Printing { x with unit := u } (text ++ ProgramStep.emitted x.number steps a))
      fun _ _ => True := by
  -- By induction over the steps. The unit is another one after each, but its place is the same.
  induction steps generalizing x text a with
  | nil =>
    refine (ends_pure _).mpr ⟨x.unit, ?_⟩
    rw [ProgramStep.emitted, List.append_nil]
    exact h
  | cons step steps ih =>
    rw [ProgramStep.onlyEmits, Bool.and_eq_true, Bool.and_eq_true] at hemits
    obtain ⟨⟨hown, hstep⟩, hrest⟩ := hemits
    have hstep := h.step_ends hown fun hon => by simpa [hon] using hstep
    rw [ProgramStep.emitted, ProgramStep.run_cons]
    unfold Ends at hstep
    cases hrun : step.perform a with
    | error c b =>
      unfold Ends
      rw [bind_run_error hrun]
      trivial
    | ok _ b =>
      rw [hrun] at hstep hrest
      obtain ⟨u, hb⟩ := hstep
      unfold Ends
      rw [bind_run_eq hrun, ← List.append_assoc]
      exact ih (x := { x with unit := u }) hb hrest

end Activity.Printing

end DataTransfer
