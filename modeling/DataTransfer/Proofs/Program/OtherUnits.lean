import DataTransfer.Proofs.Program.Statements
import DataTransfer.Proofs.Unit.Apart

/-!
What statements leave of the units that they are not on. A unit that no step of a program is about keeps
its number and stays as it is, and if no other unit is connected to standard output, nothing comes there
and no other unit comes to be connected to it. It makes no difference whether the steps end the program.
-/

namespace DataTransfer

theorem getElem?_snoc {α : Type} {xs : List α} {x y : α} {k : ℕ} (h : (xs ++ [x])[k]? = some y) :
    xs[k]? = some y ∨ k = xs.length ∧ x = y := by
  rcases Nat.lt_or_ge k xs.length with hlt | hge
  · exact .inl ((List.getElem?_append_left hlt).symm.trans h)
  · rw [List.getElem?_append_right hge, List.getElem?_singleton] at h
    split_ifs at h with hk
    exact .inr ⟨by omega, Option.some.inj h⟩

/-! ### Steps of a program -/

/-- What a program does: a call, one operation in the `k`-th statement, or a search for a unit that has to
exist. -/
inductive ProgramStep where
  | call (c : Call)
  | operation (k : ℕ) (op : Operation)
  | lookUp (n : ℤ) (source : SourceLine)

def Activity.isOn (a : Activity) (k : ℕ) (n : ℤ) : Bool :=
  (a.statements[k]?).join.any fun st => a.program.lookUp? n = some st.unit

namespace ProgramStep

def perform : ProgramStep → Act Activity Unit
  | .call c => c.perform
  | .operation k op => Activity.go k fun st => do return some (← st.run op.perform).2
  | .lookUp n source => Activity.onProgram (discard (Program.lookUpOrCrash n source))

def run (steps : List ProgramStep) : Act Activity Unit := steps.forM perform

theorem run_cons (step : ProgramStep) (steps : List ProgramStep) :
    run (step :: steps) = step.perform >>= fun _ => run steps := rfl

theorem run_append (steps more : List ProgramStep) :
    run (steps ++ more) = run steps >>= fun _ => run more := List.forM_append

def isOwn : ProgramStep → Bool
  | .operation _ op => (TransferStep.operation op).isOwn
  | _ => true

/-- The step is about the unit of this number, or about all units. -/
def worksOn (n : ℤ) (a : Activity) : ProgramStep → Bool
  | .call (.begin_ m _ _) => m = n
  | .call (.beginNew _) => a.program.newUnit.1 = n
  | .call (.beginClose m _) => m = n
  | .call (.item k _) => a.isOn k n
  | .call (.closeStatus k _) => a.isOn k n
  | .call (.finish k) => a.isOn k n
  | .call (.drop k) => a.isOn k n
  | .call .closeAll => true
  | .operation k _ => a.isOn k n
  | .lookUp m _ => m = n

end ProgramStep

/-! ### The directory -/

namespace Directory.Tracks

variable {past : List Event} {p : Program} {m n : ℤ} {id : ℕ}

theorem addUnit (h : Tracks past p) (u : ExternalUnit) : Tracks past (p.addUnit u).2 := by
  have hlength : p.units.length < (p.addUnit u).2.units.length := by simp [Program.addUnit]
  exact ⟨h.numbering, fun e he => (h.known e he).trans hlength,
    fun event hevent id heq => (h.made event hevent id heq).trans hlength, h.lookUp_eq, h.closing_eq⟩

theorem number_eq (h : Tracks past p) (hm : p.lookUp? m = some id) (hn : p.lookUp? n = some id) :
    m = n := by
  rw [Program.lookUp?_eq_some_iff h.numbering] at hm hn
  have heq := List.inj_on_of_nodup_map h.numbering.ids (List.mem_append_left _ hm)
    (List.mem_append_left _ hn) rfl
  exact congrArg Entry.number heq

end Directory.Tracks

/-! ### The program -/

structure Place where
  number : ℤ
  id : ℕ
  unit : ExternalUnit

namespace Program

/-- The unit at a place, if one is to be spared, is there as it was, and no other unit is connected to
standard output, to which `output` has come. -/
structure Spares (spared : Option Place) (hook : Option ℤ) (output : Bytes) (p : Program) : Prop where
  tracks : ∃ past, Directory.Tracks past p
  hook_eq : p.crashUnit = hook
  output_eq : p.system.output = output
  number_eq : ∀ x ∈ spared, p.lookUp? x.number = some x.id
  unit_eq : ∀ x ∈ spared, p.unit? x.id = some x.unit
  apart : ∀ id u, (∀ x ∈ spared, id ≠ x.id) → p.unit? id = some u →
    u.attachment.backing ≠ some .standardOutput

variable {spared : Option Place} {hook : Option ℤ} {output : Bytes} {p q : Program} {n : ℤ} {id : ℕ}

namespace Spares

section

variable (h : p.Spares spared hook output)
include h

theorem change (hid : ∀ x ∈ spared, id ≠ x.id) (hq : p.DiffersAt q id)
    (hhook : q.crashUnit = p.crashUnit) (houtput : q.system.output = output)
    (hunit : ∀ u, q.unit? id = some u → u.attachment.backing ≠ some .standardOutput) :
    q.Spares spared hook output where
  tracks := h.tracks.imp fun _ htracks => htracks.of_differsAt hq
  hook_eq := hhook.trans h.hook_eq
  output_eq := houtput
  number_eq x hx := (hq.lookUp?_eq x.number).trans (h.number_eq x hx)
  unit_eq x hx := (hq.unit_eq x.id (hid x hx).symm).trans (h.unit_eq x hx)
  apart j u hj hu := by
    by_cases heq : j = id
    · subst heq
      exact hunit u hu
    · exact h.apart j u hj ((hq.unit_eq j heq).symm.trans hu)

theorem setUnit {system : System} {u : ExternalUnit} (hid : ∀ x ∈ spared, id ≠ x.id)
    (hunit : u.attachment.backing ≠ some .standardOutput) (houtput : system.output = output) :
    ({ p with system }.setUnit id u).Spares spared hook output := by
  refine h.change hid (differsAt_setUnit system) rfl houtput fun v hv => ?_
  have hlt := (List.getElem?_eq_some_iff.mp hv).1
  rw [setUnit_length] at hlt
  cases (unit?_setUnit_self hlt).symm.trans hv
  exact hunit

theorem withDirectory {directory : Directory} (htracks : ∃ past, Directory.Tracks past { p with directory })
    (hnumber : ∀ x ∈ spared, lookUp? { p with directory } x.number = p.lookUp? x.number) :
    Spares spared hook output { p with directory } :=
  { h with
    tracks := htracks
    number_eq := fun x hx => (hnumber x hx).trans (h.number_eq x hx) }

theorem addUnit (n : ℤ) (readChunk : ℕ) :
    (p.addUnit (.new n readChunk)).2.Spares spared hook output where
  tracks := h.tracks.imp fun _ htracks => htracks.addUnit _
  hook_eq := h.hook_eq
  output_eq := h.output_eq
  number_eq := h.number_eq
  unit_eq x hx := by
    have hlt := (List.getElem?_eq_some_iff.mp (h.unit_eq x hx)).1
    exact (List.getElem?_append_left hlt).trans (h.unit_eq x hx)
  apart j u hj hu := by
    rcases getElem?_snoc hu with hold | ⟨-, rfl⟩
    · exact h.apart j u hj hold
    · exact fun heq => nomatch heq

theorem id_ne (hn : ∀ x ∈ spared, n ≠ x.number) (hlookup : p.lookUp? n = some id) :
    ∀ x ∈ spared, id ≠ x.id := by
  obtain ⟨past, htracks⟩ := h.tracks
  rintro x hx rfl
  exact hn x hx (htracks.number_eq hlookup (h.number_eq x hx))

theorem create (hvacant : p.Vacant n) (hn : ∀ x ∈ spared, n ≠ x.number) :
    (p.withUnit n).Spares spared hook output ∧ ∀ x ∈ spared, p.units.length ≠ x.id := by
  obtain ⟨past, hstep⟩ := hvacant.create
  refine ⟨(h.addUnit n p.readChunk).withDirectory ⟨_, hstep.tracks⟩ fun x hx => ?_, ?_⟩
  · exact (hstep.numbers_kept x.number fun heq => hn x hx heq.symm).1
  · intro x hx
    exact (List.getElem?_eq_some_iff.mp (h.unit_eq x hx)).1.ne'

theorem lookUpOrCreate (hn : ∀ x ∈ spared, n ≠ x.number) :
    (p.lookUpOrCreate n).2.Spares spared hook output ∧
      ∀ id, (p.lookUpOrCreate n).1.id? = some id → ∀ x ∈ spared, id ≠ x.id := by
  unfold Program.lookUpOrCreate
  cases hlookup : p.lookUp? n with
  | some id =>
    refine ⟨h, ?_⟩
    rintro _ ⟨⟩
    exact h.id_ne hn hlookup
  | none =>
    dsimp only
    split_ifs with hclosing
    · exact ⟨h, nofun⟩
    · have hvacant : p.Vacant n := by
        refine ⟨h.tracks, hlookup, ?_⟩
        rw [closing?]
        simpa using mt Directory.isClosing_iff.mpr hclosing
      obtain ⟨hcreated, hid⟩ := h.create hvacant hn
      refine ⟨hcreated, ?_⟩
      rintro _ ⟨⟩
      exact hid

theorem takeForClose {directory : Directory}
    (htake : p.directory.takeForClose n = some (⟨n, id⟩, directory)) (hn : ∀ x ∈ spared, n ≠ x.number) :
    Spares spared hook output { p with directory } := by
  obtain ⟨past, htracks⟩ := h.tracks
  have hstep := htracks.take htake
  exact h.withDirectory ⟨_, hstep.tracks⟩ fun x hx =>
    (hstep.numbers_kept x.number fun heq => hn x hx heq.symm).1

theorem destroyClosed (id : ℕ) : (p.destroyClosed id).Spares spared hook output := by
  obtain ⟨past, htracks⟩ := h.tracks
  have hstep := Ends.of_run (htracks.destroyClosed id) rfl
  exact h.withDirectory ⟨_, hstep.tracks⟩ fun _ _ => rfl

theorem newUnit : p.newUnit.2.Spares spared hook output := by
  obtain ⟨past, htracks⟩ := h.tracks
  have hstep := Ends.of_run (htracks.perform .newUnit) rfl
  exact h.withDirectory ⟨_, hstep.tracks⟩ fun _ _ => rfl

end

theorem onUnit {α : Type} {handler : Handler} {items : ℕ} {act : Act Session α}
    (hid : ∀ x ∈ spared, id ≠ x.id)
    (hact : Preserves (fun s : Session => Channel.Apart output s.channel.device) act) :
    Preserves (Spares spared hook output) (Program.onUnit id handler items act) := by
  intro p h
  have hafter {s : Session} (hs : Channel.Apart output s.channel.device) :
      ({ p with system := s.system }.setUnit id s.unit).Spares spared hook output :=
    h.setUnit hid hs.1 hs.2
  unfold Ends Program.onUnit
  cases hunit : p.unit? id with
  | none => exact h
  | some u =>
    have hends := hact { system := p.system, unit := u, handler, items }
      ⟨h.apart id u hid hunit, h.output_eq⟩
    unfold Ends at hends
    dsimp only
    cases hrun : act { system := p.system, unit := u, handler, items } with
    | ok a s =>
      rw [hrun] at hends
      exact hafter hends
    | error c s =>
      rw [hrun] at hends
      exact hafter hends

/-! ### Statements -/

theorem run {α : Type} {st : Statement} {act : Act Session α} (h : p.Spares spared hook output)
    (hid : ∀ x ∈ spared, st.unit ≠ x.id)
    (hact : Preserves (fun s : Session => Channel.Apart output s.channel.device) act) :
    Ends (st.run act) p (fun out q => q.Spares spared hook output ∧ out.2.unit = st.unit)
      fun _ q => q.Spares spared hook output :=
  (onUnit hid hact p h).bind fun _ _ hq => ⟨hq, rfl⟩

def Begins (spared : Option Place) (hook : Option ℤ) (output : Bytes) (begun : Option Statement)
    (q : Program) : Prop :=
  q.Spares spared hook output ∧ ∀ st, begun = some st → ∀ x ∈ spared, st.unit ≠ x.id

theorem beginOn {closing : Bool} (h : p.Spares spared hook output) (hid : ∀ x ∈ spared, id ≠ x.id)
    (kind : StatementKind) (source : SourceLine) :
    Ends (Statement.beginOn id closing kind source) p (Begins spared hook output)
      fun _ q => q.Spares spared hook output := by
  refine (ends_get _).mpr ?_
  cases p.unit? id with
  | none => exact (ends_pure _).mpr ⟨h, fun _ hst => nomatch hst⟩
  | some u =>
    dsimp only
    split_ifs
    · exact (ends_pure _).mpr ⟨h, fun _ hst => nomatch hst⟩
    · refine Ends.bind (h.run hid (Session.begin_lasts Channel.lasting_apart kind source)) ?_
      rintro ⟨_, st⟩ q ⟨hq, hunit⟩
      refine (ends_pure _).mpr ⟨hq, ?_⟩
      rintro _ ⟨⟩
      rwa [show st.unit = id from hunit]

theorem begin_ (h : p.Spares spared hook output) (hn : ∀ x ∈ spared, n ≠ x.number)
    (kind : StatementKind) (source : SourceLine) :
    Ends (Statement.begin_ n kind source) p (Begins spared hook output)
      fun _ q => q.Spares spared hook output := by
  obtain ⟨hfound, hid⟩ := h.lookUpOrCreate hn
  refine (ends_get _).mpr ?_
  generalize p.lookUpOrCreate n = result at hfound hid ⊢
  obtain ⟨found, q⟩ := result
  cases found with
  | live id => exact hfound.beginOn (hid id rfl) kind source
  | created id => exact hfound.beginOn (hid id rfl) kind source
  | waiting =>
    have hbegins : Begins spared hook output none q := ⟨hfound, fun _ hst => nomatch hst⟩
    exact hbegins

theorem beginOpenNew (h : p.Spares spared hook output) (hn : ∀ x ∈ spared, p.newUnit.1 ≠ x.number)
    (source : SourceLine) :
    Ends (Statement.beginOpenNew source) p (fun out => Begins spared hook output out.2)
      fun _ q => q.Spares spared hook output := by
  refine (ends_get _).mpr ((ends_set_bind _ _).mpr ?_)
  exact (h.newUnit.begin_ hn .connect source).bind fun _ _ hq => hq

theorem beginClose (h : p.Spares spared hook output) (hn : ∀ x ∈ spared, n ≠ x.number)
    (source : SourceLine) :
    Ends (Statement.beginClose n source) p (Begins spared hook output)
      fun _ q => q.Spares spared hook output := by
  refine (ends_get _).mpr ?_
  unfold Program.takeForClose
  cases htake : p.directory.takeForClose n with
  | none =>
    refine (ends_set_bind _ _).mpr ((h.addUnit n 256).beginOn ?_ .disconnect source)
    intro x hx
    exact (List.getElem?_eq_some_iff.mp (h.unit_eq x hx)).1.ne'
  | some taken =>
    obtain ⟨⟨m, id⟩, directory⟩ := taken
    have hfind := (Directory.live_takeForClose htake).2
    obtain rfl : m = n := Directory.number_of_find? hfind
    have hlookup : p.lookUp? m = some id := by
      rw [lookUp?, hfind]
      rfl
    exact (ends_set_bind _ _).mpr
      ((h.takeForClose htake hn).beginOn (h.id_ne hn hlookup) .disconnect source)

theorem finish {st : Statement} (h : p.Spares spared hook output)
    (hid : ∀ x ∈ spared, st.unit ≠ x.id) :
    Ends st.finish p (fun _ q => q.Spares spared hook output) fun _ q => q.Spares spared hook output := by
  have hfinish : Preserves (fun s : Session => Channel.Apart output s.channel.device) (do
      if st.closing then discard (Session.closeUnit st.closeStatus)
      Session.finish) := by
    refine .when_bind ?_ fun _ => Session.finish_preserves Channel.lasting_apart.stable
    exact (Session.closeUnit_lasts Channel.lasting_apart _).discard
  refine (h.run hid hfinish).bind ?_
  rintro ⟨status, _⟩ q ⟨hq, -⟩
  dsimp only
  split_ifs
  · exact hq.destroyClosed st.unit
  · exact hq

theorem drop {st : Statement} (h : p.Spares spared hook output) (hid : ∀ x ∈ spared, st.unit ≠ x.id) :
    Ends st.drop p (fun _ q => q.Spares spared hook output) fun _ q => q.Spares spared hook output := by
  refine (ends_modify _).mpr ?_
  cases hunit : p.unit? st.unit with
  | none => exact h
  | some u => exact h.setUnit hid (h.apart st.unit u hid hunit) h.output_eq

end Spares

end Program

/-! ### Steps -/

namespace Activity

variable {spared : Option Place} {hook : Option ℤ} {output : Bytes} {a : Activity} {k : ℕ}

structure Leaves (spared : Option Place) (hook : Option ℤ) (output : Bytes) (a b : Activity) : Prop where
  program : b.program.Spares spared hook output
  statements : ∀ x ∈ spared, ∀ (k : ℕ) (st : Statement), b.statements[k]? = some (some st) →
    st.unit = x.id → a.statements[k]? = some (some st)

theorem start_leaves {act : Act Program (Option Statement)}
    (h : Ends act a.program (Program.Spares.Begins spared hook output)
      fun _ q => q.Spares spared hook output) :
    Ends (start act) a (fun _ b => a.Leaves spared hook output b)
      fun _ b => b.program.Spares spared hook output := by
  refine Ends.bind (P := fun begun b => b.statements = a.statements ∧
    Program.Spares.Begins spared hook output begun b.program) (onProgram_ends ?_) ?_
  · exact h.mono (fun _ _ hq => ⟨rfl, hq⟩) fun _ _ => id
  · rintro begun b ⟨hstatements, hprogram, hbegun⟩
    refine (ends_modify _).mpr ⟨hprogram, fun x hx k st hst hunit => ?_⟩
    dsimp only at hst
    rw [hstatements] at hst
    rcases getElem?_snoc hst with hold | ⟨-, heq⟩
    · exact hold
    · exact absurd hunit (hbegun st heq x hx)

theorem go_leaves {act : Statement → Act Program (Option Statement)}
    (h : a.program.Spares spared hook output)
    (hon : ∀ x ∈ spared, ∀ st, a.statements[k]? = some (some st) → st.unit ≠ x.id)
    (hact : ∀ st, (∀ x ∈ spared, st.unit ≠ x.id) → Ends (act st) a.program
      (fun next q => q.Spares spared hook output ∧ ∀ st', next = some st' → st'.unit = st.unit)
      fun _ q => q.Spares spared hook output) :
    Ends (go k act) a (fun _ b => a.Leaves spared hook output b)
      fun _ b => b.program.Spares spared hook output := by
  refine (ends_get _).mpr ?_
  rcases hst : a.statements[k]? with _ | _ | st
  · exact ⟨h, fun _ _ _ _ hst _ => hst⟩
  · exact ⟨h, fun _ _ _ _ hst _ => hst⟩
  have hid : ∀ x ∈ spared, st.unit ≠ x.id := fun x hx => hon x hx st hst
  refine Ends.bind (P := fun next b => b.statements = a.statements ∧
    b.program.Spares spared hook output ∧ ∀ st', next = some st' → st'.unit = st.unit)
      (onProgram_ends ?_) ?_
  · exact (hact st hid).mono (fun _ _ hq => ⟨rfl, hq⟩) fun _ _ => id
  · rintro next b ⟨hstatements, hprogram, hnext⟩
    refine (ends_modify _).mpr ⟨hprogram, fun x hx j st' hst' hunit => ?_⟩
    dsimp only at hst'
    rw [hstatements, List.getElem?_set] at hst'
    split_ifs at hst' with hj hlt
    · exact absurd ((hnext st' (Option.some.inj hst')).symm.trans hunit) (hid x hx)
    · exact hst'

end Activity

namespace ProgramStep

variable {spared : Option Place} {hook : Option ℤ} {output : Bytes} {a : Activity} {k : ℕ} {n : ℤ}

theorem unit_ne_of_isOn (h : a.program.Spares spared hook output)
    (hother : ∀ x ∈ spared, a.isOn k x.number = false) :
    ∀ x ∈ spared, ∀ st, a.statements[k]? = some (some st) → st.unit ≠ x.id := by
  intro x hx st hst hunit
  have hon := hother x hx
  rw [Activity.isOn, hst, h.number_eq x hx, ← hunit] at hon
  simp at hon

/-- A statement does something with its unit, and goes on. -/
theorem go_run_leaves {act : Act Session Unit} (h : a.program.Spares spared hook output)
    (hact : Preserves (fun s : Session => Channel.Apart output s.channel.device) act)
    (hother : ∀ x ∈ spared, a.isOn k x.number = false) :
    Ends (Activity.go k fun st => do return some (← st.run act).2) a
      (fun _ b => a.Leaves spared hook output b) fun _ b => b.program.Spares spared hook output := by
  refine Activity.go_leaves h (unit_ne_of_isOn h hother) fun st hid => (h.run hid hact).bind ?_
  rintro ⟨_, st'⟩ q ⟨hq, hunit⟩
  refine ⟨hq, ?_⟩
  rintro _ ⟨⟩
  exact hunit

theorem act_leaves {c : Call} (h : a.program.Spares spared hook output) (hall : c ≠ .closeAll)
    (hother : ∀ x ∈ spared, (call c).worksOn x.number a = false) :
    Ends c.act a (fun _ b => a.Leaves spared hook output b)
      fun _ b => b.program.Spares spared hook output := by
  have hnumber {m : ℤ} (hm : ∀ x ∈ spared, decide (m = x.number) = false) :
      ∀ x ∈ spared, m ≠ x.number := fun x hx => of_decide_eq_false (hm x hx)
  cases c with
  | begin_ n kind source => exact Activity.start_leaves (h.begin_ (hnumber hother) kind source)
  | beginNew source =>
    exact Activity.start_leaves ((h.beginOpenNew (hnumber hother) source).bind fun _ _ hq => hq)
  | beginClose n source => exact Activity.start_leaves (h.beginClose (hnumber hother) source)
  | item k item => exact go_run_leaves h (Session.item_lasts Channel.lasting_apart item) hother
  | closeStatus k status =>
    refine Activity.go_leaves h (unit_ne_of_isOn h hother) fun st _ => ⟨h, ?_⟩
    rintro _ ⟨⟩
    rfl
  | finish k =>
    refine Activity.go_leaves h (unit_ne_of_isOn h hother) fun st hid => ?_
    exact (h.finish hid).discard_state.bind fun _ _ hq => ⟨hq, fun _ hst => nomatch hst⟩
  | drop k =>
    refine Activity.go_leaves h (unit_ne_of_isOn h hother) fun st hid => ?_
    exact (h.drop hid).bind fun _ _ hq => ⟨hq, fun _ hst => nomatch hst⟩
  | closeAll => exact absurd rfl hall

theorem perform_leaves {step : ProgramStep} (h : a.program.Spares spared hook output)
    (hown : step.isOwn = true) (hall : step ≠ .call .closeAll)
    (hother : ∀ x ∈ spared, step.worksOn x.number a = false) :
    Ends step.perform a (fun _ b => a.Leaves spared hook output b)
      fun _ b => b.program.Spares spared hook output := by
  cases step with
  | call c =>
    have hact := act_leaves h (fun heq => hall (congrArg call heq)) hother
    exact (ends_get _).mpr (hact.bind fun _ _ hb => ⟨hb.program, hb.statements⟩)
  | operation k op => exact go_run_leaves h (Session.operation_lasts Channel.lasting_apart hown) hother
  | lookUp n source =>
    have hlookup : Ends (Program.lookUpOrCrash n source) a.program (fun _ q => q = a.program)
        fun _ q => q = a.program := by
      unfold Ends Program.lookUpOrCrash
      cases a.program.lookUp? n <;> rfl
    refine Activity.onProgram_ends (hlookup.discard_state.mono ?_ ?_)
    · rintro _ _ rfl
      exact ⟨h, fun _ _ _ _ hst _ => hst⟩
    · rintro _ _ rfl
      exact h

end ProgramStep

end DataTransfer
