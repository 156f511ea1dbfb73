import DataTransfer.Proofs.Program.UnitHistory
import DataTransfer.Proofs.Program.Activity

/-!
Numbers for NEWUNIT=. They are counted downwards without a look at the directory. So no number is
handed out twice, and one is in use when it is handed out only if it was named before, by a statement
or a search that found no unit and made one.
-/

namespace DataTransfer

namespace Directory

/-- The numbers from the next one downwards are free but for those that were named; the next one is
no more than the limit. -/
structure Reserves (named : List ℤ) (limit : ℤ) (d : Directory) : Prop where
  next_le : d.nextNewUnit ≤ limit
  taken : ∀ e ∈ d.numbered, e.number ∈ named ∨ d.nextNewUnit < e.number

namespace Reserves

variable {named : List ℤ} {limit : ℤ} {d d' : Directory} {n : ℤ} {e : Entry}

theorem free (h : d.Reserves named limit) (hnamed : n ∉ named) (hn : n ≤ d.nextNewUnit) :
    d.find? n = none ∧ d.isClosing n = false := by
  have hnumber : ∀ x ∈ d.numbered, x.number ≠ n := by
    rintro x hx rfl
    exact (h.taken x hx).elim hnamed fun hlt => absurd hn (not_le.mpr hlt)
  constructor
  · refine Option.eq_none_iff_forall_ne_some.mpr fun x hx => ?_
    exact hnumber x (List.mem_append_left _ (live_of_find? hx)) (number_of_find? hx)
  · refine Bool.eq_false_iff.mpr fun hclosing => ?_
    obtain ⟨x, hx, hxn⟩ := List.any_eq_true.mp hclosing
    exact hnumber x (List.mem_append_right _ hx) (by simpa using hxn)

theorem mono (h : d.Reserves named limit) {limit' : ℤ} (hle : limit ≤ limit') :
    d.Reserves named limit' := ⟨h.next_le.trans hle, h.taken⟩

theorem shrink (h : d.Reserves named limit) (hnext : d'.nextNewUnit = d.nextNewUnit)
    (hsub : d'.numbered ⊆ d.numbered) : d'.Reserves named limit := by
  refine ⟨hnext ▸ h.next_le, fun e he => ?_⟩
  rw [hnext]
  exact h.taken e (hsub he)

theorem insert (h : d.Reserves named limit) (he : e.number ∈ named ∨ limit < e.number) :
    (d.insert e).Reserves named limit := by
  refine ⟨h.next_le, fun x hx => ?_⟩
  change x ∈ (d.insert e).live ++ d.closing at hx
  rcases List.mem_append.mp hx with hx | hx
  · rcases List.mem_cons.mp ((live_insert d e).subset hx) with rfl | hx
    · exact he.imp_right h.next_le.trans_lt
    · exact h.taken x (List.mem_append_left _ hx)
  · exact h.taken x (List.mem_append_right _ hx)

theorem takeForClose (h : d.Reserves named limit) (htake : d.takeForClose n = some (e, d')) :
    d'.Reserves named limit := by
  have hnext : d'.nextNewUnit = d.nextNewUnit := by
    unfold Directory.takeForClose at htake
    dsimp only at htake
    split at htake
    · cases htake
      rfl
    · cases htake
  obtain ⟨hperm, -⟩ := live_takeForClose htake
  obtain ⟨hclosing, -⟩ := takeForClose_spec htake
  refine h.shrink hnext fun x hx => ?_
  rw [numbered, hclosing, List.mem_append, List.mem_append, List.mem_singleton] at hx
  rcases hx with hx | hx | rfl
  · exact List.mem_append_left _ (hperm.mem_iff.mpr (List.mem_cons_of_mem _ hx))
  · exact List.mem_append_right _ hx
  · exact List.mem_append_left _ (hperm.mem_iff.mpr List.mem_cons_self)

theorem destroyClosed (h : d.Reserves named limit) (id : ℕ) :
    (d.destroyClosed id).Reserves named limit :=
  h.shrink rfl (List.append_subset.mpr ⟨List.subset_append_left _ _,
    List.Subset.trans List.eraseP_sublist.subset (List.subset_append_right _ _)⟩)

theorem takeAll (h : d.Reserves named limit) : d.takeAll.2.Reserves named limit := by
  refine h.shrink rfl ?_
  rw [numbered, live_takeAll]
  exact List.subset_append_right _ _

/-- The next number is handed out, and the limit falls below it. -/
theorem newUnit (h : d.Reserves named limit) :
    d.newUnit.2.Reserves named (d.newUnit.1 - 1) := by
  refine ⟨le_rfl, fun e he => (h.taken e he).imp_right fun hlt => ?_⟩
  change d.nextNewUnit - 1 < e.number
  omega

end Reserves

end Directory

/-! ### Statements and operations -/

/-- The numbers that a call may make a unit for. -/
def Call.names : Call → List ℤ
  | .begin_ n _ _ => [n]
  | _ => []

def Directory.Operation.names : Operation → List ℤ
  | .lookUpOrCreate n => [n]
  | _ => []

section

variable {named : List ℤ} {limit n : ℤ} {p : Program}

namespace Program

theorem lookUpOrCreate_reserves (h : p.directory.Reserves named limit)
    (hn : n ∈ named ∨ limit < n) : (p.lookUpOrCreate n).2.directory.Reserves named limit := by
  unfold lookUpOrCreate
  cases p.lookUp? n with
  | some id => exact h
  | none =>
    dsimp only
    split_ifs
    · exact h
    · exact h.insert hn

theorem takeForClose_reserves (h : p.directory.Reserves named limit) (n : ℤ) :
    (p.takeForClose n).2.directory.Reserves named limit := by
  unfold takeForClose
  cases htake : p.directory.takeForClose n with
  | none => exact h
  | some taken => exact h.takeForClose htake

theorem closeAll_reserves :
    Preserves (fun p : Program => p.directory.Reserves named limit) closeAll := by
  intro p h
  refine (ends_get _).mpr ((ends_set_bind _ _).mpr ?_)
  refine (Preserves.bind (.forIn (fun e => ?_) _) fun _ => .pure _) _ h.takeAll
  exact (onUnit_preserves (P := fun d _ => d.Reserves named limit) _ _ _).discard.bind
    fun _ => .pure _

end Program

namespace Statement

theorem run_reserves {α : Type} (st : Statement) (act : Act Session α) :
    Preserves (fun p : Program => p.directory.Reserves named limit) (st.run act) :=
  (Program.onUnit_preserves (P := fun d _ => d.Reserves named limit) _ _ _).bind fun _ => .pure _

theorem beginOn_reserves (id : ℕ) (closing : Bool) (kind : StatementKind) (source : SourceLine) :
    Preserves (fun p : Program => p.directory.Reserves named limit)
      (beginOn id closing kind source) := by
  refine .get_bind fun p _ => ?_
  cases p.unit? id with
  | none => exact .pure _
  | some u =>
    dsimp only
    split_ifs
    · exact .pure _
    · exact (run_reserves _ _).bind fun _ => .pure _

theorem begin_reserves (hn : n ∈ named ∨ limit < n) (kind : StatementKind) (source : SourceLine) :
    Preserves (fun p : Program => p.directory.Reserves named limit) (begin_ n kind source) := by
  refine .get_bind fun p h => ?_
  have hfound := Program.lookUpOrCreate_reserves h hn
  generalize p.lookUpOrCreate n = result at hfound ⊢
  obtain ⟨found, q⟩ := result
  refine Preserves.bind (.set hfound) fun _ => ?_
  cases found with
  | live id => exact beginOn_reserves id false kind source
  | created id => exact beginOn_reserves id false kind source
  | waiting => exact .pure _

theorem beginOpenNew_reserves (h : p.directory.Reserves named limit) (source : SourceLine) :
    Ends (beginOpenNew source) p
      (fun out q => out.1 ≤ limit ∧ q.directory.Reserves named (out.1 - 1))
      fun _ q => q.directory.Reserves named limit := by
  refine (ends_get _).mpr ((ends_set_bind _ _).mpr ?_)
  have hle : p.directory.nextNewUnit ≤ limit := h.next_le
  have hbegin := begin_reserves (.inr (sub_one_lt p.newUnit.1)) .connect source p.newUnit.2
    (h.newUnit (d := p.directory))
  refine (hbegin.mono (fun _ _ => id) fun _ q hq => hq.mono ?_).bind fun st q hq => ⟨hle, hq⟩
  exact (sub_one_lt _).le.trans hle

theorem beginClose_reserves (n : ℤ) (source : SourceLine) :
    Preserves (fun p : Program => p.directory.Reserves named limit) (beginClose n source) := by
  refine .get_bind fun p h => ?_
  have htaken := Program.takeForClose_reserves h n
  generalize htake : p.takeForClose n = result at htaken ⊢
  obtain ⟨taken, q⟩ := result
  cases taken with
  | some id => exact Preserves.bind (.set htaken) fun _ => beginOn_reserves id true _ source
  | none => exact Preserves.bind (.set htaken) fun _ => beginOn_reserves _ true _ source

theorem finish_reserves (st : Statement) :
    Preserves (fun p : Program => p.directory.Reserves named limit) st.finish := by
  refine (run_reserves st _).bind fun _ => ?_
  exact .when_bind (.modify fun p h => h.destroyClosed st.unit) fun _ => .pure _

theorem drop_reserves (st : Statement) :
    Preserves (fun p : Program => p.directory.Reserves named limit) st.drop := by
  refine .modify fun p h => ?_
  cases p.unit? st.unit <;> exact h

end Statement

namespace Activity

theorem onProgram_preserves {α : Type} {P : Program → Prop} {act : Act Program α}
    (h : Preserves P act) : Preserves (fun a : Activity => P a.program) (onProgram act) :=
  fun a ha => onProgram_ends (h a.program ha)

theorem start_preserves {P : Program → Prop} {act : Act Program (Option Statement)}
    (h : Preserves P act) : Preserves (fun a : Activity => P a.program) (start act) :=
  (onProgram_preserves h).bind fun _ => .modify fun _ => id

theorem go_preserves {P : Program → Prop} {k : ℕ}
    {act : Statement → Act Program (Option Statement)} (h : ∀ st, Preserves P (act st)) :
    Preserves (fun a : Activity => P a.program) (go k act) := by
  refine .get_bind fun a _ => ?_
  rcases a.statements[k]? with _ | _ | st
  · exact .pure _
  · exact .pure _
  · exact (onProgram_preserves (h st)).bind fun _ => .modify fun _ => id

end Activity

theorem Call.perform_reserves {call : Call} (hnew : ∀ source, call ≠ .beginNew source)
    (hnamed : call.names ⊆ named) :
    Preserves (fun a : Activity => a.program.directory.Reserves named limit) call.perform := by
  have hact : Preserves (fun a : Activity => a.program.directory.Reserves named limit) call.act := by
    cases call with
    | begin_ n kind source =>
      exact Activity.start_preserves
        (Statement.begin_reserves (.inl (hnamed List.mem_cons_self)) kind source)
    | beginNew source => exact absurd rfl (hnew source)
    | beginClose n source => exact Activity.start_preserves (Statement.beginClose_reserves n source)
    | item k given =>
      exact Activity.go_preserves fun st => (Statement.run_reserves st _).bind fun _ => .pure _
    | closeStatus k status =>
      exact Activity.go_preserves (P := fun p => p.directory.Reserves named limit) fun _ => .pure _
    | finish k =>
      exact Activity.go_preserves fun st =>
        (Statement.finish_reserves st).discard.bind fun _ => .pure _
    | drop k =>
      exact Activity.go_preserves fun st => (Statement.drop_reserves st).bind fun _ => .pure _
    | closeAll => exact Activity.onProgram_preserves Program.closeAll_reserves
  exact .get_bind fun a _ => hact.bind fun _ => .modify fun _ => id

namespace Directory.Operation

theorem perform_reserves {op : Operation} (hnamed : op.names ⊆ named)
    (h : p.directory.Reserves named limit) :
    Ends op.perform p
      (fun answer q => match answer with
        | .number n => n ≤ limit ∧ q.directory.Reserves named (n - 1)
        | _ => q.directory.Reserves named limit)
      fun _ q => q.directory.Reserves named limit := by
  cases op with
  | lookUp n => exact h
  | lookUpOrCreate n =>
    exact Program.lookUpOrCreate_reserves h (.inl (hnamed List.mem_cons_self))
  | takeForClose n => exact Program.takeForClose_reserves h n
  | destroyClosed id => exact h.destroyClosed id
  | closeAll => exact (Program.closeAll_reserves p h).bind fun _ q hq => hq
  | newUnit => exact ⟨h.next_le, h.newUnit⟩
  | size => exact h
  | work id unit system => exact h

end Directory.Operation

end

/-! ### Runs -/

/-- Something that a program asks for: a call, or an operation of the directory itself. -/
inductive Request where
  | call (c : Call)
  | operation (op : Directory.Operation)

namespace Request

def names : Request → List ℤ
  | .call c => c.names
  | .operation op => op.names

def perform : Request → Act Activity (Option ℤ)
  | .call (.beginNew source) => do
    let (n, st) ← Activity.onProgram (Statement.beginOpenNew source)
    modify fun a => { a with statements := a.statements ++ [st] }
    return some n
  | .call c => do
    c.perform
    return none
  | .operation op => do
    match ← Activity.onProgram op.perform with
    | .number n => return some n
    | _ => return none

/-- Requests one after another, also behind one that ends fatally: the numbers handed out, and what
is reached. -/
def runAll : List Request → Activity → List ℤ × Activity
  | [], a => ([], a)
  | r :: rs, a =>
    match r.perform a with
    | .ok n b =>
      let (handed, c) := runAll rs b
      (n.toList ++ handed, c)
    | .error _ b => runAll rs b

variable {named : List ℤ} {limit : ℤ} {a : Activity}

theorem perform_reserves {r : Request} (hnamed : r.names ⊆ named)
    (h : a.program.directory.Reserves named limit) :
    Ends r.perform a
      (fun n? b => match n? with
        | some n => n ≤ limit ∧ b.program.directory.Reserves named (n - 1)
        | none => b.program.directory.Reserves named limit)
      fun _ b => b.program.directory.Reserves named limit := by
  have honProgram {α : Type} {act : Act Program α} {Q : α → Program → Prop}
      (hact : Ends act a.program Q fun _ q => q.directory.Reserves named limit) :
      Ends (Activity.onProgram act) a (fun x b => Q x b.program)
        fun _ b => b.program.directory.Reserves named limit :=
    Activity.onProgram_ends (R := fun _ q => q.directory.Reserves named limit) hact
  cases r with
  | operation op =>
    refine (honProgram (op.perform_reserves hnamed h)).bind fun answer b hb => ?_
    cases answer <;> exact hb
  | call c =>
    by_cases hnew : ∃ source, c = .beginNew source
    · obtain ⟨source, rfl⟩ := hnew
      exact (honProgram (Statement.beginOpenNew_reserves h source)).bind fun _ _ hb => hb
    · have hc := Call.perform_reserves (fun source hs => hnew ⟨source, hs⟩) hnamed a h
      have hplain : (call c).perform = do c.perform; return none := by
        cases c with
        | beginNew source => exact absurd ⟨source, rfl⟩ hnew
        | _ => rfl
      rw [hplain]
      exact hc.bind fun _ _ hb => hb

/-- Numbers are handed out from the limit downwards, each below those before it. -/
theorem runAll_reserves {rs : List Request} (hnamed : ∀ r ∈ rs, r.names ⊆ named)
    (h : a.program.directory.Reserves named limit) :
    (runAll rs a).1.Pairwise (· > ·) ∧ (∀ n ∈ (runAll rs a).1, n ≤ limit ∧
        (runAll rs a).2.program.directory.nextNewUnit < n) ∧
      (runAll rs a).2.program.directory.Reserves named limit := by
  induction rs generalizing a limit with
  | nil => exact ⟨.nil, nofun, h⟩
  | cons r rs ih =>
    have hrs : ∀ r ∈ rs, r.names ⊆ named := fun x hx => hnamed x (List.mem_cons_of_mem _ hx)
    have hr := perform_reserves (hnamed r List.mem_cons_self) h
    unfold Ends at hr
    rw [runAll]
    cases hrun : r.perform a with
    | error c b =>
      rw [hrun] at hr
      exact ih hrs hr
    | ok n? b =>
      rw [hrun] at hr
      cases n? with
      | none => exact ih hrs hr
      | some n =>
        obtain ⟨hn, hb⟩ := hr
        obtain ⟨hpairwise, hhanded, hend⟩ := ih hrs hb
        have hle (m : ℤ) (hm : m ∈ (runAll rs b).1) : m < n := by
          have := (hhanded m hm).1
          omega
        have hbelow : (runAll rs b).2.program.directory.nextNewUnit < n := by
          have := hend.next_le
          omega
        refine ⟨List.pairwise_cons.mpr ⟨hle, hpairwise⟩, ?_, hend.mono (by omega)⟩
        intro m hm
        rcases List.mem_cons.mp hm with rfl | hm
        · exact ⟨hn, hbelow⟩
        · exact ⟨(hle m hm).le.trans hn, (hhanded m hm).2⟩

end Request

namespace Statement

/-- Under a number without a unit, live or closing, an OPEN begins on a unit that is made for it and
that is not connected. -/
theorem begin_connect_completes {p : Program} {n : ℤ} (hlive : p.lookUp? n = none)
    (hclosing : p.directory.isClosing n = false) (source : SourceLine) :
    Completes (begin_ n .connect source) p fun out q => ∃ st s, out = some st ∧
      st.session? q = some s ∧ p.unit? st.unit = none ∧
      s.unit = { ExternalUnit.new n p.readChunk with held := true, statement := .connect } := by
  let made : Program := { (p.addUnit (.new n p.readChunk)).2 with
    directory := p.directory.insert { number := n, id := p.units.length } }
  have hfound : p.lookUpOrCreate n = (.created p.units.length, made) := by
    rw [Program.lookUpOrCreate, hlive, hclosing]
    rfl
  have hunit : made.unit? p.units.length = some (.new n p.readChunk) := List.getElem?_concat_length
  have hbegin : Completes (Session.begin_ .connect source)
      { system := made.system, unit := .new n p.readChunk } fun _ s => s.unit =
        { ExternalUnit.new n p.readChunk with held := true, statement := .connect } := rfl
  refine (ends_get _).mpr ?_
  rw [hfound]
  refine (ends_set_bind _ _).mpr ((beginOn_completes hunit rfl hbegin).mono ?_ fun _ _ => id)
  rintro _ q ⟨st, s, rfl, hs, hsession, hid, -⟩
  refine ⟨st, s, rfl, hsession, ?_, hs⟩
  rw [hid]
  exact List.getElem?_eq_none le_rfl

theorem beginOpenNew_completes {p : Program} (hlive : p.lookUp? p.newUnit.1 = none)
    (hclosing : p.directory.isClosing p.newUnit.1 = false) (source : SourceLine) :
    Completes (beginOpenNew source) p fun out q => out.1 = p.newUnit.1 ∧
      ∃ st s, out.2 = some st ∧ st.session? q = some s ∧ p.unit? st.unit = none ∧
        s.unit = { ExternalUnit.new p.newUnit.1 p.readChunk with
          held := true, statement := .connect } := by
  refine (ends_get _).mpr ((ends_set_bind _ _).mpr ?_)
  refine (begin_connect_completes (p := p.newUnit.2) hlive hclosing source).bind ?_
  rintro out q ⟨st, s, rfl, h⟩
  exact ⟨rfl, st, s, rfl, h⟩

end Statement

/-- Whatever a program has begun with and asked for, no number was handed out twice, and the next one
is another again. Unless that very number was in the directory from the start, or was named since to
begin a statement or to make a unit, it is neither live nor closing, and an OPEN of a new unit begins
on a unit that is made for it and that is not connected. -/
theorem Request.new_units_fresh (a : Activity) (requests : List Request) :
    let handed := (runAll requests a).1
    let p := (runAll requests a).2.program
    handed.Nodup ∧ p.newUnit.1 ∉ handed ∧
      (p.newUnit.1 ∉ a.program.directory.numbered.map (·.number) →
        p.newUnit.1 ∉ requests.flatMap names →
        p.lookUp? p.newUnit.1 = none ∧ p.directory.isClosing p.newUnit.1 = false ∧
        ∀ source, Completes (Statement.beginOpenNew source) p fun out q => out.1 = p.newUnit.1 ∧
          ∃ st s, out.2 = some st ∧ st.session? q = some s ∧ p.unit? st.unit = none ∧
            s.unit = { ExternalUnit.new p.newUnit.1 p.readChunk with
              held := true, statement := .connect }) := by
  intro handed p
  have hstart : a.program.directory.Reserves
      (a.program.directory.numbered.map (·.number) ++ requests.flatMap names)
      a.program.directory.nextNewUnit :=
    ⟨le_rfl, fun e he => .inl (List.mem_append_left _ (List.mem_map.mpr ⟨e, he, rfl⟩))⟩
  have hnamed : ∀ r ∈ requests,
      r.names ⊆ a.program.directory.numbered.map (·.number) ++ requests.flatMap names :=
    fun r hr n hn => List.mem_append_right _ (List.mem_flatMap.mpr ⟨r, hr, hn⟩)
  obtain ⟨hpairwise, hhanded, hend⟩ := runAll_reserves hnamed hstart
  refine ⟨hpairwise.imp fun hlt => hlt.ne', fun hmem => ?_, fun hinitial hrequests => ?_⟩
  · exact absurd (hhanded _ hmem).2 (lt_irrefl _)
  · obtain ⟨hfind, hclosing⟩ := hend.free (n := p.newUnit.1)
      (List.mem_append.not.mpr (not_or.mpr ⟨hinitial, hrequests⟩)) le_rfl
    have hlive : p.lookUp? p.newUnit.1 = none := by
      rw [Program.lookUp?]
      exact Option.map_eq_none_iff.mpr hfind
    exact ⟨hlive, hclosing, Statement.beginOpenNew_completes hlive hclosing⟩

/-- Behind two numbers that have been handed out, and a statement on a number above them. -/
theorem Request.new_units_fresh_third :
    let requests : List Request := [.call (.beginNew {}), .call (.begin_ 7 .connect {}),
      .operation .newUnit]
    let p := (runAll requests { program := .new {} {} }).2.program
    (runAll requests { program := .new {} {} }).1 = [-1000, -1001] ∧ p.newUnit.1 = -1002 ∧
      p.lookUp? (-1002) = none ∧
      Completes (Statement.beginOpenNew {}) p fun out q => out.1 = -1002 ∧
        ∃ st s, out.2 = some st ∧ st.session? q = some s ∧ p.unit? st.unit = none ∧
          s.unit.isOpen = false := by
  intro requests p
  obtain ⟨-, -, hfree⟩ := new_units_fresh { program := .new {} {} } requests
  obtain ⟨hlive, -, hbegin⟩ := hfree (by decide) (by decide)
  refine ⟨rfl, rfl, hlive, (hbegin {}).mono ?_ fun _ _ => id⟩
  rintro out q ⟨hnumber, st, s, hst, hs, hmade, hunit⟩
  exact ⟨hnumber, st, s, hst, hs, hmade, by rw [hunit]; rfl⟩

/-- A statement names a number that is still to be handed out. The number then comes with the unit of
that statement. -/
theorem Request.new_unit_collides :
    let p := (runAll [.call (.begin_ (-1000) .connect {}), .call (.finish 0)]
      { program := .new {} {} }).2.program
    p.newUnit.1 = -1000 ∧ p.lookUp? (-1000) = some 0 ∧
      Completes (Statement.beginOpenNew {}) p fun out _ =>
        out.1 = -1000 ∧ out.2.map (·.unit) = some 0 ∧ (p.unit? 0).isSome = true := by
  refine ⟨rfl, rfl, ?_⟩
  exact ⟨rfl, rfl, rfl⟩

end DataTransfer
