import DataTransfer.Proofs.Program.Consistency

/-!
Whatever a program does, a unit without a file has kept no more than the name of the last file that it
was tried to be connected to. The proof is an induction over the calls of the program: each call
preserves the invariant.
-/

namespace DataTransfer

namespace Activity

variable {a : Activity}

namespace Consistent

/-! ### What calls do to the program -/

theorem begin_ (h : a.Consistent) (n : ℤ) (kind : StatementKind) (source : SourceLine) :
    Ends (Statement.begin_ n kind source) a.program
      (fun st q => ({ a with program := q, statements := a.statements ++ [st] }.attempting
        ((Call.begin_ n kind source).attempt? a)).Consistent) fun _ _ => True := by
  obtain ⟨hconsistent, hid⟩ := h.lookUpOrCreate n
  refine (ends_get _).mpr ?_
  simp only [Call.attempt?]
  generalize a.program.lookUpOrCreate n = result at hconsistent hid ⊢
  obtain ⟨found, p⟩ := result
  have hnot : false = true → ∀ id, ∀ e ∈ p.directory.live, e.id ≠ id := nofun
  cases found with
  | live id => exact hconsistent.beginOn id false (hid id rfl) (hnot · id) kind source
  | created id => exact hconsistent.beginOn id false (hid id rfl) (hnot · id) kind source
  | waiting => exact hconsistent.withStatements fun st hst => .inl (by simpa using hst)

theorem beginOpenNew (h : a.Consistent) (source : SourceLine) :
    Ends (Statement.beginOpenNew source) a.program
      (fun begun q => { a with program := q, statements := a.statements ++ [begun.2] }.Consistent)
      fun _ _ => True := by
  have hnumber : { a with program := a.program.newUnit.2 }.Consistent :=
    h.shrink a.program.directory.newUnit.2 (List.Subperm.refl _)
  refine (ends_get _).mpr ((ends_set_bind _ _).mpr ?_)
  refine Ends.bind (hnumber.begin_ a.program.newUnit.1 .connect source) ?_
  intro st q hq
  have hattempt : (Call.begin_ a.program.newUnit.1 .connect source).attempt?
      { a with program := a.program.newUnit.2 } = none := by
    have hnone {p : Program} {id : ℕ} : p.beginAttempt? id .connect = none :=
      Program.beginAttempt?_eq_none fun _ => rfl
    simp [Call.attempt?, hnone]
  rw [hattempt] at hq
  exact hq

theorem beginClose (h : a.Consistent) (n : ℤ) (source : SourceLine) :
    Ends (Statement.beginClose n source) a.program
      (fun st q => { a with program := q, statements := a.statements ++ [st] }.Consistent)
      fun _ _ => True := by
  have hattempt {p : Program} {id : ℕ} : p.beginAttempt? id .disconnect = none :=
    Program.beginAttempt?_eq_none fun _ => rfl
  refine (ends_get _).mpr ?_
  unfold Program.takeForClose
  cases htake : a.program.directory.takeForClose n with
  | none =>
    refine (ends_set_bind _ _).mpr ?_
    have hbegin := (h.addUnit (.new n 256)).beginOn a.program.units.length true
      (by simp [Program.addUnit]) (fun _ e he => (h.created e he).ne) .disconnect source
    rw [hattempt] at hbegin
    exact hbegin
  | some taken =>
    obtain ⟨e, directory⟩ := taken
    obtain ⟨hperm, hfind⟩ := Directory.live_takeForClose htake
    refine (ends_set_bind _ _).mpr ?_
    -- The unit leaves the directory first, so that nothing is claimed of it any more.
    have hsub : directory.live.Subperm a.program.directory.live :=
      (List.sublist_cons_self e _).subperm.trans hperm.symm.subperm
    have hbegin := (h.shrink directory hsub).beginOn e.id true ?_ ?_ .disconnect source
    · rw [hattempt] at hbegin
      exact hbegin
    · exact h.created e (Directory.live_of_find? hfind)
    · intro _ e' he' heq
      -- No two entries lead to one unit, so none that is left leads to this one.
      have hdistinct := (hperm.map (·.id)).nodup_iff.mp h.distinct
      rw [List.map_cons, List.nodup_cons] at hdistinct
      exact hdistinct.1 (List.mem_map.mpr ⟨e', he', heq⟩)

theorem finish (h : a.Consistent) {st : Statement} (hst : some st ∈ a.statements) :
    Ends st.finish a.program (fun _ q => { a with program := q }.Consistent) fun _ _ => True := by
  unfold Statement.finish
  refine Ends.bind (h.run st none ?_) ?_
  · intro hlive s hs hleft
    -- Only a CLOSE changes the attachment here, and its unit is out of the directory.
    cases hclosing : st.closing with
    | true =>
      obtain ⟨e, he, heq⟩ := hlive
      exact absurd heq ((h.begun st hst).2 hclosing e he)
    | false =>
      refine (Session.finish_preserves (Channel.stable_attachment s.unit.attachment) s rfl).success.mono
        ?_ fun _ _ => id
      intro _ t ht
      rw [show t.unit.attachment = _ from ht]
      exact hleft
  · rintro ⟨status, st'⟩ q ⟨hq, hdiffers, -⟩
    dsimp only
    split_ifs
    · exact hq.shrink (q.directory.destroyClosed st.unit) (List.Subperm.refl _)
    · exact hq

theorem drop (h : a.Consistent) (st : Statement) :
    Ends st.drop a.program (fun _ q => { a with program := q }.Consistent) fun _ _ => True := by
  refine (ends_modify _).mpr ?_
  cases hunit : a.program.unit? st.unit with
  | none => exact h
  | some u =>
    have hid : st.unit < a.program.units.length := (List.getElem?_eq_some_iff.mp hunit).1
    refine h.change hid (Program.differsAt_setUnit a.program.system) none ?_
    rintro ⟨e, he, heq⟩ v hv
    have hself := Program.unit?_setUnit_self (p := a.program) (u := Session.release u) hid
    cases hself.symm.trans hv
    rw [← heq] at hunit ⊢
    exact h.left e he u hunit

theorem closeAll (h : a.Consistent) :
    Ends Program.closeAll a.program (fun _ q => { a with program := q }.Consistent) fun _ _ => True := by
  -- Whatever closing does to the units, none of them is in the directory any more.
  have hclose : Preserves (fun q : Program => q.directory.live = [] ∧
      q.units.length = a.program.units.length) (do
        for e in a.program.directory.takeAll.1 do
          discard (Program.onUnit e.id {} 0 Program.closeKeeping)) := by
    refine .bind (.forIn (fun e => ?_) _) fun _ => .pure _
    exact (Program.onUnit_preserves (P := fun d n => d.live = [] ∧ n = a.program.units.length)
      _ _ _).discard.bind fun _ => .pure _
  refine (ends_get _).mpr ((ends_set_bind _ _).mpr ?_)
  refine (hclose { a.program with directory := a.program.directory.takeAll.2 }
    ⟨Directory.live_takeAll _, rfl⟩).success.mono ?_ fun _ _ => id
  rintro _ q ⟨hlive, hlength⟩
  refine ⟨?_, ?_, ?_, ?_, ?_⟩
  · simp [hlive]
  · simp [hlive]
  · intro st hst
    refine ⟨?_, fun _ e he => ?_⟩
    · change st.unit < q.units.length
      rw [hlength]
      exact (h.begun st hst).1
    · simp [hlive] at he
  · change ∀ x ∈ a.attempts, x.1 < q.units.length
    rw [hlength]
    exact h.attempted
  · simp [hlive]

end Consistent

/-! ### Calls -/

section

variable {Q : Activity → Prop}

theorem start_ends {act : Act Program (Option Statement)}
    (h : Ends act a.program
      (fun st q => Q { a with program := q, statements := a.statements ++ [st] }) fun _ _ => True) :
    Ends (start act) a (fun _ b => Q b) fun _ _ => True :=
  Ends.bind (P := fun st b => Q { b with statements := b.statements ++ [st] })
    (onProgram_ends (R := fun _ _ => True) h) fun _ _ hb => (ends_modify _).mpr hb

theorem go_ends {k : ℕ} {act : Statement → Act Program (Option Statement)}
    (hidle : (a.statements[k]?).join = none → Q a)
    (h : ∀ st, a.statements[k]? = some (some st) → Ends (act st) a.program
      (fun st' q => Q { a with program := q, statements := a.statements.set k st' }) fun _ _ => True) :
    Ends (go k act) a (fun _ b => Q b) fun _ _ => True := by
  refine (ends_get _).mpr ?_
  rcases hst : a.statements[k]? with _ | _ | st
  · exact hidle (by rw [hst]; rfl)
  · exact hidle (by rw [hst]; rfl)
  · exact Ends.bind (P := fun st' b => Q { b with statements := b.statements.set k st' })
      (onProgram_ends (R := fun _ _ => True) (h st hst)) fun _ _ hb => (ends_modify _).mpr hb

end

namespace Consistent

theorem set (h : a.Consistent) {k : ℕ} {st : Statement} (hst : a.statements[k]? = some (some st))
    {st' : Option Statement}
    (hsame : ∀ x, st' = some x → x.unit = st.unit ∧ x.closing = st.closing) :
    { a with statements := a.statements.set k st' }.Consistent := by
  refine h.withStatements fun x hx => ?_
  rcases List.mem_or_eq_of_mem_set hx with hx | hx
  · exact .inl hx
  · right
    obtain ⟨hunit, hclosing⟩ := hsame x hx.symm
    rw [hunit, hclosing]
    exact h.begun st (List.mem_of_getElem? hst)

theorem perform (h : a.Consistent) (call : Call) :
    Ends call.perform a (fun _ b => b.Consistent) fun _ _ => True := by
  have hact : Ends call.act a (fun _ b => (b.attempting (call.attempt? a)).Consistent)
      fun _ _ => True := by
    cases call with
    | begin_ n kind source => exact start_ends (h.begin_ n kind source)
    | beginNew source =>
      exact start_ends (Ends.bind (h.beginOpenNew source) fun _ _ hq => hq)
    | beginClose n source => exact start_ends (h.beginClose n source)
    | item k given =>
      refine go_ends (fun hidle => ?_) fun st hst => ?_
      · have hnone : (Call.item k given).attempt? a = none := by simp [Call.attempt?, hidle]
        rw [hnone]
        exact h
      · have hattempt : (Call.item k given).attempt? a =
            ((a.program.unit? st.unit).bind given.attempt?).map (st.unit, ·) := by
          cases hunit : a.program.unit? st.unit <;> simp [Call.attempt?, hst, hunit]
        rw [hattempt]
        refine Ends.bind (h.run st ((a.program.unit? st.unit).bind given.attempt?) ?_) ?_
        · intro hlive s hs hleft
          rw [hs]
          exact given.perform_leaves hleft
        · rintro ⟨_, st'⟩ q ⟨hq, -, hunit, hclosing⟩
          refine hq.set hst fun x hx => ?_
          cases hx
          exact ⟨hunit, hclosing⟩
    | closeStatus k status =>
      refine go_ends (fun _ => h) fun st hst => h.set hst fun st' hst' => ?_
      cases hst'
      exact ⟨rfl, rfl⟩
    | finish k =>
      refine go_ends (fun _ => h) fun st hst => ?_
      refine (h.finish (List.mem_of_getElem? hst)).discard.bind fun _ q hq => ?_
      obtain ⟨-, hq⟩ := hq
      exact hq.set hst fun st' hst' => by cases hst'
    | drop k =>
      refine go_ends (fun _ => h) fun st hst => ?_
      refine (h.drop st).bind fun _ q hq => ?_
      exact hq.set hst fun st' hst' => by cases hst'
    | closeAll => exact onProgram_ends h.closeAll
  exact (ends_get _).mpr (hact.bind fun _ _ hb => hb)

theorem run_calls (h : a.Consistent) (calls : List Call) :
    Ends (Activity.run calls) a (fun _ b => b.Consistent) fun _ _ => True := by
  -- By induction over the calls; the invariant is all that one call tells the next.
  induction calls generalizing a with
  | nil => exact h
  | cons call calls ih => exact (h.perform call).bind fun _ b hb => ih hb

theorem new (config : Config) (system : System) :
    ({ program := .new config system } : Activity).Consistent := by
  have hlive : (Directory.empty config.buckets config.newUnitBase).live = [] := by
    simp [Directory.empty, Directory.live]
  constructor <;> simp [Program.new, hlive]

theorem predefine (h : a.Consistent) (n descriptor : ℤ) (utf8 : Bool) :
    { a with program := a.program.predefine n descriptor utf8 }.Consistent := by
  obtain ⟨hconsistent, hid⟩ := h.lookUpOrCreate n
  unfold Program.predefine
  generalize a.program.lookUpOrCreate n = result at hconsistent hid ⊢
  obtain ⟨found, p⟩ := result
  have hconnect (id : ℕ) (hfound : found.id? = some id) (u : ExternalUnit) :
      { a with program := p.setUnit id (u.predefine descriptor utf8) }.Consistent := by
    refine hconsistent.change (hid id hfound) (Program.differsAt_setUnit p.system) none ?_
    intro _ v hv
    have hself := Program.unit?_setUnit_self (p := p) (u := u.predefine descriptor utf8)
      (hid id hfound)
    cases hself.symm.trans hv
    exact Attachment.left_of_isOpen rfl _
  cases found with
  | live id =>
    dsimp only
    cases p.unit? id with
    | none => exact hconsistent
    | some u => exact hconnect id rfl u
  | created id =>
    dsimp only
    cases p.unit? id with
    | none => exact hconsistent
    | some u => exact hconnect id rfl u
  | waiting => exact hconsistent

theorem withStandardUnits (config : Config) (system : System) :
    ({ program := .withStandardUnits config system } : Activity).Consistent :=
  (((new config system).predefine _ _ _).predefine _ _ _).predefine _ _ _

end Consistent

end Activity

end DataTransfer
