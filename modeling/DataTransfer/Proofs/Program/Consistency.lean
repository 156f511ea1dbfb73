import DataTransfer.Proofs.Directory
import DataTransfer.Proofs.Program.Activity
import DataTransfer.Proofs.Program.Units

/-!
An invariant of what a program does with its units: it tells units in the directory from units that are
being closed, and says of the former what attempts to connect them have left. Each step of a program
changes one unit, the directory or the statements, and preserves it.
-/

namespace DataTransfer

namespace Program

variable {p : Program} {id : ℕ}

/-- Only data transfers connect their unit when they are begun. -/
theorem beginAttempt?_eq_none {kind : StatementKind}
    (hkind : ∀ modes, (StatementState.begin_ kind modes).isTransfer = false) :
    p.beginAttempt? id kind = none := by
  unfold beginAttempt?
  cases p.unit? id with
  | none => rfl
  | some u => simp [ExternalUnit.beginAttempt?, hkind]

end Program

namespace Activity

/-- The invariant. Units have been created before they are found, used or named; the unit of a statement
that closes it is out of the directory, so that nothing reaches it any more; and a unit in the directory
without a file has no more than a name. -/
structure Consistent (a : Activity) : Prop where
  distinct : (a.program.directory.live.map (·.id)).Nodup
  created : ∀ e ∈ a.program.directory.live, e.id < a.program.units.length
  begun : ∀ st, some st ∈ a.statements → st.unit < a.program.units.length ∧
    (st.closing = true → ∀ e ∈ a.program.directory.live, e.id ≠ st.unit)
  attempted : ∀ x ∈ a.attempts, x.1 < a.program.units.length
  left : ∀ e ∈ a.program.directory.live, ∀ u, a.program.unit? e.id = some u →
    u.attachment.Left (a.lastName e.id)

variable {a : Activity} {id : ℕ}

theorem Consistent.lastName_eq_none (h : Consistent a) (hid : a.program.units.length ≤ id) :
    a.lastName id = none := by
  have hlookup : a.attempts.lookup id = none := by
    rw [List.lookup_eq_none_iff]
    intro x hx
    have hlt := h.attempted x hx
    exact bne_iff_ne.mpr (by omega)
  rw [lastName, hlookup]
  rfl

def attempting (a : Activity) (attempt : Option (ℕ × Option String)) : Activity :=
  { a with attempts := attempt.toList ++ a.attempts }

theorem lastName_attempting (a : Activity) (name : Option (Option String)) :
    (a.attempting (name.map (id, ·))).lastName id = name.getD (a.lastName id) := by
  cases name <;> simp [attempting, lastName]

theorem lastName_attempting_ne (name : Option (Option String)) {j : ℕ} (h : j ≠ id) :
    (a.attempting (name.map (id, ·))).lastName j = a.lastName j := by
  cases name with
  | none => rfl
  | some name => simp [attempting, lastName, List.lookup_cons, beq_eq_false_iff_ne.mpr h]

namespace Consistent

/-! ### Steps of a program -/

theorem change (h : a.Consistent) (hid : id < a.program.units.length) {q : Program}
    (hq : a.program.DiffersAt q id) (name : Option (Option String))
    (hleft : (∃ e ∈ a.program.directory.live, e.id = id) → ∀ v, q.unit? id = some v →
      v.attachment.Left (name.getD (a.lastName id))) :
    ({ a with program := q }.attempting (name.map (id, ·))).Consistent where
  distinct := by
    change (q.directory.live.map (·.id)).Nodup
    rw [hq.directory_eq]
    exact h.distinct
  created := by
    change ∀ e ∈ q.directory.live, e.id < q.units.length
    rw [hq.directory_eq, hq.length_eq]
    exact h.created
  begun := by
    change ∀ st, some st ∈ a.statements → st.unit < q.units.length ∧
      (st.closing = true → ∀ e ∈ q.directory.live, e.id ≠ st.unit)
    rw [hq.directory_eq, hq.length_eq]
    exact h.begun
  attempted := by
    change ∀ x ∈ (name.map (id, ·)).toList ++ a.attempts, x.1 < q.units.length
    rw [hq.length_eq]
    intro x hx
    rcases List.mem_append.mp hx with hx | hx
    · cases name <;> simp_all
    · exact h.attempted x hx
  left := by
    change ∀ e ∈ q.directory.live, ∀ u, q.unit? e.id = some u → u.attachment.Left
      ((a.attempting (name.map (id, ·))).lastName e.id)
    rw [hq.directory_eq]
    intro e he u hu
    by_cases heq : e.id = id
    · subst heq
      rw [lastName_attempting]
      exact hleft ⟨e, he, rfl⟩ u hu
    · rw [lastName_attempting_ne name heq]
      rw [hq.unit_eq _ heq] at hu
      exact h.left e he u hu

theorem shrink (h : a.Consistent) (directory : Directory)
    (hlive : directory.live.Subperm a.program.directory.live) :
    { a with program := { a.program with directory } }.Consistent where
  distinct := by
    obtain ⟨l, hperm, hsub⟩ := hlive
    exact (hperm.map _).nodup_iff.mp ((hsub.map _).nodup h.distinct)
  created e he := h.created e (hlive.subset he)
  begun st hst := ⟨(h.begun st hst).1, fun hclosing e he =>
    (h.begun st hst).2 hclosing e (hlive.subset he)⟩
  attempted := h.attempted
  left e he := h.left e (hlive.subset he)

theorem addUnit (h : a.Consistent) (u : ExternalUnit) :
    { a with program := (a.program.addUnit u).2 }.Consistent where
  distinct := h.distinct
  created e he := by
    have hlt := h.created e he
    simp [Program.addUnit]
    omega
  begun st hst := by
    refine ⟨?_, (h.begun st hst).2⟩
    have hlt := (h.begun st hst).1
    simp [Program.addUnit]
    omega
  attempted x hx := by
    have hlt := h.attempted x hx
    simp [Program.addUnit]
    omega
  left e he v hv := by
    refine h.left e he v ?_
    have hlt := h.created e he
    simpa [Program.addUnit, Program.unit?, List.getElem?_append_left hlt] using hv

theorem create (h : a.Consistent) (n : ℤ) :
    { a with program := { (a.program.addUnit (.new n a.program.readChunk)).2 with
      directory := a.program.directory.insert
        { number := n, id := a.program.units.length } } }.Consistent := by
  have hadd := h.addUnit (.new n a.program.readChunk)
  have hmem {e : Entry} (he : e ∈ (a.program.directory.insert
      { number := n, id := a.program.units.length }).live) :
      e.id = a.program.units.length ∨ e ∈ a.program.directory.live := by
    rcases List.mem_cons.mp ((Directory.live_insert _ _).subset he) with rfl | he
    · exact .inl rfl
    · exact .inr he
  have hlength : (a.program.addUnit (.new n a.program.readChunk)).2.units.length =
      a.program.units.length + 1 := by
    simp [Program.addUnit]
  refine ⟨?_, ?_, ?_, hadd.attempted, ?_⟩
  · obtain ⟨l, hperm, hsub⟩ := Directory.live_insert a.program.directory
      { number := n, id := a.program.units.length }
    refine (hperm.map _).nodup_iff.mp ((hsub.map _).nodup ?_)
    rw [List.map_cons, List.nodup_cons]
    -- All ids in the directory are below the number of units, which is the new one.
    refine ⟨fun hin => ?_, h.distinct⟩
    obtain ⟨e, he, heq⟩ := List.mem_map.mp hin
    have hlt := h.created e he
    change e.id = a.program.units.length at heq
    omega
  · intro e he
    rcases hmem he with heq | he
    · change e.id < (a.program.addUnit (.new n a.program.readChunk)).2.units.length
      omega
    · exact hadd.created e he
  · intro st hst
    refine ⟨(hadd.begun st hst).1, fun hclosing e he => ?_⟩
    rcases hmem he with heq | he
    · have hlt := (h.begun st hst).1
      omega
    · exact (h.begun st hst).2 hclosing e he
  · intro e he u hu
    rcases hmem he with heq | he
    · change u.attachment.Left (a.lastName e.id)
      rw [h.lastName_eq_none heq.ge]
      have hnew : u = .new n a.program.readChunk := by
        simpa [Program.addUnit, Program.unit?, heq] using hu.symm
      rw [hnew]
      exact fun _ => ⟨rfl, rfl⟩
    · exact hadd.left e he u hu

theorem withStatements (h : a.Consistent) {statements : List (Option Statement)}
    (hstatements : ∀ st, some st ∈ statements → some st ∈ a.statements ∨
      st.unit < a.program.units.length ∧
        (st.closing = true → ∀ e ∈ a.program.directory.live, e.id ≠ st.unit)) :
    { a with statements }.Consistent where
  distinct := h.distinct
  created := h.created
  begun st hst := (hstatements st hst).elim (h.begun st) id
  attempted := h.attempted
  left := h.left

theorem lookUpOrCreate (h : a.Consistent) (n : ℤ) :
    { a with program := (a.program.lookUpOrCreate n).2 }.Consistent ∧
      ∀ id, (a.program.lookUpOrCreate n).1.id? = some id →
        id < (a.program.lookUpOrCreate n).2.units.length := by
  unfold Program.lookUpOrCreate
  cases hfound : a.program.lookUp? n with
  | some id =>
    refine ⟨h, fun j hj => ?_⟩
    cases hj
    obtain ⟨e, he, rfl⟩ := Option.map_eq_some_iff.mp hfound
    exact h.created e (Directory.live_of_find? he)
  | none =>
    dsimp only
    split_ifs
    · exact ⟨h, nofun⟩
    · refine ⟨h.create n, fun j hj => ?_⟩
      cases hj
      simp [Program.addUnit]

theorem run (h : a.Consistent) {α : Type} (st : Statement) {act : Act Session α}
    (name : Option (Option String))
    (hact : (∃ e ∈ a.program.directory.live, e.id = st.unit) → ∀ s : Session,
      a.program.unit? st.unit = some s.unit → s.unit.attachment.Left (a.lastName st.unit) →
      Ends act s (fun _ t => t.unit.attachment.Left (name.getD (a.lastName st.unit))) fun _ _ => True) :
    Ends (st.run act) a.program
      (fun out q => ({ a with program := q }.attempting (name.map (st.unit, ·))).Consistent ∧
        a.program.DiffersAt q st.unit ∧ out.2.unit = st.unit ∧ out.2.closing = st.closing)
      fun _ _ => True := by
  unfold Statement.run
  refine Ends.bind (P := fun _ q => ({ a with program := q }.attempting
    (name.map (st.unit, ·))).Consistent ∧ a.program.DiffersAt q st.unit) (Program.onUnit_ends ?_) ?_
  · intro u hunit
    have hid : st.unit < a.program.units.length := (List.getElem?_eq_some_iff.mp hunit).1
    have hends : Ends act
        { system := a.program.system, unit := u, handler := st.handler, items := st.items }
        (fun _ t => (∃ e ∈ a.program.directory.live, e.id = st.unit) →
          t.unit.attachment.Left (name.getD (a.lastName st.unit))) fun _ _ => True := by
      -- A unit that is being closed is out of the directory: what it keeps does not matter.
      by_cases hlive : ∃ e ∈ a.program.directory.live, e.id = st.unit
      · obtain ⟨e, he, heq⟩ := id hlive
        refine (hact hlive _ hunit ?_).mono (fun _ _ ht _ => ht) fun _ _ => id
        rw [← heq]
        exact h.left e he u (by rw [heq]; exact hunit)
      · exact (Ends.trivial act _).mono (fun _ _ _ hin => absurd hin hlive) fun _ _ => id
    refine hends.mono ?_ fun _ _ => id
    intro _ t ht
    have hq : a.program.DiffersAt ({ a.program with system := t.system }.setUnit st.unit t.unit)
        st.unit := Program.differsAt_setUnit t.system
    refine ⟨h.change hid hq name fun hlive v hv => ?_, hq⟩
    have hself := Program.unit?_setUnit_self (p := { a.program with system := t.system })
      (u := t.unit) hid
    cases hself.symm.trans hv
    exact ht hlive
  · rintro ⟨x, handler, items⟩ q ⟨hq, hdiffers⟩
    exact ⟨hq, hdiffers, rfl, rfl⟩

theorem beginOn (h : a.Consistent) (id : ℕ) (closing : Bool) (hid : id < a.program.units.length)
    (hclosing : closing = true → ∀ e ∈ a.program.directory.live, e.id ≠ id) (kind : StatementKind)
    (source : SourceLine) :
    Ends (Statement.beginOn id closing kind source) a.program
      (fun st q => ({ a with program := q, statements := a.statements ++ [st] }.attempting
        ((a.program.beginAttempt? id kind).map (id, ·))).Consistent) fun _ _ => True := by
  have hwaiting : { a with statements := a.statements ++ [none] }.Consistent :=
    h.withStatements fun st hst => .inl (by simpa using hst)
  refine (ends_get _).mpr ?_
  unfold Program.beginAttempt?
  cases hunit : a.program.unit? id with
  | none => exact hwaiting
  | some u =>
    dsimp only
    -- A statement that has to wait makes no attempt; `beginAttempt?` looks at the same flag.
    by_cases hheld : u.held = true
    · simp only [hheld, if_true, Option.bind_eq_bind, Option.bind_some]
      exact hwaiting
    · simp only [hheld, Option.bind_eq_bind, Option.bind_some]
      refine Ends.bind (h.run { unit := id, closing } (u.beginAttempt? kind) ?_) ?_
      · intro hlive s hs hleft
        cases hunit.symm.trans hs
        exact Session.begin_leaves kind source hleft
      · rintro ⟨_, st⟩ q ⟨hq, hdiffers, hunit', hclosing'⟩
        refine hq.withStatements fun st' hst' => ?_
        rcases List.mem_append.mp hst' with hst' | hst'
        · exact .inl hst'
        · right
          rw [List.mem_singleton, Option.some.injEq] at hst'
          subst hst'
          change st'.unit = id at hunit'
          change st'.closing = closing at hclosing'
          refine ⟨?_, ?_⟩
          · change st'.unit < q.units.length
            rw [hunit', hdiffers.length_eq]
            exact hid
          · change st'.closing = true → ∀ e ∈ q.directory.live, e.id ≠ st'.unit
            rw [hunit', hclosing', hdiffers.directory_eq]
            exact hclosing

end Consistent

end Activity

end DataTransfer
