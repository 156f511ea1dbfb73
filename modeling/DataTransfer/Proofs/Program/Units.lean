import Mathlib.Data.Int.Notation
import Mathlib.Data.Nat.Notation
import DataTransfer.Proofs.Preservation
import DataTransfer.Statement

/-!
Statements of a program and the sessions that they are on their units. A statement changes its own unit
and the system, and nothing else.
-/

namespace DataTransfer

namespace Program

variable {p q : Program} {id : ℕ} {u : ExternalUnit}

@[simp] theorem setUnit_directory : (p.setUnit id u).directory = p.directory := rfl

@[simp] theorem setUnit_system : (p.setUnit id u).system = p.system := rfl

@[simp] theorem setUnit_length : (p.setUnit id u).units.length = p.units.length := by
  simp [setUnit]

theorem unit?_setUnit_self (h : id < p.units.length) : (p.setUnit id u).unit? id = some u := by
  simp [setUnit, unit?, h]

theorem unit?_setUnit_ne {j : ℕ} (h : j ≠ id) : (p.setUnit id u).unit? j = p.unit? j := by
  simp [setUnit, unit?, List.getElem?_set_ne h.symm]

/-- Of the units only one has changed, and the directory not at all. -/
structure DiffersAt (p q : Program) (id : ℕ) : Prop where
  directory_eq : q.directory = p.directory
  length_eq : q.units.length = p.units.length
  unit_eq : ∀ j, j ≠ id → q.unit? j = p.unit? j

theorem differsAt_setUnit (system : System) :
    p.DiffersAt ({ p with system }.setUnit id u) id where
  directory_eq := rfl
  length_eq := setUnit_length
  unit_eq _ h := unit?_setUnit_ne h

theorem DiffersAt.trans {r : Program} (h : p.DiffersAt q id) (h' : q.DiffersAt r id) :
    p.DiffersAt r id where
  directory_eq := h'.directory_eq.trans h.directory_eq
  length_eq := h'.length_eq.trans h.length_eq
  unit_eq j hj := (h'.unit_eq j hj).trans (h.unit_eq j hj)

theorem DiffersAt.lookUp?_eq (h : p.DiffersAt q id) (n : ℤ) : q.lookUp? n = p.lookUp? n := by
  rw [lookUp?, lookUp?, h.directory_eq]

theorem onUnit_ends {α : Type} {handler : Handler} {items : ℕ} {act : Act Session α}
    {Q : α × Handler × ℕ → Program → Prop}
    (h : ∀ u, p.unit? id = some u → Ends act { system := p.system, unit := u, handler, items }
      (fun a s => Q (a, s.handler, s.items) ({ p with system := s.system }.setUnit id s.unit))
      fun _ _ => True) :
    Ends (onUnit id handler items act) p Q fun _ _ => True := by
  unfold Ends onUnit
  cases hunit : p.unit? id with
  | none => trivial
  | some u =>
    have hact := h u hunit
    unfold Ends at hact
    dsimp only
    cases hrun : act { system := p.system, unit := u, handler, items } with
    | ok a s =>
      rw [hrun] at hact
      exact hact
    | error c s => trivial

theorem onUnit_preserves {α : Type} {P : Directory → ℕ → Prop} (handler : Handler) (items : ℕ)
    (act : Act Session α) :
    Preserves (fun p : Program => P p.directory p.units.length) (onUnit id handler items act) := by
  intro p hp
  unfold Ends onUnit
  cases p.unit? id with
  | none => exact hp
  | some u =>
    dsimp only
    cases act { system := p.system, unit := u, handler, items } with
    | ok x s =>
      change P p.directory (setUnit { p with system := s.system } id s.unit).units.length
      rw [setUnit_length]
      exact hp
    | error c s =>
      change P p.directory (setUnit { p with system := s.system } id s.unit).units.length
      rw [setUnit_length]
      exact hp

end Program

namespace Statement

def session? (st : Statement) (p : Program) : Option Session :=
  (p.unit? st.unit).map fun unit =>
    { system := p.system, unit, handler := st.handler, items := st.items }

theorem unit_of_session? {st : Statement} {p : Program} {s : Session} (h : st.session? p = some s) :
    p.unit? st.unit = some s.unit ∧ p.system = s.system := by
  obtain ⟨u, hunit, rfl⟩ := Option.map_eq_some_iff.mp h
  exact ⟨hunit, rfl⟩

theorem run_completes {α : Type} (st : Statement) {p : Program} {s : Session} {act : Act Session α}
    {Q : α → Session → Prop} (hs : st.session? p = some s) (h : Completes act s Q) :
    Completes (st.run act) p fun out q => ∃ t, Q out.1 t ∧ out.2.session? q = some t ∧
      out.2 = { st with handler := t.handler, items := t.items } ∧ p.DiffersAt q st.unit := by
  obtain ⟨u, hunit, rfl⟩ := Option.map_eq_some_iff.mp hs
  obtain ⟨a, t, hact, hQ⟩ := h.exists_run
  have hid : st.unit < p.units.length := (List.getElem?_eq_some_iff.mp hunit).1
  have hself := Program.unit?_setUnit_self (p := { p with system := t.system }) (u := t.unit) hid
  have hrun : Program.onUnit st.unit st.handler st.items act p =
      .ok (a, t.handler, t.items) ({ p with system := t.system }.setUnit st.unit t.unit) := by
    simp only [Program.onUnit, hunit, hact]
  refine (Completes.of_run hrun).bind ?_
  rintro _ _ ⟨rfl, rfl⟩
  exact ⟨t, hQ, by simp [session?, hself], rfl, Program.differsAt_setUnit t.system⟩

theorem beginOn_completes {p : Program} {id : ℕ} {closing : Bool} {kind : StatementKind}
    {source : SourceLine} {u : ExternalUnit} {Q : Session → Prop} (hunit : p.unit? id = some u)
    (hfree : u.held = false)
    (h : Completes (Session.begin_ kind source) { system := p.system, unit := u } fun _ t => Q t) :
    Completes (beginOn id closing kind source) p fun out q => ∃ st t, out = some st ∧ Q t ∧
      st.session? q = some t ∧ st.unit = id ∧ st.closing = closing ∧ p.DiffersAt q id := by
  unfold beginOn
  simp only [ends_get, hunit, hfree]
  refine (run_completes { unit := id, closing } (by simp [session?, hunit]) h).bind ?_
  rintro ⟨_, st⟩ q ⟨t, hQ, hsession, rfl, hq⟩
  exact ⟨_, t, rfl, hQ, hsession, rfl, rfl, hq⟩

end Statement

end DataTransfer
