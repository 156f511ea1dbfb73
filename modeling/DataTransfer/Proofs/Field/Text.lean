import DataTransfer.Field.Recognizer
import DataTransfer.Proofs.Outcome
import Mathlib.Data.Nat.Notation

/-!
The text of a field, apart from what recognises it. A recognizer that stops early only with a fault
has looked at the whole text when it accepts.
-/

namespace DataTransfer

variable {σ : Type} [FieldSource σ]

namespace Field

/-- The characters of the field at the cursor, without the blanks before a list-directed one. -/
def takeText (edit : DataEdit) : Attempt σ (List Char × Option ℕ) := do
  if edit.budget.isNone then (skipBlanks : Act σ _)
  takeField edit.budget edit.modes

def text (edit : DataEdit) (s : σ) : List Char :=
  match takeText edit s with
  | .ok (.ok (cs, _)) _ => cs
  | _ => []

end Field

namespace Recognizer

variable {τ α : Type} {r : Recognizer τ (Except Fault α)}

/-- The recognizer stops before the end of a field only with a fault. -/
def ReadsOn (r : Recognizer τ (Except Fault α)) : Prop :=
  ∀ state ch result, r.feed state ch = .done result → ∃ f, result = .error f

theorem runIn_accepts (hr : r.ReadsOn) {modes : Modes} {fuel : ℕ} {state : State τ}
    {budget left : Option ℕ} {s t : σ} {a : α}
    (h : r.runIn modes fuel state budget s = .ok (.ok (.ok a, left)) t) :
    ∃ cs, Field.takeFieldIn modes fuel budget s = .ok (.ok (cs, left)) t ∧
      r.onList state cs = (.ok a, []) := by
  induction fuel generalizing state budget s with
  | zero =>
    obtain ⟨hend, rfl⟩ := attempt_pure_inv h
    rw [Prod.mk.injEq] at hend
    obtain ⟨hend, rfl⟩ := hend
    refine ⟨[], rfl, ?_⟩
    rw [onList, hend]
  | succ fuel ih =>
    rw [runIn] at h
    obtain ⟨⟨ch, budget'⟩, s', hnext, h⟩ := attempt_bind_inv h
    rw [Field.takeFieldIn, attempt_bind_eq hnext]
    cases ch with
    | none =>
      obtain ⟨hend, rfl⟩ := attempt_pure_inv h
      rw [Prod.mk.injEq] at hend
      obtain ⟨hend, rfl⟩ := hend
      refine ⟨[], rfl, ?_⟩
      rw [onList, hend]
    | some ch =>
      dsimp only at h ⊢
      cases hfeed : r.feed state ch with
      | more state' =>
        rw [hfeed] at h
        obtain ⟨cs, htake, haccept⟩ := ih h
        rw [attempt_bind_eq htake]
        refine ⟨ch :: cs, rfl, ?_⟩
        rw [onList, hfeed]
        exact haccept
      | done result =>
        rw [hfeed] at h
        obtain ⟨hdone, -⟩ := attempt_pure_inv h
        obtain ⟨f, rfl⟩ := hr state ch result hfeed
        cases hdone

theorem run_accepts (hr : r.ReadsOn) {edit : DataEdit} {left : Option ℕ} {s t : σ} {a : α}
    (h : r.run edit s = .ok (.ok (.ok a, left)) t) :
    Field.takeText edit s = .ok (.ok (Field.text edit s, left)) t ∧
      r.onList .leading (Field.text edit s) = (.ok a, []) := by
  have htake : ∃ cs, Field.takeText edit s = .ok (.ok (cs, left)) t ∧
      r.onList .leading cs = (.ok a, []) := by
    unfold run at h
    unfold Field.takeText Field.takeField
    by_cases hnone : edit.budget.isNone = true
    · rw [if_pos hnone] at h ⊢
      obtain ⟨_, s', hskip, h⟩ := attempt_bind_inv h
      rw [attempt_bind_eq hskip]
      exact runIn_accepts hr h
    · rw [if_neg hnone] at h ⊢
      exact runIn_accepts hr h
  obtain ⟨cs, htake, haccept⟩ := htake
  have htext : Field.text edit s = cs := by
    rw [Field.text, htake]
  rw [htext]
  exact ⟨htake, haccept⟩

end Recognizer

end DataTransfer
