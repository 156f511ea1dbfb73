import Mathlib.Tactic.SplitIfs
import DataTransfer.Proofs.Simulation

/-!
Properties of the state that a computation preserves, whichever way it ends.
-/

namespace DataTransfer

variable {ε σ τ α β : Type}

/-- Where `P` holds of the state, it does so afterwards, after a failure as well. -/
def Preserves (P : σ → Prop) (act : EStateM ε σ α) : Prop :=
  ∀ s, P s → Ends act s (fun _ t => P t) fun _ t => P t

namespace Preserves

variable {P : σ → Prop} {act : EStateM ε σ α}

theorem pure (a : α) : Preserves P (pure a : EStateM ε σ α) := fun _ hs => hs

theorem bind {next : α → EStateM ε σ β} (h : Preserves P act) (hnext : ∀ a, Preserves P (next a)) :
    Preserves P (act >>= next) := by
  intro s hs
  exact (h s hs).bind fun a t ht => hnext a t ht

theorem get_bind {next : σ → EStateM ε σ α} (h : ∀ s, P s → Preserves P (next s)) :
    Preserves P (get >>= next) := fun s hs => h s hs s hs

theorem set {t : σ} (h : P t) : Preserves P (set t : EStateM ε σ PUnit) := fun _ _ => h

theorem modify {f : σ → σ} (h : ∀ s, P s → P (f s)) : Preserves P (modify f : EStateM ε σ PUnit) :=
  fun s hs => h s hs

theorem when_bind {c : Prop} [Decidable c] {act : EStateM ε σ Unit} {next : Unit → EStateM ε σ α}
    (h : Preserves P act) (hnext : ∀ u, Preserves P (next u)) :
    Preserves P (if c then act >>= next else next ()) := by
  split_ifs
  · exact h.bind hnext
  · exact hnext ()

theorem and {Q : σ → Prop} (h : Preserves P act) (h' : Preserves Q act) :
    Preserves (fun s => P s ∧ Q s) act := fun s hs => (h s hs.1).and (h' s hs.2)

theorem discard (h : Preserves P act) : Preserves P (Functor.discard act) :=
  h.bind fun _ => pure ()

theorem forM {γ : Type} {body : γ → EStateM ε σ Unit} {cs : List γ}
    (h : ∀ c ∈ cs, Preserves P (body c)) : Preserves P (cs.forM body) :=
  fun _ hs => Ends.forM_invariant h hs

theorem forIn {γ : Type} {body : γ → EStateM ε σ (ForInStep PUnit)} (h : ∀ c, Preserves P (body c))
    (cs : List γ) : Preserves P (forIn cs PUnit.unit fun c _ => body c) := by
  induction cs with
  | nil => exact pure _
  | cons c cs ih =>
    rw [List.forIn_cons]
    refine (h c).bind fun step => ?_
    cases step with
    | done _ => exact pure _
    | yield _ => exact ih

end Preserves

/-- Where `P` holds of the state, it does so afterwards. The computation fails only where `mayEnd` holds,
and `P` holds after a failure as well. -/
def Carries (mayEnd : Prop) (P : σ → Prop) (act : EStateM ε σ α) : Prop :=
  ∀ s, P s → Ends act s (fun _ t => P t) fun _ t => mayEnd ∧ P t

theorem Preserves.carries {P : σ → Prop} {act : EStateM ε σ α} (h : Preserves P act) :
    Carries True P act := by
  intro s hs
  exact (h s hs).mono (fun _ _ => id) fun _ _ ht => ⟨trivial, ht⟩

namespace Carries

variable {mayEnd : Prop} {P : σ → Prop} {act : EStateM ε σ α}

theorem preserves (h : Carries mayEnd P act) : Preserves P act := by
  intro s hs
  exact (h s hs).mono (fun _ _ => id) fun _ _ => And.right

theorem of_completes (h : ∀ s, P s → Completes act s fun _ t => P t) : Carries mayEnd P act := by
  intro s hs
  exact (h s hs).mono (fun _ _ => id) fun _ _ => False.elim

theorem completes (h : Carries False P act) {s : σ} (hs : P s) : Completes act s fun _ t => P t :=
  (h s hs).mono (fun _ _ => id) fun _ _ => And.left

theorem pure (a : α) : Carries mayEnd P (pure a : EStateM ε σ α) := fun _ hs => hs

theorem bind {next : α → EStateM ε σ β} (h : Carries mayEnd P act)
    (hnext : ∀ a, Carries mayEnd P (next a)) : Carries mayEnd P (act >>= next) := by
  intro s hs
  exact (h s hs).bind fun a t ht => hnext a t ht

theorem get_bind {next : σ → EStateM ε σ α} (h : ∀ s, P s → Carries mayEnd P (next s)) :
    Carries mayEnd P (get >>= next) := fun s hs => h s hs s hs

theorem modify {f : σ → σ} (h : ∀ s, P s → P (f s)) :
    Carries mayEnd P (modify f : EStateM ε σ PUnit) := fun s hs => h s hs

theorem when_bind {c : Prop} [Decidable c] {act : EStateM ε σ Unit} {next : Unit → EStateM ε σ α}
    (h : c → Carries mayEnd P act) (hnext : ∀ u, Carries mayEnd P (next u)) :
    Carries mayEnd P (if c then act >>= next else next ()) := by
  split_ifs with hc
  · exact (h hc).bind hnext
  · exact hnext ()

theorem discard (h : Carries mayEnd P act) : Carries mayEnd P (Functor.discard act) :=
  h.bind fun _ => pure ()

theorem of_discard (h : Carries mayEnd P (Functor.discard act)) : Carries mayEnd P act := by
  have hrun : Functor.discard act = EStateM.bind act fun _ => EStateM.pure () := rfl
  intro s hs
  have hends := h s hs
  rw [hrun] at hends
  unfold Ends EStateM.bind at hends
  unfold Ends
  cases hact : act s <;> rwa [hact] at hends

theorem of_simulates {act : Act σ α} (h : Simulates (fun s t => s = t ∧ P s) mayEnd act act) :
    Carries mayEnd P act := by
  intro s hs
  have hagree := h s s ⟨rfl, hs⟩
  unfold Ends
  generalize act s = result at hagree ⊢
  cases hagree with
  | ok a h => exact h.2
  | error hend c h => exact ⟨hend, h.2⟩

theorem simulates {act : Act σ α} (h : Carries mayEnd P act) :
    Simulates (fun s t => s = t ∧ P s) mayEnd act act := by
  rintro s _ ⟨rfl, hs⟩
  have hends := h s hs
  unfold Ends at hends
  cases hact : act s with
  | ok a t =>
    rw [hact] at hends
    exact .ok a ⟨rfl, hends⟩
  | error c t =>
    rw [hact] at hends
    exact .error hends.1 c ⟨rfl, hends.2⟩

end Carries

def Attempt.Carries (mayEnd : Prop) (P : σ → Prop) (act : Attempt σ α) : Prop :=
  DataTransfer.Carries mayEnd P act.run

namespace Attempt.Carries

variable {mayEnd : Prop} {P : σ → Prop} {act : Attempt σ α}

theorem pure (a : α) : Attempt.Carries mayEnd P (pure a) := fun _ hs => hs

theorem throw (f : Fault) : Attempt.Carries mayEnd P (throw f : Attempt σ α) := fun _ hs => hs

theorem bind {next : α → Attempt σ β} (h : Attempt.Carries mayEnd P act)
    (hnext : ∀ a, Attempt.Carries mayEnd P (next a)) : Attempt.Carries mayEnd P (act >>= next) := by
  refine DataTransfer.Carries.bind h fun r => ?_
  cases r with
  | ok a => exact hnext a
  | error f => exact DataTransfer.Carries.pure _

theorem get_bind {next : σ → Attempt σ α} (h : ∀ s, P s → Attempt.Carries mayEnd P (next s)) :
    Attempt.Carries mayEnd P (get >>= next) := fun s hs => h s hs s hs

theorem when_bind {c : Prop} [Decidable c] {act : Attempt σ Unit} {next : Unit → Attempt σ α}
    (h : c → Attempt.Carries mayEnd P act) (hnext : ∀ u, Attempt.Carries mayEnd P (next u)) :
    Attempt.Carries mayEnd P (if c then act >>= next else next ()) := by
  split_ifs with hc
  · exact (h hc).bind hnext
  · exact hnext ()

end Attempt.Carries

end DataTransfer
