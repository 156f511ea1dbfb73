import Mathlib.Data.Nat.Notation
import Mathlib.Tactic.Basic
import DataTransfer.Field.Source

/-!
Computations that may fail and keep their state when they do: what holds at the end, whichever way
they end. An attempt has two ways to fail: a fault, and the end of the program.
-/

namespace DataTransfer

variable {ε σ α β : Type}

theorem get_bind_run (next : σ → EStateM ε σ α) (s : σ) : (get >>= next) s = next s s := rfl

theorem bind_run_eq {act : EStateM ε σ α} {next : α → EStateM ε σ β} {s t : σ} {a : α}
    (h : act s = .ok a t) : (act >>= next) s = next a t := by
  change EStateM.bind act next s = _
  unfold EStateM.bind
  rw [h]

theorem bind_run_error {act : EStateM ε σ α} {next : α → EStateM ε σ β} {s t : σ} {e : ε}
    (h : act s = .error e t) : (act >>= next) s = .error e t := by
  change EStateM.bind act next s = _
  unfold EStateM.bind
  rw [h]

theorem discard_bind (act : EStateM ε σ α) (next : α → EStateM ε σ β) :
    discard (act >>= next) = act >>= fun a => discard (next a) := by
  have hrun : discard (act >>= next) = (act >>= next) >>= fun _ => pure () := rfl
  rw [hrun, bind_assoc]
  rfl

theorem discard_then (act : EStateM ε σ α) (next : EStateM ε σ β) :
    (discard act >>= fun _ => next) = act >>= fun _ => next := by
  have hrun : discard act = act >>= fun _ => pure () := rfl
  rw [hrun, bind_assoc]
  rfl

theorem discard_return {γ : Type} (act : EStateM ε σ α) (f : α → γ) :
    discard (do return f (← act)) = discard act := discard_bind act _

/-- From `s` the computation ends with a value and a state for which `Q` holds, or fails in a state
for which `R` holds. -/
def Ends (act : EStateM ε σ α) (s : σ) (Q : α → σ → Prop) (R : ε → σ → Prop) : Prop :=
  match act s with
  | .ok a s => Q a s
  | .error e s => R e s

instance (act : EStateM ε σ α) (s : σ) (Q : α → σ → Prop) (R : ε → σ → Prop)
    [∀ a t, Decidable (Q a t)] [∀ e t, Decidable (R e t)] : Decidable (Ends act s Q R) :=
  match h : act s with
  | .ok a t => decidable_of_iff (Q a t) (by rw [Ends, h])
  | .error e t => decidable_of_iff (R e t) (by rw [Ends, h])

section

variable {s : σ} {R : ε → σ → Prop}

@[simp] theorem ends_pure {Q : α → σ → Prop} (a : α) :
    Ends (pure a) s Q R ↔ Q a s := Iff.rfl

@[simp] theorem ends_get {Q : β → σ → Prop} (next : σ → EStateM ε σ β) :
    Ends (get >>= next) s Q R ↔ Ends (next s) s Q R := Iff.rfl

@[simp] theorem ends_set_bind {Q : β → σ → Prop} (t : σ) (next : PUnit → EStateM ε σ β) :
    Ends (set t >>= next) s Q R ↔ Ends (next ⟨⟩) t Q R := Iff.rfl

@[simp] theorem ends_modify {Q : Unit → σ → Prop} (f : σ → σ) :
    Ends (modify f) s Q R ↔ Q () (f s) := Iff.rfl

@[simp] theorem ends_modify_bind {Q : β → σ → Prop} (f : σ → σ) (next : Unit → EStateM ε σ β) :
    Ends (modify f >>= next) s Q R ↔ Ends (next ()) (f s) Q R := Iff.rfl

end

namespace Ends

variable {act : EStateM ε σ α} {next : α → EStateM ε σ β} {s : σ}
variable {P Q : α → σ → Prop} {R R' : ε → σ → Prop}

theorem bind {Q : β → σ → Prop} (h : Ends act s P R)
    (hnext : ∀ a s, P a s → Ends (next a) s Q R) : Ends (act >>= next) s Q R := by
  unfold Ends at h ⊢
  change match EStateM.bind act next s with | .ok a s => Q a s | .error e s => R e s
  unfold EStateM.bind
  cases hact : act s with
  | ok a t =>
    rw [hact] at h
    exact hnext a t h
  | error e t =>
    rw [hact] at h
    exact h

theorem mono (h : Ends act s P R) (hQ : ∀ a s, P a s → Q a s) (hR : ∀ e s, R e s → R' e s) :
    Ends act s Q R' := by
  unfold Ends at h ⊢
  cases hact : act s with
  | ok a t =>
    rw [hact] at h
    exact hQ a t h
  | error e t =>
    rw [hact] at h
    exact hR e t h

theorem success (h : Ends act s Q R) : Ends act s Q fun _ _ => True :=
  h.mono (fun _ _ => id) fun _ _ _ => True.intro

theorem trivial (act : EStateM ε σ α) (s : σ) :
    Ends act s (fun _ _ => True) fun _ _ => True := by
  unfold Ends
  split <;> exact True.intro

theorem runs (act : EStateM ε σ α) (s : σ) :
    Ends act s (fun a t => act s = .ok a t) fun e t => act s = .error e t := by
  unfold Ends
  split <;> assumption

theorem of_run {t : σ} {a : α} (h : Ends act s Q R) (hrun : act s = .ok a t) : Q a t := by
  unfold Ends at h
  rw [hrun] at h
  exact h

theorem and {Q' : α → σ → Prop} (h : Ends act s Q R) (h' : Ends act s Q' R') :
    Ends act s (fun a t => Q a t ∧ Q' a t) fun e t => R e t ∧ R' e t := by
  unfold Ends at h h' ⊢
  cases hact : act s <;> rw [hact] at h h' <;> exact ⟨h, h'⟩

theorem discard (h : Ends act s P R) :
    Ends (Functor.discard act) s (fun _ t => ∃ a, P a t) R := by
  have hrun : Functor.discard act = act >>= fun _ => pure () := rfl
  rw [hrun]
  exact h.bind fun a _ ha => ⟨a, ha⟩

theorem discard_state {Q : σ → Prop} (h : Ends act s (fun _ t => Q t) R) :
    Ends (Functor.discard act) s (fun _ t => Q t) R :=
  h.discard.mono (fun _ _ ⟨_, ht⟩ => ht) fun _ _ => id

/-- One action after the other: each keeps to an invariant that knows how many have been taken. -/
theorem mapM {γ : Type} {act : γ → EStateM ε σ α} {xs : List γ} {I : ℕ → σ → Prop}
    {P : ℕ → γ → α → Prop}
    (hact : ∀ k x, xs[k]? = some x → ∀ s, I k s →
      Ends (act x) s (fun a t => P k x a ∧ I (k + 1) t) R) (h : I 0 s) :
    Ends (xs.mapM act) s (fun as t => as.length = xs.length ∧
      (∀ k x a, xs[k]? = some x → as[k]? = some a → P k x a) ∧ I xs.length t) R := by
  induction xs generalizing s I P with
  | nil => exact ⟨rfl, nofun, h⟩
  | cons x xs ih =>
    rw [List.mapM_cons]
    refine (hact 0 x rfl s h).bind fun a t ⟨ha, ht⟩ => ?_
    refine (ih (fun k => hact (k + 1)) ht).bind fun as u ⟨hlength, has, hu⟩ => ?_
    refine ⟨congrArg (· + 1) hlength, ?_, hu⟩
    rintro (_ | k) x' a' hx' ha'
    · obtain rfl := Option.some.inj hx'
      obtain rfl := Option.some.inj ha'
      exact ha
    · exact has k x' a' hx' ha'

theorem mapM_invariant {γ : Type} {act : γ → EStateM ε σ α} {xs : List γ} {I : σ → Prop}
    (hact : ∀ x ∈ xs, ∀ s, I s → Ends (act x) s (fun _ t => I t) R) (h : I s) :
    Ends (xs.mapM act) s (fun _ t => I t) R :=
  (mapM (I := fun _ => I) (P := fun _ _ _ => True)
    (fun _ x hx s hs => (hact x (List.mem_of_getElem? hx) s hs).mono
      (fun _ _ => .intro True.intro) fun _ _ => id) h).mono (fun _ _ ht => ht.2.2) fun _ _ => id

theorem forM_invariant {γ : Type} {act : γ → EStateM ε σ Unit} {xs : List γ} {I : σ → Prop}
    (hact : ∀ x ∈ xs, ∀ s, I s → Ends (act x) s (fun _ t => I t) R) (h : I s) :
    Ends (xs.forM act) s (fun _ t => I t) R := by
  induction xs generalizing s with
  | nil => exact h
  | cons x xs ih =>
    refine (hact x List.mem_cons_self s h).bind fun _ t ht => ?_
    exact ih (fun y hy => hact y (List.mem_cons_of_mem _ hy)) ht

theorem mapM_map {γ : Type} {act : γ → EStateM ε σ α} {xs : List γ} {I : ℕ → σ → Prop} {f : γ → α}
    (hact : ∀ k x, xs[k]? = some x → ∀ s, I k s →
      Ends (act x) s (fun a t => a = f x ∧ I (k + 1) t) R) (h : I 0 s) :
    Ends (xs.mapM act) s (fun as t => as = xs.map f ∧ I xs.length t) R := by
  refine (mapM (P := fun _ x a => a = f x) hact h).mono ?_ fun _ _ => id
  rintro as t ⟨hlength, has, ht⟩
  refine ⟨List.ext_getElem (hlength.trans (List.length_map f).symm) fun k hk hk' => ?_, ht⟩
  rw [List.length_map] at hk'
  rw [List.getElem_map]
  exact has k xs[k] as[k] (List.getElem?_eq_getElem hk') (List.getElem?_eq_getElem hk)

theorem attempt_get {Q : Except Fault β → σ → Prop} {R : Crash → σ → Prop} {s : σ}
    (next : σ → Attempt σ β) :
    Ends (get >>= next : Attempt σ β).run s Q R ↔ Ends (next s).run s Q R := Iff.rfl

theorem attempt_bind {act : Attempt σ α} {next : α → Attempt σ β} {P : Except Fault α → σ → Prop}
    {Q : Except Fault β → σ → Prop} {R : Crash → σ → Prop} (h : Ends act.run s P R)
    (hnext : ∀ a t, P (.ok a) t → Ends (next a).run t Q R)
    (herror : ∀ f t, P (.error f) t → Q (.error f) t) : Ends (act >>= next).run s Q R := by
  refine Ends.bind h fun r t hr => ?_
  cases r with
  | ok a => exact hnext a t hr
  | error f => exact herror f t hr

end Ends

abbrev Completes (act : EStateM ε σ α) (s : σ) (Q : α → σ → Prop) : Prop :=
  Ends act s Q fun _ _ => False

theorem Completes.exists_run {act : EStateM ε σ α} {s : σ} {Q : α → σ → Prop}
    (h : Completes act s Q) : ∃ a t, act s = .ok a t ∧ Q a t := by
  unfold Completes Ends at h
  cases hact : act s with
  | ok a t =>
    rw [hact] at h
    exact ⟨a, t, rfl, h⟩
  | error e t =>
    rw [hact] at h
    exact h.elim

theorem Completes.of_run {act : EStateM ε σ α} {s t : σ} {a : α} (h : act s = .ok a t) :
    Completes act s fun b u => b = a ∧ u = t := by
  unfold Completes Ends
  rw [h]
  exact ⟨rfl, rfl⟩

theorem Completes.and {act : EStateM ε σ α} {s : σ} {P Q : α → σ → Prop} {R : ε → σ → Prop}
    (h : Completes act s P) (h' : Ends act s Q R) : Completes act s fun a t => P a t ∧ Q a t := by
  obtain ⟨a, t, hrun, hP⟩ := h.exists_run
  refine (Completes.of_run hrun).mono ?_ fun _ _ => id
  rintro _ _ ⟨rfl, rfl⟩
  exact ⟨hP, h'.of_run hrun⟩

theorem Completes.of_bind {act : EStateM ε σ α} {next : α → EStateM ε σ β} {s : σ}
    {Q : β → σ → Prop} (h : Completes (act >>= next) s Q) :
    Completes act s fun a t => Completes (next a) t Q := by
  unfold Completes Ends at h ⊢
  change match EStateM.bind act next s with | .ok a s => Q a s | .error _ _ => False at h
  unfold EStateM.bind at h
  cases hact : act s with
  | ok a t =>
    rw [hact] at h
    exact h
  | error e t =>
    rw [hact] at h
    exact h

/-- The attempt does not end the program: it comes to a value and a state for which `Q` holds, or
raises a fault in a state for which `R` holds. -/
def Attempts (act : Attempt σ α) (s : σ) (Q : α → σ → Prop) (R : Fault → σ → Prop) : Prop :=
  Completes act.run s fun r t =>
    match r with
    | .ok a => Q a t
    | .error f => R f t

abbrev Succeeds (act : Attempt σ α) (s : σ) (Q : α → σ → Prop) : Prop :=
  Attempts act s Q fun _ _ => False

section

variable {s : σ} {R : Fault → σ → Prop}

theorem attempts_get {Q : β → σ → Prop} (next : σ → Attempt σ β) :
    Attempts (get >>= next) s Q R ↔ Attempts (next s) s Q R := Iff.rfl

theorem attempt_get_bind_run (next : σ → Attempt σ β) (s : σ) :
    (get >>= next).run s = (next s).run s := rfl

theorem attempts_gets_bind {Q : β → σ → Prop} (f : σ → α) (next : α → Attempt σ β) :
    Attempts ((do return f (← get)) >>= next) s Q R ↔ Attempts (next (f s)) s Q R := Iff.rfl

end

namespace Attempts

variable {act : Attempt σ α} {next : α → Attempt σ β} {s : σ}
variable {P Q : α → σ → Prop} {R R' : Fault → σ → Prop}

theorem bind {Q : β → σ → Prop} (h : Attempts act s P R)
    (hnext : ∀ a s, P a s → Attempts (next a) s Q R) : Attempts (act >>= next) s Q R := by
  apply Ends.bind h
  intro r t hr
  cases r with
  | ok a => exact hnext a t hr
  | error f => exact hr

theorem mono (h : Attempts act s P R) (hQ : ∀ a s, P a s → Q a s) (hR : ∀ f s, R f s → R' f s) :
    Attempts act s Q R' := by
  refine Ends.mono h ?_ fun _ _ => id
  intro r t hr
  cases r with
  | ok a => exact hQ a t hr
  | error f => exact hR f t hr

end Attempts

theorem Succeeds.attempts {act : Attempt σ α} {s : σ} {Q : α → σ → Prop} {R : Fault → σ → Prop}
    (h : Succeeds act s Q) : Attempts act s Q R :=
  h.mono (fun _ _ => id) fun _ _ => False.elim

theorem Succeeds.lift {act : Act σ α} {s : σ} {Q : α → σ → Prop} (h : Completes act s Q) :
    Succeeds (liftM act : Attempt σ α) s Q := by
  apply Ends.bind h
  exact fun _ _ h => h

/-! ### Attempts that came to a value -/

section

variable {act : Attempt σ α} {next : α → Attempt σ β} {s t : σ} {a : α}

theorem attempt_pure_inv {b : α} (h : (pure a : Attempt σ α) s = .ok (.ok b) t) : a = b ∧ s = t := by
  cases h
  exact ⟨rfl, rfl⟩

theorem attempt_lift_inv {act : Act σ α} (h : (liftM act : Attempt σ α) s = .ok (.ok a) t) :
    act s = .ok a t := by
  change EStateM.bind act _ s = _ at h
  unfold EStateM.bind at h
  split at h
  · next b u hact =>
    cases h
    exact hact
  · cases h

theorem attempt_bind_eq (h : act s = .ok (.ok a) t) : (act >>= next) s = next a t := by
  change EStateM.bind act _ s = _
  unfold EStateM.bind
  rw [h]
  rfl

theorem attempt_bind_error {f : Fault} (h : act s = .ok (.error f) t) :
    (act >>= next) s = .ok (.error f) t := by
  change EStateM.bind act _ s = _
  unfold EStateM.bind
  rw [h]
  rfl

/-- Attempts that begin alike end alike where they do so behind every value. -/
theorem attempt_bind_congr {next' : α → Attempt σ β}
    (h : ∀ a t, act.run s = .ok (.ok a) t → (next a).run t = (next' a).run t) :
    (act >>= next).run s = (act >>= next').run s := by
  change EStateM.bind act _ s = EStateM.bind act _ s
  unfold EStateM.bind
  cases hact : act s with
  | error e t => rfl
  | ok r t =>
    cases r with
    | ok a => exact h a t hact
    | error f => rfl

theorem attempt_lift_eq {act : Act σ α} (h : act s = .ok a t) :
    (liftM act : Attempt σ α) s = .ok (.ok a) t := by
  change EStateM.bind act _ s = _
  unfold EStateM.bind
  rw [h]

theorem attempts_iff_run (result : Except Fault α) :
    Attempts act s (fun a u => .ok a = result ∧ u = t) (fun f u => .error f = result ∧ u = t) ↔
      act s = .ok result t := by
  constructor
  · intro h
    obtain ⟨ended, u, hrun, h⟩ := Completes.exists_run h
    refine hrun.trans ?_
    cases ended with
    | ok a =>
      obtain ⟨rfl, rfl⟩ := h
      rfl
    | error f =>
      obtain ⟨rfl, rfl⟩ := h
      rfl
  · intro hrun
    refine Ends.mono (Completes.of_run hrun) (fun ended u h => ?_) fun _ _ => False.elim
    obtain ⟨rfl, rfl⟩ := h
    cases ended <;> exact ⟨rfl, rfl⟩

theorem attempt_bind_inv {b : β} (h : (act >>= next) s = .ok (.ok b) t) :
    ∃ a u, act s = .ok (.ok a) u ∧ next a u = .ok (.ok b) t := by
  change EStateM.bind act _ s = _ at h
  unfold EStateM.bind at h
  split at h
  · next r u hact =>
    cases r with
    | ok a => exact ⟨a, u, hact, h⟩
    | error f => cases h
  · cases h

end

end DataTransfer
