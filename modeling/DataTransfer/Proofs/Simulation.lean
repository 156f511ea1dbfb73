import DataTransfer.Proofs.Outcome

/-!
Two computations side by side: from related states they come to the same value in related states, or
end the program alike, again in related states.
-/

namespace DataTransfer

variable {σ τ υ α β : Type}

/-- The same value or, where the program may end, the same end; in related states. -/
inductive Agree (Rel : σ → τ → Prop) (mayEnd : Prop) :
    EStateM.Result Crash σ α → EStateM.Result Crash τ α → Prop
  | ok (a : α) {s : σ} {t : τ} (h : Rel s t) : Agree Rel mayEnd (.ok a s) (.ok a t)
  | error (hend : mayEnd) (c : Crash) {s : σ} {t : τ} (h : Rel s t) :
    Agree Rel mayEnd (.error c s) (.error c t)

def Simulates (Rel : σ → τ → Prop) (mayEnd : Prop) (act : Act σ α) (act' : Act τ α) : Prop :=
  ∀ s t, Rel s t → Agree Rel mayEnd (act s) (act' t)

def Attempt.Simulates (Rel : σ → τ → Prop) (mayEnd : Prop) (act : Attempt σ α)
    (act' : Attempt τ α) : Prop :=
  DataTransfer.Simulates Rel mayEnd act.run act'.run

section

variable {Rel : σ → τ → Prop} {mayEnd : Prop}

/-- What follows may rest on more than the relation. -/
theorem Agree.bind_of {Mid : σ → τ → Prop} {act : Act σ α} {act' : Act τ α} {next : α → Act σ β}
    {next' : α → Act τ β} {s : σ} {t : τ} (hmid : ∀ s t, Mid s t → Rel s t)
    (h : Agree Mid mayEnd (act s) (act' t))
    (hnext : ∀ a s' t', act' t = .ok a t' → Mid s' t' →
      Agree Rel mayEnd (next a s') (next' a t')) :
    Agree Rel mayEnd ((act >>= next) s) ((act' >>= next') t) := by
  change Agree Rel mayEnd (EStateM.bind act next s) (EStateM.bind act' next' t)
  unfold EStateM.bind
  generalize act s = result at h ⊢
  generalize hact' : act' t = result' at h ⊢
  cases h with
  | ok a h => exact hnext a _ _ hact' h
  | error hend c h => exact .error hend c (hmid _ _ h)

theorem Agree.bind {act : Act σ α} {act' : Act τ α} {next : α → Act σ β} {next' : α → Act τ β}
    {s : σ} {t : τ} (h : Agree Rel mayEnd (act s) (act' t))
    (hnext : ∀ a s' t', act' t = .ok a t' → Rel s' t' →
      Agree Rel mayEnd (next a s') (next' a t')) :
    Agree Rel mayEnd ((act >>= next) s) ((act' >>= next') t) :=
  h.bind_of (fun _ _ => id) hnext

theorem Agree.trans {Rel' : τ → υ → Prop} {Rel'' : σ → υ → Prop}
    (h : ∀ {s t u}, Rel s t → Rel' t u → Rel'' s u) {r : EStateM.Result Crash σ α}
    {r' : EStateM.Result Crash τ α} {r'' : EStateM.Result Crash υ α} (hleft : Agree Rel mayEnd r r')
    (hright : Agree Rel' mayEnd r' r'') : Agree Rel'' mayEnd r r'' := by
  cases hleft with
  | ok a hrel =>
    cases hright with
    | ok _ hrel' => exact .ok a (h hrel hrel')
  | error hend c hrel =>
    cases hright with
    | error _ _ hrel' => exact .error hend c (h hrel hrel')

theorem Agree.bind_left {act : Act σ α} {next : α → Act σ β} {s : σ} {r : EStateM.Result Crash τ β}
    (h : Completes act s fun a s' => Agree Rel mayEnd (next a s') r) :
    Agree Rel mayEnd ((act >>= next) s) r := by
  obtain ⟨a, s', hact, hagree⟩ := h.exists_run
  rwa [bind_run_eq hact]

theorem Agree.refl {Rel : σ → σ → Prop} (hrefl : ∀ s, Rel s s) (hend : mayEnd)
    (r : EStateM.Result Crash σ α) : Agree Rel mayEnd r r := by
  cases r with
  | ok a s => exact .ok a (hrefl s)
  | error c s => exact .error hend c (hrefl s)

theorem Agree.bind_same {Rel : σ → σ → Prop} {act : Act σ α} {next next' : α → Act σ β} {s : σ}
    {P : α → σ → Prop} {R : Crash → σ → Prop} (hrefl : ∀ t, Rel t t) (hend : mayEnd)
    (h : Ends act s P R) (hnext : ∀ a t, P a t → Agree Rel mayEnd (next a t) (next' a t)) :
    Agree Rel mayEnd ((act >>= next) s) ((act >>= next') s) := by
  cases hrun : act s with
  | ok a t =>
    rw [bind_run_eq hrun, bind_run_eq hrun]
    exact hnext a t (h.of_run hrun)
  | error c t =>
    rw [bind_run_error hrun, bind_run_error hrun]
    exact .error hend c (hrefl t)

theorem Agree.ends {act : Act σ α} {s : σ} {r : EStateM.Result Crash τ α}
    (h : Agree Rel mayEnd (act s) r) :
    Ends act s (fun _ s' => ∃ t, Rel s' t) fun _ s' => mayEnd ∧ ∃ t, Rel s' t := by
  unfold Ends
  generalize act s = result at h ⊢
  cases h with
  | ok a h => exact ⟨_, h⟩
  | error hend c h => exact ⟨hend, _, h⟩

namespace Simulates

variable {act : Act σ α} {act' : Act τ α}

theorem pure (a : α) : Simulates Rel mayEnd (pure a) (pure a) := fun _ _ h => .ok a h

theorem bind {next : α → Act σ β} {next' : α → Act τ β} (h : Simulates Rel mayEnd act act')
    (hnext : ∀ a, Simulates Rel mayEnd (next a) (next' a)) :
    Simulates Rel mayEnd (act >>= next) (act' >>= next') :=
  fun s t hst => (h s t hst).bind fun a s t _ hst => hnext a s t hst

theorem get_bind {next : σ → Act σ β} {next' : τ → Act τ β}
    (h : ∀ s t, Rel s t → Agree Rel mayEnd (next s s) (next' t t)) :
    Simulates Rel mayEnd (get >>= next) (get >>= next') := h

theorem discard (h : Simulates Rel mayEnd act act') :
    Simulates Rel mayEnd (Functor.discard act) (Functor.discard act') :=
  h.bind fun _ => pure ()

theorem discard_bind {next : α → Act σ β} {next' : α → Act τ β} (h : Simulates Rel mayEnd act act')
    (hnext : ∀ a, Simulates Rel mayEnd (Functor.discard (next a)) (Functor.discard (next' a))) :
    Simulates Rel mayEnd (Functor.discard (act >>= next)) (Functor.discard (act' >>= next')) := by
  rw [DataTransfer.discard_bind, DataTransfer.discard_bind]
  exact h.bind hnext

theorem mapM {γ : Type} {f : γ → Act σ α} {g : γ → Act τ α}
    (h : ∀ c, Simulates Rel mayEnd (f c) (g c)) (cs : List γ) :
    Simulates Rel mayEnd (cs.mapM f) (cs.mapM g) := by
  induction cs with
  | nil => exact pure []
  | cons c cs ih =>
    rw [List.mapM_cons, List.mapM_cons]
    exact (h c).bind fun a => ih.bind fun as => pure (a :: as)

/-- The second computation tells how the first one ends. -/
theorem of_completes
    (h : ∀ s t, Rel s t → Completes act s fun a s' => ∃ t', act' t = .ok a t' ∧ Rel s' t') :
    Simulates Rel mayEnd act act' := by
  intro s t hst
  obtain ⟨a, s', hact, t', hact', hrel⟩ := (h s t hst).exists_run
  rw [hact, hact']
  exact .ok a hrel

theorem completes (h : Simulates Rel False act act') {s : σ} {t : τ} (hst : Rel s t) :
    Completes act s fun a s' => ∃ t', act' t = .ok a t' ∧ Rel s' t' := by
  have hagree := h s t hst
  unfold Completes Ends
  generalize act s = result at hagree ⊢
  generalize act' t = result' at hagree ⊢
  cases hagree with
  | ok a h => exact ⟨_, rfl, h⟩
  | error hend => exact hend.elim

end Simulates

namespace Attempt.Simulates

variable {act : Attempt σ α} {act' : Attempt τ α}

theorem pure (a : α) : Attempt.Simulates Rel mayEnd (pure a) (pure a) :=
  fun _ _ h => .ok (Except.ok a) h

theorem throw (f : Fault) :
    Attempt.Simulates Rel mayEnd (throw f : Attempt σ α) (throw f : Attempt τ α) :=
  fun _ _ h => .ok (Except.error f) h

theorem agree_bind_of {Mid : σ → τ → Prop} {next : α → Attempt σ β} {next' : α → Attempt τ β}
    {s : σ} {t : τ} (hmid : ∀ s t, Mid s t → Rel s t) (h : Agree Mid mayEnd (act.run s) (act'.run t))
    (hnext : ∀ a s' t', act' t = .ok (.ok a) t' → Mid s' t' →
      Agree Rel mayEnd ((next a).run s') ((next' a).run t')) :
    Agree Rel mayEnd ((act >>= next).run s) ((act' >>= next').run t) := by
  refine Agree.bind_of hmid h ?_
  intro r s' t' hact' hst
  cases r with
  | ok a => exact hnext a s' t' hact' hst
  | error f => exact .ok (Except.error f) (hmid s' t' hst)

theorem agree_bind {next : α → Attempt σ β} {next' : α → Attempt τ β} {s : σ} {t : τ}
    (h : Agree Rel mayEnd (act.run s) (act'.run t))
    (hnext : ∀ a s' t', act' t = .ok (.ok a) t' → Rel s' t' →
      Agree Rel mayEnd ((next a).run s') ((next' a).run t')) :
    Agree Rel mayEnd ((act >>= next).run s) ((act' >>= next').run t) :=
  agree_bind_of (fun _ _ => id) h hnext

theorem bind {next : α → Attempt σ β} {next' : α → Attempt τ β}
    (h : Attempt.Simulates Rel mayEnd act act')
    (hnext : ∀ a, Attempt.Simulates Rel mayEnd (next a) (next' a)) :
    Attempt.Simulates Rel mayEnd (act >>= next) (act' >>= next') :=
  fun s t hst => agree_bind (h s t hst) fun a s t _ hst => hnext a s t hst

theorem ite {c : Prop} [Decidable c] {next : Attempt σ α} {next' : Attempt τ α}
    (h : Attempt.Simulates Rel mayEnd act act') (hnext : Attempt.Simulates Rel mayEnd next next') :
    Attempt.Simulates Rel mayEnd (if c then act else next) (if c then act' else next') := by
  by_cases hc : c
  · rwa [if_pos hc, if_pos hc]
  · rwa [if_neg hc, if_neg hc]

theorem when_bind {c : Prop} [Decidable c] {act : Attempt σ Unit} {act' : Attempt τ Unit}
    {next : Unit → Attempt σ α} {next' : Unit → Attempt τ α} (h : Attempt.Simulates Rel mayEnd act act')
    (hnext : ∀ u, Attempt.Simulates Rel mayEnd (next u) (next' u)) :
    Attempt.Simulates Rel mayEnd (if c then act >>= next else next ())
      (if c then act' >>= next' else next' ()) :=
  .ite (h.bind hnext) (hnext ())

theorem get_bind {next : σ → Attempt σ β} {next' : τ → Attempt τ β}
    (h : ∀ s t, Rel s t → Agree Rel mayEnd ((next s).run s) ((next' t).run t)) :
    Attempt.Simulates Rel mayEnd (get >>= next) (get >>= next') := h

theorem agree_lift {act : Act σ α} {act' : Act τ α} {s : σ} {t : τ}
    (h : Agree Rel mayEnd (act s) (act' t)) :
    Agree Rel mayEnd ((liftM act : Attempt σ α).run s) ((liftM act' : Attempt τ α).run t) :=
  h.bind fun a _ _ _ h => .ok (Except.ok a) h

theorem lift {act : Act σ α} {act' : Act τ α} (h : DataTransfer.Simulates Rel mayEnd act act') :
    Attempt.Simulates Rel mayEnd (liftM act) (liftM act') :=
  fun s t hst => agree_lift (h s t hst)

theorem ofExcept (r : Except Fault α) :
    Attempt.Simulates Rel mayEnd (liftM r : Attempt σ α) (liftM r : Attempt τ α) := by
  cases r with
  | ok a => exact pure a
  | error f => exact throw f

end Attempt.Simulates

end

end DataTransfer
