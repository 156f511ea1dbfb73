import DataTransfer.Proofs.Program.Emission
import DataTransfer.Proofs.Program.Failures

/-!
What a program that ends fatally leaves on standard output. Whatever its other statements did, all that
WRITE statements have emitted on the standard output unit is there once and in order when the last action
of the program is over: what made up complete records came there with each record, and the last action
brings the rest, from the unit and from the buffer of the stream.
-/

namespace DataTransfer

/-! ### The standard units -/

namespace Program

variable {spared : Option Place} {hook : Option ℤ} {output : Bytes} {p : Program}

def started (config : Config) (system : System) : Program :=
  { withStandardUnits config system with crashUnit := some config.outputUnit }

theorem Spares.withHook (h : p.Spares spared hook output) (hook' : Option ℤ) :
    Spares spared hook' output { p with crashUnit := hook' } :=
  { h with
    tracks := h.tracks.imp fun _ htracks => { htracks with }
    hook_eq := rfl }

theorem backing_predefine_ne (u : ExternalUnit) {descriptor : ℤ}
    (hdescriptor : descriptor = 0 ∨ descriptor = 2) (utf8 : Bool) :
    (u.predefine descriptor utf8).attachment.backing ≠ some .standardOutput := by
  rcases hdescriptor with rfl | rfl <;> exact fun heq => nomatch heq

theorem Spares.predefine_other (h : p.Spares spared hook output) {n : ℤ}
    (hn : ∀ x ∈ spared, n ≠ x.number) {descriptor : ℤ} (hdescriptor : descriptor = 0 ∨ descriptor = 2)
    (utf8 : Bool) : (p.predefine n descriptor utf8).Spares spared hook output := by
  obtain ⟨hfound, hid⟩ := h.lookUpOrCreate hn
  have hbacking (u : ExternalUnit) := backing_predefine_ne u hdescriptor utf8
  unfold Program.predefine
  generalize p.lookUpOrCreate n = result at hfound hid ⊢
  obtain ⟨found, q⟩ := result
  cases found with
  | live id | created id =>
    dsimp only
    cases q.unit? id with
    | none => exact hfound
    | some u => exact hfound.setUnit (hid id rfl) (hbacking u) hfound.output_eq
  | waiting => exact hfound

theorem Spares.predefine_same {x : Place} (h : p.Spares (some x) hook output) {descriptor : ℤ}
    (hdescriptor : descriptor = 0 ∨ descriptor = 2) (utf8 : Bool) :
    (p.predefine x.number descriptor utf8).Spares none hook output := by
  have hfound : p.lookUpOrCreate x.number = (.live x.id, p) := by
    simp only [Program.lookUpOrCreate, h.number_eq x rfl]
  have hconnected : p.predefine x.number descriptor utf8 =
      p.setUnit x.id (x.unit.predefine descriptor utf8) := by
    simp only [predefine, hfound, h.unit_eq x rfl]
  have hdiffers : p.DiffersAt (p.setUnit x.id (x.unit.predefine descriptor utf8)) x.id :=
    differsAt_setUnit p.system
  rw [hconnected]
  refine ⟨h.tracks.imp fun _ ht => ht.of_differsAt hdiffers, h.hook_eq, h.output_eq, by simp, by simp, ?_⟩
  intro j u _ hu
  by_cases hj : j = x.id
  · subst hj
    have hlt := (List.getElem?_eq_some_iff.mp (h.unit_eq x rfl)).1
    cases (unit?_setUnit_self hlt).symm.trans hu
    exact backing_predefine_ne x.unit hdescriptor utf8
  · refine h.apart j u ?_ ((hdiffers.unit_eq j hj).symm.trans hu)
    rintro _ ⟨⟩
    exact hj

theorem Spares.predefine (h : p.Spares spared hook output) (n : ℤ) {descriptor : ℤ}
    (hdescriptor : descriptor = 0 ∨ descriptor = 2) (utf8 : Bool) :
    ∃ spared', (∀ x ∈ spared', x ∈ spared) ∧
      (p.predefine n descriptor utf8).Spares spared' hook output := by
  by_cases hn : ∀ x ∈ spared, n ≠ x.number
  · exact ⟨spared, fun _ => id, h.predefine_other hn hdescriptor utf8⟩
  · obtain ⟨x, rfl, rfl⟩ : ∃ x ∈ spared, n = x.number := by simpa using hn
    exact ⟨none, by simp, h.predefine_same hdescriptor utf8⟩

theorem spares_new (config : Config) (system : System) :
    (new config system).Spares none none system.output where
  tracks := ⟨[], Directory.tracks_new config system⟩
  hook_eq := rfl
  output_eq := rfl
  number_eq := by simp
  unit_eq := by simp
  apart := by simp [new, unit?]

theorem spares_predefine_output (config : Config) (system : System) :
    ((new config system).predefine config.outputUnit 1 config.utf8).Spares
      (some ⟨config.outputUnit, 0,
        (ExternalUnit.new config.outputUnit config.readChunk).predefine 1 config.utf8⟩)
      none system.output := by
  have htracks := Directory.tracks_new config system
  have hvacant : (new config system).Vacant config.outputUnit :=
    ⟨⟨[], htracks⟩, htracks.lookUp_eq _, htracks.closing_eq _⟩
  have hconnected : (new config system).predefine config.outputUnit 1 config.utf8 =
      ((new config system).withUnit config.outputUnit).setUnit 0
        ((ExternalUnit.new config.outputUnit config.readChunk).predefine 1 config.utf8) := by
    unfold Program.predefine
    rw [hvacant.lookUpOrCreate_eq]
    rfl
  rw [hconnected]
  exact ((spares_new config system).create hvacant (by simp)).1.occupy (by simp) hvacant.lookUp?_withUnit
    (differsAt_setUnit system) rfl (unit?_setUnit_self Nat.one_pos)

/-- If the unit for output is not the one of another stream as well, it is the only one on standard output;
else there is none. -/
theorem spares_started (config : Config) (system : System) :
    ∃ spared, (started config system).Spares spared (some config.outputUnit) system.output ∧
      ∀ x ∈ spared, x.number = config.outputUnit ∧ x.unit.Prints system system.output := by
  obtain ⟨spared₁, hsub₁, h₁⟩ := (spares_predefine_output config system).predefine config.inputUnit
    (.inl rfl) config.utf8
  obtain ⟨spared₂, hsub₂, h₂⟩ := h₁.predefine config.errorUnit (.inr rfl) config.utf8
  refine ⟨spared₂, h₂.withHook _, fun x hx => ?_⟩
  obtain rfl := Option.mem_some_iff.mp (hsub₁ x (hsub₂ x hx))
  exact ⟨rfl, ExternalUnit.prints_predefine _ _ _ system⟩

end Program

/-! ### The last action -/

namespace Act

variable {σ α : Type}

/-- The state that a computation leaves, whichever way it ends. -/
def after (act : Act σ α) (s : σ) : σ :=
  match act s with
  | .ok _ t => t
  | .error _ t => t

/-- The hook, counting how often it is run. -/
def counted (hook : Act σ Unit) : Act (σ × ℕ) Unit := do
  modify fun s => (s.1, s.2 + 1)
  hook.within Prod.fst fun s t => (t, s.2)

variable {act : Act σ α} {s t e : σ} {c c' : Crash} {hook : Act σ Unit}

theorem run_of_failure?_none (h : failure? act s = none) : ∃ a, act s = .ok a (act.after s) := by
  unfold failure? at h
  unfold after
  cases hrun : act s with
  | ok a t => exact ⟨a, rfl⟩
  | error c t => simp [hrun] at h

theorem run_of_failure?_some (h : failure? act s = some c) : act s = .error c (act.after s) := by
  unfold failure? at h
  unfold after
  cases hrun : act s with
  | ok a t => simp [hrun] at h
  | error c' t =>
    rw [hrun] at h
    exact congrArg (EStateM.Result.error · t) (Option.some.inj h)

theorem guarded_eq_crash (h : act s = .error c t) (hook : Act (Guarded σ) Unit) (crashing : Bool) :
    act.guarded hook { state := s, crashing } = Guarded.crash hook c { state := t, crashing } := by
  simp only [guarded, h]

theorem guarded_of_ok (h : act s = .error c t) (hhook : hook t = .ok () e)
    (inner : Act (Guarded σ) Unit) :
    act.guarded (hook.guarded inner) { state := s } = .error c { state := e } := by
  have hrun : hook.guarded inner { state := t, crashing := true } =
      .ok () { state := e, crashing := true } := by
    simp only [guarded, hhook]
  rw [guarded_eq_crash h, Guarded.crash_eq]
  exact bind_run_eq hrun

/-- Where the hook ends the program itself, that is how it ends. With the flag set, nothing is run before
that. -/
theorem guarded_of_error (h : act s = .error c t) (hhook : hook t = .error c' e)
    (inner : Act (Guarded σ) Unit) :
    act.guarded (hook.guarded inner) { state := s } = .error c' { state := e, crashing := true } := by
  have hrun : hook.guarded inner { state := t, crashing := true } =
      .error c' { state := e, crashing := true } := by
    rw [guarded_eq_crash hhook, Guarded.crash_crashing]
  rw [guarded_eq_crash h, Guarded.crash_eq]
  exact bind_run_error hrun

theorem withHook_of_ok (h : act s = .error c t) (hhook : hook t = .ok () e) :
    act.withHook hook s = .error c e := by
  have hguarded := guarded_of_ok h hhook (hook.asHook 0)
  unfold withHook
  rw [asHook, hguarded]

/-- The computation with a hook that is one also for its own terminations, so many of them deep. It counts
how often the hook is run. -/
def withCounted (act : Act σ α) (hook : Act σ Unit) (depth : ℕ) : Act (Guarded (σ × ℕ)) α :=
  (act.within Prod.fst fun s t => (t, s.2)).guarded (hook.counted.asHook (depth + 1))

theorem within_fst_of_error (h : act s = .error c t) (count : ℕ) :
    act.within Prod.fst (fun s t => (t, s.2)) (s, count) = .error c (t, count) := by
  simp only [within, h]

theorem withCounted_of_ok (h : act s = .error c t) (hhook : hook t = .ok () e) (depth : ℕ) :
    act.withCounted hook depth { state := (s, 0) } = .error c { state := (e, 1) } := by
  have hcounted : hook.counted (t, 0) = .ok () (e, 1) := by
    have hrun : hook.within Prod.fst (fun s t => (t, s.2)) (t, 1) = .ok () (e, 1) := by
      simp only [within, hhook]
    exact hrun
  exact guarded_of_ok (within_fst_of_error h 0) hcounted _

theorem withCounted_of_error (h : act s = .error c t) (hhook : hook t = .error c' e)
    (depth : ℕ) :
    act.withCounted hook depth { state := (s, 0) } = .error c' { state := (e, 1), crashing := true } := by
  have hcounted : hook.counted (t, 0) = .error c' (e, 1) := within_fst_of_error hhook 1
  exact guarded_of_error (within_fst_of_error h 0) hcounted _

end Act

namespace ProgramStep

variable {n : ℤ} {a b : Activity} {steps : List ProgramStep} {hook : Option ℤ} {output : Bytes}

/-- If no unit is connected to standard output, none comes to be. -/
theorem run_apart (h : a.program.Spares none hook output) (hemits : onlyEmits n steps a = true) :
    Ends (run steps) a (fun _ b => b.program.Spares none hook output) fun _ _ => True := by
  induction steps generalizing a with
  | nil => exact h
  | cons step steps ih =>
    rw [onlyEmits, Bool.and_eq_true, Bool.and_eq_true] at hemits
    obtain ⟨⟨hown, hstep⟩, hrest⟩ := hemits
    have hleaves : Ends step.perform a (fun _ b => a.Leaves none hook output b)
        fun _ b => b.program.Spares none hook output := by
      refine perform_leaves h hown ?_ (by simp)
      rintro rfl
      exact Bool.false_ne_true hstep
    rw [run_cons]
    unfold Ends at hleaves
    cases hrun : step.perform a with
    | error c b =>
      unfold Ends
      rw [bind_run_error hrun]
      trivial
    | ok _ b =>
      rw [hrun] at hleaves hrest
      unfold Ends
      rw [bind_run_eq hrun]
      exact ih hleaves.program hrest

/-- A program ends fatally in a statement on another unit than the one for standard output, which is still
connected there, and which no statement holds. Then all that WRITE statements have emitted on this unit,
complete records and what was left of a record that is not complete, is on standard output, once and in
order, when the last action is over. A last action that ends the program itself is not run again, and how
it ends is how the program ends. -/
theorem crash_delivers_output (config : Config) (system : System) {steps : List ProgramStep}
    {step : ProgramStep} {a b : Activity} {c : Crash} {u : ExternalUnit}
    (hemits : onlyEmits config.outputUnit steps { program := .started config system } = true)
    (hrun : run steps { program := .started config system } = .ok () a)
    (hown : step.isOwn = true) (hother : step.worksOn config.outputUnit a = false)
    (hcrash : step.perform a = .error c b)
    (hunit : b.program.numbered? config.outputUnit = some u)
    (hconnected : u.attachment.backing = some .standardOutput) (hfree : u.held = false) :
    (∃ e, Act.withHook (run (steps ++ [step])) (Activity.onProgram Program.lastAction)
        { program := .started config system } = .error c e ∧
      e.program.system.delivered =
        system.output ++ emitted config.outputUnit steps { program := .started config system }) ∧
    ∀ (hook : Act Activity Unit) (depth : ℕ),
      let ended := (run (steps ++ [step])).withCounted hook depth
        { state := ({ program := .started config system }, 0) }
      (∀ e, hook b = .ok () e → ended = .error c { state := (e, 1) }) ∧
      ∀ c' e, hook b = .error c' e → ended = .error c' { state := (e, 1), crashing := true } := by
  have hwhole : run (steps ++ [step]) { program := .started config system } = .error c b := by
    rw [run_append, bind_run_eq hrun]
    exact bind_run_error hcrash
  refine ⟨?_, fun hook depth => ⟨fun _ hhook => Act.withCounted_of_ok hwhole hhook depth,
    fun _ _ hhook => Act.withCounted_of_error hwhole hhook depth⟩⟩
  have hall : step ≠ .call .closeAll := by
    rintro rfl
    cases hother
  have hlast {spared : Option Place} {output : Bytes}
      (ha : a.program.Spares spared (some config.outputUnit) output)
      (hspared : ∀ x ∈ spared, x.number = config.outputUnit) :
      b.program.Spares spared (some config.outputUnit) output := by
    have hleaves := perform_leaves ha hown hall fun x hx => hspared x hx ▸ hother
    unfold Ends at hleaves
    rwa [hcrash] at hleaves
  obtain ⟨spared, hstart, hspared⟩ := Program.spares_started config system
  cases spared with
  | none =>
    -- Another stream has taken the unit, so nothing is connected to standard output.
    have hapart := run_apart (a := { program := .started config system }) hstart hemits
    have hb := hlast (hapart.of_run hrun) (by simp)
    obtain ⟨id, -, hid⟩ := Option.bind_eq_some_iff.mp hunit
    exact absurd hconnected (hb.apart id u (by simp) hid)
  | some x =>
    obtain ⟨number, id, unit⟩ := x
    obtain ⟨hnumber, hprints⟩ := hspared _ rfl
    dsimp only at hnumber hprints
    subst hnumber
    have hprinting : Activity.Printing ⟨config.outputUnit, id, unit⟩ system.output
        { program := .started config system } := by
      refine ⟨⟨?_, hprints.of_output hstart.output_eq⟩, 0, by simp⟩
      rw [hstart.output_eq]
      exact hstart
    obtain ⟨v, ha⟩ := Ends.of_run (hprinting.run_ends hemits) hrun
    have hb := ha.program.of_spares (hlast ha.program.spares (by simp))
    cases hb.numbered_eq.symm.trans hunit
    obtain ⟨_, q, hlastAction, hdelivered⟩ := (hb.lastAction hfree).exists_run
    have hhook : Activity.onProgram Program.lastAction b = .ok () { b with program := q } := by
      simp only [Activity.onProgram, Act.within, hlastAction]
    exact ⟨_, Act.withHook_of_ok hwhole hhook, hdelivered⟩

/-- A complete record, and a WRITE that does not advance. Then a WRITE begins on the unit for input. -/
def leftovers : List ProgramStep :=
  [.call (.begin_ 6 (.formatted .output) {}), .call (.item 0 (.outputText "ab")), .call (.finish 0),
    .call (.begin_ 6 (.formatted .output) {}), .call (.item 1 (.nonAdvancing true)),
    .call (.item 1 (.outputText "cd")), .call (.finish 1), .call (.begin_ 5 (.formatted .output) {})]

/-- It may not write there, and has no way to receive the error. -/
def refusedItem : ProgramStep := .call (.item 2 (.outputText "x"))

theorem run_leftovers : ∃ a b c u, run leftovers { program := .started {} {} } = .ok () a ∧
    refusedItem.worksOn 6 a = false ∧ refusedItem.perform a = .error c b ∧
    b.program.system.delivered = [97, 98, 10] ∧ b.program.numbered? 6 = some u ∧
    u.attachment.backing = some .standardOutput ∧ u.held = false := by
  have hnone : failure? (run leftovers) { program := .started {} {} } = none := by decide +kernel
  obtain ⟨_, hrun⟩ := Act.run_of_failure?_none hnone
  generalize ha : (run leftovers).after { program := .started {} {} } = a at hrun
  obtain ⟨c, hfailure⟩ : ∃ c, failure? refusedItem.perform a = some c := by
    subst ha
    exact Option.isSome_iff_exists.mp (by decide +kernel)
  obtain ⟨u, hunit, hfree⟩ : ∃ u, (refusedItem.perform.after a).program.numbered? 6 = some u ∧
      decide (u.attachment.backing = some .standardOutput ∧ u.held = false) = true := by
    subst ha
    exact (Option.any_eq_true _ _).mp (by decide +kernel)
  refine ⟨a, _, c, u, hrun, ?_, Act.run_of_failure?_some hfailure, ?_, hunit, of_decide_eq_true hfree⟩
  · subst ha
    decide +kernel
  · subst ha
    decide +kernel

/-- The rest of a record that is not complete is there as well when the last action is over. -/
theorem crash_delivers_partial_record :
    ∃ a b c, run leftovers { program := .started {} {} } = .ok () a ∧
      refusedItem.perform a = .error c b ∧ b.program.system.delivered = [97, 98, 10] ∧
      ∃ e, Act.withHook (run (leftovers ++ [refusedItem])) (Activity.onProgram Program.lastAction)
          { program := .started {} {} } = .error c e ∧
        e.program.system.delivered = [97, 98, 10, 99, 100] := by
  obtain ⟨a, b, c, u, hrun, hother, hcrash, houtput, hunit, hconnected, hfree⟩ := run_leftovers
  have hemits : onlyEmits 6 leftovers { program := .started {} {} } = true := by decide +kernel
  have hemitted : emitted 6 leftovers { program := .started {} {} } = [97, 98, 10, 99, 100] := by
    decide +kernel
  obtain ⟨⟨e, hend, hdelivered⟩, -⟩ :=
    crash_delivers_output {} {} hemits hrun rfl hother hcrash hunit hconnected hfree
  refine ⟨a, b, c, hrun, hcrash, houtput, e, hend, ?_⟩
  rw [hdelivered, hemitted]
  rfl

end ProgramStep

end DataTransfer
