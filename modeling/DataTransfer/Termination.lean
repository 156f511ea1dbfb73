import DataTransfer.Field.Source

/-!
Fatal termination with a last action, such as writing out what is still buffered. A flag tells that a
termination is in progress, so that one within the last action does not run it again.
-/

namespace DataTransfer

/-- A state, with the flag that a termination is in progress. -/
structure Guarded (σ : Type) where
  state : σ
  crashing : Bool := false

/-- Ends the program, and before that runs `hook` unless a termination is in progress. Where the hook
ends the program itself, that is how it ends, and the flag stays set. -/
def Guarded.crash {σ α : Type} (hook : Act (Guarded σ) Unit) (c : Crash) : Act (Guarded σ) α := do
  let crashing := (← get).crashing
  modify fun g => { g with crashing := true }
  if !crashing then
    hook
    modify fun g => { g with crashing := false }
  throw c

theorem Guarded.crash_eq {σ α : Type} (hook : Act (Guarded σ) Unit) (c : Crash) (s : σ) :
    @Guarded.crash σ α hook c { state := s } =
      (hook >>= fun _ => modify (fun g => { g with crashing := false }) >>= fun _ => throw c)
        { state := s, crashing := true } := rfl

theorem Guarded.crash_crashing {σ α : Type} (hook : Act (Guarded σ) Unit) (c : Crash) (s : σ) :
    @Guarded.crash σ α hook c { state := s, crashing := true } =
      .error c { state := s, crashing := true } := rfl

namespace Act

variable {σ τ α : Type}

/-- The computation, all of whose terminations run `hook`. -/
def guarded (act : Act σ α) (hook : Act (Guarded σ) Unit) : Act (Guarded σ) α := fun g =>
  match act g.state with
  | .ok a s => .ok a { g with state := s }
  | .error c s => Guarded.crash hook c { g with state := s }

/-- The last action as a hook of its own terminations, so many of them deep. -/
def asHook (hook : Act σ Unit) : (depth : Nat) → Act (Guarded σ) Unit
  | 0 => pure ()
  | depth + 1 => hook.guarded (asHook hook depth)

/-- Runs `hook` if `act` ends the program. -/
def withHook (act : Act σ α) (hook : Act σ Unit) : Act σ α := fun s =>
  match act.guarded (hook.asHook 1) { state := s } with
  | .ok a g => .ok a g.state
  | .error c g => .error c g.state

/-- The state of a part as the state of a whole: the part is taken out, and put back however the
computation ends. -/
def within (part : σ → τ) (put : σ → τ → σ) (act : Act τ α) : Act σ α := fun s =>
  match act (part s) with
  | .ok a t => .ok a (put s t)
  | .error c t => .error c (put s t)

end Act

end DataTransfer
