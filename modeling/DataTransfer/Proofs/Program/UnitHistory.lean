import Mathlib
import DataTransfer.Proofs.Program.Numbering
import DataTransfer.Proofs.Program.Units
import DataTransfer.Proofs.Unit.Opening

/-!
The directory of units against its history. What was asked of the directory, with what it answered,
tells which unit a number has and which one is being closed; the buckets and the closing list, where
units collide and change places, say the same after any sequence of operations.
-/

namespace DataTransfer

namespace Session

/-- A CLOSE that keeps the file always comes to an end, whether or not the output can be written. -/
theorem closeKeeping_completes (s : Session) :
    Completes Program.closeKeeping s fun _ _ => True := by
  have hdisconnect (t : Session) : Attempts (disconnect .keep) t
      (fun _ u => u.handler = t.handler ∧ u.unit.statement = t.unit.statement)
      fun _ u => u.handler = t.handler ∧ u.unit.statement = t.unit.statement := by
    have hflush : Succeeds (ExceptT.lift flush.run : Attempt Session (Except Fault Unit)) t
        fun _ u => ∃ w, u = t.withChannel w := by
      refine Ends.bind flush_attempts ?_
      rintro r u hr
      cases r with
      | ok _ => exact hr.imp fun w hw => hw.1
      | error _ => exact hr.imp fun w hw => hw.1
    refine Attempts.bind hflush.attempts ?_
    rintro flushed _ ⟨w, rfl⟩
    refine Attempts.bind ((attached_attempts (Channel.detach_keep_ends _)).mono (fun _ _ => id) ?_) ?_
    · rintro _ _ ⟨_, hfalse, -⟩
      exact hfalse.elim
    rintro _ _ ⟨d, -, rfl⟩
    refine Attempts.bind (modifyUnit_succeeds _).attempts ?_
    rintro _ _ rfl
    cases flushed <;> exact ⟨rfl, rfl⟩
  let begun : Session :=
    { s with
      unit := { s.unit with held := true, statement := .disconnect }
      handler := { declared := { iostat := true } }
      items := 0 }
  have hclose : Completes (closeUnit .keep) begun fun _ u => u.unit.statement = .disconnect := by
    refine report_completes ((hdisconnect begun).mono (fun _ _ => And.right) ?_)
    rintro f u ⟨hhandler, hstatement⟩
    obtain ⟨handler, hfault, -⟩ := Handler.fault_received (h := u.handler) f (by rw [hhandler]; rfl)
    exact ⟨handler, hfault, hstatement⟩
  have hbegin : Completes (begin_ .disconnect {}) s fun _ t => t = { begun with handler := {} } := rfl
  refine hbegin.bind ?_
  rintro _ _ rfl
  have hdeclare : Completes (declare { iostat := true }) { begun with handler := {} }
      fun _ t => t = begun := rfl
  refine hdeclare.bind ?_
  rintro _ _ rfl
  refine hclose.discard.bind ?_
  rintro _ u ⟨-, hu⟩
  exact (finish_of_not_transfer (by rw [hu]; rfl)).mono (fun _ _ _ => trivial) fun _ _ => id

end Session

namespace Program

variable {p q : Program} {n : ℤ} {id : ℕ}

def closing? (p : Program) (n : ℤ) : Option ℕ := (p.directory.findClosing? n).map (·.id)

section

variable (h : p.directory.Numbering)
include h

theorem lookUp?_eq_some_iff : p.lookUp? n = some id ↔ ⟨n, id⟩ ∈ p.directory.live := by
  have hlookup : p.lookUp? n = (p.directory.find? n).map (·.id) := rfl
  rw [hlookup, Option.map_eq_some_iff]
  refine ⟨?_, fun hlive => ⟨_, h.find?_eq_some_iff.mpr ⟨hlive, rfl⟩, rfl⟩⟩
  rintro ⟨e, hfind, rfl⟩
  obtain ⟨hlive, rfl⟩ := h.find?_eq_some_iff.mp hfind
  exact hlive

theorem closing?_eq_some_iff : p.closing? n = some id ↔ ⟨n, id⟩ ∈ p.directory.closing := by
  rw [closing?, Option.map_eq_some_iff]
  refine ⟨?_, fun hclosing => ⟨_, h.findClosing?_eq_some_iff.mpr ⟨hclosing, rfl⟩, rfl⟩⟩
  rintro ⟨e, hfind, rfl⟩
  obtain ⟨hclosing, rfl⟩ := h.findClosing?_eq_some_iff.mp hfind
  exact hclosing

theorem lookUp?_eq {f : ℤ → Option ℕ}
    (hf : ∀ m j, (⟨m, j⟩ : Entry) ∈ p.directory.live ↔ f m = some j) (m : ℤ) : p.lookUp? m = f m :=
  Option.ext fun j => (lookUp?_eq_some_iff h).trans (hf m j)

theorem closing?_eq {f : ℤ → Option ℕ}
    (hf : ∀ m j, (⟨m, j⟩ : Entry) ∈ p.directory.closing ↔ f m = some j) (m : ℤ) :
    p.closing? m = f m :=
  Option.ext fun j => (closing?_eq_some_iff h).trans (hf m j)

theorem size_eq_ncard : p.size = {n | (p.lookUp? n).isSome = true}.ncard := by
  have hset : {n | (p.lookUp? n).isSome = true} =
      ((p.directory.live.map (·.number)).toFinset : Set ℤ) := by
    ext n
    simp only [Set.mem_ofPred_eq, Option.isSome_iff_exists, lookUp?_eq_some_iff h, List.coe_toFinset,
      List.mem_map]
    refine ⟨fun ⟨id, hid⟩ => ⟨_, hid, rfl⟩, ?_⟩
    rintro ⟨e, he, rfl⟩
    exact ⟨e.id, he⟩
  have hnumbers := h.numbers
  rw [Directory.numbered, List.map_append] at hnumbers
  rw [hset, Set.ncard_coe_finset, List.toFinset_card_of_nodup (List.nodup_append.mp hnumbers).1,
    List.length_map]
  rfl

end

theorem onUnit_closeKeeping_completes (hid : id < p.units.length) :
    Completes (onUnit id {} 0 closeKeeping) p fun _ q => p.DiffersAt q id := by
  obtain ⟨u, hunit⟩ : ∃ u, p.unit? id = some u := ⟨_, List.getElem?_eq_getElem hid⟩
  obtain ⟨status, t, hrun, -⟩ :=
    (Session.closeKeeping_completes { system := p.system, unit := u }).exists_run
  unfold Completes Ends onUnit
  simp only [hunit, hrun]
  exact differsAt_setUnit t.system

/-- All live units have left the directory; they are closed one after another, and other units stay as
they are. -/
theorem closeAll_completes (hknown : ∀ e ∈ p.directory.live, e.id < p.units.length) :
    Completes closeAll p fun _ q => q.directory = p.directory.takeAll.2 ∧
      q.units.length = p.units.length ∧
      ∀ id, (∀ e ∈ p.directory.live, e.id ≠ id) → q.unit? id = p.unit? id := by
  have hloop (es : List Entry) (r : Program) (hes : ∀ e ∈ es, e.id < r.units.length) :
      Completes (do for e in es do discard (onUnit e.id {} 0 closeKeeping)) r fun _ q =>
        q.directory = r.directory ∧ q.units.length = r.units.length ∧
          ∀ id, (∀ e ∈ es, e.id ≠ id) → q.unit? id = r.unit? id := by
    induction es generalizing r with
    | nil => exact ⟨rfl, rfl, fun _ _ => rfl⟩
    | cons e es ih =>
      simp only [List.forIn_cons, bind_assoc]
      refine (onUnit_closeKeeping_completes (hes e List.mem_cons_self)).discard.bind ?_
      rintro _ r' ⟨-, hr'⟩
      refine (ih r' fun x hx => ?_).mono ?_ fun _ _ => id
      · rw [hr'.length_eq]
        exact hes x (List.mem_cons_of_mem _ hx)
      rintro _ q ⟨hdirectory, hlength, hunits⟩
      refine ⟨hdirectory.trans hr'.directory_eq, hlength.trans hr'.length_eq, fun id hid => ?_⟩
      rw [hunits id fun x hx => hid x (List.mem_cons_of_mem _ hx)]
      exact hr'.unit_eq id (hid e List.mem_cons_self).symm
  refine (ends_get _).mpr ((ends_set_bind _ _).mpr ?_)
  exact hloop p.directory.live { p with directory := p.directory.takeAll.2 } hknown

end Program

/-! ### Histories -/

namespace Directory

inductive Operation where
  | lookUp (n : ℤ)
  | lookUpOrCreate (n : ℤ)
  | takeForClose (n : ℤ)
  | destroyClosed (id : ℕ)
  | closeAll
  | newUnit
  | size
  /-- Statements have worked on a unit and are over; they have left it, and the system, like this. -/
  | work (id : ℕ) (unit : ExternalUnit) (system : System)

inductive Answer where
  | unit (id? : Option ℕ)
  | search (found : Program.Found)
  | number (n : ℤ)
  | count (k : ℕ)
  | done
  deriving DecidableEq

/-- What was asked of a directory, and what it answered. Histories have the last event first. -/
abbrev Event := Operation × Answer

/-- The unit that was last created under the number, if it has not been taken out since. -/
def liveUnit? (n : ℤ) : List Event → Option ℕ
  | [] => none
  | (.lookUpOrCreate m, .search (.created id)) :: past => if m = n then some id else liveUnit? n past
  | (.takeForClose m, _) :: past => if m = n then none else liveUnit? n past
  | (.closeAll, _) :: _ => none
  | _ :: past => liveUnit? n past

/-- The unit that was last taken out under the number to be closed, if it is not destroyed yet. -/
def closingUnit? (n : ℤ) : List Event → Option ℕ
  | [] => none
  | (.takeForClose m, .unit (some id)) :: past => if m = n then some id else closingUnit? n past
  | (.destroyClosed id, _) :: past =>
    if closingUnit? n past = some id then none else closingUnit? n past
  | _ :: past => closingUnit? n past

namespace Operation

def perform : Operation → Act Program Answer
  | .lookUp n => do return .unit ((← get).lookUp? n)
  | .lookUpOrCreate n => do
    let (found, p) := (← get).lookUpOrCreate n
    set p
    return .search found
  | .takeForClose n => do
    let (id?, p) := (← get).takeForClose n
    set p
    return .unit id?
  | .destroyClosed id => do
    modify (·.destroyClosed id)
    return .done
  | .closeAll => do
    Program.closeAll
    return .done
  | .newUnit => do
    let (n, p) := (← get).newUnit
    set p
    return .number n
  | .size => do return .count (← get).size
  | .work id unit system => do
    modify fun p => { p with system }.setUnit id (Session.release unit)
    return .done

/-- The answer that the history requires. A unit that is created is another one than all before it. -/
def Expects (past : List Event) : Operation → Answer → Prop
  | .lookUp n, answer => answer = .unit (liveUnit? n past)
  | .lookUpOrCreate n, answer =>
    match liveUnit? n past, closingUnit? n past with
    | some id, _ => answer = .search (.live id)
    | none, some _ => answer = .search .waiting
    | none, none =>
      ∃ id, answer = .search (.created id) ∧ ∀ event ∈ past, event.2 ≠ .search (.created id)
  | .takeForClose n, answer => answer = .unit (liveUnit? n past)
  | .size, answer => answer = .count {n | (liveUnit? n past).isSome = true}.ncard
  | _, _ => True

def Concerns (past : List Event) : Operation → ℤ → Prop
  | .lookUpOrCreate n, m => m = n
  | .takeForClose n, m => m = n
  | .destroyClosed id, m => closingUnit? m past = some id
  | .closeAll, m => (liveUnit? m past).isSome = true
  | _, _ => False

/-- The operation may change what this unit is connected to, or does. -/
def WorksOn (past : List Event) : Operation → ℕ → Prop
  | .closeAll, id => ∃ n, liveUnit? n past = some id
  | .work unit _ _, id => id = unit
  | _, _ => False

end Operation

structure Tracks (past : List Event) (p : Program) : Prop where
  numbering : p.directory.Numbering
  known : ∀ e ∈ p.directory.numbered, e.id < p.units.length
  made : ∀ event ∈ past, ∀ id, event.2 = .search (.created id) → id < p.units.length
  lookUp_eq : ∀ n, p.lookUp? n = liveUnit? n past
  closing_eq : ∀ n, p.closing? n = closingUnit? n past

structure Step (past : List Event) (p : Program) (op : Operation) (answer : Answer) (q : Program) :
    Prop where
  expected : op.Expects past answer
  tracks : Tracks ((op, answer) :: past) q
  /-- Other numbers keep their units. -/
  numbers_kept : ∀ m, ¬op.Concerns past m → q.lookUp? m = p.lookUp? m ∧ q.closing? m = p.closing? m
  /-- Other units stay as they are. -/
  units_kept : ∀ id u, ¬op.WorksOn past id → p.unit? id = some u → q.unit? id = some u
  /-- A search that creates a unit makes an unconnected one of this number. -/
  created : ∀ n id, op = .lookUpOrCreate n → answer = .search (.created id) →
    p.unit? id = none ∧ q.unit? id = some (.new n p.readChunk)
  /-- A search that has to wait leaves everything as it is, so that it can be repeated. -/
  waiting : answer = .search .waiting → q = p
  /-- Only that very unit is destroyed. -/
  destroyed : ∀ id, op = .destroyClosed id →
    q.directory.live = p.directory.live ∧ q.directory.closing = p.directory.closing.filter (·.id ≠ id)

section

variable {past : List Event} {p q : Program} {op : Operation} {answer : Answer} {m : ℤ}

theorem liveUnit?_cons (h : ¬op.Concerns past m) :
    liveUnit? m ((op, answer) :: past) = liveUnit? m past := by
  cases op with
  | lookUpOrCreate n =>
    rcases answer with _ | (_ | _ | _) | _ | _ | _ <;> try rfl
    exact if_neg fun heq => h heq.symm
  | takeForClose n => exact if_neg fun heq => h heq.symm
  | closeAll => exact (Option.not_isSome_iff_eq_none.mp h).symm
  | _ => rfl

theorem closingUnit?_cons (h : ¬op.Concerns past m) :
    closingUnit? m ((op, answer) :: past) = closingUnit? m past := by
  cases op with
  | takeForClose n =>
    rcases answer with (_ | _) | _ | _ | _ | _ <;> try rfl
    exact if_neg fun heq => h heq.symm
  | destroyClosed id => exact if_neg h
  | _ => rfl

namespace Tracks

variable (h : Tracks past p)
include h

theorem live_iff {id : ℕ} : ⟨m, id⟩ ∈ p.directory.live ↔ liveUnit? m past = some id := by
  rw [← h.lookUp_eq, Program.lookUp?_eq_some_iff h.numbering]

theorem closing_iff {id : ℕ} : ⟨m, id⟩ ∈ p.directory.closing ↔ closingUnit? m past = some id := by
  rw [← h.closing_eq, Program.closing?_eq_some_iff h.numbering]

/-- The history goes on. Only a search makes units. -/
theorem next (hnumbering : q.directory.Numbering)
    (hknown : ∀ e ∈ q.directory.numbered, e.id < q.units.length)
    (hlength : p.units.length ≤ q.units.length)
    (hmade : ∀ id, answer = .search (.created id) → id < q.units.length)
    (hlive : ∀ m j, ⟨m, j⟩ ∈ q.directory.live ↔ liveUnit? m ((op, answer) :: past) = some j)
    (hclosing : ∀ m j, ⟨m, j⟩ ∈ q.directory.closing ↔
      closingUnit? m ((op, answer) :: past) = some j) : Tracks ((op, answer) :: past) q where
  numbering := hnumbering
  known := hknown
  made := by
    rintro event (_ | ⟨_, hevent⟩) id heq
    · exact hmade id heq
    · exact (h.made event hevent id heq).trans_le hlength
  lookUp_eq := Program.lookUp?_eq hnumbering hlive
  closing_eq := Program.closing?_eq hnumbering hclosing

theorem idle (hop : ∀ m, ¬op.Concerns past m) (hanswer : ∀ id, answer ≠ .search (.created id))
    (hnumbering : q.directory.Numbering) (hlive : q.directory.live = p.directory.live)
    (hclosing : q.directory.closing = p.directory.closing)
    (hlength : q.units.length = p.units.length) : Tracks ((op, answer) :: past) q := by
  refine h.next hnumbering ?_ hlength.ge (fun id heq => absurd heq (hanswer id)) ?_ ?_
  · rw [hlength, numbered, hlive, hclosing]
    exact h.known
  · intro m j
    rw [hlive, liveUnit?_cons (hop m)]
    exact h.live_iff
  · intro m j
    rw [hclosing, closingUnit?_cons (hop m)]
    exact h.closing_iff

theorem step (htracks : Tracks ((op, answer) :: past) q) (hexpected : op.Expects past answer)
    (hunits : ∀ id u, ¬op.WorksOn past id → p.unit? id = some u → q.unit? id = some u)
    (hcreated : ∀ n id, op = .lookUpOrCreate n → answer = .search (.created id) →
      p.unit? id = none ∧ q.unit? id = some (.new n p.readChunk))
    (hwaiting : answer = .search .waiting → q = p)
    (hdestroyed : ∀ id, op = .destroyClosed id → q.directory.live = p.directory.live ∧
      q.directory.closing = p.directory.closing.filter (·.id ≠ id)) :
    Step past p op answer q := by
  refine ⟨hexpected, htracks, fun m hm => ⟨?_, ?_⟩, hunits, hcreated, hwaiting, hdestroyed⟩
  · rw [htracks.lookUp_eq, h.lookUp_eq, liveUnit?_cons hm]
  · rw [htracks.closing_eq, h.closing_eq, closingUnit?_cons hm]

theorem quiet (htracks : Tracks ((op, answer) :: past) q) (hexpected : op.Expects past answer)
    (hunits : ∀ id u, ¬op.WorksOn past id → p.unit? id = some u → q.unit? id = some u)
    (hanswer : ∀ found, answer ≠ .search found) (hop : ∀ id, op ≠ .destroyClosed id) :
    Step past p op answer q :=
  h.step htracks hexpected hunits (fun _ _ _ heq => absurd heq (hanswer _))
    (fun heq => absurd heq (hanswer _)) fun id heq => absurd heq (hop id)

/-! ### The operations -/

theorem create {n : ℤ} (hlive : liveUnit? n past = none) (hclosing : closingUnit? n past = none) :
    Step past p (.lookUpOrCreate n) (.search (.created p.units.length))
      { (p.addUnit (.new n p.readChunk)).2 with
        directory := p.directory.insert { number := n, id := p.units.length } } := by
  have hfree : ∀ x ∈ p.directory.numbered, x.number ≠ n := by
    rintro ⟨m, j⟩ hx rfl
    rcases List.mem_append.mp hx with hx | hx
    · cases hlive.symm.trans (h.live_iff.mp hx)
    · cases hclosing.symm.trans (h.closing_iff.mp hx)
  have hperm := live_insert_perm (d := p.directory) (e := ⟨n, p.units.length⟩)
    (h.numbering.bucket_lt n)
  have hlength : (p.units ++ [ExternalUnit.new n p.readChunk]).length = p.units.length + 1 := by simp
  have htracks : Tracks ((.lookUpOrCreate n, .search (.created p.units.length)) :: past)
      { (p.addUnit (.new n p.readChunk)).2 with
        directory := p.directory.insert { number := n, id := p.units.length } } := by
    refine h.next (h.numbering.insert hfree fun x hx => (h.known x hx).ne) ?_
      (by simp [Program.addUnit]) ?_ ?_ fun _ _ => h.closing_iff
    · intro e he
      change e.id < (p.units ++ [ExternalUnit.new n p.readChunk]).length
      rw [hlength]
      rcases List.mem_append.mp he with he | he
      · rcases List.mem_cons.mp (hperm.mem_iff.mp he) with rfl | he
        · exact Nat.lt_succ_self _
        · exact (h.known e (List.mem_append_left _ he)).trans (Nat.lt_succ_self _)
      · exact (h.known e (List.mem_append_right _ he)).trans (Nat.lt_succ_self _)
    · rintro _ ⟨⟩
      simp [Program.addUnit]
    · intro m j
      refine (hperm.mem_iff.trans List.mem_cons).trans ?_
      simp only [liveUnit?, Entry.mk.injEq]
      split_ifs with hm
      · subst hm
        simp [h.live_iff, hlive, eq_comm]
      · simp [h.live_iff, Ne.symm hm]
  refine h.step htracks ?_ ?_ ?_ nofun nofun
  · simp only [Operation.Expects, hlive, hclosing]
    exact ⟨_, rfl, fun event hevent heq => (h.made event hevent _ heq).ne rfl⟩
  · intro id u _ hu
    exact (List.getElem?_append_left (List.getElem?_eq_some_iff.mp hu).1).trans hu
  · rintro _ _ ⟨⟩ ⟨⟩
    simp [Program.unit?, Program.addUnit]

theorem lookUpOrCreate (n : ℤ) : Completes (Operation.lookUpOrCreate n).perform p
    (Step past p (.lookUpOrCreate n)) := by
  refine (ends_get _).mpr ?_
  unfold Program.lookUpOrCreate
  cases hlookup : p.lookUp? n with
  | some id =>
    have hlive := (h.lookUp_eq n).symm.trans hlookup
    have htracks : Tracks ((.lookUpOrCreate n, .search (.live id)) :: past) p :=
      h.next h.numbering h.known le_rfl nofun (fun _ _ => h.live_iff) fun _ _ => h.closing_iff
    refine h.step htracks ?_ (fun _ _ _ hu => hu) nofun nofun nofun
    simp only [Operation.Expects, hlive]
  | none =>
    have hlive := (h.lookUp_eq n).symm.trans hlookup
    dsimp only
    split_ifs with hclosing
    · obtain ⟨id, hid⟩ : ∃ id, closingUnit? n past = some id := by
        rw [← h.closing_eq, Program.closing?]
        exact Option.isSome_iff_exists.mp (by simpa using isClosing_iff.mp hclosing)
      have htracks : Tracks ((.lookUpOrCreate n, .search .waiting) :: past) p :=
        h.next h.numbering h.known le_rfl nofun (fun _ _ => h.live_iff) fun _ _ => h.closing_iff
      refine h.step htracks ?_ (fun _ _ _ hu => hu) nofun (fun _ => rfl) nofun
      simp only [Operation.Expects, hlive, hid]
    · refine h.create hlive ?_
      rw [← h.closing_eq, Program.closing?]
      simpa using mt isClosing_iff.mpr hclosing

theorem take {id : ℕ} {directory : Directory}
    (htake : p.directory.takeForClose m = some (⟨m, id⟩, directory)) :
    Step past p (.takeForClose m) (.unit (some id)) { p with directory } := by
  obtain ⟨hperm, -⟩ := live_takeForClose htake
  obtain ⟨hnumbering, hclosing⟩ := h.numbering.takeForClose htake
  have hlive : liveUnit? m past = some id :=
    h.live_iff.mp (hperm.mem_iff.mpr List.mem_cons_self)
  -- The number has no other unit, so none is left that is live.
  have hgone (j : ℕ) : ⟨m, j⟩ ∉ directory.live := by
    intro hj
    have hnumbers := h.numbering.numbers
    rw [numbered, List.map_append] at hnumbers
    have hlive := (hperm.map (·.number)).nodup_iff.mp (List.nodup_append.mp hnumbers).1
    exact (List.nodup_cons.mp hlive).1 (List.mem_map.mpr ⟨_, hj, rfl⟩)
  have htracks : Tracks ((.takeForClose m, .unit (some id)) :: past) { p with directory } := by
    refine h.next hnumbering ?_ le_rfl (by simp) ?_ ?_
    · intro e he
      rcases List.mem_append.mp he with he | he
      · exact h.known e (List.mem_append_left _ (hperm.mem_iff.mpr (List.mem_cons_of_mem _ he)))
      · change e ∈ directory.closing at he
        rw [hclosing, List.mem_append, List.mem_singleton] at he
        rcases he with he | rfl
        · exact h.known e (List.mem_append_right _ he)
        · exact h.known _ (List.mem_append_left _ (hperm.mem_iff.mpr List.mem_cons_self))
    · intro k j
      change _ ∈ directory.live ↔ _
      rw [liveUnit?]
      split_ifs with hk
      · subst hk
        simp [hgone]
      · simp [← h.live_iff, hperm.mem_iff, Ne.symm hk]
    · intro k j
      rw [hclosing, closingUnit?, List.mem_append, List.mem_singleton, h.closing_iff]
      split_ifs with hk
      · subst hk
        have hnone : closingUnit? m past = none := by
          rw [← h.closing_eq, Program.closing?, h.numbering.findClosing?_eq_none
            (hperm.mem_iff.mpr List.mem_cons_self)]
          rfl
        simp [hnone, eq_comm]
      · simp [Ne.symm hk]
  exact h.quiet htracks (congrArg Answer.unit hlive.symm) (fun _ _ _ hu => hu) (by simp) (by simp)

theorem takeForClose (n : ℤ) : Completes (Operation.takeForClose n).perform p
    (Step past p (.takeForClose n)) := by
  refine (ends_get _).mpr ?_
  unfold Program.takeForClose
  cases htake : p.directory.takeForClose n with
  | none =>
    have hlive : liveUnit? n past = none := by
      rw [← h.lookUp_eq, Program.lookUp?, takeForClose_eq_none htake]
      rfl
    have htracks : Tracks ((.takeForClose n, .unit none) :: past) p := by
      refine h.next h.numbering h.known le_rfl (by simp) (fun m j => ?_) fun _ _ => h.closing_iff
      rw [h.live_iff, liveUnit?]
      split_ifs with hm
      · simp [← hm, hlive]
      · rfl
    exact h.quiet htracks (congrArg Answer.unit hlive.symm) (fun _ _ _ hu => hu) (by simp) (by simp)
  | some taken =>
    obtain ⟨⟨m, id⟩, directory⟩ := taken
    obtain rfl : m = n := number_of_find? (live_takeForClose htake).2
    exact h.take htake

theorem destroyClosed (id : ℕ) : Completes (Operation.destroyClosed id).perform p
    (Step past p (.destroyClosed id)) := by
  have hclosing := h.numbering.closing_destroyClosed id
  have htracks : Tracks ((.destroyClosed id, .done) :: past) (p.destroyClosed id) := by
    refine h.next (h.numbering.destroyClosed id) ?_ le_rfl nofun (fun _ _ => h.live_iff) ?_
    · intro e he
      refine h.known e ((List.Sublist.append_left List.eraseP_sublist _).subset he)
    · intro m j
      change _ ∈ (p.directory.destroyClosed id).closing ↔ _
      rw [hclosing, List.mem_filter, h.closing_iff, closingUnit?]
      split_ifs with hm
      · rw [hm, Option.some.injEq]
        simp only [decide_eq_true_eq, iff_false, not_and, not_not]
        exact Eq.symm
      · simp only [decide_eq_true_eq, and_iff_left_iff_imp]
        rintro hj rfl
        exact hm hj
  refine (ends_modify_bind _ _).mpr ?_
  refine h.step htracks trivial (fun _ _ _ hu => hu) nofun nofun ?_
  rintro _ ⟨⟩
  exact ⟨rfl, hclosing⟩

theorem closeAll : Completes Operation.closeAll.perform p (Step past p .closeAll) := by
  refine Ends.bind (Program.closeAll_completes fun e he => h.known e (List.mem_append_left _ he)) ?_
  rintro _ q ⟨hdirectory, hlength, hunits⟩
  have hnumbered : q.directory.numbered = p.directory.closing := by
    rw [hdirectory, numbered, live_takeAll]
    rfl
  have htracks : Tracks ((.closeAll, .done) :: past) q := by
    refine h.next (hdirectory ▸ h.numbering.takeAll) ?_ hlength.ge (by simp) ?_ ?_
    · rw [hnumbered, hlength]
      exact fun e he => h.known e (List.mem_append_right _ he)
    · intro m j
      rw [hdirectory, live_takeAll]
      simp [liveUnit?]
    · intro m j
      rw [hdirectory]
      exact h.closing_iff
  refine h.quiet htracks trivial (fun id u hid hu => ?_) (by simp) (by simp)
  rw [hunits id, hu]
  rintro ⟨n, j⟩ he rfl
  exact hid ⟨n, h.live_iff.mp he⟩

theorem perform (op : Operation) : Completes op.perform p (Step past p op) := by
  cases op with
  | lookUp n =>
    refine h.quiet (h.idle (fun _ => id) (by simp) h.numbering rfl rfl rfl) ?_ (fun _ _ _ hu => hu)
      (by simp) (by simp)
    exact congrArg Answer.unit (h.lookUp_eq n)
  | lookUpOrCreate n => exact h.lookUpOrCreate n
  | takeForClose n => exact h.takeForClose n
  | destroyClosed id => exact h.destroyClosed id
  | closeAll => exact h.closeAll
  | newUnit =>
    have hnumbering : p.newUnit.2.directory.Numbering :=
      h.numbering.shrink rfl h.numbering.bucketed (List.Subperm.refl _)
    exact h.quiet (h.idle (fun _ => id) (by simp) hnumbering rfl rfl rfl) trivial
      (fun _ _ _ hu => hu) (by simp) (by simp)
  | size =>
    refine h.quiet (h.idle (fun _ => id) (by simp) h.numbering rfl rfl rfl) ?_ (fun _ _ _ hu => hu)
      (by simp) (by simp)
    refine congrArg Answer.count ((Program.size_eq_ncard h.numbering).trans ?_)
    simp only [h.lookUp_eq]
  | work unit u system =>
    refine h.quiet (h.idle (fun _ => id) (by simp) h.numbering rfl rfl Program.setUnit_length)
      trivial ?_ (by simp) (by simp)
    intro id v hid hv
    exact (Program.unit?_setUnit_ne hid).trans hv

end Tracks

end

def run (past : List Event) : List Operation → Act Program (List Event)
  | [] => return past
  | op :: ops => do
    let answer ← op.perform
    run ((op, answer) :: past) ops

theorem Tracks.run {past : List Event} {p : Program} (h : Tracks past p) (ops : List Operation) :
    Completes (run past ops) p Tracks := by
  induction ops generalizing past p with
  | nil => exact h
  | cons op ops ih => exact (h.perform op).bind fun _ _ hstep => ih hstep.tracks

theorem tracks_new (config : Config) (system : System) : Tracks [] (.new config system) := by
  have hnumbering : (Program.new config system).directory.Numbering :=
    numbering_empty config.buckets config.newUnitBase
  have hnumbered : (Program.new config system).directory.numbered = [] := by
    simp [Program.new, empty, numbered, live]
  obtain ⟨hlive, hclosing⟩ := List.append_eq_nil_iff.mp hnumbered
  refine ⟨hnumbering, by simp [hnumbered], by simp, ?_, ?_⟩
  · exact Program.lookUp?_eq hnumbering fun m j => by simp [hlive, liveUnit?]
  · exact Program.closing?_eq hnumbering fun m j => by simp [hclosing, closingUnit?]

/-- After any operations, whatever statements do in between, no number occurs twice among the live
units and those that are being closed, live units stand in the buckets of their numbers, and searches
find what the history tells; and every further operation answers and leaves what it requires. -/
theorem follows_history (config : Config) (system : System) (ops : List Operation) :
    Completes (run [] ops) (Program.new config system) fun past p =>
      Tracks past p ∧ ∀ op : Operation, Completes op.perform p (Step past p op) :=
  ((tracks_new config system).run ops).mono (fun _ _ h => ⟨h, h.perform⟩) fun _ _ => id

/-- Units 1 and -3 share a bucket of four. Unit 1 leaves it, and its number is free again only after
the unit has been destroyed. -/
example : (match run [] [.lookUpOrCreate 1, .lookUpOrCreate (-3), .takeForClose 1, .lookUp (-3),
      .lookUpOrCreate 1, .destroyClosed 0, .lookUpOrCreate 1] (.new { buckets := 4 } {}) with
    | .ok past _ => past.reverse.map (·.2)
    | .error _ _ => []) =
    [.search (.created 0), .search (.created 1), .unit (some 0), .unit (some 1), .search .waiting, .done,
      .search (.created 2)] := by cbv

end Directory

end DataTransfer
