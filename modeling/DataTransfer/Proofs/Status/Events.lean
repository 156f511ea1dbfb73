import Mathlib.Data.List.Induction
import Mathlib.Data.Nat.Basic
import Mathlib.Order.Basic
import DataTransfer.Proofs.Status.Handler

/-!
The life of a status keeper. Whatever is declared and signalled in the course of a statement, the
program ends at the first condition that nothing declared before receives; where there is none, the
status is that of the earliest condition of the highest rank, and the message is about the same
condition as the status.
-/

namespace DataTransfer

namespace Handler

inductive Event where
  | declare (receivers : Receivers)
  | fault (f : Fault)
  | endOfFile
  | endOfRecord

namespace Event

def apply (h : Handler) : Event → Except Crash Handler
  | declare receivers => .ok (h.declare receivers)
  | fault f => h.fault f
  | endOfFile => h.endOfFile
  | endOfRecord => h.endOfRecord

def status? : Event → Option Iostat
  | declare _ => none
  | fault f => some f.iostat
  | endOfFile => some .endOfFile
  | endOfRecord => some .endOfRecord

def text? : Event → Option String
  | declare _ => none
  | fault f => some f.message
  | endOfFile => Iostat.endOfFile.text?
  | endOfRecord => Iostat.endOfRecord.text?

def saved? (declared : Receivers) : Event → Option String
  | fault f => if declared.iomsg then some f.message else none
  | _ => none

end Event

def declaredBy (events : List Event) : Receivers :=
  events.foldl (fun r e => match e with | .declare receivers => r.union receivers | _ => r) {}

/-- What was declared before receives the condition, if it is one. -/
def Received (before : List Event) (e : Event) : Prop :=
  ∀ s ∈ e.status?, (declaredBy before).admits s = true

def AllReceived (events : List Event) : Prop :=
  ∀ before e after, events = before ++ e :: after → Received before e

/-- The status is that of the earliest condition of the highest rank, and the text that of this very
fault, if it was asked for when the fault was signalled. -/
inductive Keeps (events : List Event) : Iostat → Option String → Prop
  | nothing (h : ∀ e ∈ events, e.status? = none) : Keeps events .ok none
  | earliest {before after : List Event} {e : Event} {s : Iostat}
    (hevents : events = before ++ e :: after) (hs : e.status? = some s)
    (hbefore : ∀ e' ∈ before, ∀ s' ∈ e'.status?, s'.rank < s.rank)
    (hafter : ∀ e' ∈ after, ∀ s' ∈ e'.status?, s'.rank ≤ s.rank) :
    Keeps events s (e.saved? (declaredBy before))

def run (source : SourceLine) (events : List Event) : Except Crash Handler :=
  events.foldlM Event.apply { source }

section

variable {source : SourceLine} {events : List Event} {e : Event} {h handler : Handler}
variable {s : Iostat} {saved : Option String}

theorem run_snoc (source : SourceLine) (events : List Event) (e : Event) :
    run source (events ++ [e]) = run source events >>= fun h => e.apply h := by
  simp only [run, List.foldlM_append, List.foldlM_cons, List.foldlM_nil, bind_pure]

theorem run_append (source : SourceLine) (before after : List Event) :
    run source (before ++ after) = run source before >>= fun h => after.foldlM Event.apply h :=
  List.foldlM_append

theorem declaredBy_snoc (events : List Event) (e : Event) :
    declaredBy (events ++ [e]) =
      match e with
      | .declare receivers => (declaredBy events).union receivers
      | _ => declaredBy events := by
  rw [declaredBy, List.foldl_append]
  rfl

/-! ### One event -/

theorem Event.rank_pos (hs : e.status? = some s) : 0 < s.rank := by
  cases e with
  | declare receivers => cases hs
  | fault f =>
    cases hs
    rw [f.rank_iostat]
    decide
  | endOfFile =>
    cases hs
    decide
  | endOfRecord =>
    cases hs
    decide

theorem apply_eq (hs : e.status? = some s) (hadmits : h.declared.admits s = true) :
    e.apply h = .ok (if h.status.rank < s.rank then
      { h with status := s, saved := (e.saved? h.declared).or h.saved } else h) := by
  cases e with
  | declare receivers => cases hs
  | fault f =>
    cases hs
    have hreceives : h.declared.receivesError = true := by
      cases f <;> exact hadmits
    rw [Event.apply, fault, if_pos hreceives, record]
    by_cases hrank : h.status.rank < f.iostat.rank
    · by_cases hmsg : h.declared.iomsg = true <;> simp [hrank, hmsg, Event.saved?]
    · simp [hrank]
  | endOfFile =>
    cases hs
    exact (if_pos hadmits).trans rfl
  | endOfRecord =>
    cases hs
    exact (if_pos hadmits).trans rfl

theorem apply_refused (hs : e.status? = some s) (hadmits : ¬ h.declared.admits s = true) :
    ∃ text ∈ e.text?, e.apply h = .error (h.source.crash text) := by
  cases e with
  | declare receivers => cases hs
  | fault f =>
    cases hs
    have hreceives : ¬ h.declared.receivesError = true := by
      cases f <;> exact hadmits
    exact ⟨_, rfl, if_neg hreceives⟩
  | endOfFile =>
    cases hs
    exact ⟨_, rfl, if_neg hadmits⟩
  | endOfRecord =>
    cases hs
    exact ⟨_, rfl, if_neg hadmits⟩

/-! ### What is kept -/

theorem Keeps.rank_le (h : Keeps events s saved) :
    ∀ e ∈ events, ∀ s' ∈ e.status?, s'.rank ≤ s.rank := by
  cases h with
  | nothing hnone =>
    intro e he s' hs'
    rw [hnone e he] at hs'
    cases hs'
  | earliest hevents hs hbefore hafter =>
    subst hevents
    simp only [List.mem_append, List.mem_cons]
    rintro e (he | rfl | he) s' hs'
    · exact (hbefore e he s' hs').le
    · rw [hs] at hs'
      cases hs'
      exact le_rfl
    · exact hafter e he s' hs'

theorem Keeps.of_nothing (h : Keeps events s saved) (hnone : ∀ e ∈ events, e.status? = none) :
    s = .ok ∧ saved = none := by
  cases h with
  | nothing => exact ⟨rfl, rfl⟩
  | @earliest before after e _ hevents hs =>
    rw [hnone e (by simp [hevents])] at hs
    cases hs

theorem Keeps.saved_eq_none (h : Keeps events s saved) (hrank : s.rank < 3) : saved = none := by
  cases h with
  | nothing => rfl
  | @earliest before after e _ hevents hs =>
    cases e with
    | fault f =>
      cases hs
      rw [f.rank_iostat] at hrank
      exact absurd hrank (lt_irrefl 3)
    | declare receivers => rfl
    | endOfFile => rfl
    | endOfRecord => rfl

theorem Keeps.snoc_of_le (h : Keeps events s saved) (he : ∀ s' ∈ e.status?, s'.rank ≤ s.rank) :
    Keeps (events ++ [e]) s saved := by
  cases h with
  | nothing hnone =>
    refine .nothing fun e' he' => ?_
    simp only [List.mem_append, List.mem_singleton] at he'
    rcases he' with he' | rfl
    · exact hnone e' he'
    · refine Option.eq_none_iff_forall_not_mem.mpr fun s' hs' => ?_
      exact absurd (he s' hs') (Event.rank_pos hs').not_ge
  | earliest hevents hs hbefore hafter =>
    subst hevents
    refine .earliest (by rw [List.append_assoc, List.cons_append]) hs hbefore fun e' he' => ?_
    simp only [List.mem_append, List.mem_singleton] at he'
    rcases he' with he' | rfl
    · exact hafter e' he'
    · exact he

theorem Keeps.snoc_of_lt (h : Keeps events s saved) {s' : Iostat} (hs' : e.status? = some s')
    (hrank : s.rank < s'.rank) : Keeps (events ++ [e]) s' (e.saved? (declaredBy events)) :=
  .earliest rfl hs' (fun e' he' s'' hs'' => (h.rank_le e' he' s'' hs'').trans_lt hrank)
    fun _ he' => absurd he' List.not_mem_nil

structure After (source : SourceLine) (events : List Event) (h : Handler) : Prop where
  source_eq : h.source = source
  declared_eq : h.declared = declaredBy events
  keeps : Keeps events h.status h.saved

theorem After.snoc (h : After source events handler) (hreceived : Received events e) :
    ∃ next, e.apply handler = .ok next ∧ After source (events ++ [e]) next ∧
      handler.status.rank ≤ next.status.rank ∧
      (handler.status.rank = 3 → next.status = handler.status ∧ next.saved = handler.saved) := by
  obtain ⟨hsource, hdeclared, hkeeps⟩ := h
  cases hs : e.status? with
  | none =>
    have he : ∀ s' ∈ e.status?, s'.rank ≤ handler.status.rank := by
      intro s' hs'
      rw [hs] at hs'
      cases hs'
    cases e with
    | declare receivers =>
      refine ⟨_, rfl, ⟨hsource, ?_, hkeeps.snoc_of_le he⟩, le_rfl, fun _ => ⟨rfl, rfl⟩⟩
      rw [declaredBy_snoc, ← hdeclared]
      rfl
    | fault f => cases hs
    | endOfFile => cases hs
    | endOfRecord => cases hs
  | some s' =>
    have hadmits : handler.declared.admits s' = true := hdeclared ▸ hreceived s' hs
    have hdeclared' : handler.declared = declaredBy (events ++ [e]) := by
      rw [hdeclared, declaredBy_snoc]
      cases e with
      | declare receivers => cases hs
      | fault f => rfl
      | endOfFile => rfl
      | endOfRecord => rfl
    refine ⟨_, apply_eq hs hadmits, ?_⟩
    split_ifs with hrank
    · have hlt : handler.status.rank < 3 := hrank.trans_le s'.rank_le
      refine ⟨⟨hsource, hdeclared', ?_⟩, hrank.le, fun herror => absurd herror hlt.ne⟩
      simp only [hkeeps.saved_eq_none hlt, Option.or_none, hdeclared]
      exact hkeeps.snoc_of_lt hs hrank
    · refine ⟨⟨hsource, hdeclared', hkeeps.snoc_of_le ?_⟩, le_rfl, fun _ => ⟨rfl, rfl⟩⟩
      intro s'' hs''
      rw [hs] at hs''
      cases hs''
      exact not_lt.mp hrank

/-! ### A whole statement -/

theorem allReceived_snoc :
    AllReceived (events ++ [e]) ↔ AllReceived events ∧ Received events e := by
  constructor
  · intro h
    refine ⟨fun before e' after hevents => ?_, h events e [] rfl⟩
    exact h before e' (after ++ [e]) (by rw [hevents, List.append_assoc, List.cons_append])
  · rintro ⟨h, he⟩ before e' after hevents
    rcases List.eq_nil_or_concat after with rfl | ⟨init, last, rfl⟩
    · obtain ⟨rfl, hlast⟩ := List.append_inj' hevents rfl
      obtain rfl := List.singleton_inj.mp hlast
      exact he
    · rw [List.concat_eq_append, ← List.cons_append, ← List.append_assoc] at hevents
      exact h before e' init (List.append_inj_left' hevents rfl)

theorem allReceived_append_left {before after : List Event}
    (h : AllReceived (before ++ after)) : AllReceived before := by
  intro p e' q hbefore
  refine h p e' (q ++ after) ?_
  rw [hbefore, List.append_assoc, List.cons_append]

theorem run_of_allReceived (source : SourceLine) (h : AllReceived events) :
    ∃ handler, run source events = .ok handler ∧ After source events handler := by
  induction events using List.reverseRecOn with
  | nil => exact ⟨_, rfl, rfl, rfl, .nothing fun _ he => absurd he List.not_mem_nil⟩
  | append_singleton events e ih =>
    obtain ⟨hevents, he⟩ := allReceived_snoc.mp h
    obtain ⟨handler, hrun, hafter⟩ := ih hevents
    obtain ⟨next, hnext, hafter', -⟩ := hafter.snoc he
    refine ⟨next, ?_, hafter'⟩
    rw [run_snoc, hrun]
    exact hnext

/-- Behind a condition that is not received nothing happens. -/
theorem run_of_refused (source : SourceLine) {before : List Event} (hbefore : AllReceived before)
    (hrefused : ¬ Received before e) (after : List Event) :
    ∃ text ∈ e.text?, run source (before ++ e :: after) = .error (source.crash text) := by
  obtain ⟨handler, hrun, hafter⟩ := run_of_allReceived source hbefore
  unfold Received at hrefused
  push Not at hrefused
  obtain ⟨s', hs', hadmits⟩ := hrefused
  rw [← hafter.declared_eq] at hadmits
  obtain ⟨text, htext, hcrash⟩ := apply_refused hs' hadmits
  refine ⟨text, htext, ?_⟩
  rw [run_append, hrun]
  change (e.apply handler >>= _) = _
  rw [hcrash, hafter.source_eq]
  rfl

theorem exists_first_refused (h : ¬ AllReceived events) : ∃ before e after,
    events = before ++ e :: after ∧ AllReceived before ∧ ¬ Received before e := by
  induction events using List.reverseRecOn with
  | nil => exact absurd (fun _ _ _ hevents => by simp at hevents) h
  | append_singleton events last ih =>
    by_cases hevents : AllReceived events
    · exact ⟨events, last, [], rfl, hevents, fun hlast => h (allReceived_snoc.mpr ⟨hevents, hlast⟩)⟩
    · obtain ⟨before, e, after, rfl, hbefore, he⟩ := ih hevents
      exact ⟨before, e, after ++ [last], by simp, hbefore, he⟩

/-- In the course of a statement the status only rises, and an error stays. -/
theorem run_rises {before after : List Event} {g : Handler}
    (hall : AllReceived (before ++ after)) (hg : run source before = .ok g)
    (hh : run source (before ++ after) = .ok h) :
    g.status.rank ≤ h.status.rank ∧
      (g.status.rank = 3 → h.status = g.status ∧ h.saved = g.saved) := by
  induction after using List.reverseRecOn generalizing h with
  | nil =>
    rw [List.append_nil, hg] at hh
    cases hh
    exact ⟨le_rfl, fun _ => ⟨rfl, rfl⟩⟩
  | append_singleton after e ih =>
    rw [← List.append_assoc] at hall hh
    obtain ⟨hmid, he⟩ := allReceived_snoc.mp hall
    obtain ⟨mid, hrun, hafter⟩ := run_of_allReceived source hmid
    obtain ⟨next, hnext, -, hrank, hstays⟩ := hafter.snoc he
    obtain ⟨hrank', hstays'⟩ := ih hmid hrun
    have hend : h = next := by
      rw [run_snoc, hrun] at hh
      change e.apply mid = _ at hh
      rw [hnext] at hh
      cases hh
      rfl
    rw [hend]
    refine ⟨hrank'.trans hrank, fun herror => ?_⟩
    obtain ⟨hstatus, hsaved⟩ := hstays' herror
    obtain ⟨hstatus', hsaved'⟩ := hstays (by rw [hstatus, herror])
    exact ⟨hstatus'.trans hstatus, hsaved'.trans hsaved⟩

/-- The program ends at the first condition that nothing declared before receives. Otherwise the
status is that of the earliest condition of the highest rank; it never falls, and stays once it is
an error. The message is about the same condition: the fault's own text if it was asked for when the
fault was signalled, and else the text of the status. -/
theorem run_keeps_earliest (source : SourceLine) (events : List Event) :
    match run source events with
    | .error c => ∃ before e after, events = before ++ e :: after ∧ AllReceived before ∧
        ¬ Received before e ∧ ∃ text ∈ e.text?, c = source.crash text
    | .ok h => AllReceived events ∧
        (∃ saved, Keeps events h.status saved ∧ h.message? = saved.or h.status.message?) ∧
        ((∀ e ∈ events, e.status? = none) → h.status = .ok ∧ h.message? = none) ∧
        ∀ before after, events = before ++ after → ∃ g, run source before = .ok g ∧
          g.status.rank ≤ h.status.rank ∧
          (g.inError = true → h.status = g.status ∧ h.message? = g.message?) := by
  have hmessage (h : Handler) : h.message? = h.saved.or h.status.message? := by
    unfold message?
    cases h.saved <;> rfl
  by_cases hall : AllReceived events
  · obtain ⟨h, hrun, hafter⟩ := run_of_allReceived source hall
    rw [hrun]
    refine ⟨hall, ⟨_, hafter.keeps, hmessage h⟩, fun hnone => ?_, ?_⟩
    · obtain ⟨hstatus, hsaved⟩ := hafter.keeps.of_nothing hnone
      rw [hmessage, hstatus, hsaved]
      exact ⟨rfl, rfl⟩
    · rintro before after rfl
      obtain ⟨g, hg, -⟩ := run_of_allReceived source (allReceived_append_left hall)
      obtain ⟨hrank, hstays⟩ := run_rises hall hg hrun
      refine ⟨g, hg, hrank, fun herror => ?_⟩
      obtain ⟨hstatus, hsaved⟩ := hstays ((Iostat.isError_iff_rank _).mp herror)
      exact ⟨hstatus, by rw [hmessage, hmessage, hstatus, hsaved]⟩
  · obtain ⟨before, e, after, rfl, hbefore, he⟩ := exists_first_refused hall
    obtain ⟨text, htext, hcrash⟩ := run_of_refused source hbefore he after
    rw [hcrash]
    exact ⟨before, e, after, rfl, hbefore, he, text, htext, rfl⟩

/-- The text of the first fault is not asked for in time, and that of the second is not kept. -/
example : (run {} [.declare { iostat := true }, .endOfFile, .fault (.generic "first"),
    .declare { iomsg := true }, .fault (.generic "second"), .endOfRecord]).map message? =
    .ok (some "I/O error") := rfl

end

end Handler

end DataTransfer
