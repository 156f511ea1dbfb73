import DataTransfer.Proofs.Unit.ReadSteps
import DataTransfer.Proofs.Unit.View

/-!
Unformatted input: a receive by what its attempt comes to, on a record that is there, and READs where
there is no record.
-/

namespace DataTransfer.Session

variable {s : Session}

theorem receive_completes {count : ℕ} {Q : Bool × Option Bytes → Session → Prop}
    (h : Attempts (getData count) s (fun data t => Q (decide (t.handler.status = .ok), data) t)
      (fun f t => ∃ handler, t.handler.fault f = .ok handler ∧ Q (false, none) { t with handler })) :
    Completes (receive count) s Q := by
  apply Ends.bind h
  intro r t hr
  cases r with
  | ok data => exact (ends_get _).mpr hr
  | error f =>
    obtain ⟨handler, hfault, hQ⟩ := hr
    apply Ends.bind (noting_completes hfault)
    rintro _ _ rfl
    exact hQ

/-! ### Records that are there -/

def afterInput (s : Session) (w : Windowed Channel) (count : ℕ) : Session :=
  { s.withChannel w with
    unit := (s.withChannel w).unit.setConnection fun c =>
      { c with position := c.position + count, furthest := max c.furthest (c.position + count) } }

/-- What a receive does on a record that has enough bytes left: it takes them from the file, unless
that ends before. -/
def fetch (offset count : ℕ) : Attempt Session (Option Bytes) := do
  if (← windowed (Windowed.read offset count)) < count then
    signalEndOfFile
    return none
  let data := (← get).unit.window.bytesAt offset count
  modifyConnection fun c =>
    { c with position := c.position + count, furthest := max c.furthest (c.position + count) }
  return some data

theorem fetch_of_view {content : Bytes} {V : View content} (h : V.shown s.channel)
    {offset count : ℕ} (hwithin : offset + count ≤ content.length) :
    Succeeds (fetch offset count) s fun data t => data = some (content.slice offset count) ∧
      ∃ w, V.shown w ∧ t = s.afterInput w count := by
  apply Attempts.bind (View.read_succeeds h count (by omega))
  rintro got _ ⟨w, ⟨hw, hgot, hbytes⟩, rfl⟩
  obtain rfl : got = count := by omega
  rw [if_neg (lt_irrefl _)]
  refine (attempts_get _).mpr ?_
  apply Attempts.bind (modifyConnection_succeeds _)
  rintro _ _ rfl
  exact ⟨congrArg some hbytes, w, hw, rfl⟩

theorem getData_of_search {count : ℕ} {Q : Option Bytes → Session → Prop}
    {R : Fault → Session → Prop} (hread : s.unit.attachment.mayRead = true)
    (hformatted : s.unit.connection.formatted = false)
    (hlocate : Attempts ensureLocated s (fun found t =>
      if found then
        Attempts (if t.unit.connection.remaining.any (· < count) then throw .recordReadOverrun
          else fetch (t.unit.dataOffset + t.unit.connection.position) count) t Q R
      else Q none t) R) :
    Attempts (getData count) s Q R := by
  simp only [getData, attempts_get, hformatted, Bool.false_eq_true, if_false]
  refine Attempts.bind (requireReadable_of_mayRead hread).attempts ?_
  rintro _ t ht
  rw [ht]
  refine Attempts.bind hlocate ?_
  intro found u hu
  cases found with
  | false => exact hu
  | true =>
    rw [if_pos rfl] at hu
    rw [if_neg (by decide)]
    refine (attempts_get _).mpr ?_
    by_cases hover : u.unit.connection.remaining.any (· < count) = true
    · rw [if_pos hover] at hu ⊢
      exact hu
    · rw [if_neg hover] at hu ⊢
      exact hu

theorem getData_of_located {I : Session → Prop} {count : ℕ} {Q : Option Bytes → Session → Prop}
    {R : Fault → Session → Prop} (hread : s.unit.attachment.mayRead = true)
    (hformatted : s.unit.connection.formatted = false)
    (hlocate : Succeeds ensureLocated s fun found t => found = true ∧ I t)
    (hfetch : ∀ t, I t → Attempts
      (if t.unit.connection.remaining.any (· < count) then throw .recordReadOverrun
        else fetch (t.unit.dataOffset + t.unit.connection.position) count) t Q R) :
    Attempts (getData count) s Q R := by
  refine getData_of_search hread hformatted (hlocate.attempts.mono ?_ fun _ _ => id)
  rintro _ t ⟨rfl, ht⟩
  exact hfetch t ht

section

variable {system : System} {n : ℕ} {hn : n < system.files.nodes.length} {path : String}
variable {content : Bytes} {offset count : ℕ}
variable (h : s.channel.Holds (system.device hn path) content)
include h

theorem fetch_succeeds (hwithin : offset + count ≤ content.length)
    (hsize : content.length < FileSystem.offsetLimit) :
    Succeeds (fetch offset count) s fun data t => data = some (content.slice offset count) ∧
      ∃ w, w.Holds (system.device hn path) content ∧ t = s.afterInput w count :=
  fetch_of_view (V := .ofHolds hn path hsize) h hwithin

theorem fetch_of_end (hoffset : offset ≤ content.length) (hend : content.length < offset + count)
    (hsize : content.length < FileSystem.offsetLimit)
    (hadmits : s.handler.declared.admits .endOfFile = true) :
    Succeeds (fetch offset count) s fun data t => data = none ∧
      ∃ w, w.Holds (system.device hn path) content ∧
        t = { s.withChannel w with handler := s.handler.record .endOfFile } := by
  apply Attempts.bind (windowed_succeeds (h.read_file count hoffset hsize))
  rintro got _ ⟨w, ⟨hw, hgot, -⟩, rfl⟩
  rw [if_pos (by omega)]
  apply Attempts.bind (signalEndOfFile_succeeds (s := s.withChannel w) hadmits)
  rintro _ _ rfl
  exact ⟨rfl, w, hw, rfl⟩

end

/-! ### Records that are not there -/

/-- A READ in progress that meets the same condition whenever it looks for its record: the end of the
file, or a fault. -/
structure Misses (I : Session → Prop) (status : Iostat) : Prop where
  ensureLocated : ∀ s, I s → Attempts ensureLocated s
    (fun found t => found = false ∧ I t ∧ t.handler.status = status)
    (fun f t => ∃ handler, t.handler.fault f = .ok handler ∧ I { t with handler } ∧
      handler.status = status)
  status_ne : status ≠ .ok
  formatted : ∀ s, I s → s.unit.connection.formatted = false
  mayRead : ∀ s, I s → s.unit.attachment.mayRead = true
  reading : ∀ s, I s → s.unit.reading = true

namespace Misses

variable {I : Session → Prop} {status : Iostat} (hI : Misses I status)
include hI

theorem receive_completes (count : ℕ) (h : I s) :
    Completes (receive count) s fun out t =>
      out = (false, none) ∧ I t ∧ t.handler.status = status := by
  have hget : Attempts (getData count) s
      (fun data t => data = none ∧ I t ∧ t.handler.status = status)
      (fun f t => ∃ handler, t.handler.fault f = .ok handler ∧ I { t with handler } ∧
        handler.status = status) := by
    refine getData_of_search (hI.mayRead s h) (hI.formatted s h)
      ((hI.ensureLocated s h).mono ?_ fun _ _ => id)
    rintro _ t ⟨rfl, ht⟩
    exact ⟨rfl, ht⟩
  refine Session.receive_completes (hget.mono ?_ ?_)
  · rintro _ t ⟨rfl, ht, hstatus⟩
    rw [decide_eq_false (by rw [hstatus]; exact hI.status_ne)]
    exact ⟨rfl, ht, hstatus⟩
  · rintro f t ⟨handler, hfault, ht, hstatus⟩
    exact ⟨handler, hfault, rfl, ht, hstatus⟩

theorem receives_complete (counts : List ℕ) (h : I s) :
    Completes (counts.mapM receive) s fun answers t =>
      answers = counts.map (fun _ => (false, none)) ∧ I t ∧
        t.handler.status = if counts = [] then s.handler.status else status := by
  refine (Ends.mapM_map (I := fun k t => I t ∧ t.handler.status = if k = 0 then s.handler.status
    else status) (fun k count _ t ht => hI.receive_completes count ht.1) ⟨h, rfl⟩).mono ?_
    fun _ _ => id
  rintro _ t ⟨rfl, ht, hstatus⟩
  simp only [List.length_eq_zero_iff] at hstatus
  exact ⟨rfl, ht, hstatus⟩

theorem advance_completes (h : I s) :
    Completes advance s fun _ t => I t ∧ t.handler.status = status := by
  refine report_completes (advanceRecord_of_input (hI.reading s h)
    ((hI.ensureLocated s h).mono ?_ fun _ _ => id))
  rintro _ t ⟨rfl, ht⟩
  exact ht

end Misses

end DataTransfer.Session
