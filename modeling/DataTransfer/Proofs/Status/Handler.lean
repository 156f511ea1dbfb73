import Mathlib.Tactic.SplitIfs
import DataTransfer.Status.Handler

/-!
What a status keeper takes from a condition and from a fault. Its rank never falls, its receivers stay,
and what is received does not end the program.
-/

namespace DataTransfer

/-- A statement that declares these receivers goes on from the status. -/
def Receivers.admits (r : Receivers) : Iostat → Bool
  | .ok => true
  | .endOfFile => r.endOfFile || r.receivesError
  | .endOfRecord => r.endOfRecord || r.receivesError
  | _ => r.receivesError

/-- IOSTAT= and ERR= let a statement go on from every status. -/
theorem Receivers.admits_of_receivesError {r : Receivers} (hr : r.receivesError = true) (s : Iostat) :
    r.admits s = true := by
  cases s <;> simp [admits, hr]

theorem Iostat.rank_le (s : Iostat) : s.rank ≤ 3 := by cases s <;> simp [rank]

theorem Fault.rank_iostat (f : Fault) : f.iostat.rank = 3 :=
  (Iostat.isError_iff_rank _).mp f.isError_iostat

theorem Fault.iostat_ne_ok (f : Fault) : f.iostat ≠ .ok := by
  intro hok
  have herror := f.isError_iostat
  rw [hok] at herror
  cases herror

namespace Handler

variable {h handler : Handler} {s : Iostat} {f : Fault}

/-! ### Conditions -/

@[simp] theorem record_declared (h : Handler) (s : Iostat) : (h.record s).declared = h.declared := by
  unfold record
  split_ifs <;> rfl

@[simp] theorem record_source (h : Handler) (s : Iostat) : (h.record s).source = h.source := by
  unfold record
  split_ifs <;> rfl

theorem record_of_rank_lt (hrank : h.status.rank < s.rank) : h.record s = { h with status := s } :=
  if_pos hrank

theorem record_of_rank_le (hrank : s.rank ≤ h.status.rank) : h.record s = h :=
  if_neg (Nat.not_lt.mpr hrank)

theorem record_of_ok (hstatus : h.status = .ok) (hs : s ≠ .ok) :
    h.record s = { h with status := s } := by
  refine record_of_rank_lt ?_
  rw [hstatus]
  cases s <;> simp_all [Iostat.rank]

theorem status_record_of_ok (hstatus : h.status = .ok) (hs : s ≠ .ok) : (h.record s).status = s := by
  rw [record_of_ok hstatus hs]

theorem rank_le_record (h : Handler) (s : Iostat) : h.status.rank ≤ (h.record s).status.rank := by
  unfold record
  split_ifs with hrank
  · exact Nat.le_of_lt hrank
  · exact Nat.le_refl _

theorem rank_le_status_record (h : Handler) (s : Iostat) : s.rank ≤ (h.record s).status.rank := by
  unfold record
  split_ifs with hrank
  · exact Nat.le_refl _
  · exact Nat.not_lt.mp hrank

theorem record_record (h : Handler) (s : Iostat) : (h.record s).record s = h.record s :=
  record_of_rank_le (h.rank_le_status_record s)

theorem status_record_ne_ok (h : Handler) (hs : s ≠ .ok) : (h.record s).status ≠ .ok := by
  intro hok
  have hrank := h.rank_le_status_record s
  rw [hok] at hrank
  cases s <;> simp_all [Iostat.rank]

theorem status_record_endOfFile (hstatus : h.status = .ok ∨ h.status = .endOfFile) :
    (h.record .endOfFile).status = .endOfFile := by
  rcases hstatus with hok | hend
  · rw [record_of_ok hok (by decide)]
  · rw [record_of_rank_le (Nat.le_of_eq (congrArg Iostat.rank hend.symm)), hend]

theorem endOfFile_eq (hadmits : h.declared.admits .endOfFile = true) :
    h.endOfFile = .ok (h.record .endOfFile) :=
  if_pos hadmits

theorem endOfRecord_eq (hadmits : h.declared.admits .endOfRecord = true) :
    h.endOfRecord = .ok (h.record .endOfRecord) :=
  if_pos hadmits

theorem rank_le_of_endOfFile (hend : h.endOfFile = .ok handler) :
    h.status.rank ≤ handler.status.rank := by
  unfold endOfFile at hend
  split_ifs at hend
  cases hend
  exact h.rank_le_record _

theorem rank_le_of_endOfRecord (hend : h.endOfRecord = .ok handler) :
    h.status.rank ≤ handler.status.rank := by
  unfold endOfRecord at hend
  split_ifs at hend
  cases hend
  exact h.rank_le_record _

/-! ### Faults -/

/-- A fault that a statement has receivers for becomes its status unless an error is there. -/
theorem fault_received (f : Fault) (hr : h.declared.receivesError = true) :
    ∃ handler, h.fault f = .ok handler ∧ handler.declared = h.declared ∧
      handler.status = if h.status.rank < f.iostat.rank then f.iostat else h.status := by
  simp only [fault, hr, if_true, record]
  split_ifs <;> exact ⟨_, rfl, rfl, rfl⟩

theorem receivesError_of_fault (hfault : h.fault f = .ok handler) :
    h.declared.receivesError = true := by
  unfold fault at hfault
  split_ifs at hfault with hreceives
  exact hreceives

theorem status_of_fault (hfault : h.fault f = .ok handler) :
    handler.status = (h.record f.iostat).status := by
  rw [fault, if_pos (receivesError_of_fault hfault)] at hfault
  cases hfault
  split_ifs <;> rfl

theorem status_of_fault_of_ok (hstatus : h.status = .ok) (hfault : h.fault f = .ok handler) :
    handler.status = f.iostat := by
  rw [status_of_fault hfault, record_of_ok hstatus f.iostat_ne_ok]

theorem status_ne_ok_of_fault (hfault : h.fault f = .ok handler) : handler.status ≠ .ok := by
  rw [status_of_fault hfault]
  exact h.status_record_ne_ok f.iostat_ne_ok

theorem source_of_fault (hfault : h.fault f = .ok handler) : handler.source = h.source := by
  rw [fault, if_pos (receivesError_of_fault hfault)] at hfault
  cases hfault
  split_ifs
  · exact h.record_source _
  · exact h.record_source _

theorem rank_le_of_fault (hfault : h.fault f = .ok handler) :
    h.status.rank ≤ handler.status.rank := by
  rw [status_of_fault hfault]
  exact h.rank_le_record _

theorem fault_of_outranked (hr : h.declared.receivesError = true)
    (hrank : ¬ h.status.rank < f.iostat.rank) : h.fault f = .ok h := by
  simp [fault, record, hr, hrank]

/-- A fault that is met again changes nothing. -/
theorem fault_again (hfault : h.fault f = .ok handler) : handler.fault f = .ok handler := by
  obtain ⟨_, heq, hdeclared, -⟩ := fault_received f (receivesError_of_fault hfault)
  obtain rfl := Except.ok.inj (hfault.symm.trans heq)
  refine fault_of_outranked (hdeclared ▸ receivesError_of_fault hfault) (Nat.not_lt.mpr ?_)
  rw [status_of_fault hfault]
  exact h.rank_le_status_record _

end Handler

end DataTransfer
