import DataTransfer.Proofs.Unit.Lines
import DataTransfer.Proofs.Unit.ReadSteps

/-!
The search for the end of a formatted record. Whatever window it starts with, it finds the first line
of what is left of the file, or that nothing is left.
-/

namespace DataTransfer.Session

variable {s : Session} {before rest after : Bytes} {record : Option Bytes}

def withExtent (s : Session) (length terminator : ℕ) : Session :=
  { s with
    unit := { s.unit.setConnection (fun c => { c with recordLength := some length }) with
      terminator } }

def Searched (s : Session) (before rest after : Bytes) (record : Option Bytes) (found : Bool)
    (t : Session) : Prop :=
  found = record.isSome ∧ ∃ w, (s.withWindow w).channel.Shows (before ++ rest) ∧
    t = match record with
      | none => s.withWindow w
      | some line =>
        (s.withWindow w).withExtent line.length (rest.length - line.length - after.length)

/-- One window shows the end of the line, or all that is left of the file, or it is too small. -/
theorem locateFormattedIn_step (hnext : NextRecord rest record after)
    (hshows : s.channel.Shows (before ++ rest)) (hoffset : s.unit.offset = before.length)
    (hsize : (before ++ rest).length < FileSystem.offsetLimit) {fuel window : ℕ}
    (hwindow : 0 < window)
    (hmore : window ≤ rest.length → ∀ w, (s.withWindow w).channel.Shows (before ++ rest) →
      Succeeds (locateFormattedIn fuel (2 * window)) (s.withWindow w) fun found t =>
        s.Searched before rest after record found t) :
    Succeeds (locateFormattedIn (fuel + 1) window) s fun found t =>
      s.Searched before rest after record found t := by
  simp only [locateFormattedIn, attempts_get, hoffset]
  apply Attempts.bind (windowed_read_succeeds hshows window (by simp) hsize)
  rintro got _ ⟨w, rfl, hw, hgot, hbytes⟩
  have hslice : (before ++ rest).slice before.length got = rest.take got :=
    Bytes.slice_append_right before rest 0 got
  rw [List.length_append, Nat.add_sub_cancel_left] at hgot
  cases hnext with
  | atEnd =>
    rw [if_pos (by simpa using hgot)]
    exact ⟨rfl, w, hw, rfl⟩
  | @line _ line after hline =>
    have hpos := hline.length_pos
    rw [if_neg (by omega)]
    simp only [attempts_get, withWindow, hbytes, hslice]
    rcases hline.extent?_take got with hextent | ⟨hextent, hrest⟩
    · rw [hextent]
      exact ⟨rfl, w, hw, rfl⟩
    · rw [hextent]
      -- No newline in the window: it has reached the end of the file, or it has to grow.
      by_cases hshort : got < window
      · obtain ⟨rfl, rfl⟩ := hrest.resolve_left (by omega)
        obtain rfl : got = line.length := by omega
        simp only [hshort, decide_true]
        have hnone : line.length - line.length - ([] : Bytes).length = 0 := by omega
        refine ⟨rfl, w, hw, ?_⟩
        dsimp only
        rw [hnone]
        rfl
      · simp only [hshort, decide_false]
        exact hmore (by omega) w hw

/-- The window doubles until it is large enough. -/
theorem locateFormattedIn_succeeds (hnext : NextRecord rest record after)
    (hshows : s.channel.Shows (before ++ rest)) (hoffset : s.unit.offset = before.length)
    (hsize : (before ++ rest).length < FileSystem.offsetLimit) {fuel window : ℕ}
    (hwindow : 0 < window) (hfuel : rest.length < window * 2 ^ fuel) :
    Succeeds (locateFormattedIn (fuel + 1) window) s fun found t =>
      s.Searched before rest after record found t := by
  -- By induction on the fuel: a round takes one and doubles the window, so `window * 2 ^ fuel` stays.
  induction fuel generalizing s window with
  | zero =>
    refine locateFormattedIn_step hnext hshows hoffset hsize hwindow ?_
    intro hsmall
    omega
  | succ fuel ih =>
    refine locateFormattedIn_step hnext hshows hoffset hsize hwindow ?_
    intro _ w hw
    have hdouble : window * 2 ^ (fuel + 1) = 2 * window * 2 ^ fuel := by
      rw [Nat.pow_succ, Nat.mul_comm (2 ^ fuel), ← Nat.mul_assoc, Nat.mul_comm window]
    rw [hdouble] at hfuel
    exact ih hw hoffset (by omega) hfuel

theorem length_le_reach {content : Bytes} (h : s.channel.Shows content) :
    content.length ≤ s.reach := by
  obtain ⟨n, writable, hbacking, hcontent⟩ := h.attached
  have hsize : s.unit.attachment.available s.system = content.length := by
    change s.unit.attachment.backing = _ at hbacking
    change s.system.files.contentAt n = _ at hcontent
    rw [Attachment.available, hbacking, ← hcontent]
    change (s.system.files.nodes[n]?.map (·.content.length)).getD 0 = _
    rw [FileSystem.contentAt]
    cases s.system.files.nodes[n]? <;> rfl
  unfold reach
  omega

theorem locateFormatted_succeeds (hnext : NextRecord rest record after)
    (hshows : s.channel.Shows (before ++ rest)) (hoffset : s.unit.offset = before.length)
    (hchunk : 0 < s.unit.readChunk) (hsize : (before ++ rest).length < FileSystem.offsetLimit) :
    Succeeds locateFormatted s fun found t => s.Searched before rest after record found t := by
  refine (attempts_get _).mpr ?_
  refine locateFormattedIn_succeeds hnext hshows hoffset hsize hchunk ?_
  have hreach := length_le_reach hshows
  rw [List.length_append] at hreach
  -- The fuel is the reach of the session, far more than the doublings that are needed.
  calc rest.length ≤ s.reach := by omega
    _ < 2 ^ s.reach := Nat.lt_two_pow_self
    _ ≤ s.unit.readChunk * 2 ^ s.reach := Nat.le_mul_of_pos_left _ hchunk

/-! ### Units that read lines -/

/-- A connection for formatted sequential access without a record length. -/
structure Formatted (c : Connection) : Prop where
  formatted : c.formatted = true
  fixedLength : c.fixedLength = false
  nonAdvancing : c.nonAdvancing = false
  leftTabLimit : c.leftTabLimit = none

namespace Formatted

variable {c : Connection} (h : Formatted c)
include h

theorem fixedRecordLength : c.fixedRecordLength = none := by
  simp [Connection.fixedRecordLength, h.fixedLength]

theorem pastFixedRecord : c.pastFixedRecord = false := by
  simp [Connection.pastFixedRecord, h.fixedLength]

theorem tabFloor : c.tabFloor = 0 := by
  rw [Connection.tabFloor, h.leftTabLimit]
  rfl

end Formatted

structure AtLine (device : Channel) (before rest : Bytes) (s : Session) : Prop where
  device_eq : s.channel.device = device
  shows : s.channel.Shows (before ++ rest)
  form : Formatted s.unit.connection
  readChunk_pos : 0 < s.unit.readChunk
  isTerminal_eq : device.attachment.isTerminal = false
  offset_eq : s.unit.offset = before.length
  endRecord_eq : rest ≠ [] → s.unit.connection.endRecord = none

variable {device : Channel}

theorem AtLine.length_le_reach (h : AtLine device before rest s) :
    (before ++ rest).length ≤ s.reach :=
  Session.length_le_reach h.shows

theorem AtLine.locateFormatted_succeeds (h : AtLine device before rest s)
    (hnext : NextRecord rest record after)
    (hsize : (before ++ rest).length < FileSystem.offsetLimit) :
    Succeeds locateFormatted s fun found t => s.Searched before rest after record found t :=
  Session.locateFormatted_succeeds hnext h.shows h.offset_eq h.readChunk_pos hsize

end DataTransfer.Session
