import Mathlib
import DataTransfer.InternalUnit
import DataTransfer.Proofs.Unit.Card
import DataTransfer.Proofs.Unit.Opening
import DataTransfer.Proofs.Unit.ReadSteps

/-!
Formatted READs by records of one length, of a file and of a character buffer with the same bytes. The
file is read record by record until nothing is left, while the buffer is known from the start to its
end; no step of a READ tells one from the other.
-/

namespace DataTransfer

inductive RecordStep where
  | call (c : RecordCall true false true)
  /-- The next character of a field. -/
  | field (budget : Option ℕ) (modes : Modes)

/-- What it is answered, but not whether it was accepted. -/
inductive RecordAnswer where
  | call (a : RecordCall.Answer)
  /-- A character with what is left of the width, or a fault. -/
  | field (out : Except Fault (Option Char × Option ℕ))

namespace RecordStep

def onUnit : RecordStep → Act Session RecordAnswer
  | .call c => return .call (← Session.call c).found
  | .field budget modes => return .field (← (Field.next budget modes : Attempt Session _).run)

def onBuffer : RecordStep → Act InternalUnit RecordAnswer
  | .call c => return .call (← InternalUnit.call c).found
  | .field budget modes => return .field (← (Field.next budget modes : Attempt InternalUnit _).run)

/-- A step, and behind it the place of the cursor, the number of the record and the status. -/
def observed {σ : Type} [FieldSource σ] (act : Act σ RecordAnswer) :
    Act σ (RecordAnswer × ℕ × ℕ × Iostat) := do
  let answer ← act
  let s ← get
  return (answer, (FieldSource.connection s).position, (FieldSource.connection s).record,
    (FieldSource.handler s).status)

def perform (step : RecordStep) : Act Session (RecordAnswer × ℕ × ℕ × Iostat) :=
  observed step.onUnit

def performInternal (step : RecordStep) : Act InternalUnit (RecordAnswer × ℕ × ℕ × Iostat) :=
  observed step.onBuffer

end RecordStep

theorem InternalUnit.moveTo_of_not_le {u : InternalUnit} {column : ℕ} {handler : Handler}
    (hcolumn : ¬ column ≤ u.recordLength) (hdirection : u.direction = .input)
    (hfault : u.handler.fault .recordReadOverrun = .ok handler) :
    moveTo column u = .ok () { u.setPosition u.recordLength with handler } := by
  unfold moveTo setPosition
  rw [if_neg hcolumn]
  dsimp only
  rw [hdirection]
  dsimp only
  rw [hfault]

namespace Session

variable {s t : Session} {content : Bytes} {length count : ℕ}

def asBuffer (s : Session) (buffer : Bytes) (length : ℕ) : InternalUnit :=
  { direction := .input
    buffer
    connection := { InternalUnit.connect buffer.length length with
      record := s.unit.connection.record
      position := s.unit.connection.position }
    handler := s.handler }

structure OnRecords (content : Bytes) (length count : ℕ) (s : Session) : Prop where
  shows : s.channel.Shows content
  formatted : s.unit.connection.formatted = true
  fixedLength : s.unit.connection.fixedLength = true
  recordLength : s.unit.connection.recordLength = some length
  nonAdvancing : s.unit.connection.nonAdvancing = false
  leftTabLimit : s.unit.connection.leftTabLimit = none
  reading_eq : s.unit.reading = true
  record_pos : 0 < s.unit.connection.record
  record_le : s.unit.connection.record ≤ count + 1
  offset_eq : s.unit.offset = (s.unit.connection.record - 1) * length
  located : s.unit.located = true → s.unit.connection.record ≤ count
  endRecord : ∀ last, s.unit.connection.endRecord = some last → last = count + 1
  position_le : s.unit.connection.position ≤ length
  receivesError : s.handler.declared.receivesError = true

/-- The READ has found its record, or that there is none. -/
def Decided (count : ℕ) (s : Session) : Prop :=
  s.unit.connection.record ≤ count ∨ s.unit.connection.atEnd = true

namespace OnRecords

variable (h : OnRecords content length count s)
include h

theorem fixedRecordLength : s.unit.connection.fixedRecordLength = some length := by
  rw [Connection.fixedRecordLength, h.fixedLength, if_pos rfl, h.recordLength]

theorem atEnd_eq_false (hrecord : s.unit.connection.record ≤ count) :
    s.unit.connection.atEnd = false := by
  unfold Connection.atEnd
  cases hend : s.unit.connection.endRecord with
  | none => rfl
  | some last =>
    have hlast := h.endRecord last hend
    simp
    omega

theorem record_eq_of_atEnd (hend : s.unit.connection.atEnd = true) :
    s.unit.connection.record = count + 1 := by
  have hle := h.record_le
  by_contra hne
  rw [h.atEnd_eq_false (by omega)] at hend
  cases hend

theorem endOfFile : s.handler.endOfFile = .ok (s.handler.record .endOfFile) :=
  Handler.endOfFile_eq (Receivers.admits_of_receivesError h.receivesError _)

theorem withHandler {handler : Handler} (hdeclared : handler.declared = s.handler.declared) :
    OnRecords content length count { s with handler } :=
  { h with receivesError := hdeclared ▸ h.receivesError }

theorem withWindow {w : Window} (hw : (s.withWindow w).channel.Shows content) :
    OnRecords content length count (s.withWindow w) :=
  { h with shows := hw }

theorem withPosition {position : ℕ} (hposition : position ≤ length) :
    OnRecords content length count
      { s with unit := s.unit.setConnection fun c => { c with position } } :=
  { h with position_le := hposition }

/-! ### The end of the file -/

theorem offset_add_le (hlength : content.length = count * length)
    (hrecord : s.unit.connection.record ≤ count) : s.unit.offset + length ≤ content.length := by
  obtain ⟨k, hk⟩ := Nat.exists_eq_add_of_lt h.record_pos
  rw [h.offset_eq, hlength, hk]
  calc (0 + k + 1 - 1) * length + length = (k + 1) * length := by
        rw [Nat.zero_add, Nat.add_sub_cancel, Nat.succ_mul]
    _ ≤ count * length := Nat.mul_le_mul_right _ (by omega)

theorem offset_eq_length (hlength : content.length = count * length)
    (hrecord : ¬ s.unit.connection.record ≤ count) : s.unit.offset = content.length := by
  have hle := h.record_le
  have hlast : s.unit.connection.record = count + 1 := by omega
  rw [h.offset_eq, hlength, hlast, Nat.add_sub_cancel]

theorem offset_le (hlength : content.length = count * length) :
    s.unit.offset ≤ content.length := by
  by_cases hrecord : s.unit.connection.record ≤ count
  · exact (Nat.le_add_right _ _).trans (h.offset_add_le hlength hrecord)
  · exact (h.offset_eq_length hlength hrecord).le

/-- A look at the file tells whether there is a record: there are bytes at its offset, or none. -/
theorem findRecord_succeeds (hlength : content.length = count * length) (hpos : 0 < length)
    (hsize : content.length < FileSystem.offsetLimit) :
    Succeeds findRecord s fun found t => ∃ w, (s.withWindow w).channel.Shows content ∧
      found = decide (s.unit.connection.record ≤ count) ∧
        t = { s.withWindow w with unit := { (s.withWindow w).unit with terminator := 0 } } := by
  have hshows : ({ s with unit := { s.unit with terminator := 0 } } : Session).channel.Shows
      content := h.shows
  refine findRecord_of_fixed h.fixedRecordLength
    ((windowed_read_succeeds hshows length (h.offset_le hlength) hsize).mono ?_ fun _ _ => id)
  rintro got _ ⟨w, rfl, hw, hgot, -⟩
  refine ⟨w, hw, ?_, rfl⟩
  rw [decide_eq_decide, hgot]
  by_cases hrecord : s.unit.connection.record ≤ count
  · have hle := h.offset_add_le hlength hrecord
    simp only [hrecord, iff_true]
    omega
  · have heq := h.offset_eq_length hlength hrecord
    simp only [hrecord, iff_false]
    omega

structure Located (content : Bytes) (length count : ℕ) (s : Session) (found : Bool) (t : Session) :
    Prop where
  onRecords : OnRecords content length count t
  decided : t.Decided count
  record_eq : t.unit.connection.record = s.unit.connection.record
  position_eq : t.unit.connection.position = s.unit.connection.position
  offset_eq : t.unit.offset = s.unit.offset
  found_eq : found = decide (s.unit.connection.record ≤ count)
  handler_eq : t.handler = if found then s.handler else s.handler.record .endOfFile

theorem notesEnd (hrecord : ¬ s.unit.connection.record ≤ count)
    (hend : s.unit.connection.atEnd = true) : s.NotesEnd (Located content length count s false) :=
  ⟨Receivers.admits_of_receivesError h.receivesError _,
    h.withHandler (s.handler.record_declared _), .inr hend, rfl, rfl, rfl,
    (decide_eq_false hrecord).symm, rfl⟩

theorem ensureLocated_succeeds (hlength : content.length = count * length) (hpos : 0 < length)
    (hsize : content.length < FileSystem.offsetLimit) :
    Succeeds ensureLocated s fun found t => Located content length count s found t := by
  refine ensureLocated_attempts (fun hlocated => ?_) (fun _ hend => ?_) fun _ _ => ?_
  · have hrecord := h.located hlocated
    exact ⟨h, .inl hrecord, rfl, rfl, rfl, (decide_eq_true hrecord).symm, rfl⟩
  · have hrecord := h.record_eq_of_atEnd hend
    exact h.notesEnd (by omega) hend
  refine (h.findRecord_succeeds hlength hpos hsize).mono ?_ fun _ _ => id
  rintro _ _ ⟨w, hw, rfl, rfl⟩
  by_cases hrecord : s.unit.connection.record ≤ count
  · rw [if_pos (decide_eq_true hrecord)]
    exact ⟨{ h with shows := hw, located := fun _ => hrecord }, .inl hrecord, rfl, rfl, rfl,
      (decide_eq_true hrecord).symm, rfl⟩
  · rw [if_neg (by simpa using hrecord)]
    -- The record missed is the one after the last, and becomes the file's end.
    have hle := h.record_le
    have hlast : ∀ last, some s.unit.connection.record = some last → last = count + 1 := by
      rintro last heq
      obtain rfl := Option.some.inj heq
      omega
    have hrecords : OnRecords content length count
        { s.withWindow w with unit := { (s.withWindow w).unit with terminator := 0 } }.atLastRecord :=
      { h with shows := hw, endRecord := hlast }
    obtain ⟨hadmits, ht⟩ := hrecords.notesEnd hrecord (decide_eq_true (le_refl s.unit.connection.record))
    exact ⟨hadmits, ht.onRecords, ht.decided, ht.record_eq, ht.position_eq, ht.offset_eq, ht.found_eq,
      ht.handler_eq⟩

/-! ### The READ beside its buffer -/

omit h in
theorem atEnd_asBuffer (hlength : content.length = count * length) (hpos : 0 < length) :
    (s.asBuffer content length).connection.atEnd = !decide (s.unit.connection.record ≤ count) := by
  have hlast : content.length / length = count := by
    rw [hlength, Nat.mul_div_cancel _ hpos]
  change decide (content.length / length + 1 ≤ s.unit.connection.record) = _
  rw [hlast, ← decide_not, decide_eq_decide]
  omega

theorem recordStart?_asBuffer (hlength : content.length = count * length) (hpos : 0 < length) :
    (s.asBuffer content length).recordStart? =
      if s.unit.connection.record ≤ count then some s.unit.offset else none := by
  rw [InternalUnit.recordStart?, atEnd_asBuffer hlength hpos, h.offset_eq]
  by_cases hrecord : s.unit.connection.record ≤ count
  · rw [decide_eq_true hrecord, if_pos hrecord]
    rfl
  · rw [decide_eq_false hrecord, if_neg hrecord]
    rfl

theorem current_of_record (hlength : content.length = count * length) (hpos : 0 < length)
    (hrecord : s.unit.connection.record ≤ count) :
    InternalUnit.current (s.asBuffer content length) =
      .ok (if s.unit.connection.position < length then
          content[s.unit.offset + s.unit.connection.position]?.map fun b => Char.ofNat b.toNat
        else none) (s.asBuffer content length) := by
  unfold InternalUnit.current
  rw [h.recordStart?_asBuffer hlength hpos, if_pos hrecord]
  change (if s.unit.connection.position < length then _ else _) = _
  split_ifs <;> rfl

theorem current_of_end (hlength : content.length = count * length) (hpos : 0 < length)
    (hrecord : ¬ s.unit.connection.record ≤ count) :
    InternalUnit.current (s.asBuffer content length) =
      .ok none { s.asBuffer content length with handler := s.handler.record .endOfFile } := by
  have hend : (s.asBuffer content length).handler.endOfFile =
      .ok (s.handler.record .endOfFile) := h.endOfFile
  unfold InternalUnit.current
  rw [h.recordStart?_asBuffer hlength hpos, if_neg hrecord]
  dsimp only
  rw [hend]

omit h in
theorem Located.asBuffer_eq {found : Bool} (ht : Located content length count s found t) :
    t.asBuffer content length = { s.asBuffer content length with handler := t.handler } := by
  unfold asBuffer
  rw [ht.record_eq, ht.position_eq]

theorem peek_succeeds (hlength : content.length = count * length) (hpos : 0 < length)
    (hsize : content.length < FileSystem.offsetLimit) :
    Succeeds peek s fun ch t =>
      InternalUnit.current (s.asBuffer content length) = .ok ch (t.asBuffer content length) ∧
        OnRecords content length count t ∧ t.Decided count := by
  refine peek_attempts h.formatted h.shows.mayRead
    ((h.ensureLocated_succeeds hlength hpos hsize).mono ?_ fun _ _ => id)
  intro found t ht
  have hbuffer := ht.asBuffer_eq
  by_cases hrecord : s.unit.connection.record ≤ count
  · obtain rfl : found = true := ht.found_eq.trans (decide_eq_true hrecord)
    have hhandler : t.handler = s.handler := ht.handler_eq
    have hsame : t.asBuffer content length = s.asBuffer content length := by
      rw [hbuffer, hhandler]
      rfl
    have hwithin := h.offset_add_le hlength hrecord
    rw [h.current_of_record hlength hpos hrecord]
    -- At the end of the record there is no byte to read; before it there is one, as the file goes on.
    refine atCursor_attempts ht.onRecords.formatted ht.onRecords.recordLength
      (congrArg₂ (· + ·) ht.offset_eq ht.position_eq) (fun hbehind => ?_) fun hinside => ?_
    · rw [ht.position_eq] at hbehind
      rw [if_neg (not_lt.mpr hbehind), ← hsame]
      exact ⟨rfl, ht.onRecords, ht.decided⟩
    · rw [ht.position_eq] at hinside
      rw [if_pos hinside]
      refine (windowed_read_succeeds ht.onRecords.shows 1 (by omega) hsize).mono ?_ fun _ _ => id
      rintro got _ ⟨w, rfl, hw, hgot, hbytes⟩
      obtain rfl : got = 1 := by omega
      refine ⟨?_, ht.onRecords.withWindow hw, ht.decided⟩
      have hbyte : (w.bytesAt (s.unit.offset + s.unit.connection.position) 1).head? =
          content[s.unit.offset + s.unit.connection.position]? := by
        rw [hbytes, Bytes.slice, List.head?_take, if_neg Nat.one_ne_zero, List.head?_drop]
      change _ = EStateM.Result.ok (Option.map _ (List.head? (w.bytesAt _ 1)))
        (t.asBuffer content length)
      rw [hbyte, hsame]
  · obtain rfl : found = false := ht.found_eq.trans (decide_eq_false hrecord)
    have hhandler : t.handler = s.handler.record .endOfFile := ht.handler_eq
    rw [h.current_of_end hlength hpos hrecord, ← hhandler, ← hbuffer]
    exact ⟨rfl, ht.onRecords, ht.decided⟩

theorem nextChar_completes (hlength : content.length = count * length) (hpos : 0 < length)
    (hsize : content.length < FileSystem.offsetLimit) :
    Completes nextChar s fun ch t =>
      InternalUnit.current (s.asBuffer content length) = .ok ch (t.asBuffer content length) ∧
        OnRecords content length count t ∧ t.Decided count :=
  nextChar_of_peek (h.peek_succeeds hlength hpos hsize)

theorem moveTo_completes (column : ℕ) :
    Completes (report (moveTo column)) s fun _ t =>
      InternalUnit.moveTo column (s.asBuffer content length) =
        .ok () (t.asBuffer content length) ∧ OnRecords content length count t := by
  refine report_completes ?_
  by_cases hcolumn : column ≤ length
  · have hbuffer : InternalUnit.moveTo column (s.asBuffer content length) =
        .ok () ((s.asBuffer content length).setPosition column) := if_pos hcolumn
    have hwithin (n : ℕ) (hn : s.unit.connection.fixedRecordLength = some n) : column ≤ n := by
      rw [h.fixedRecordLength] at hn
      exact hcolumn.trans_eq (Option.some.inj hn)
    rw [hbuffer]
    refine (moveTo_of_within hwithin).attempts.mono ?_ fun _ _ => id
    rintro _ _ rfl
    exact ⟨rfl, h.withPosition hcolumn⟩
  · obtain ⟨handler, hfault, hdeclared, -⟩ :=
      Handler.fault_received .recordReadOverrun h.receivesError
    have hbuffer := InternalUnit.moveTo_of_not_le (u := s.asBuffer content length) hcolumn
      rfl hfault
    rw [moveTo]
    refine (attempts_get _).mpr ?_
    dsimp only
    rw [h.fixedRecordLength]
    dsimp only
    rw [if_pos (by omega), hbuffer]
    refine Attempts.bind (modifyConnection_succeeds _).attempts ?_
    rintro _ _ rfl
    rw [if_neg (by rw [h.nonAdvancing]; decide), if_pos h.reading_eq]
    exact ⟨handler, hfault, rfl, (h.withPosition le_rfl).withHandler hdeclared⟩

theorem advance_completes (hlength : content.length = count * length) (hpos : 0 < length)
    (hsize : content.length < FileSystem.offsetLimit) :
    Completes advance s fun _ t => ∃ ok,
      InternalUnit.advance (s.asBuffer content length) = .ok ok (t.asBuffer content length) ∧
        OnRecords content length count t := by
  refine report_completes (advanceRecord_of_input h.reading_eq
    ((h.ensureLocated_succeeds hlength hpos hsize).mono ?_ fun _ _ => False.elim))
  intro found t ht
  unfold InternalUnit.advance
  rw [get_bind_run, atEnd_asBuffer hlength hpos]
  by_cases hrecord : s.unit.connection.record ≤ count
  · obtain rfl : found = true := ht.found_eq.trans (decide_eq_true hrecord)
    rw [decide_eq_true hrecord, Bool.not_true, if_neg Bool.false_ne_true, if_pos rfl]
    have hrecords := ht.onRecords
    have hstride : inputStride t.unit = length := by
      simp only [inputStride, hrecords.fixedRecordLength, hrecords.recordLength]
      rfl
    refine ⟨true, ?_, { hrecords with
      leftTabLimit := rfl
      record_pos := Nat.succ_pos _
      record_le := ?_
      offset_eq := ?_
      located := nofun
      position_le := Nat.zero_le _ }⟩
    · have hhandler : t.handler = s.handler := ht.handler_eq
      change EStateM.Result.ok true { s.asBuffer content length with
        connection := { (s.asBuffer content length).connection with
          record := s.unit.connection.record + 1 }.beginRecord } = EStateM.Result.ok true
            { s.asBuffer content length with
              connection := { (s.asBuffer content length).connection with
                record := t.unit.connection.record + 1
                position := 0 }
              handler := t.handler }
      rw [ht.record_eq, hhandler]
      rfl
    · change t.unit.connection.record + 1 ≤ count + 1
      rw [ht.record_eq]
      omega
    · change t.unit.offset + inputStride t.unit = (t.unit.connection.record + 1 - 1) * length
      obtain ⟨k, hk⟩ := Nat.exists_eq_add_of_lt hrecords.record_pos
      rw [hstride, hrecords.offset_eq, hk, Nat.zero_add, Nat.add_sub_cancel, Nat.add_sub_cancel,
        Nat.succ_mul]
  · obtain rfl : found = false := ht.found_eq.trans (decide_eq_false hrecord)
    have hsignal : FieldSource.signalEndOfFile (s.asBuffer content length) =
        .ok () (t.asBuffer content length) := by
      rw [ht.asBuffer_eq, ht.handler_eq]
      exact FieldSource.signal_eq h.endOfFile
    rw [decide_eq_false hrecord, Bool.not_false, if_pos rfl, if_neg Bool.false_ne_true]
    exact ⟨false, bind_run_eq hsignal, ht.onRecords⟩

theorem pastFixedRecord_eq (hlength : content.length = count * length) (hpos : 0 < length)
    (hdecided : s.Decided count) : s.unit.connection.pastFixedRecord =
      (s.asBuffer content length).connection.pastFixedRecord := by
  have hend : s.unit.connection.atEnd = !decide (s.unit.connection.record ≤ count) := by
    rcases hdecided with hrecord | hend
    · rw [h.atEnd_eq_false hrecord, decide_eq_true hrecord, Bool.not_true]
    · rw [hend, h.record_eq_of_atEnd hend, decide_eq_false (by omega), Bool.not_false]
  unfold Connection.pastFixedRecord
  rw [atEnd_asBuffer hlength hpos, hend, h.fixedLength, h.recordLength]
  rfl

theorem target_eq (m : Move) :
    s.unit.connection.target m = (s.asBuffer content length).connection.target m := by
  rw [Connection.target_of_noLimit h.leftTabLimit,
    Connection.target_of_noLimit (c := (s.asBuffer content length).connection) rfl]
  rfl

end OnRecords

section

variable (hlength : content.length = count * length) (hpos : 0 < length)
variable (hsize : content.length < FileSystem.offsetLimit)

def Beside (content : Bytes) (length count : ℕ) (s : Session) (u : InternalUnit) : Prop :=
  OnRecords content length count s ∧ u = s.asBuffer content length

theorem move_simulates_buffer (m : Move) : Simulates (Beside content length count) False
    (discard (move m)) (InternalUnit.move m) := by
  refine .of_completes ?_
  rintro s _ ⟨h, rfl⟩
  have hmove := h.moveTo_completes (s.unit.connection.target m)
  refine ((ends_get _).mpr hmove).discard.mono ?_ fun _ _ => id
  rintro _ t ⟨_, hmove, ht⟩
  rw [h.target_eq m] at hmove
  exact ⟨_, hmove, ht, rfl⟩

include hlength hpos hsize

theorem nextChar_simulates :
    Simulates (Beside content length count) False nextChar InternalUnit.current := by
  refine .of_completes ?_
  rintro s _ ⟨h, rfl⟩
  refine (h.nextChar_completes hlength hpos hsize).mono ?_ fun _ _ => id
  rintro ch t ⟨hcurrent, ht, -⟩
  exact ⟨_, hcurrent, ht, rfl⟩

theorem advance_simulates :
    Simulates (Beside content length count) False (discard advance)
      (discard InternalUnit.advance) := by
  refine .of_completes ?_
  rintro s _ ⟨h, rfl⟩
  refine (h.advance_completes hlength hpos hsize).discard.mono ?_ fun _ _ => id
  rintro _ t ⟨_, ok, hadvance, ht⟩
  exact ⟨_, bind_run_eq hadvance, ht, rfl⟩

/-- The next character of a field, or what comes at the end of a record: by then it is known whether
there is one. -/
theorem next_simulates (budget : Option ℕ) (modes : Modes) :
    Attempt.Simulates (Beside content length count) False (Field.next budget modes)
      (Field.next budget modes) := by
  have hrelative : Simulates (Beside content length count) False (discard (moveRelative 1))
      (InternalUnit.moveRelative 1) := move_simulates_buffer (.relative 1)
  have hmove : Simulates (Beside content length count) False (FieldSource.moveBy 1)
      (FieldSource.moveBy 1) := hrelative
  cases budget with
  | none =>
    refine (Attempt.Simulates.lift (nextChar_simulates hlength hpos hsize)).bind ?_
    rintro (_ | ch)
    · exact .pure _
    · dsimp only
      split_ifs
      · exact .pure _
      · exact (Attempt.Simulates.lift hmove).bind fun _ => .pure _
  | some width =>
    cases width with
    | zero => exact .pure _
    | succ left =>
      rintro s _ ⟨h, rfl⟩
      have hread : Agree (fun t u => Beside content length count t u ∧ t.Decided count) False
          (nextChar s) (InternalUnit.current (s.asBuffer content length)) := by
        obtain ⟨ch, t, hchar, hcurrent, ht, hdecided⟩ :=
          (h.nextChar_completes hlength hpos hsize).exists_run
        rw [hchar, hcurrent]
        exact .ok ch ⟨⟨ht, rfl⟩, hdecided⟩
      refine Attempt.Simulates.agree_bind_of (fun _ _ h => h.1)
        (Attempt.Simulates.agree_lift hread) ?_
      rintro (_ | ch) t _ - ⟨⟨ht, rfl⟩, hdecided⟩
      · have hst : Beside content length count t (t.asBuffer content length) := ⟨ht, rfl⟩
        have hpast : (FieldSource.connection t).pastFixedRecord =
            (FieldSource.connection (t.asBuffer content length)).pastFixedRecord :=
          ht.pastFixedRecord_eq hlength hpos hdecided
        have hstay : (FieldSource.connection t).nonAdvancing = false := ht.nonAdvancing
        have hstay' : (FieldSource.connection (t.asBuffer content length)).nonAdvancing = false := rfl
        dsimp only
        rw [attempt_get_bind_run, attempt_get_bind_run, hpast, hstay, hstay',
          if_neg Bool.false_ne_true, if_neg Bool.false_ne_true]
        split_ifs
        · exact .ok _ hst
        · exact .ok _ hst
        · exact Attempt.Simulates.throw _ t _ hst
      · exact ((Attempt.Simulates.lift hmove).bind fun _ => .pure _) t _ ⟨ht, rfl⟩

theorem call_simulates_buffer (c : RecordCall true false true) :
    Simulates (Beside content length count) False
      (do return (← Session.call c).found) (do return (← InternalUnit.call c).found) := by
  cases c with
  | char =>
    simp only [call, InternalUnit.call, bind_assoc, pure_bind]
    exact (nextChar_simulates hlength hpos hsize).bind fun _ => .pure _
  | move m =>
    simp only [call, InternalUnit.call, bind_assoc, pure_bind]
    have hmove : Simulates (Beside content length count) False
        (do discard (move m); return RecordCall.Answer.done)
        (do InternalUnit.move m; return RecordCall.Answer.done) :=
      (move_simulates_buffer m).bind fun _ => .pure _
    rw [discard_then] at hmove
    exact hmove
  | advance =>
    simp only [call, InternalUnit.call, bind_assoc, pure_bind]
    have hadvance := (advance_simulates hlength hpos hsize).bind fun _ =>
      Simulates.pure RecordCall.Answer.done
    rw [discard_then, discard_then] at hadvance
    exact hadvance

theorem step_simulates (step : RecordStep) :
    Simulates (Beside content length count) False step.perform step.performInternal := by
  have hstep : Simulates (Beside content length count) False step.onUnit step.onBuffer := by
    cases step with
    | call c =>
      have hcall := (call_simulates_buffer hlength hpos hsize c).bind fun a =>
        Simulates.pure (RecordAnswer.call a)
      simpa only [RecordStep.onUnit, RecordStep.onBuffer, bind_assoc, pure_bind] using hcall
    | field budget modes =>
      have hnext : Simulates (Beside content length count) False
        (Field.next budget modes : Attempt Session _).run
        (Field.next budget modes : Attempt InternalUnit _).run :=
          next_simulates hlength hpos hsize budget modes
      exact hnext.bind fun _ => .pure _
  refine hstep.bind fun answer => Simulates.get_bind ?_
  rintro s _ ⟨h, rfl⟩
  exact .ok _ ⟨h, rfl⟩

end

theorem onRecords_of_begun {status : OpenStatus} {position : Position} {path : Option String}
    {access : Access} {ref : FileRef} {writable writable' : Bool} {n : ℕ} {source : SourceLine}
    {r : Receivers}
    (hopened : s.Opened status position path { access, recordLength := some length } ref writable' t)
    (hfile : t.unit.attachment.backing = some (.file (.node n) writable))
    (hstart : t.unit.offset = 0) (hr : r.receivesError = true) :
    OnRecords (t.system.files.contentAt n) length count
      (t.beginning (.formatted .input) source r) := by
  have hconnection := hopened.connection_eq
  have hrecord : t.unit.connection.record = 1 := by rw [hconnection]
  refine
    { shows := hopened.shows hfile
      formatted := congrArg Connection.formatted hconnection
      fixedLength := congrArg Connection.fixedLength hconnection
      recordLength := congrArg Connection.recordLength hconnection
      nonAdvancing := congrArg Connection.nonAdvancing hconnection
      leftTabLimit := congrArg Connection.leftTabLimit hconnection
      reading_eq := rfl
      record_pos := hrecord.ge
      record_le := hrecord.le.trans (Nat.le_add_left 1 count)
      offset_eq := ?_
      located := fun hfound => absurd (hopened.located_eq.symm.trans hfound) Bool.false_ne_true
      endRecord := ?_
      position_le := ?_
      receivesError := ?_ }
  · change t.unit.offset = (t.unit.connection.record - 1) * length
    rw [hrecord, Nat.sub_self, Nat.zero_mul, hstart]
  · change ∀ last, t.unit.connection.endRecord = some last → _
    rw [hconnection]
    exact nofun
  · change t.unit.connection.position ≤ length
    rw [hconnection]
    exact Nat.zero_le _
  · simpa [beginning, Handler.declare, Receivers.union, Receivers.receivesError] using hr

/-- A READ in a file that has been opened with RECL= answers every step of any sequence as a buffer
with the same bytes does: the characters at the cursor, also those past the end of a record and of the
file, the fields' characters and what they leave of a width, where the cursor stands, the number of its
record and the status. -/
theorem fixed_records_alike {status : OpenStatus} {position : Position} {path : Option String}
    {access : Access} {source : SourceLine} {w : Receivers} {iostat : Iostat} {n : ℕ}
    {writable : Bool} (hfresh : s.unit.reaffirms status path = false)
    (hopen : statement .connect source w
      (openUnit status position path { access, recordLength := some length }) s =
        .ok (true, iostat) t)
    (hfile : t.unit.attachment.backing = some (.file (.node n) writable))
    (hstart : t.unit.offset = 0) (hpos : 0 < length)
    (hlength : (t.system.files.contentAt n).length = count * length)
    (hsize : (t.system.files.contentAt n).length < FileSystem.offsetLimit)
    (source' : SourceLine) {r : Receivers} (hr : r.receivesError = true) (steps : List RecordStep) :
    Completes (do
        begin_ (.formatted .input) source'
        declare r
        steps.mapM RecordStep.perform) t fun outs _ =>
      ∃ u, steps.mapM RecordStep.performInternal
        { InternalUnit.ofBuffer .input (t.system.files.contentAt n) length source' with
          handler := ({ source := source' } : Handler).declare r } = .ok outs u := by
  obtain ⟨ref, writable', hopened⟩ := opened_of_open hfresh hopen
  have hrecords : OnRecords (t.system.files.contentAt n) length count
      (t.beginning (.formatted .input) source' r) :=
    onRecords_of_begun hopened hfile hstart hr
  have hbuffer : (t.beginning (.formatted .input) source' r).asBuffer
      (t.system.files.contentAt n) length =
        { InternalUnit.ofBuffer .input (t.system.files.contentAt n) length source' with
          handler := ({ source := source' } : Handler).declare r } := by
    have hrecord : (t.beginning (.formatted .input) source' r).unit.connection.record = 1 :=
      congrArg Connection.record hopened.connection_eq
    have hposition : (t.beginning (.formatted .input) source' r).unit.connection.position = 0 :=
      congrArg Connection.position hopened.connection_eq
    rw [asBuffer, hrecord, hposition]
    rfl
  apply Ends.bind (begin_of_clean (fun _ => rfl) (hopened.shows hfile) hopened.located_eq source' r)
  intro _ u hu
  refine (ends_modify_bind _ _).mpr ?_
  rw [hu]
  refine ((Simulates.mapM (step_simulates hlength hpos hsize) steps).completes
    ⟨hrecords, rfl⟩).mono ?_ fun _ _ => id
  rintro outs _ ⟨v, hv, -⟩
  rw [hbuffer] at hv
  exact ⟨v, hv⟩

/-- The records `ab` and `cd`: a field that goes on behind the end of its record, a move past it, and
two looks behind the last record. -/
theorem fixed_records_alike_two :
    Completes (do
        discard (statement .connect {} {} (openUnit .old .asIs (some "a") { recordLength := some 2 }))
        begin_ (.formatted .input) {}
        declare { iostat := true }
        [.field (some 3) {}, .call (.absolute 2), .field (some 2) {}, .call .advance,
          .call (.relative 3), .call .advance, .call .char, .field (some 1) {}].mapM RecordStep.perform)
      { system := { files := { nodes := [{ content := [97, 98, 99, 100] }], names := [(["a"], 0)] } }
        unit := .new 10 1 } fun outs _ =>
      outs = [(.field (.ok (some 'a', some 2)), 1, 1, .ok), (.call .done, 2, 1, .ok),
        (.field (.ok (some ' ', some 1)), 2, 1, .ok), (.call .done, 0, 2, .ok),
        (.call .done, 2, 2, .recordReadOverrun), (.call .done, 0, 3, .recordReadOverrun),
        (.call (.char none), 0, 3, .recordReadOverrun),
        (.field (.ok (none, some 1)), 0, 3, .recordReadOverrun)] := by
  have hopen : ({ nodes := [{ content := [97, 98, 99, 100] }], names := [(["a"], 0)] } :
      FileSystem).open_ "a" (Channel.request .old) =
        .ok (.node 0, { nodes := [{ content := [97, 98, 99, 100] }], names := [(["a"], 0)] }) := by
    cbv
  obtain ⟨_, t, hrun, rfl, hsystem, hunit⟩ := (open_completes
    (s := { system := { files := _ }, unit := .new 10 1 }) { recordLength := some 2 } {} {} rfl
      (by decide) hopen).exists_run
  have hfile : t.unit.attachment.backing = some (.file (.node 0) true) := by
    rw [hunit]
    rfl
  have hcontent : t.system.files.contentAt 0 = [97, 98, 99, 100] := by
    rw [hsystem]
    rfl
  have hlength : (t.system.files.contentAt 0).length = 2 * 2 := by
    rw [hcontent]
    rfl
  apply Ends.bind (Completes.of_run hrun).discard
  rintro _ _ ⟨_, -, rfl⟩
  refine (fixed_records_alike rfl hrun hfile (by rw [hunit]; rfl) (by decide) hlength
    (by rw [hcontent]; decide) {} rfl
    [.field (some 3) {}, .call (.absolute 2), .field (some 2) {}, .call .advance,
      .call (.relative 3), .call .advance, .call .char, .field (some 1) {}]).mono ?_ fun _ _ => id
  rintro outs _ ⟨u, hbuffer⟩
  rw [hcontent] at hbuffer
  have hinternal : Ends ([.field (some 3) {}, .call (.absolute 2), .field (some 2) {},
      .call .advance, .call (.relative 3), .call .advance, .call .char,
      .field (some 1) {}].mapM RecordStep.performInternal)
        { InternalUnit.ofBuffer .input [97, 98, 99, 100] 2 {} with
          handler := ({ source := {} } : Handler).declare { iostat := true } } (fun outs _ =>
      outs = [(.field (.ok (some 'a', some 2)), 1, 1, .ok), (.call .done, 2, 1, .ok),
        (.field (.ok (some ' ', some 1)), 2, 1, .ok), (.call .done, 0, 2, .ok),
        (.call .done, 2, 2, .recordReadOverrun), (.call .done, 0, 3, .recordReadOverrun),
        (.call (.char none), 0, 3, .recordReadOverrun),
        (.field (.ok (none, some 1)), 0, 3, .recordReadOverrun)]) fun _ _ => False := by cbv
  exact hinternal.of_run hbuffer

end Session

end DataTransfer
