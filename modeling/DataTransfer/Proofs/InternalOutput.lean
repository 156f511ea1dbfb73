import DataTransfer.InternalUnit
import DataTransfer.Proofs.Draft
import DataTransfer.Proofs.Unit.Session

/-!
Output to a character buffer. Whatever is emitted and wherever the cursor moves, each record that was
reached holds its draft and is blank behind it, and every other byte of the buffer stays as it was.
-/

namespace DataTransfer

/-- What a step of output to a buffer answers: moves do not tell whether they were accepted. -/
def OutputStep.answer : OutputStep → Bool → RecordCall.Answer
  | .emit _, ok => .ok ok
  | .move _, _ => .done
  | .advance, ok => .ok ok

namespace InternalUnit

def forOutput (buffer : Bytes) (length : ℕ) (source : SourceLine) (r : Receivers) : InternalUnit :=
  { ofBuffer .output buffer length source with handler := ({ source } : Handler).declare r }

/-- The current record, if there is one, lies in the buffer, and neither the cursor nor the furthest
position is behind its end. -/
structure WithinBuffer (u : InternalUnit) : Prop where
  record : ∀ start, u.recordStart? = some start → start + u.recordLength ≤ u.buffer.length
  position : u.connection.position ≤ u.recordLength
  furthest : u.connection.furthest ≤ u.recordLength

abbrev room (buffer : Bytes) (length : ℕ) : Option ℕ := some (buffer.length / length)

/-- Output in progress on these records of a buffer. -/
structure OnPages (u : InternalUnit) (buffer : Bytes) (length : ℕ) (g : Pages) (refused : Bool) :
    Prop where
  direction_eq : u.direction = .output
  recordLength_eq : u.connection.recordLength = some length
  endRecord_eq : u.connection.endRecord = some (buffer.length / length + 1)
  record_eq : u.connection.record = g.finished.length + 1
  position_eq : u.connection.position = g.draft.cursor
  furthest_eq : u.connection.furthest = g.draft.text.length
  leftTabLimit_eq : u.connection.leftTabLimit = none
  buffer_eq : u.buffer = (buffer.put 0 g.finished.flatten).put g.finished.flatten.length g.draft.text
  receives : u.handler.declared.receivesError = true
  status_eq : u.handler.status = bif refused then .internalWriteOverrun else .ok
  finished : g.finished.length ≤ buffer.length / length
  flatten : g.finished.flatten.length = g.finished.length * length
  within : g.draft.Within (some length)
  behind : g.hasRoom (room buffer length) = false → g.draft.text = []

namespace OnPages

variable {u : InternalUnit} {buffer : Bytes} {length : ℕ} {g : Pages} {refused : Bool}

theorem atEnd_eq (h : OnPages u buffer length g refused) :
    u.connection.atEnd = !g.hasRoom (room buffer length) := by
  rw [Connection.atEnd, h.endRecord_eq, h.record_eq, Pages.hasRoom, Option.all_some, ← decide_not]
  simp

theorem recordStart_eq (h : OnPages u buffer length g refused) :
    u.recordStart? = if g.hasRoom (room buffer length) then some g.finished.flatten.length else none := by
  rw [recordStart?, h.atEnd_eq, h.record_eq, recordLength, h.recordLength_eq, h.flatten]
  cases g.hasRoom (room buffer length) <;> rfl

theorem stop_le (h : OnPages u buffer length g refused)
    (hroom : g.hasRoom (room buffer length) = true) :
    g.finished.flatten.length + length ≤ buffer.length := by
  have hlt : g.finished.length < buffer.length / length := by simpa [Pages.hasRoom] using hroom
  calc g.finished.flatten.length + length = (g.finished.length + 1) * length := by
        rw [h.flatten, Nat.succ_mul]
    _ ≤ buffer.length / length * length := Nat.mul_le_mul_right length hlt
    _ ≤ buffer.length := Nat.div_mul_le_self _ _

theorem start_le (h : OnPages u buffer length g refused) :
    g.finished.flatten.length ≤ buffer.length := by
  rw [h.flatten]
  exact (Nat.mul_le_mul_right length h.finished).trans (Nat.div_mul_le_self _ _)

theorem length_buffer (h : OnPages u buffer length g refused) : u.buffer.length = buffer.length := by
  have hstart := h.start_le
  have htext : g.finished.flatten.length + g.draft.text.length ≤ buffer.length := by
    cases hroom : g.hasRoom (room buffer length) with
    | true => exact (Nat.add_le_add_left (h.within length rfl).1 _).trans (h.stop_le hroom)
    | false =>
      rw [h.behind hroom]
      exact hstart
  rw [h.buffer_eq, Bytes.length_put, Bytes.length_put]
  split_ifs <;> omega

theorem length_eq (h : OnPages u buffer length g refused) : u.recordLength = length := by
  rw [recordLength, h.recordLength_eq]
  rfl

theorem withinBuffer (h : OnPages u buffer length g refused) : u.WithinBuffer := by
  refine ⟨fun start hstart => ?_, ?_, ?_⟩
  · rw [h.recordStart_eq] at hstart
    split_ifs at hstart with hroom
    cases hstart
    rw [h.length_eq, h.length_buffer]
    exact h.stop_le hroom
  · rw [h.length_eq, h.position_eq]
    exact (h.within length rfl).2
  · rw [h.length_eq, h.furthest_eq]
    exact (h.within length rfl).1

theorem signalFault_completes (h : OnPages u buffer length g refused) :
    Completes (FieldSource.signalFault .internalWriteOverrun) u fun _ v =>
      OnPages v buffer length g true := by
  obtain ⟨handler, hfault, hdeclared, hstatus⟩ := Handler.fault_received .internalWriteOverrun h.receives
  have hrun : FieldSource.signalFault .internalWriteOverrun u = .ok () { u with handler } :=
    FieldSource.signal_eq hfault
  refine (Completes.of_run hrun).mono ?_ fun _ _ => id
  rintro _ _ ⟨-, rfl⟩
  refine { h with receives := hdeclared ▸ h.receives, status_eq := hstatus.trans ?_ }
  rw [h.status_eq]
  cases refused <;> rfl

theorem setPosition (h : OnPages u buffer length g refused) (column : ℕ) :
    OnPages (u.setPosition (min column length)) buffer length
      { g with draft := g.draft.moved (some length) column } refused :=
  { h with position_eq := rfl, within := h.within.moved column }

theorem moveTo_over_end (h : OnPages u buffer length g refused) {column : ℕ} (hover : length < column) :
    moveTo column u = FieldSource.signalFault .internalWriteOverrun (u.setPosition length) := by
  unfold moveTo
  rw [h.length_eq, if_neg hover.not_ge]
  obtain ⟨direction, _, _, _⟩ := u
  obtain rfl : direction = .output := h.direction_eq
  rfl

theorem moveTo_completes (h : OnPages u buffer length g refused) (column : ℕ) :
    Completes (moveTo column) u fun _ v => OnPages v buffer length
      { g with draft := g.draft.moved (some length) column }
      (refused || !decide (column ≤ length)) := by
  have hmoved := h.setPosition column
  rcases le_or_gt column length with hle | hover
  · rw [min_eq_left hle] at hmoved
    rw [decide_eq_true hle, Bool.not_true, Bool.or_false]
    unfold Completes Ends moveTo
    rw [h.length_eq, if_pos hle]
    exact hmoved
  · rw [min_eq_right hover.le] at hmoved
    rw [decide_eq_false hover.not_ge, Bool.not_false, Bool.or_true]
    unfold Completes Ends
    rw [h.moveTo_over_end hover]
    exact hmoved.signalFault_completes

theorem emitted (h : OnPages u buffer length g refused)
    (hroom : g.hasRoom (room buffer length) = true) {data : Bytes}
    (hfits : g.draft.accepts (some length) (.emit data) = true) :
    OnPages { u with
      direction := .output
      buffer := (u.blankTo g.finished.flatten.length g.draft.cursor).overlay
        (g.finished.flatten.length + g.draft.cursor) data
      connection := { u.connection with
        position := g.draft.cursor + data.length
        furthest := max g.draft.text.length (g.draft.cursor + data.length) } }
      buffer length { g with draft := g.draft.overlaid data } refused := by
  have hstop := h.stop_le hroom
  obtain ⟨htext, hcursor⟩ := h.within length rfl
  have hwithin := h.within.step (.emit data)
  rw [Draft.step, if_pos hfits] at hwithin
  have hlength := h.length_buffer
  have hpadded : u.blankTo g.finished.flatten.length g.draft.cursor =
      (buffer.put 0 g.finished.flatten).put g.finished.flatten.length g.draft.padded := by
    rw [blankTo, h.furthest_eq, Bytes.overlay_eq_put (by omega), h.buffer_eq]
    exact Draft.put_padded _ _ _
  have hput : (u.blankTo g.finished.flatten.length g.draft.cursor).overlay
      (g.finished.flatten.length + g.draft.cursor) data =
        (buffer.put 0 g.finished.flatten).put g.finished.flatten.length
          (g.draft.overlaid data).text := by
    rw [Bytes.overlay_eq_put, hpadded, Draft.put_overlaid]
    rw [hpadded, Bytes.length_put, Bytes.length_put, Draft.length_padded]
    split_ifs <;> omega
  exact { h with
    direction_eq := rfl
    buffer_eq := hput
    position_eq := rfl
    furthest_eq := (g.draft.length_overlaid data).symm
    within := hwithin
    behind := fun hno => by rw [show g.hasRoom _ = false from hno] at hroom; cases hroom }

theorem emit_completes (h : OnPages u buffer length g refused) (data : Bytes) :
    Completes (emit data) u fun ok v =>
      ok = g.accepts (some length) (room buffer length) (.emit data) ∧
        OnPages v buffer length (g.step (some length) (room buffer length) (.emit data))
          (refused || !g.accepts (some length) (room buffer length) (.emit data)) := by
  have hfits : g.draft.accepts (some length) (.emit data) =
      decide (g.draft.cursor + data.length ≤ length) := by
    have htext := (h.within length rfl).1
    simp [Draft.accepts, Draft.target, htext]
  unfold Pages.accepts Pages.step
  simp only [emit, ends_get, h.direction_eq, h.recordStart_eq, h.position_eq]
  cases hroom : g.hasRoom (room buffer length) with
  | false =>
    refine Ends.bind h.signalFault_completes ?_
    rintro _ v hv
    simpa using hv
  | true =>
    simp only [if_true, h.length_eq, h.furthest_eq, hfits, Bool.true_and]
    split_ifs with hle
    · refine (ends_set_bind _ _).mpr ?_
      simpa [Draft.step, hfits, hle] using h.emitted hroom (hfits.trans (decide_eq_true hle))
    · refine Ends.bind h.signalFault_completes ?_
      rintro _ v hv
      simpa [Draft.step, hfits, hle] using hv

theorem finishRecord (h : OnPages u buffer length g refused)
    (hroom : g.hasRoom (room buffer length) = true) :
    u.finishRecord =
      { u with buffer := buffer.put 0 (g.finished.flatten ++ g.draft.record (some length)) } := by
  have hstop := h.stop_le hroom
  have htext := (h.within length rfl).1
  have hlength := h.length_buffer
  have hbuffer : u.blankTo g.finished.flatten.length length =
      buffer.put 0 (g.finished.flatten ++ g.draft.record (some length)) := by
    rw [blankTo, h.furthest_eq, Bytes.overlay_eq_put (by omega), h.buffer_eq, Bytes.put_append,
      ← Bytes.put_append buffer 0, Nat.zero_add]
    rfl
  unfold InternalUnit.finishRecord
  rw [h.direction_eq, h.recordStart_eq, hroom, if_pos rfl, h.length_eq]
  dsimp only
  rw [hbuffer]

theorem advance_completes (h : OnPages u buffer length g refused) :
    Completes advance u fun ok v => ok = g.accepts (some length) (room buffer length) .advance ∧
      OnPages v buffer length (g.step (some length) (room buffer length) .advance)
        (refused || !g.accepts (some length) (room buffer length) .advance) := by
  unfold Pages.accepts Pages.step
  simp only [advance, ends_get, h.atEnd_eq, h.direction_eq]
  cases hroom : g.hasRoom (room buffer length) with
  | false =>
    refine Ends.bind h.signalFault_completes ?_
    rintro _ v hv
    simpa using hv
  | true =>
    have hlt : g.finished.length < buffer.length / length := by simpa [Pages.hasRoom] using hroom
    have hrecord : (g.draft.record (some length)).length = length := h.within.record_length
    simp only [h.finishRecord hroom, Bool.not_true, Bool.false_eq_true, if_false, if_true]
    refine (ends_set_bind _ _).mpr ⟨rfl, ?_⟩
    exact { h with
      record_eq := by simp [Connection.beginRecord, h.record_eq]
      position_eq := rfl
      furthest_eq := rfl
      leftTabLimit_eq := rfl
      buffer_eq := by simp
      status_eq := by rw [Bool.or_false]; exact h.status_eq
      finished := by simpa using Nat.succ_le_of_lt hlt
      flatten := by simp [h.flatten, hrecord, Nat.succ_mul]
      within := Draft.within_start _
      behind := fun _ => rfl }

theorem move_completes (h : OnPages u buffer length g refused) (m : Move) :
    Completes (move m) u fun _ v =>
      OnPages v buffer length (g.step (some length) (room buffer length) (.move m))
        (refused || !g.accepts (some length) (room buffer length) (.move m)) := by
  have hmove := h.moveTo_completes (m.column g.draft.cursor)
  unfold Completes Ends move
  rw [Connection.target_of_noLimit h.leftTabLimit_eq, h.position_eq]
  exact hmove

theorem call_completes (h : OnPages u buffer length g refused) (p : OutputStep) :
    Completes (call p) u fun answer v =>
      answer = p.answer (g.accepts (some length) (room buffer length) p) ∧
        OnPages v buffer length (g.step (some length) (room buffer length) p)
          (refused || !g.accepts (some length) (room buffer length) p) := by
  cases p with
  | emit data => exact (h.emit_completes data).bind fun _ _ hv => ⟨congrArg _ hv.1, hv.2⟩
  | move m => exact (h.move_completes m).bind fun _ _ hv => ⟨rfl, hv⟩
  | advance => exact h.advance_completes.bind fun _ _ hv => ⟨congrArg _ hv.1, hv.2⟩

theorem writes_complete (ps : List OutputStep) (h : OnPages u buffer length g refused) :
    Completes (ps.mapM call) u fun answers v =>
      answers = ps.zipWith OutputStep.answer (g.accepted (some length) (room buffer length) ps) ∧
        OnPages v buffer length (g.lay (some length) (room buffer length) ps)
          (refused || !(g.accepted (some length) (room buffer length) ps).all id) := by
  induction ps generalizing u g refused with
  | nil =>
    refine ⟨rfl, ?_⟩
    rw [Pages.accepted, List.all_nil, Bool.not_true, Bool.or_false]
    exact h
  | cons p ps ih =>
    rw [List.mapM_cons]
    refine Ends.bind (h.call_completes p) ?_
    rintro _ v ⟨rfl, hv⟩
    refine Ends.bind (ih hv) ?_
    rintro _ w ⟨rfl, hw⟩
    refine ⟨rfl, ?_⟩
    rwa [Pages.accepted, List.all_cons, Bool.not_and, ← Bool.or_assoc]

theorem finish_completes (h : OnPages u buffer length g refused) :
    Completes finish u fun status v =>
      status = (bif refused then .internalWriteOverrun else .ok) ∧
        (g.stored (some length) (room buffer length)).length ≤ buffer.length ∧
          v.buffer = g.stored (some length) (room buffer length) ++
            buffer.drop (g.stored (some length) (room buffer length)).length := by
  have hstart := h.start_le
  simp only [finish, ends_modify_bind, ends_get, ends_pure]
  unfold Pages.stored
  cases hroom : g.hasRoom (room buffer length) with
  | true =>
    have hstop := h.stop_le hroom
    have hrecord : (g.draft.record (some length)).length = length := h.within.record_length
    have hle : (g.finished.flatten ++ g.draft.record (some length)).length ≤ buffer.length := by
      rwa [List.length_append, hrecord]
    rw [h.finishRecord hroom, if_pos rfl]
    exact ⟨h.status_eq, hle, Bytes.put_zero hle⟩
  | false =>
    have hsame : u.finishRecord = u := by
      unfold InternalUnit.finishRecord
      rw [h.direction_eq, h.recordStart_eq, hroom]
      rfl
    rw [hsame, if_neg Bool.false_ne_true, List.append_nil]
    refine ⟨h.status_eq, hstart, ?_⟩
    rw [h.buffer_eq, h.behind hroom]
    exact Bytes.put_zero hstart

end OnPages

theorem onPages_forOutput (buffer : Bytes) (length : ℕ) (source : SourceLine) {r : Receivers}
    (hr : r.receivesError = true) :
    OnPages (forOutput buffer length source r) buffer length {} false where
  direction_eq := rfl
  recordLength_eq := rfl
  endRecord_eq := rfl
  record_eq := rfl
  position_eq := rfl
  furthest_eq := rfl
  leftTabLimit_eq := rfl
  buffer_eq := rfl
  receives := hr
  status_eq := rfl
  finished := Nat.zero_le _
  flatten := (Nat.zero_mul length).symm
  within := Draft.within_start _
  behind := fun _ => rfl

/-- Output to a buffer as records of one length, with a receiver for errors. It accepts and refuses
what the drafts of its records do, as long as there is room for a record, and stays within the
buffer. In the end the buffer holds the records that were reached, one behind the other; what lies
behind them is what was there before. Moves are added to the cursor in signed 64-bit arithmetic, as they
are in the record of a file. -/
theorem output_assembles (buffer : Bytes) (length : ℕ) (source : SourceLine) {r : Receivers}
    (hr : r.receivesError = true) (ps : List OutputStep) :
    Completes (ps.mapM call) (forOutput buffer length source r) fun answers u =>
      answers = ps.zipWith OutputStep.answer
        (Pages.accepted (some length) (room buffer length) {} ps) ∧
      u.WithinBuffer ∧ u.buffer.length = buffer.length ∧
      Completes finish u fun status v =>
        status = (if (Pages.accepted (some length) (room buffer length) {} ps).all id then .ok
          else .internalWriteOverrun) ∧
        (Pages.records (some length) (room buffer length) ps).length ≤ buffer.length ∧
        v.buffer = Pages.records (some length) (room buffer length) ps ++
          buffer.drop (Pages.records (some length) (room buffer length) ps).length := by
  refine ((onPages_forOutput buffer length source hr).writes_complete ps).mono ?_ fun _ _ => id
  rintro _ u ⟨rfl, hu⟩
  refine ⟨rfl, hu.withinBuffer, hu.length_buffer, hu.finish_completes.mono ?_ fun _ _ => id⟩
  rintro _ v ⟨rfl, hv⟩
  refine ⟨?_, hv⟩
  cases (Pages.accepted (some length) (room buffer length) {} ps).all id <;> rfl

/-- Three records of two bytes in a buffer of seven: data that does not fit, a record that is passed
over, and an emission behind the last record. -/
theorem output_assembles_behind_last :
    Completes (do
        let answers ← ([.emit [97, 97, 97], .relative 1, .emit [97], .advance, .advance, .emit [98],
          .advance, .emit [99]] : List OutputStep).mapM call
        return (answers, ← finish))
      (forOutput [122, 122, 122, 122, 122, 122, 122] 2 {} { iostat := true }) fun out u =>
      out = ([.ok false, .done, .ok true, .ok true, .ok true, .ok true, .ok true, .ok false],
          .internalWriteOverrun) ∧ u.buffer = [32, 97, 32, 32, 98, 32, 122] := by
  -- The steps are kept from being run until the end.
  generalize hps : ([.emit [97, 97, 97], .relative 1, .emit [97], .advance, .advance, .emit [98],
    .advance, .emit [99]] : List OutputStep) = ps
  refine Ends.bind (output_assembles [122, 122, 122, 122, 122, 122, 122] 2 {} rfl ps) ?_
  rintro _ u ⟨rfl, -, -, hfinish⟩
  refine Ends.bind hfinish ?_
  rintro _ v ⟨rfl, -, hv⟩
  subst hps
  exact ⟨by decide, hv.trans (by decide)⟩

/-- A move by the largest number of columns overflows, and what is emitted then takes the place of what
was emitted before. -/
example :
    Completes (do
        let answers ← ([.emit [97], .relative 9223372036854775807, .emit [98]] :
          List OutputStep).mapM call
        return (answers, ← finish))
      (forOutput [122, 122, 122, 122] 4 {} { iostat := true }) fun out u =>
      out = ([.ok true, .done, .ok true], .ok) ∧ u.buffer = [98, 32, 32, 32] := by
  decide +kernel

end InternalUnit

end DataTransfer
