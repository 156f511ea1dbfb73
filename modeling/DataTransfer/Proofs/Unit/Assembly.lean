import Mathlib
import DataTransfer.Proofs.Draft
import DataTransfer.Proofs.Unit.FormWriting
import DataTransfer.Proofs.Unit.Opening

/-!
Formatted WRITEs that move their cursor. In whatever order data is emitted and the cursor moves, the
file gets the record that the draft of it ends in, and nothing but that record.
-/

namespace DataTransfer.Session

variable {s : Session} {c : Channel} {n : ℕ} {F : FlatDevice Channel} {f : Form} {offset : ℕ}
variable {content : Bytes} {d : Draft} {refused : Bool}

/-- A formatted unit at the start of the record at `offset`, with no statement in progress: as an OPEN
leaves it, and as the end of a record does. -/
structure BeforeRecord (s : Session) (F : FlatDevice Channel) (f : Form) (offset : ℕ) (content : Bytes) :
    Prop where
  holds : s.channel.Holds F content
  form : s.unit.connection.HasForm f
  formatted_eq : f.formatted = true
  offset_eq : s.unit.offset = offset
  position_eq : s.unit.connection.position = 0
  furthest_eq : s.unit.connection.furthest = 0
  leftTabLimit_eq : s.unit.connection.leftTabLimit = none

/-- A WRITE in progress whose record is this draft, and whose status tells whether anything has been
refused. -/
structure Drafting (s : Session) (F : FlatDevice Channel) (f : Form) (offset : ℕ) (content : Bytes)
    (d : Draft) (refused : Bool) : Prop where
  holds : s.channel.Holds F (content.put offset d.text)
  form : s.unit.connection.HasForm f
  formatted_eq : f.formatted = true
  offset_eq : s.unit.offset = offset
  position_eq : s.unit.connection.position = d.cursor
  furthest_eq : s.unit.connection.furthest = d.text.length
  leftTabLimit_eq : s.unit.connection.leftTabLimit = none
  reading_eq : s.unit.reading = false
  direction_eq : s.unit.statement.direction? = some .output
  receives : s.handler.declared.receivesError = true
  status_eq : s.handler.status = bif refused then .recordWriteOverrun else .ok
  within : d.Within f.recordLength

namespace Drafting

theorem dataOffset_eq (h : Drafting s F f offset content d refused) : s.unit.dataOffset = offset := by
  rw [ExternalUnit.dataOffset_of_formatted (h.form.formatted.trans h.formatted_eq), h.offset_eq]

theorem inError_eq (h : Drafting s F f offset content d refused) : s.handler.inError = refused := by
  rw [Handler.inError, h.status_eq]
  cases refused <;> rfl

/-- The report of a placement: what is refused becomes the status unless something was refused
before. -/
theorem report_completes {act : Attempt Session Unit} {d' : Draft} {accepted : Bool}
    (h : Attempts act s
      (fun _ t => accepted = true ∧ Drafting t F f offset content d' refused)
      (fun e t => e = .recordWriteOverrun ∧ accepted = false ∧
        Drafting t F f offset content d' refused)) :
    Completes (report act) s fun ok t => ok = (!refused && accepted) ∧
      Drafting t F f offset content d' (refused || !accepted) := by
  refine Session.report_completes (h.mono ?_ ?_)
  · rintro _ t ⟨rfl, ht⟩
    rw [ht.inError_eq, Bool.and_true, Bool.not_true, Bool.or_false]
    exact ⟨rfl, ht⟩
  · rintro _ t ⟨rfl, rfl, ht⟩
    obtain ⟨handler, hfault, hdeclared, hstatus⟩ :=
      Handler.fault_received .recordWriteOverrun ht.receives
    refine ⟨handler, hfault, (Bool.and_false _).symm, { ht with receives := ?_, status_eq := ?_ }⟩
    · rw [hdeclared]
      exact ht.receives
    · rw [hstatus, ht.status_eq]
      cases refused <;> rfl

section

variable (hc : c.OpenTo n)
include hc

theorem overlay_succeeds (h : Drafting s hc.device f offset content d refused) {data : Bytes}
    {w : Windowed Channel} (hw : w.Holds hc.device (content.put offset d.padded))
    (hwithin : (d.overlaid data).Within f.recordLength)
    (hsize : offset + (d.overlaid data).text.length < FileSystem.offsetLimit) :
    Succeeds (do
        windowed (Windowed.write (offset + d.cursor) data)
        modifyConnection fun c =>
          { c with position := d.cursor + data.length
                   furthest := max d.text.length (d.cursor + data.length) }) (s.withChannel w)
      fun _ t => Drafting t hc.device f offset content (d.overlaid data) refused := by
  rw [d.length_overlaid] at hsize
  refine Attempts.bind (windowed_succeeds (s := s.withChannel w)
    (hc.write_completes hw data (by omega))) ?_
  rintro _ _ ⟨w', hw', rfl⟩
  rw [Draft.put_overlaid] at hw'
  refine (modifyConnection_succeeds _).mono ?_ fun _ _ => id
  rintro _ _ rfl
  exact { h with
    holds := hw'
    form := { h.form with }
    position_eq := rfl
    furthest_eq := (d.length_overlaid data).symm
    within := hwithin }

theorem putData_attempts (h : Drafting s hc.device f offset content d refused) (data : Bytes)
    (hsize : offset + (d.step f.recordLength (.emit data)).text.length < FileSystem.offsetLimit) :
    Attempts (putData data) s
      (fun _ t => d.accepts f.recordLength (.emit data) = true ∧
        Drafting t hc.device f offset content (d.step f.recordLength (.emit data)) refused)
      (fun e t => e = .recordWriteOverrun ∧ d.accepts f.recordLength (.emit data) = false ∧
        Drafting t hc.device f offset content (d.step f.recordLength (.emit data)) refused) := by
  have hinput : s.unit.statement.isInput = false := by
    rw [StatementState.isInput, h.direction_eq]
    rfl
  have hwrite : s.unit.attachment.mayWrite = true := by
    rw [show s.unit.attachment = _ from hc.attachment_eq h.holds]
    exact hc.mayWrite
  have hover : s.unit.connection.fixedRecordLength.any
      (· < max d.text.length (d.cursor + data.length)) = !d.accepts f.recordLength (.emit data) := by
    rw [h.form.fixedRecordLength, Draft.accepts, Draft.target]
    cases f.recordLength with
    | none => rfl
    | some length => simp only [Option.any_some, Option.all_some, ← decide_not, not_le]
  simp only [putData, attempts_get, hinput, Bool.false_eq_true, if_false]
  refine Attempts.bind (requireWritable_of_mayWrite hwrite).attempts ?_
  rintro _ t ht
  rw [ht]
  simp only [attempts_get, h.position_eq, h.furthest_eq, hover, h.dataOffset_eq]
  cases haccepts : d.accepts f.recordLength (.emit data) with
  | false =>
    rw [Draft.step, haccepts]
    exact ⟨rfl, rfl, h⟩
  | true =>
    have hstep : d.step f.recordLength (.emit data) = d.overlaid data := by
      rw [Draft.step, haccepts, if_pos rfl]
    have hwithin := h.within.step (.emit data)
    rw [hstep] at hsize hwithin ⊢
    simp only [Bool.not_true, Bool.false_eq_true, if_false, h.form.formatted, h.formatted_eq,
      Bool.and_true, decide_eq_true_eq, true_and]
    split_ifs with hgap
    · refine Attempts.bind (windowed_succeeds (hc.write_completes h.holds _ ?_)).attempts ?_
      · rw [d.length_overlaid] at hsize
        rw [Bytes.length_fill]
        omega
      rintro _ _ ⟨w, hw, rfl⟩
      rw [Draft.put_padded] at hw
      exact (h.overlay_succeeds hc hw hwithin hsize).attempts
    · have hpadded : d.padded = d.text := by
        rw [Draft.padded, Nat.sub_eq_zero_of_le (not_lt.mp hgap)]
        exact List.append_nil _
      have hholds := h.holds
      rw [← hpadded] at hholds
      exact (h.overlay_succeeds hc (w := s.channel) hholds hwithin hsize).attempts

end

theorem moveTo_attempts (h : Drafting s F f offset content d refused) (column : ℕ) :
    Attempts (moveTo column) s
      (fun _ t => f.recordLength.all (column ≤ ·) = true ∧
        Drafting t F f offset content (d.moved f.recordLength column) refused)
      (fun e t => e = .recordWriteOverrun ∧ f.recordLength.all (column ≤ ·) = false ∧
        Drafting t F f offset content (d.moved f.recordLength column) refused) := by
  have hmoved : Drafting { s with unit := s.unit.setConnection fun c =>
      { c with position := (d.moved f.recordLength column).cursor } } F f offset content
        (d.moved f.recordLength column) refused :=
    { h with form := { h.form with }, position_eq := rfl, within := h.within.moved column }
  refine (attempts_get _).mpr ?_
  dsimp only
  rw [h.form.fixedRecordLength]
  unfold Draft.moved at hmoved ⊢
  cases hlength : f.recordLength with
  | none =>
    rw [hlength] at hmoved
    refine (modifyConnection_succeeds _).attempts.mono ?_ fun _ _ => id
    rintro _ _ rfl
    exact ⟨rfl, hmoved⟩
  | some length =>
    rw [hlength] at hmoved
    dsimp only [Option.all_some, Option.elim_some] at hmoved ⊢
    simp only [h.form.nonAdvancing, h.reading_eq, Bool.false_eq_true, if_false]
    rcases le_or_gt column length with hle | hover
    · rw [if_neg hle.not_gt, min_eq_left hle] at *
      refine (modifyConnection_succeeds _).attempts.mono ?_ fun _ _ => id
      rintro _ _ rfl
      exact ⟨decide_eq_true hle, hmoved⟩
    · rw [if_pos hover, min_eq_right hover.le] at *
      refine Attempts.bind (modifyConnection_succeeds _).attempts ?_
      rintro _ _ rfl
      exact ⟨rfl, decide_eq_false hover.not_ge, hmoved⟩

section

variable (hc : c.OpenTo n)
include hc

theorem emit_completes (h : Drafting s hc.device f offset content d refused) (data : Bytes)
    (hsize : offset + (d.step f.recordLength (.emit data)).text.length < FileSystem.offsetLimit) :
    Completes (emit data) s fun ok t => ok = (!refused && d.accepts f.recordLength (.emit data)) ∧
      Drafting t hc.device f offset content (d.step f.recordLength (.emit data))
        (refused || !d.accepts f.recordLength (.emit data)) :=
  report_completes (h.putData_attempts hc data hsize)

omit hc in
theorem move_completes (h : Drafting s F f offset content d refused) (m : Move) :
    Completes (move m) s fun ok t => ok = (!refused && d.accepts f.recordLength (.move m)) ∧
      Drafting t F f offset content (d.step f.recordLength (.move m))
        (refused || !d.accepts f.recordLength (.move m)) := by
  refine (ends_get _).mpr ?_
  rw [Connection.target_of_noLimit h.leftTabLimit_eq, h.position_eq]
  exact report_completes (h.moveTo_attempts _)

/-- The draft becomes a record: blank up to its length, or a line. -/
theorem completesRecord (h : Drafting s hc.device f offset content d refused)
    (hsize : offset + (d.record f.recordLength).length < FileSystem.offsetLimit) :
    CompletesRecord hc.device s (d.record f.recordLength).length
      (content.put offset (d.record f.recordLength)) := by
  have hfixed := h.form.fixedRecordLength
  have hformatted := h.form.formatted.trans h.formatted_eq
  have hwithin := h.within
  cases hlength : f.recordLength with
  | none =>
    rw [hlength] at hfixed hsize
    have hline := completesRecord_line h.holds hfixed hformatted (by
      rw [h.offset_eq, h.furthest_eq]
      simpa [Draft.record] using hsize)
    rw [h.offset_eq, h.furthest_eq, Bytes.put_append] at hline
    simpa [Draft.record] using hline
  | some length =>
    rw [hlength] at hfixed hsize hwithin
    rw [hwithin.record_length] at hsize ⊢
    rcases (hwithin length rfl).1.lt_or_eq with hshort | hfull
    · have hfill := completesRecord_fill h.holds hfixed hformatted (by rwa [h.furthest_eq])
        (by rw [h.offset_eq]; exact hsize)
      rw [h.offset_eq, h.furthest_eq, Bytes.put_append] at hfill
      exact hfill
    · have hrecord : d.record (some length) = d.text := by
        rw [Draft.record, hfull, Nat.sub_self]
        exact List.append_nil _
      rw [hrecord]
      exact completesRecord_fixed h.holds hfixed (.inr (by rw [h.furthest_eq, hfull]; exact le_rfl))

theorem advance_completes (h : Drafting s hc.device f offset content d refused)
    (hsize : offset + (d.record f.recordLength).length < FileSystem.offsetLimit) :
    Completes advance s fun ok t => ok = (!refused) ∧
      Drafting t hc.device f (offset + (d.record f.recordLength).length)
        (content.put offset (d.record f.recordLength)) {} refused := by
  refine ((h.completesRecord hc hsize).advance_completes hc h.reading_eq).mono ?_ fun _ _ => id
  rintro _ _ ⟨rfl, w, hw, rfl⟩
  rw [h.inError_eq]
  exact ⟨rfl, { h with
    holds := hw
    form := { h.form with }
    offset_eq := congrArg (· + (d.record f.recordLength).length) h.offset_eq
    position_eq := rfl
    furthest_eq := rfl
    leftTabLimit_eq := rfl
    within := Draft.within_start _ }⟩

end

theorem ended (h : Drafting s F f offset content {} refused) :
    BeforeRecord s.ended F f offset content where
  holds := h.holds
  form := { h.form with nonAdvancing := rfl }
  formatted_eq := h.formatted_eq
  offset_eq := h.offset_eq
  position_eq := h.position_eq
  furthest_eq := h.furthest_eq
  leftTabLimit_eq := h.leftTabLimit_eq

end Drafting

def Writes (s : Session) (F : FlatDevice Channel) (f : Form) (offset : ℕ) (content : Bytes)
    (g : Pages) (refused : Bool) : Prop :=
  Drafting s F f (offset + g.finished.flatten.length) (content.put offset g.finished.flatten) g.draft
    refused

namespace Writes

variable {g : Pages}

section

variable (hc : c.OpenTo n)
include hc

theorem advance_completes (h : Writes s hc.device f offset content g refused)
    (hsize : offset + (g.stored f.recordLength none).length < FileSystem.offsetLimit) :
    Completes advance s fun ok t => ok = (!refused) ∧
      Writes t hc.device f offset content (g.step f.recordLength none .advance) refused := by
  rw [Pages.stored_none, List.length_append] at hsize
  refine (Drafting.advance_completes hc h (by omega)).mono ?_ fun _ _ => id
  rintro _ t ⟨rfl, ht⟩
  refine ⟨rfl, ?_⟩
  rw [Bytes.put_append, Nat.add_assoc, ← List.length_append] at ht
  change Drafting t hc.device f (offset + (g.finished ++ [g.draft.record f.recordLength]).flatten.length)
    (content.put offset (g.finished ++ [g.draft.record f.recordLength]).flatten) {} refused
  rwa [List.flatten_append, List.flatten_singleton]

theorem emit_completes (h : Writes s hc.device f offset content g refused) (data : Bytes)
    (hsize : offset + ((g.step f.recordLength none (.emit data)).stored f.recordLength none).length <
      FileSystem.offsetLimit) :
    Completes (emit data) s fun ok t => ok = (!refused && g.accepts f.recordLength none (.emit data)) ∧
      Writes t hc.device f offset content (g.step f.recordLength none (.emit data))
        (refused || !g.accepts f.recordLength none (.emit data)) := by
  rw [Pages.step_emit_none, Pages.stored_none, List.length_append] at hsize
  rw [Pages.step_emit_none, Pages.accepts_emit_none]
  refine Drafting.emit_completes hc h data ?_
  have htext := Draft.text_length_le_record f.recordLength (g.draft.step f.recordLength (.emit data))
  dsimp only at hsize
  omega

theorem call_completes (h : Writes s hc.device f offset content g refused) (p : OutputStep)
    (hsize : offset + ((g.step f.recordLength none p).stored f.recordLength none).length <
      FileSystem.offsetLimit) :
    Completes (call p) s fun answer t => answer = .ok (!refused && g.accepts f.recordLength none p) ∧
      Writes t hc.device f offset content (g.step f.recordLength none p)
        (refused || !g.accepts f.recordLength none p) := by
  cases p with
  | emit data => exact (h.emit_completes hc data hsize).bind fun _ _ ht => ⟨congrArg _ ht.1, ht.2⟩
  | move m => exact (Drafting.move_completes h m).bind fun _ _ ht => ⟨congrArg _ ht.1, ht.2⟩
  | advance =>
    have hgrow := g.stored_length_le_step f.recordLength .advance
    have haccepts : g.accepts f.recordLength none .advance = true := rfl
    rw [haccepts, Bool.and_true, Bool.not_true, Bool.or_false]
    exact (h.advance_completes hc (by omega)).bind fun _ _ ht => ⟨congrArg _ ht.1, ht.2⟩

/-- The steps of a WRITE make its records what they make of the drafts. -/
theorem writes_complete (ps : List OutputStep) (h : Writes s hc.device f offset content g refused)
    (hsize : offset + ((g.lay f.recordLength none ps).stored f.recordLength none).length <
      FileSystem.offsetLimit) :
    Completes (ps.mapM call) s fun answers t =>
      answers = (Pages.unrefused (g.accepted f.recordLength none ps)).map (.ok <| !refused && ·) ∧
        Writes t hc.device f offset content (g.lay f.recordLength none ps)
          (refused || !(g.accepted f.recordLength none ps).all id) := by
  induction ps generalizing s g refused with
  | nil =>
    refine ⟨rfl, ?_⟩
    rw [Pages.accepted, List.all_nil, Bool.not_true, Bool.or_false]
    exact h
  | cons p ps ih =>
    have hgrow := (g.step f.recordLength none p).stored_length_le_lay f.recordLength ps
    rw [List.mapM_cons]
    refine Ends.bind (h.call_completes hc p ((Nat.add_le_add_left hgrow offset).trans_lt hsize)) ?_
    rintro _ t ⟨rfl, ht⟩
    refine Ends.bind (ih ht hsize) ?_
    rintro _ u ⟨rfl, hu⟩
    refine ⟨?_, ?_⟩
    · simp [Pages.accepted, Pages.unrefused, Bool.and_assoc]
    · rwa [Pages.accepted, List.all_cons, Bool.not_and, ← Bool.or_assoc]

theorem finish_completes (h : Writes s hc.device f offset content g refused)
    (hsize : offset + (g.stored f.recordLength none).length < FileSystem.offsetLimit) :
    Completes finish s fun status t => status = (bif refused then .recordWriteOverrun else .ok) ∧
      BeforeRecord t hc.device f (offset + (g.stored f.recordLength none).length)
        (content.put offset (g.stored f.recordLength none)) := by
  have htransfer : s.unit.statement.isTransfer = true := by
    rw [StatementState.isTransfer, h.direction_eq]
    rfl
  refine finish_of_transfer htransfer h.form.nonAdvancing ?_
  refine (h.advance_completes hc hsize).mono ?_ fun _ _ => id
  rintro _ t ⟨-, ht⟩
  refine ⟨?_, ht.status_eq, ?_⟩
  · rw [show t.unit.attachment = _ from hc.attachment_eq ht.holds]
    exact hc.isTerminal
  · have hended := Drafting.ended ht
    change BeforeRecord t.ended hc.device f
      (offset + (g.finished ++ [g.draft.record f.recordLength]).flatten.length)
      (content.put offset (g.finished ++ [g.draft.record f.recordLength]).flatten) at hended
    rwa [List.flatten_append, List.flatten_singleton] at hended

end

end Writes

theorem BeforeRecord.writes (h : BeforeRecord s F f offset content) {kind : StatementKind} {r : Receivers}
    (hkind : kind.isWrite = true) (hr : r.receivesError = true) {t : Session}
    (ht : s.Starts F content kind .output r t) : Writes t F f offset content {} false where
  holds := ht.holds
  form := ht.connection_eq ▸ h.form
  formatted_eq := h.formatted_eq
  offset_eq := ht.offset_eq.trans h.offset_eq
  position_eq := ht.connection_eq ▸ h.position_eq
  furthest_eq := ht.connection_eq ▸ h.furthest_eq
  leftTabLimit_eq := ht.connection_eq ▸ h.leftTabLimit_eq
  reading_eq := ht.reading_eq
  direction_eq := by
    rw [ht.statement_eq]
    exact StatementKind.direction_of_isWrite hkind _
  receives := by
    rw [ht.declared_eq]
    exact hr
  status_eq := ht.status_eq
  within := Draft.within_start _

theorem Opened.beforeRecord {status : OpenStatus} {position : Position} {path : Option String}
    {t : Session} (h : s.Opened status position path f (.node n) true t) (hf : f.formatted = true)
    (hn : n < t.system.files.nodes.length) : ∃ hc : t.channel.device.OpenTo n,
      BeforeRecord t hc.device f t.unit.offset (t.system.files.contentAt n) := by
  have hattachment : t.channel.device.attachment =
      .opened status (s.unit.openName status path) (.node n) true := h.attachment_eq
  have hc : t.channel.device.OpenTo n := by
    refine ⟨⟨?_, ?_, hn⟩, ?_, ?_, ?_⟩ <;> rw [hattachment] <;> rfl
  have hchannel : t.channel = ⟨t.channel.device, { offset := t.unit.offset }⟩ := by
    rw [channel]
    congr 1
    rw [h.unit_eq]
    rfl
  refine ⟨hc, ?_, ?_, hf, rfl, ?_, ?_, ?_⟩
  · have hholds := hc.holds_opened t.unit.offset
    rwa [← hchannel] at hholds
  all_goals rw [h.connection_eq]
  exact ⟨rfl, rfl, rfl, fun _ => rfl, rfl⟩

/-- A formatted WRITE with a receiver for errors, which emits data, moves its cursor and goes on to
further records, in any order. It accepts and refuses what the drafts of its records do, and its
status is that of the first refusal. The records stand in the file then, one behind the other from
the offset where the unit stood; nothing else of the file is changed, and the unit stands at the
start of the record behind them. Moves are added to the cursor in signed 64-bit arithmetic, in a draft
as in the unit. -/
theorem write_assembles (hc : c.OpenTo n) (h : BeforeRecord s hc.device f offset content)
    {kind : StatementKind} (hkind : kind.isWrite = true) (source : SourceLine) {r : Receivers}
    (hr : r.receivesError = true) (ps : List OutputStep)
    (hsize : offset + (Pages.records f.recordLength none ps).length < FileSystem.offsetLimit) :
    Completes (statement kind source r (ps.mapM call)) s fun out t =>
      out = ((Pages.unrefused (Pages.accepted f.recordLength none {} ps)).map .ok,
        if (Pages.accepted f.recordLength none {} ps).all id then .ok else .recordWriteOverrun) ∧
      BeforeRecord t hc.device f (offset + (Pages.records f.recordLength none ps).length)
        (content.put offset (Pages.records f.recordLength none ps)) ∧
      ∀ source r, Completes (statement .disconnect source r (closeUnit .keep)) t fun out u =>
        out = (true, .ok) ∧ u.system =
          (c.withContent n (content.put offset (Pages.records f.recordLength none ps))).system := by
  refine statement_completes (B := fun t => s.Starts hc.device content kind .output r t)
    (starts_of_begin h.holds (isOpen_of_openTo hc h.holds)
      (StatementKind.direction_of_isWrite hkind) source r) ?_
  intro t ht
  refine ((h.writes hkind hr ht).writes_complete hc ps hsize).mono ?_ fun _ _ => id
  rintro _ u ⟨rfl, hu⟩
  refine (hu.finish_completes hc hsize).mono ?_ fun _ _ => id
  rintro _ v ⟨rfl, hv⟩
  refine ⟨?_, hv, fun source r => ?_⟩
  · cases (Pages.accepted f.recordLength none {} ps).all id <;> simp
  · refine (close_of_openTo hc source r hv.holds).mono ?_ fun _ _ => id
    rintro _ _ ⟨hout, hsystem, -⟩
    exact ⟨hout, hsystem⟩

/-- A record of four bytes over old content: a gap, a move behind the end, data that is refused
there, and a return to the first column. -/
theorem write_assembles_over_end :
    Completes (do
        discard (statement .connect {} {} (openUnit .old .asIs (some "a") { recordLength := some 4 }))
        let out ← statement (.formatted .output) {} { iostat := true }
          (([.emit [97], .relative 1, .emit [98], .absolute 9, .emit [99], .absolute (-1),
            .emit [65]] : List OutputStep).mapM call)
        discard (statement .disconnect {} {} (closeUnit .keep))
        return out)
      { system := { files := { nodes := [{ content := [122, 122, 122, 122, 122] }]
                               names := [(["a"], 0)] } }
        unit := .new 10 1 } fun out t =>
      out = ([true, true, true, false, false, false, false].map .ok, .recordWriteOverrun) ∧
        t.system.files.contentAt 0 = [65, 32, 98, 32, 122] := by
  have hopen : ({ nodes := [{ content := [122, 122, 122, 122, 122] }], names := [(["a"], 0)] } :
      FileSystem).open_ "a" (Channel.request .old) = .ok (.node 0,
        { nodes := [{ content := [122, 122, 122, 122, 122] }], names := [(["a"], 0)] }) := by
    cbv
  obtain ⟨_, t, hrun, rfl, hsystem, hunit⟩ := (open_completes
    (s := { system := { files := _ }, unit := .new 10 1 }) { recordLength := some 4 } {} {} rfl
      (by decide) hopen).exists_run
  have hfile : t.unit.attachment.backing = some (.file (.node 0) true) := by
    rw [hunit]
    rfl
  obtain ⟨hopened, -, hn, -⟩ := opened_on_file (by decide) rfl hrun hfile
  obtain ⟨hc, hat⟩ := hopened.beforeRecord rfl hn
  have hcontent : t.system.files.contentAt 0 = [122, 122, 122, 122, 122] := by
    rw [hsystem]
    rfl
  have hoffset : t.unit.offset = 0 := by
    rw [hunit]
    rfl
  rw [hcontent, hoffset] at hat
  apply Ends.bind (Completes.of_run hrun).discard
  rintro _ _ ⟨_, -, rfl⟩
  have hkind : (StatementKind.formatted .output).isWrite = true := rfl
  refine Ends.bind (write_assembles hc hat hkind {}
    (r := { iostat := true }) rfl [.emit [97], .relative 1, .emit [98], .absolute 9, .emit [99],
      .absolute (-1), .emit [65]] (by decide)) ?_
  rintro _ u ⟨rfl, -, hclose⟩
  refine Ends.bind (hclose {} {}).discard ?_
  rintro _ v ⟨_, -, hv⟩
  refine ⟨by decide, ?_⟩
  rw [hv]
  exact (FileSystem.contentAt_setContent _ hn _).trans (by decide)

/-- Behind one byte of a record of four, a move by the largest number of columns overflows: the cursor
is at the first column and nothing is refused. -/
theorem far_move_wraps :
    Completes (do
        discard (statement .connect {} {} (openUnit .old .asIs (some "a") { recordLength := some 4 }))
        statement (.formatted .output) {} { iostat := true } do
          discard (emit [97])
          let moved ← moveRelative (2 ^ 63 - 1)
          return (moved, (← get).unit.connection.position))
      { system := { files := { nodes := [{ content := [] }], names := [(["a"], 0)] } }
        unit := .new 10 256 } fun out _ =>
      out = ((true, 0), .ok) ∧ (4 : ℤ) < 1 + (2 ^ 63 - 1) := by
  have hopen : statement .connect {} {} (openUnit .old .asIs (some "a") { recordLength := some 4 })
      { system := { files := { nodes := [{ content := [] }], names := [(["a"], 0)] } }
        unit := .new 10 256 } = .ok (true, .ok)
      { system := { files := { nodes := [{ content := [] }], names := [(["a"], 0)] } }
        unit := { number := 10, readChunk := 256, attachment := .ofFile "a" 0
                  connection := { fixedLength := true, recordLength := some 4 } } } := by
    cbv
  refine Ends.bind (Completes.of_run hopen).discard ?_
  rintro _ _ ⟨_, -, rfl⟩
  exact ⟨by decide +kernel, by decide⟩

end DataTransfer.Session
