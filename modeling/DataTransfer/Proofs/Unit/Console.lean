import DataTransfer.Proofs.Unit.Apart
import DataTransfer.Proofs.Unit.FormWriting

/-!
Formatted output to the standard output stream. Complete records are put there at once, and what a WRITE
that does not advance has left waits in the window for more. At any time what was put on the stream and
what waits for it make up all that was emitted, in the order in which it was.
-/

namespace DataTransfer

def Window.waiting (w : Window) : Bytes :=
  match w.dirty with
  | none => []
  | some (low, high) => w.bytes.slice low (high - low)

namespace Windowed

/-- A window on standard output that ends at `limit`. What was put on the stream and what waits, which is
the end of the window, make up the text. -/
structure Prints (limit : ℕ) (text : Bytes) (w : Windowed Channel) : Prop where
  attachment_eq : w.device.attachment = .standard 1
  limit_eq : w.window.limit = limit
  text_eq : w.device.system.output ++ w.window.waiting = text
  dirty : ∀ low high, w.window.dirty = some (low, high) → low ≤ high ∧ high = w.window.bytes.length

namespace Prints

variable {limit : ℕ} {text : Bytes} {w : Windowed Channel}

theorem of_clean {c : Channel} {v : Window} (hattachment : c.attachment = .standard 1)
    (houtput : c.system.output = text) (hlimit : v.limit = limit) (hclean : v.dirty = none) :
    Prints limit text ⟨c, v⟩ where
  attachment_eq := hattachment
  limit_eq := hlimit
  text_eq := by simp [Window.waiting, hclean, houtput]
  dirty := by simp [hclean]

variable (h : w.Prints limit text)
include h

theorem output_of_clean (hclean : w.window.dirty = none) : w.device.system.output = text := by
  rw [← h.text_eq, Window.waiting, hclean, List.append_nil]

theorem flushed : Prints limit text { w with device := w.device.flushed } where
  attachment_eq := (Channel.attachment_flushed _).trans h.attachment_eq
  limit_eq := h.limit_eq
  text_eq := by
    rw [← h.text_eq]
    exact congrArg (· ++ w.window.waiting) (Channel.output_flushed _)
  dirty := h.dirty

theorem flush_completes : Completes flush w fun _ t => t.Prints limit text ∧
    t.window = { w.window with dirty := none } := by
  cases hdirty : w.window.dirty with
  | none =>
    simp only [flush, ends_get, hdirty]
    refine (ends_pure _).mpr ⟨h, ?_⟩
    rw [← hdirty]
  | some range =>
    obtain ⟨low, high⟩ := range
    have hwrite : Completes (Channel.writeAt (w.window.offset + low)
        (w.window.bytes.slice low (high - low))) w.device fun _ c =>
        c.attachment = .standard 1 ∧ c.system.output = text := by
      have hbacking : w.device.attachment.backing = some .standardOutput := by
        rw [h.attachment_eq]
        rfl
      unfold Completes Ends Channel.writeAt
      rw [hbacking]
      refine ⟨h.attachment_eq, ?_⟩
      rw [← h.text_eq, Window.waiting, hdirty]
      rfl
    simp only [flush, ends_get, hdirty]
    refine Ends.bind ((ends_onDevice hwrite).mono (fun _ _ => id) fun _ _ => And.left) ?_
    rintro _ t ⟨⟨hattachment, houtput⟩, hwindow⟩
    have hlimit : t.window.limit = limit := by
      rw [hwindow]
      exact h.limit_eq
    exact (ends_modify _).mpr ⟨.of_clean hattachment houtput hlimit rfl, by rw [hwindow]⟩

theorem slide_completes : Completes (slide limit) w fun _ t => t.Prints limit text := by
  have hlimit : w.window.offset + w.window.bytes.length = limit := h.limit_eq
  have hclean (d : Channel) (hattachment : d.attachment = .standard 1) (houtput : d.system.output = text) :
      Prints limit text ⟨d, { w.window with
        offset := limit, bytes := w.window.bytes.drop (limit - w.window.offset), dirty := none }⟩ := by
    have hnil : w.window.bytes.drop (limit - w.window.offset) = [] :=
      List.drop_of_length_le (by omega)
    exact .of_clean hattachment houtput (by simp [Window.limit, hnil]) rfl
  rw [slide]
  refine (ends_get _).mpr ?_
  simp only [Bytes.reaches_eq]
  rw [if_neg (by simp; omega)]
  split_ifs with hlt hkept hdirty
  · exact h
  · refine Ends.bind h.flush_completes ?_
    rintro _ t ⟨ht, hwindow⟩
    refine (ends_modify _).mpr ?_
    rw [hwindow]
    exact hclean t.device ht.attachment_eq (ht.output_of_clean (by rw [hwindow]))
  · have hnone : w.window.dirty = none := by simpa [Window.isDirty] using hdirty
    refine (ends_modify _).mpr ?_
    rw [hnone]
    exact hclean w.device h.attachment_eq (h.output_of_clean hnone)
  · exact h

theorem write_completes (data : Bytes) :
    Completes (write limit data) w fun _ t => t.Prints (limit + data.length) (text ++ data) := by
  refine Ends.bind h.slide_completes fun _ t ht => ?_
  have hread : ByteDevice.mayRead t.device = false := by
    change t.device.attachment.mayRead = false
    rw [ht.attachment_eq]
    rfl
  have hlimit : t.window.offset + t.window.bytes.length = limit := ht.limit_eq
  have hstart : limit - t.window.offset = t.window.bytes.length := by omega
  refine (ends_get _).mpr ?_
  dsimp only
  rw [hread, Bool.false_and, Bool.false_and, if_neg Bool.false_ne_true, hstart]
  refine (ends_modify _).mpr ?_
  rw [Bytes.overlay_eq_put le_rfl, Bytes.put_length]
  refine ⟨ht.attachment_eq, ?_, ?_, ?_⟩
  · simp only [Window.limit, List.length_append]
    omega
  · rw [← ht.text_eq, Window.waiting, Window.waiting, List.append_assoc]
    dsimp only
    cases hdirty : t.window.dirty with
    | none => simp [Window.markDirty, Bytes.slice]
    | some range =>
      obtain ⟨low, high⟩ := range
      obtain ⟨hle, rfl⟩ := ht.dirty low high hdirty
      have hall {bs : Bytes} {n : ℕ} (hn : bs.length ≤ n) : bs.take n = bs := List.take_of_length_le hn
      simp only [Window.markDirty, Bytes.slice, min_eq_left hle, List.drop_append_of_le_length hle]
      rw [hall (by simp; omega), hall (by simp)]
  · intro low high
    cases hdirty : t.window.dirty with
    | none =>
      rintro ⟨⟩
      simp
    | some range =>
      obtain ⟨low', high'⟩ := range
      obtain ⟨hle, rfl⟩ := ht.dirty low' high' hdirty
      rintro ⟨⟩
      simp [hle]
      omega

end Prints

end Windowed

/-! ### The unit -/

namespace ExternalUnit

/-- A unit between two bytes of output: it writes lines to standard output, and they make up this text so
far. -/
structure Prints (system : System) (text : Bytes) (u : ExternalUnit) : Prop where
  window : Windowed.Prints (u.offset + u.connection.furthest) text ⟨⟨system, u.attachment⟩, u.window⟩
  formatted : u.connection.formatted = true
  lines : u.connection.fixedLength = false
  reading_eq : u.reading = false
  position_eq : u.connection.position = u.connection.furthest

theorem prints_predefine (number : ℤ) (readChunk : ℕ) (utf8 : Bool) (system : System) :
    ((new number readChunk).predefine 1 utf8).Prints system system.output where
  window := .of_clean rfl rfl rfl rfl
  formatted := rfl
  lines := rfl
  reading_eq := rfl
  position_eq := rfl

variable {system : System} {text : Bytes} {u : ExternalUnit}

theorem Prints.attachment_eq (h : u.Prints system text) : u.attachment = .standard 1 :=
  h.window.attachment_eq

theorem Prints.of_output (h : u.Prints system text) {system' : System}
    (houtput : system'.output = system.output) : u.Prints system' text :=
  { h with
    window :=
      { h.window with
        text_eq := by
          rw [← h.window.text_eq]
          exact congrArg (· ++ u.window.waiting) houtput } }

/-- The last action of the program delivers what waits, here and in the buffer of the stream, if no
statement holds the unit. -/
theorem Prints.flushOnCrash (h : u.Prints system text) (hfree : u.held = false) :
    (u.flushOnCrash system).1.delivered = text := by
  obtain ⟨_, w, hrun, hw, hwindow⟩ := h.window.flush_completes.exists_run
  have houtput : w.device.system.output = text := hw.output_of_clean (by rw [hwindow])
  have hflushed : w.device.flushed.system = w.device.system.flushed := by
    rw [Channel.flushed, hw.attachment_eq]
    rfl
  have hchannel : Windowed.flush (Session.channel { system, unit := u }) = .ok () w := hrun
  unfold ExternalUnit.flushOnCrash
  rw [if_neg (by rw [hfree]; exact Bool.false_ne_true)]
  dsimp only
  rw [hchannel]
  calc w.device.flushed.system.delivered
    _ = w.device.system.flushed.delivered := by rw [hflushed]
    _ = w.device.system.output := System.delivered_flushed _
    _ = text := houtput

end ExternalUnit

namespace Session

theorem flush_of_prints (limit : ℕ) (text : Bytes) {s : Session} (h : s.channel.Prints limit text) :
    Succeeds flush s fun _ t => ∃ w, t = s.withChannel w ∧ w.Prints limit text := by
  have hopen : s.unit.isOpen = true := congrArg Attachment.isOpen h.attachment_eq
  refine flush_of_windowed hopen ((windowed_succeeds h.flush_completes).mono ?_ fun _ _ => id)
  rintro _ _ ⟨w, ⟨hw, -⟩, rfl⟩
  exact ⟨{ w with device := w.device.flushed }, rfl, hw.flushed⟩

structure Printing (text : Bytes) (s : Session) : Prop where
  prints : s.unit.Prints s.system text
  held_eq : s.unit.held = true
  statement_eq : ∃ modes, s.unit.statement = .formatted .output modes ∨
    s.unit.statement = .listDirected .output modes
  inError_eq : s.handler.inError = false

namespace Printing

variable {text : Bytes} {s : Session}

theorem direction_eq (h : s.Printing text) : s.unit.statement.direction? = some .output := by
  obtain ⟨modes, hstatement | hstatement⟩ := h.statement_eq <;> rw [hstatement] <;> rfl

theorem fixedRecordLength_eq (h : s.Printing text) : s.unit.connection.fixedRecordLength = none := by
  rw [Connection.fixedRecordLength, h.prints.lines]
  rfl

theorem isTerminal_eq (h : s.Printing text) : s.unit.attachment.isTerminal = false := by
  rw [h.prints.attachment_eq]
  rfl

theorem of_begin {kind : StatementKind} (h : s.unit.Prints s.system text)
    (hkind : kind = .formatted .output ∨ kind = .listDirected .output) (source : SourceLine) :
    Completes (begin_ kind source) s fun _ t => t.Printing text := by
  have hdirection (modes : Modes) : (StatementState.begin_ kind modes).direction? = some .output := by
    rcases hkind with rfl | rfl <;> rfl
  have hopen : s.unit.isOpen = true := congrArg Attachment.isOpen h.attachment_eq
  refine (begin_of_same {} hdirection hopen h.reading_eq.symm).mono ?_ fun _ _ => id
  intro _ t ht
  have hsystem : t.system = s.system := ht.system_eq
  have hunit : t.unit = { s.unit with
      held := true, statement := .begin_ kind s.unit.connection.modes } := ht.unit_eq
  have hhandler : t.handler.inError = false := congrArg Handler.inError ht.handler_eq
  refine ⟨?_, by rw [hunit], ⟨s.unit.connection.modes, ?_⟩, hhandler⟩
  · rw [hsystem, hunit]
    exact { h with }
  · rw [hunit]
    rcases hkind with rfl | rfl
    · exact .inl rfl
    · exact .inr rfl

theorem withUnit (h : s.Printing text) {t : Session} {text' : Bytes}
    (hprints : t.unit.Prints t.system text') (hheld : t.unit.held = s.unit.held)
    (hstatement : t.unit.statement = s.unit.statement) (hhandler : t.handler = s.handler) :
    t.Printing text' where
  prints := hprints
  held_eq := hheld.trans h.held_eq
  statement_eq := hstatement ▸ h.statement_eq
  inError_eq := hhandler ▸ h.inError_eq

theorem of_report {act : Attempt Session Unit} (hact : Succeeds act s fun _ t => t.Printing text) :
    Completes (report act) s fun ok t => ok = true ∧ t.Printing text := by
  refine report_completes (hact.mono ?_ fun _ _ => False.elim)
  intro _ t ht
  exact ⟨by rw [ht.inError_eq]; rfl, ht⟩

variable (h : s.Printing text)
include h

theorem write_succeeds (data : Bytes) :
    Succeeds (windowed (Windowed.write (s.unit.offset + s.unit.connection.furthest) data)) s
      fun _ t => ∃ w, t = s.withChannel w ∧
        w.Prints (s.unit.offset + s.unit.connection.furthest + data.length) (text ++ data) := by
  refine (windowed_succeeds (h.prints.window.write_completes data)).mono ?_ fun _ _ => id
  rintro _ _ ⟨w, hw, rfl⟩
  exact ⟨w, rfl, hw⟩

theorem putData_succeeds (data : Bytes) :
    Succeeds (putData data) s fun _ t => t.Printing (text ++ data) := by
  have hinput : s.unit.statement.isInput = false := by
    rw [StatementState.isInput, h.direction_eq]
    rfl
  have hwritable : s.unit.attachment.mayWrite = true := by
    rw [h.prints.attachment_eq]
    rfl
  have hdata := ExternalUnit.dataOffset_of_formatted h.prints.formatted
  have hfurthest : max s.unit.connection.furthest (s.unit.connection.furthest + data.length) =
      s.unit.connection.furthest + data.length := max_eq_right (Nat.le_add_right _ _)
  simp only [putData, attempts_get, hinput, Bool.false_eq_true, if_false]
  refine Attempts.bind (requireWritable_of_mayWrite hwritable) ?_
  rintro _ _ rfl
  simp only [attempts_get, h.fixedRecordLength_eq, h.prints.position_eq, hfurthest, hdata, lt_irrefl,
    decide_false, Bool.false_and, Bool.false_eq_true, if_false, Option.any_none]
  refine Attempts.bind (h.write_succeeds data) ?_
  rintro _ _ ⟨w, rfl, hw⟩
  refine (modifyConnection_succeeds _).mono ?_ fun _ _ => id
  rintro _ _ rfl
  refine h.withUnit ⟨?_, h.prints.formatted, h.prints.lines, h.prints.reading_eq, rfl⟩ rfl rfl rfl
  rw [Nat.add_assoc] at hw
  exact hw

theorem emit_completes (data : Bytes) :
    Completes (emit data) s fun ok t => ok = true ∧ t.Printing (text ++ data) :=
  of_report (h.putData_succeeds data)

theorem count_items : { s with items := s.items + 1 }.Printing text := { h with }

theorem outputBytes_completes (data : Bytes) :
    Completes (outputBytes data) s fun _ t => t.Printing
      (text ++ ((if s.unit.statement.isListDirected then [blank] else []) ++ data)) := by
  rw [outputBytes]
  refine (ends_get _).mpr ?_
  rw [if_neg (by rw [h.inError_eq]; exact Bool.false_ne_true)]
  split_ifs with hlist
  · refine Ends.bind (h.emit_completes [blank]) ?_
    rintro _ t ⟨rfl, ht⟩
    refine (ends_modify_bind _ _).mpr ((ht.count_items.emit_completes data).mono ?_ fun _ _ => id)
    rintro _ u ⟨-, hu⟩
    rwa [List.append_assoc] at hu
  · exact (ends_modify_bind _ _).mpr ((h.count_items.emit_completes data).mono
      (fun _ _ hu => hu.2) fun _ _ => id)

theorem outputBlock_completes (data : Bytes) :
    Completes (outputBlock data) s fun _ t => t.Printing (text ++ data) := by
  rw [outputBlock]
  refine (ends_get _).mpr ?_
  rw [if_neg (by rw [h.inError_eq]; exact Bool.false_ne_true)]
  exact (ends_modify_bind _ _).mpr ((h.count_items.emit_completes data).mono
    (fun _ _ hu => hu.2) fun _ _ => id)

/-- A record that is complete goes to standard output at once. -/
theorem advance_completes : Completes advance s fun _ t => t.Printing (text ++ [newline]) := by
  have hadvance : Succeeds advanceRecord s fun _ t => t.Printing (text ++ [newline]) := by
    rw [advanceRecord]
    refine (attempts_get _).mpr ?_
    rw [if_neg (by rw [h.prints.reading_eq]; exact Bool.false_ne_true)]
    have hcomplete : Succeeds completeRecord s fun stride t => stride = s.unit.connection.furthest + 1 ∧
        ∃ w, t = s.withChannel w ∧
          w.Prints (s.unit.offset + s.unit.connection.furthest + 1) (text ++ [newline]) := by
      rw [completeRecord]
      refine (attempts_get _).mpr ?_
      dsimp only
      rw [h.fixedRecordLength_eq]
      dsimp only
      rw [if_pos h.prints.formatted]
      refine Attempts.bind (h.write_succeeds [newline]) ?_
      rintro _ _ ⟨w, rfl, hw⟩
      exact ⟨rfl, w, rfl, hw⟩
    refine Attempts.bind hcomplete ?_
    rintro _ _ ⟨rfl, w, rfl, hw⟩
    refine Attempts.bind (modifyUnit_succeeds _) ?_
    rintro _ _ rfl
    refine (attempts_get _).mpr ?_
    have hposition : w.device.attachment.mayPosition = false := by
      rw [hw.attachment_eq]
      rfl
    rw [if_pos (by exact Bool.not_eq_true' _ ▸ hposition)]
    refine Attempts.bind (flush_of_prints (s.unit.offset + (s.unit.connection.furthest + 1))
      (text ++ [newline]) hw) ?_
    rintro _ _ ⟨v, rfl, hv⟩
    refine (modifyUnit_succeeds _).mono ?_ fun _ _ => id
    rintro _ _ rfl
    exact h.withUnit ⟨hv, h.prints.formatted, h.prints.lines, h.prints.reading_eq, rfl⟩ rfl rfl rfl
  exact (of_report hadvance).mono (fun _ _ ht => ht.2) fun _ _ => id

theorem flushUnit_completes : Completes flushUnit s fun _ t => t.Printing text := by
  refine (of_report ((flush_of_prints _ text h.prints.window).mono ?_ fun _ _ => id)).mono
    (fun _ _ ht => ht.2) fun _ _ => id
  rintro _ _ ⟨w, rfl, hw⟩
  exact h.withUnit { h.prints with window := hw } rfl rfl rfl

theorem flushIfTerminal_completes : Completes flushIfTerminal s fun _ t => t = s := by
  rw [flushIfTerminal]
  refine (ends_get _).mpr ?_
  rw [if_neg (by rw [h.isTerminal_eq]; exact Bool.false_ne_true)]
  exact rfl

theorem setModes_completes (modes : Modes) : Completes (setModes modes) s fun _ t => t.Printing text := by
  rw [setModes]
  refine (ends_get _).mpr ?_
  obtain ⟨old, hstatement | hstatement⟩ := h.statement_eq <;> rw [hstatement]
  · exact ⟨{ h.prints with }, h.held_eq, ⟨modes, .inl rfl⟩, h.inError_eq⟩
  · exact ⟨{ h.prints with }, h.held_eq, ⟨modes, .inr rfl⟩, h.inError_eq⟩

theorem setNonAdvancing (yes : Bool) :
    Printing text { s with unit := s.unit.setConnection fun c => { c with nonAdvancing := yes } } :=
  h.withUnit { h.prints with } rfl rfl rfl

theorem setLeftTabLimit :
    Printing text { s with unit := s.unit.setConnection fun c =>
      { c with leftTabLimit := some c.furthest, position := c.furthest } } :=
  h.withUnit { h.prints with position_eq := rfl } rfl rfl rfl

theorem declare (r : Receivers) : Printing text { s with handler := s.handler.declare r } :=
  { h with }

theorem finish_completes : Completes finish s fun _ t =>
    t.unit.Prints t.system (text ++ if s.unit.connection.nonAdvancing then [] else [newline]) ∧
      t.unit.held = false := by
  have htransfer : s.unit.statement.isTransfer = true := by
    rw [StatementState.isTransfer, h.direction_eq]
    rfl
  have hend : Completes endTransfer s fun _ t =>
      t.Printing (text ++ if s.unit.connection.nonAdvancing then [] else [newline]) := by
    have hterminal {t : Session} {text' : Bytes} (ht : t.Printing text') :
        Completes flushIfTerminal t fun _ u => u.Printing text' := by
      refine ht.flushIfTerminal_completes.mono ?_ fun _ _ => id
      rintro _ _ rfl
      exact ht
    have hinput : s.unit.statement.isInput = false := by
      rw [StatementState.isInput, h.direction_eq]
      rfl
    have houtput : s.unit.statement.isOutput = true := by
      rw [StatementState.isOutput, h.direction_eq]
      rfl
    rw [endTransfer]
    refine (ends_get _).mpr ?_
    dsimp only
    rw [hinput, houtput]
    cases s.unit.connection.nonAdvancing with
    | false => exact h.advance_completes.discard_state.bind fun _ _ ht => hterminal ht
    | true =>
      have hset : Completes (do Session.setLeftTabLimit; flushIfTerminal) s fun _ t => t.Printing text :=
        (ends_modify_bind _ _).mpr (hterminal h.setLeftTabLimit)
      rw [show (text ++ if true = true then [] else [newline]) = text from List.append_nil text]
      exact hset
  exact finish_of_endTransfer htransfer
    (hend.mono (fun _ t ht => ⟨{ ht.prints with }, rfl⟩) fun _ _ => id)

end Printing

end Session

end DataTransfer
