import Mathlib
import DataTransfer.Proofs.Unit.LineSearch
import DataTransfer.Proofs.Unit.Tape

/-!
READs of standard input. The unit takes the line of a READ into its window when the READ first looks
at it, and has then the looks of the READ on a tape.
-/

namespace DataTransfer

namespace Session

variable {s t : Session} {typed line after input : Bytes} {tape : Tape}

def holding (s : Session) (offset : ℕ) (held input : Bytes) : Session :=
  s.withChannel (s.channel.typed offset held input)

structure OnInput (s : Session) : Prop where
  attachment_eq : s.unit.attachment = .standard 0
  clean : s.unit.window.dirty = none
  form : Formatted s.unit.connection
  readChunk_pos : 0 < s.unit.readChunk
  reading_eq : s.unit.reading = true

/-- A unit on standard input, whatever its connection is like. -/
structure OnStream (s : Session) : Prop where
  attachment_eq : s.unit.attachment = .standard 0
  clean : s.unit.window.dirty = none
  readChunk_pos : 0 < s.unit.readChunk

theorem OnInput.onStream (h : s.OnInput) : s.OnStream :=
  ⟨h.attachment_eq, h.clean, h.readChunk_pos⟩

def heldLine (s : Session) : Bytes := Windowed.heldFrom s.unit.window s.unit.offset

theorem heldLine_holding (held input : Bytes) : (s.holding s.unit.offset held input).heldLine = held := by
  change Windowed.heldFrom { offset := s.unit.offset, bytes := held } s.unit.offset = held
  rw [Windowed.heldFrom, if_pos le_rfl, Nat.sub_self, List.drop_zero]

namespace OnStream

variable (h : s.OnStream)
include h

theorem holding (offset : ℕ) (held input : Bytes) : (s.holding offset held input).OnStream :=
  { h with clean := rfl }

theorem read_succeeds (offset count : ℕ) {more input : Bytes}
    (hsplit : System.splitLine (count - (Windowed.heldFrom s.unit.window offset).length)
      s.system.input = (more, input)) :
    Succeeds (windowed (Windowed.read offset count)) s fun got t =>
      got = min count (Windowed.heldFrom s.unit.window offset ++ more).length ∧
        t = s.holding offset (Windowed.heldFrom s.unit.window offset ++ more) input := by
  refine (windowed_succeeds (Windowed.read_typed h.attachment_eq h.clean offset count hsplit)).mono
    ?_ fun _ _ => id
  rintro got _ ⟨_, ⟨hgot, rfl⟩, rfl⟩
  exact ⟨hgot, rfl⟩

/-! ### The search for the end of the line -/

theorem locateFormattedIn_step (htyped : TypedLine typed after) (hfirst : FirstLine typed line [])
    (hlast : line = typed → after = []) {fuel window m : ℕ} (hwindow : 0 < window) (hm : m ≤ window)
    (hmtyped : m ≤ typed.length) (hrest : m < typed.length ∨ after = [])
    (hheld : s.heldLine = typed.take m) (hinput : s.system.input = typed.drop m ++ after)
    {Q : Bool → Session → Prop}
    (hQ : Q true ((s.holding s.unit.offset typed after).withExtent line.length
      (typed.length - line.length)))
    (hmore : window ≤ typed.length → window < typed.length ∨ after = [] →
      Succeeds (locateFormattedIn fuel (2 * window))
        (s.holding s.unit.offset (typed.take window) (typed.drop window ++ after)) Q) :
    Succeeds (locateFormattedIn (fuel + 1) window) s Q := by
  have hsplit : System.splitLine (window - s.heldLine.length) s.system.input =
      ((typed.drop m).take (window - m), typed.drop window ++ after) := by
    rw [hheld, List.length_take_of_le hmtyped, hinput, (htyped.drop hrest).splitLine_eq,
      List.drop_drop, Nat.add_sub_cancel' hm]
  have htake : s.heldLine ++ (typed.drop m).take (window - m) = typed.take window := by
    rw [hheld, ← List.take_add, Nat.add_sub_cancel' hm]
  simp only [locateFormattedIn, attempts_get]
  apply Attempts.bind (h.read_succeeds s.unit.offset window hsplit)
  rintro got _ ⟨hgot, rfl⟩
  change got = min window (s.heldLine ++ _).length at hgot
  change Attempts _ (s.holding s.unit.offset (s.heldLine ++ _) _) _ _
  rw [htake] at hgot ⊢
  rw [List.length_take, ← min_assoc, min_self] at hgot
  have hpos := hfirst.length_pos
  rw [if_neg (by omega)]
  refine (attempts_get _).mpr ?_
  have hbytes : (s.holding s.unit.offset (typed.take window) (typed.drop window ++ after)).unit.window.bytesAt
      s.unit.offset got = typed.take window := by
    change Window.bytesAt { offset := s.unit.offset, bytes := _ } s.unit.offset got = _
    rw [Window.bytesAt, if_neg (lt_irrefl _), Nat.sub_self, Bytes.slice, List.drop_zero,
      List.take_take, hgot, min_right_comm, min_self, ← List.take_eq_take_min]
  rw [hbytes]
  rcases Nat.lt_or_ge window typed.length with hlong | hshort
  -- The line goes on behind the window.
  · rw [extent?_of_notMem (htyped.newline_notMem_take hlong), decide_eq_false (by omega)]
    exact hmore hlong.le (.inl hlong)
  rw [List.take_of_length_le hshort] at hmore ⊢
  rw [List.drop_of_length_le hshort, List.nil_append] at hmore ⊢
  have hextent := hfirst.extent?_take typed.length
  rw [List.take_of_length_le le_rfl] at hextent
  rcases hextent with hextent | ⟨hextent, hall⟩
  · rw [hextent]
    exact hQ
  -- No newline ends the line: the input has ended, which is seen once the window asks for more.
  · rw [hextent]
    obtain rfl := (hall.resolve_left (lt_irrefl _)).1
    rcases hshort.lt_or_eq with hend | hfull
    · rw [decide_eq_true (by omega), hgot, min_eq_right hshort]
      rw [Nat.sub_self] at hQ
      exact hQ
    · rw [decide_eq_false (by omega)]
      exact hmore hfull.ge (.inr (hlast rfl))

/-- The window doubles until it holds all of the line. -/
theorem locateFormattedIn_succeeds (htyped : TypedLine typed after)
    (hfirst : FirstLine typed line []) (hlast : line = typed → after = []) {fuel window m : ℕ}
    (hwindow : 0 < window) (hfuel : typed.length < window * 2 ^ fuel) (hm : m ≤ window)
    (hmtyped : m ≤ typed.length) (hrest : m < typed.length ∨ after = [])
    (hheld : s.heldLine = typed.take m) (hinput : s.system.input = typed.drop m ++ after) :
    Succeeds (locateFormattedIn (fuel + 1) window) s fun found t => found = true ∧
      t = (s.holding s.unit.offset typed after).withExtent line.length
        (typed.length - line.length) := by
  induction fuel generalizing s window m with
  | zero =>
    refine h.locateFormattedIn_step htyped hfirst hlast hwindow hm hmtyped hrest hheld hinput
      ⟨rfl, rfl⟩ ?_
    intro hsmall
    omega
  | succ fuel ih =>
    refine h.locateFormattedIn_step htyped hfirst hlast hwindow hm hmtyped hrest hheld hinput
      ⟨rfl, rfl⟩ ?_
    intro hsmall hrest'
    rw [Nat.pow_succ, Nat.mul_comm (2 ^ fuel), ← Nat.mul_assoc, Nat.mul_comm window] at hfuel
    exact ih (h.holding _ _ _) (by omega) hfuel (by omega) hsmall hrest' (heldLine_holding _ _) rfl

theorem locateFormatted_succeeds (htyped : TypedLine typed after)
    (hfirst : FirstLine typed line []) (hlast : line = typed → after = []) (hheld : s.heldLine = [])
    (hinput : s.system.input = typed ++ after) :
    Succeeds locateFormatted s fun found t => found = true ∧
      t = (s.holding s.unit.offset typed after).withExtent line.length
        (typed.length - line.length) := by
  refine (attempts_get _).mpr ?_
  refine h.locateFormattedIn_succeeds (m := 0) htyped hfirst hlast h.readChunk_pos ?_ (Nat.zero_le _)
    (Nat.zero_le _) (.inl hfirst.length_pos) hheld hinput
  have hreach : typed.length ≤ s.reach := by
    rw [reach, h.attachment_eq]
    change _ ≤ _ + s.system.input.length + _
    rw [hinput, List.length_append]
    omega
  calc typed.length ≤ s.reach := hreach
    _ < 2 ^ s.reach := Nat.lt_two_pow_self
    _ ≤ s.unit.readChunk * 2 ^ s.reach := Nat.le_mul_of_pos_left _ h.readChunk_pos

theorem locateFormatted_of_nil (hheld : s.heldLine = []) (hinput : s.system.input = []) :
    Succeeds locateFormatted s fun found t => found = false ∧ t = s.holding s.unit.offset [] [] := by
  refine (attempts_get _).mpr ?_
  rw [locateFormattedIn]
  refine (attempts_get _).mpr ?_
  have hsplit : System.splitLine (s.unit.readChunk - s.heldLine.length) s.system.input = ([], []) := by
    rw [hinput]
    cases s.unit.readChunk - s.heldLine.length <;> rfl
  apply Attempts.bind (h.read_succeeds s.unit.offset s.unit.readChunk hsplit)
  rintro got _ ⟨hgot, rfl⟩
  change got = min s.unit.readChunk (s.heldLine ++ []).length at hgot
  change Attempts _ (s.holding s.unit.offset (s.heldLine ++ []) []) _ _
  rw [hheld] at hgot ⊢
  rw [if_pos (by simpa using hgot)]
  exact ⟨rfl, rfl⟩

end OnStream

/-! ### A READ in progress -/

structure Awaiting (input : Bytes) (s : Session) : Prop extends OnInput s where
  input_eq : s.system.input = input
  located_eq : s.unit.located = false
  heldLine_eq : s.heldLine = []
  start : input ≠ [] → s.unit.connection.position = 0 ∧ s.unit.connection.endRecord = none

/-- A READ that has its looks on a tape. Of the input it has taken nothing until its record is
located. -/
structure OnTape (input : Bytes) (tape : Tape) (s : Session) : Prop extends OnInput s where
  record_eq : tape.record = (lines input)[0]?
  ahead : s.unit.located = false → s.system.input = input ∧ s.heldLine = [] ∧
    tape = { Tape.first input with position := tape.position }
  found : s.unit.located = true → ∃ line, tape.record = some line ∧
    s.unit.connection.recordLength = some line.length ∧
    line.length + s.unit.terminator = (typedLine input).length ∧
    s.unit.window = { offset := s.unit.offset + tape.column, bytes := tape.held } ∧
    s.system.input = tape.unread ∧ tape.column + tape.held.length ≤ (typedLine input).length
  cursor : tape.record.isSome = true → s.unit.connection.position = tape.position ∧
    s.unit.connection.endRecord = none
  isTransfer : s.unit.statement.isTransfer = true
  receives : s.handler.declared.receivesError = true
  status : s.handler.status = .ok ∨ tape.record = none ∧ s.handler.status = .endOfFile

namespace OnTape

variable (h : OnTape input tape s)
include h

theorem admits : s.handler.declared.admits .endOfFile = true :=
  Receivers.admits_of_receivesError h.receives _

theorem inError_eq : s.handler.inError = false := by
  rw [Handler.inError]
  rcases h.status with hstatus | ⟨-, hstatus⟩ <;> rw [hstatus] <;> rfl

theorem notesEnd (hnone : tape.record = none) (hlocated : s.unit.located = false) :
    s.NotesEnd fun t => false = tape.record.isSome ∧ OnTape input tape t ∧ t.unit.located = false ∧
      t.handler.status = tape.status := by
  have hstatus := Handler.status_record_endOfFile (h.status.imp_right And.right)
  have hreceives : (s.handler.record .endOfFile).declared.receivesError = true :=
    (congrArg Receivers.receivesError (s.handler.record_declared _)).trans h.receives
  refine ⟨h.admits, by rw [hnone]; rfl,
    { h with receives := hreceives, status := .inr ⟨hnone, hstatus⟩ }, hlocated, ?_⟩
  rw [Tape.status, hnone]
  exact hstatus

theorem ensureLocated_succeeds :
    Succeeds ensureLocated s fun found t => found = tape.record.isSome ∧ OnTape input tape t ∧
      t.unit.located = found ∧ t.handler.status = tape.status := by
  obtain ⟨record, after, hnext⟩ := NextRecord.exists_next input
  have hrecord := h.record_eq.trans hnext.head?_lines
  have hstatus (hsome : tape.record.isSome = true) : s.handler.status = tape.status := by
    obtain ⟨line, hline⟩ := Option.isSome_iff_exists.mp hsome
    rw [Tape.status, hline]
    exact h.status.resolve_right (by simp [hline])
  refine ensureLocated_attempts (fun hlocated => ?_) (fun hlocated hend => ?_) fun hlocated _ => ?_
  · obtain ⟨line, hfound, -⟩ := h.found hlocated
    have hsome : tape.record.isSome = true := by rw [hfound]; rfl
    exact ⟨hsome.symm, h, hlocated, hstatus hsome⟩
  · refine h.notesEnd (Option.eq_none_iff_forall_not_mem.mpr fun line hline => ?_) hlocated
    rw [Connection.atEnd, (h.cursor (Option.isSome_of_mem hline)).2] at hend
    cases hend
  obtain ⟨hinput, hheld, htape⟩ := h.ahead hlocated
  cases hnext with
  | atEnd =>
    refine findRecord_of_line h.form.fixedRecordLength h.form.formatted
      ((h.onStream.locateFormatted_of_nil hheld hinput).mono ?_ fun _ _ => id)
    rintro _ _ ⟨rfl, rfl⟩
    refine notesEnd { h with
      clean := rfl
      form := { h.form with }
      ahead := fun _ => ⟨rfl, heldLine_holding [] [], htape⟩
      found := fun hfound => (Bool.false_ne_true (hlocated.symm.trans hfound)).elim
      cursor := fun hsome => by rw [hrecord] at hsome; cases hsome } hrecord hlocated
  | line hline =>
    obtain ⟨typed, rfl, htyped, hfirst, hlast⟩ := hline.exists_typed
    refine findRecord_of_line h.form.fixedRecordLength h.form.formatted
      ((h.onStream.locateFormatted_succeeds htyped hfirst hlast hheld hinput).mono ?_ fun _ _ => id)
    rintro _ _ ⟨rfl, rfl⟩
    obtain ⟨htypedLine, hbehind⟩ := htyped.typedLine_eq
    have hsome : tape.record.isSome = true := by rw [hrecord]; rfl
    refine ⟨hsome.symm, { h with
      clean := rfl
      form := { h.form with }
      ahead := nofun
      found := fun _ => ⟨_, hrecord, rfl, ?_, ?_, ?_, ?_⟩ }, rfl, hstatus hsome⟩
    · rw [htypedLine]
      exact Nat.add_sub_cancel' hfirst.length_le
    · rw [htape, Tape.first, htypedLine]
      rfl
    · rw [htape, Tape.first, hbehind]
      rfl
    · rw [htape, Tape.first]
      exact (Nat.zero_add _).le

theorem peek_succeeds : Succeeds peek s fun ch t =>
    .char ch = (tape.glance .char).1 ∧ OnTape input (tape.glance .char).2 t := by
  have hmayRead : s.unit.attachment.mayRead = true := by
    rw [h.attachment_eq]
    rfl
  refine peek_attempts h.form.formatted hmayRead (h.ensureLocated_succeeds.mono ?_ fun _ _ => id)
  rintro _ t ⟨rfl, ht, hlocated, -⟩
  cases hrecord : tape.record with
  | none =>
    rw [Tape.glance, Tape.within_eq, hrecord]
    exact ⟨rfl, ht⟩
  | some line =>
    rw [hrecord] at hlocated
    obtain ⟨line', hline', hlength, hterminator, hwindow, hinput, hle⟩ := ht.found hlocated
    obtain rfl := Option.some.inj (hrecord.symm.trans hline')
    have hposition := (ht.cursor (by rw [hrecord]; rfl)).1
    rw [Tape.glance, Tape.within_eq, hrecord, Option.getD_some]
    refine atCursor_attempts ht.form.formatted hlength (congrArg (t.unit.offset + ·) hposition)
      (fun hbehind => ?_) fun hinside => ?_
    · rw [hposition] at hbehind
      rw [if_neg (by simpa using hbehind)]
      exact ⟨rfl, ht⟩
    rw [hposition] at hinside
    have hkept : Windowed.heldFrom t.unit.window (t.unit.offset + tape.position) = tape.kept := by
      rw [hwindow, Windowed.heldFrom, Tape.kept]
      dsimp only
      rw [Nat.add_sub_add_left]
      simp only [Nat.add_le_add_iff_left]
    have hread := ht.onStream.read_succeeds (t.unit.offset + tape.position) 1
      (System.splitLine_of_le_one (Nat.sub_le _ _) _)
    rw [hkept, hinput] at hread
    rw [if_pos (by simpa using hinside)]
    refine hread.mono ?_ fun _ _ => id
    rintro got _ ⟨hgot, rfl⟩
    change got = min 1 tape.reached.held.length at hgot
    have hreached : OnTape input tape.reached
        (t.holding (t.unit.offset + tape.position) tape.reached.held tape.reached.unread) :=
      { ht with
        clean := rfl
        ahead := fun hahead => (Bool.false_ne_true (hahead.symm.trans hlocated)).elim
        found := fun _ => ⟨line, hrecord, hlength, hterminator, rfl, rfl,
          Tape.reached_le hle (by omega)⟩ }
    refine ⟨?_, hreached⟩
    split_ifs with hnone
    · have hheld : tape.reached.held = [] := List.length_eq_zero_iff.mp (by omega)
      rw [hheld]
      rfl
    · change RecordCall.Answer.char ((Window.bytesAt ⟨_, tape.reached.held, none⟩ _ 1).head?.map _) = _
      rw [Window.bytesAt, if_neg (lt_irrefl _), Nat.sub_self, Bytes.slice, List.drop_zero,
        List.head?_take, if_neg Nat.one_ne_zero]

/-- At the end of the file the cursor does not matter. -/
theorem moveTo_completes (position : ℕ) {column : ℕ}
    (hcolumn : tape.record.isSome = true → column = position) :
    Completes (report (moveTo column)) s fun ok t =>
      ok = true ∧ OnTape input { tape with position } t := by
  refine report_completes ?_
  refine (moveTo_of_within (by simp [h.form.fixedRecordLength])).mono ?_ fun _ _ => False.elim
  rintro _ _ rfl
  refine ⟨?_, { h with
    form := { h.form with }
    ahead := fun hahead => ⟨(h.ahead hahead).1, (h.ahead hahead).2.1, ?_⟩
    cursor := fun hsome => ⟨hcolumn hsome, (h.cursor hsome).2⟩ }⟩
  · change (!s.handler.inError) = true
    rw [h.inError_eq]
    rfl
  · rw [(h.ahead hahead).2.2]

theorem glance_completes (g : Glance) : Completes (Session.call g) s fun answer t =>
    answer = (tape.glance g).1 ∧ OnTape input (tape.glance g).2 t := by
  cases g with
  | char =>
    apply Ends.bind (nextChar_of_peek h.peek_succeeds)
    rintro ch t ⟨hch, ht⟩
    exact ⟨hch, ht⟩
  | move m =>
    refine Ends.bind ((ends_get _).mpr
      (h.moveTo_completes (m.column tape.position) fun hsome => ?_)) ?_
    · rw [Connection.target_of_noLimit h.form.leftTabLimit, (h.cursor hsome).1]
    · rintro _ t ⟨rfl, ht⟩
      exact ⟨rfl, ht⟩

theorem glances_complete (gs : List Glance) :
    Completes ((gs.map .call).mapM Look.perform) s fun answers t =>
      answers = (tape.glances gs).1.map .call ∧ OnTape input (tape.glances gs).2 t := by
  induction gs generalizing s tape with
  | nil => exact ⟨rfl, h⟩
  | cons g gs ih =>
    rw [List.map_cons, List.mapM_cons]
    have hlook : Completes (Look.call g).perform s fun answer t =>
        answer = .call (tape.glance g).1 ∧ OnTape input (tape.glance g).2 t :=
      (h.glance_completes g).bind fun _ _ ht => ⟨congrArg Answer.call ht.1, ht.2⟩
    apply Ends.bind hlook
    rintro _ t ⟨rfl, ht⟩
    apply Ends.bind (ih ht)
    rintro _ u ⟨rfl, hu⟩
    exact ⟨rfl, hu⟩

theorem advanceRecord_succeeds : Succeeds advanceRecord s fun _ t =>
    t.handler.status = tape.status ∧ Awaiting tape.unread t := by
  refine advanceRecord_of_input h.reading_eq (h.ensureLocated_succeeds.mono ?_ fun _ _ => id)
  rintro _ t ⟨rfl, ht, hlocated, hstatus⟩
  cases hrecord : tape.record with
  | none =>
    rw [hrecord] at hlocated
    obtain ⟨hinput, hheld, htape⟩ := ht.ahead hlocated
    obtain ⟨record, after, hnext⟩ := NextRecord.exists_next input
    have hlines := (h.record_eq.trans hnext.head?_lines).symm.trans hrecord
    subst hlines
    cases hnext
    have hunread : tape.unread = [] := by
      rw [htape]
      rfl
    refine ⟨hstatus, ?_⟩
    rw [hunread]
    exact { ht with
      input_eq := hinput
      located_eq := hlocated
      heldLine_eq := hheld
      start := fun hne => absurd rfl hne }
  | some line =>
    rw [hrecord] at hlocated
    obtain ⟨line', hline', hlength, hterminator, hwindow, hinput, hle⟩ := ht.found hlocated
    obtain rfl := Option.some.inj (hrecord.symm.trans hline')
    have hstride : inputStride t.unit = (typedLine input).length := by
      simp only [inputStride, ht.form.fixedRecordLength, ht.form.formatted, hlength]
      exact hterminator
    refine ⟨hstatus, { ht with
      form := { ht.form with leftTabLimit := rfl }
      input_eq := hinput
      located_eq := rfl
      heldLine_eq := ?_
      start := fun _ => ⟨rfl, (ht.cursor (by rw [hrecord]; rfl)).2⟩ }⟩
    change Windowed.heldFrom t.unit.window (t.unit.offset + inputStride t.unit) = []
    rw [hwindow, hstride, Windowed.heldFrom]
    dsimp only
    rw [if_pos (by omega), List.drop_of_length_le (by omega)]

theorem finish_completes : Completes finish s fun status t =>
    status = tape.status ∧ Awaiting tape.unread t := by
  refine finish_of_transfer h.isTransfer h.form.nonAdvancing (Ends.mono (report_completes
    (Q := fun _ t => t.handler.status = tape.status ∧ Awaiting tape.unread t)
    (h.advanceRecord_succeeds.mono (fun _ _ => id) fun _ _ => False.elim)) ?_ fun _ _ => id)
  rintro _ t ⟨hstatus, ht⟩
  refine ⟨?_, hstatus, { ht with form := { ht.form with nonAdvancing := rfl } }⟩
  rw [ht.attachment_eq]
  rfl

end OnTape

/-! ### READ statements -/

theorem Awaiting.begin_completes (h : Awaiting input s) (r : GlancingRead)
    (hr : r.receivers.receivesError = true) :
    Completes (begin_ (.formatted .input) r.source) s fun _ t =>
      OnTape input (Tape.first input) { t with handler := t.handler.declare r.receivers } := by
  have hopen : s.unit.isOpen = true := by
    rw [ExternalUnit.isOpen, h.attachment_eq]
    rfl
  have hreading : decide (Direction.input = .input) = s.unit.reading := h.reading_eq.symm
  refine (begin_of_same r.receivers (fun _ => rfl) hopen hreading).mono ?_ fun _ _ => id
  intro _ t ht
  generalize { t with handler := t.handler.declare r.receivers } = t at ht ⊢
  obtain ⟨system, unit, handler, items⟩ := t
  obtain ⟨rfl, rfl, rfl⟩ := ht
  refine { h with
    record_eq := rfl
    ahead := fun _ => ⟨h.input_eq, h.heldLine_eq, rfl⟩
    found := fun hfound => (Bool.false_ne_true (h.located_eq.symm.trans hfound)).elim
    cursor := fun hsome => h.start ?_
    isTransfer := rfl
    receives := hr
    status := .inl rfl }
  rintro rfl
  cases hsome

theorem Awaiting.read_completes (h : Awaiting input s) (r : GlancingRead)
    (hr : r.receivers.receivesError = true) :
    Completes r.read.perform s fun out t =>
      out = (((Tape.first input).glances r.glances).1.map .call,
          ((Tape.first input).glances r.glances).2.status) ∧
        Awaiting ((Tape.first input).glances r.glances).2.unread t := by
  refine statement_completes (h.begin_completes r hr) ?_
  intro t ht
  refine (ht.glances_complete r.glances).mono ?_ fun _ _ => id
  rintro _ u ⟨rfl, hu⟩
  refine hu.finish_completes.mono ?_ fun _ _ => id
  rintro _ v ⟨rfl, hv⟩
  exact ⟨rfl, hv⟩

theorem Awaiting.reads_complete (h : Awaiting input s) (rs : List GlancingRead)
    (hreads : ∀ r ∈ rs, r.receivers.receivesError = true) :
    Completes (rs.mapM fun r => r.read.perform) s fun outs t =>
      (outs, t.system.input) = Tape.reads rs input := by
  -- By induction over the READs: each awaits what the one before has left.
  induction rs generalizing s input with
  | nil => exact congrArg _ h.input_eq
  | cons r rs ih =>
    rw [List.mapM_cons]
    apply Ends.bind (h.read_completes r (hreads r List.mem_cons_self))
    rintro _ t ⟨rfl, ht⟩
    apply Ends.bind (ih ht fun r hr => hreads r (List.mem_cons_of_mem _ hr))
    intro outs u hu
    exact congrArg (fun p => (_ :: p.1, p.2)) hu

theorem awaiting_predefined (n : ℤ) (chunk : ℕ) (utf8 : Bool) (system : System) :
    Awaiting system.input { system, unit := (ExternalUnit.new n chunk).predefine 0 utf8 } where
  attachment_eq := rfl
  clean := rfl
  form := ⟨rfl, rfl, rfl, rfl⟩
  readChunk_pos := Nat.le_max_left 1 chunk
  reading_eq := rfl
  input_eq := rfl
  located_eq := rfl
  heldLine_eq := rfl
  start := fun _ => ⟨rfl, rfl⟩

/-- READs on the unit that is predefined for standard input have their lines on tapes: the cursor of a
READ that comes back to what an earlier look has let go of finds there the next byte of the input,
which the later READs miss. READs that keep to the right see one line each, the bytes at their cursors
and none at or behind the end of the line, and they leave the input that is behind those lines. Moves
are added to the cursor as `Connection.shifted` does it, in signed 64-bit arithmetic. -/
theorem standard_input_reads (n : ℤ) (chunk : ℕ) (utf8 : Bool) (system : System)
    (reads : List GlancingRead) (hreads : ∀ r ∈ reads, r.receivers.receivesError = true) :
    Completes (reads.mapM fun r => r.read.perform)
      { system, unit := (ExternalUnit.new n chunk).predefine 0 utf8 } fun outs t =>
      (outs, t.system.input) = Tape.reads reads system.input ∧
      ((∀ (k : ℕ) (r : GlancingRead), reads[k]? = some r →
          r.KeepsRight ((lines system.input)[k]?.getD [])) →
        (∀ (k : ℕ) (r : GlancingRead) out, reads[k]? = some r → outs[k]? = some out →
          r.read.Sees (lines system.input)[k]? out) ∧
        t.system.input = behindLine^[reads.length] system.input) := by
  refine ((awaiting_predefined n chunk utf8 system).reads_complete reads hreads).mono ?_
    fun _ _ => id
  intro outs t hout
  refine ⟨hout, fun hright => ?_⟩
  obtain ⟨hsees, hleft⟩ := Tape.reads_of_keepsRight reads system.input hreads hright
  rw [← hout] at hsees hleft
  exact ⟨hsees, hleft⟩

/-- Two READs that keep to the right see `ab` and `c`, and leave `d`. -/
theorem standard_input_reads_two :
    Completes ([{ glances := [.absolute 1, .char, .relative 1, .char] },
        { glances := [.char, .relative 2, .relative (-2), .char] }].mapM fun r : GlancingRead =>
          r.read.perform)
      { system := { input := [97, 98, 13, 10, 99, 10, 100] }
        unit := (ExternalUnit.new 5 1).predefine 0 false } fun outs t =>
      outs = [([.ok true, .char (some 'b'), .ok true, .char none].map .call, .ok),
        ([.char (some 'c'), .ok true, .ok true, .char (some 'c')].map .call, .ok)] ∧
        t.system.input = [100] := by
  generalize hinput : ([97, 98, 13, 10, 99, 10, 100] : Bytes) = input
  generalize hreads : ([{ glances := [.absolute 1, .char, .relative 1, .char] },
    { glances := [.char, .relative 2, .relative (-2), .char] }] : List GlancingRead) = reads
  refine (standard_input_reads 5 1 false { input } reads (by subst hreads; decide)).mono ?_
    fun _ _ => id
  rintro outs t ⟨hout, hright⟩
  subst hinput hreads
  refine ⟨(congrArg Prod.fst hout).trans (by cbv), (hright ?_).2.trans (by cbv)⟩
  have hlines : lines [97, 98, 13, 10, 99, 10, 100] = [[97, 98], [99], [100]] := by decide
  rw [hlines]
  rintro (_ | _ | k) r hr
  · obtain rfl := Option.some.inj hr
    exact (by decide : List.Pairwise (· ≤ ·) [1])
  · obtain rfl := Option.some.inj hr
    exact (by decide : List.Pairwise (· ≤ ·) [0, 0])
  · cases hr

/-- A READ of `abc` that goes back from its second column to its first does not see the `a` again. It
takes the `d` of the next line. -/
theorem standard_input_forgets_column :
    Completes (GlancingRead.read { glances := [.char, .relative 1, .char, .relative (-1), .char] }).perform
      { system := { input := [97, 98, 99, 10, 100, 101, 102, 10] }
        unit := (ExternalUnit.new 5 256).predefine 0 false } fun out t =>
      out = ([.char (some 'a'), .ok true, .char (some 'b'), .ok true, .char (some 'd')].map .call,
          .ok) ∧
        ¬ (GlancingRead.read { glances := [.char, .relative 1, .char, .relative (-1), .char] }).Sees
          (lines [97, 98, 99, 10, 100, 101, 102, 10])[0]? out ∧
        t.system.input = [101, 102, 10] := by
  generalize hinput : ([97, 98, 99, 10, 100, 101, 102, 10] : Bytes) = input
  generalize hread : ({ glances := [.char, .relative 1, .char, .relative (-1), .char] } : GlancingRead)
    = read
  refine ((awaiting_predefined 5 256 false { input }).read_completes read (by subst hread; decide)).mono
    ?_ fun _ _ => id
  rintro _ t ⟨rfl, ht⟩
  subst hinput hread
  refine ⟨by cbv, ?_, ht.input_eq.trans (by cbv)⟩
  rintro ⟨card, hcard⟩
  cases hcard

end Session

end DataTransfer
