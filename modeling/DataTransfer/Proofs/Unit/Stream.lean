import Mathlib
import DataTransfer.Proofs.Unit.Input
import DataTransfer.Proofs.Unit.Opening
import DataTransfer.Proofs.Unit.Output

/-!
Unformatted stream access. The unit is a flat array of bytes with one cursor, although it keeps the
cursor in pieces: where the record started, the position in it and the furthest position. A statement
ends by folding them together.
-/

namespace DataTransfer

/-- Bytes with a cursor among them, or behind them. -/
structure ByteStream where
  bytes : Bytes
  cursor : ℕ
  deriving DecidableEq

namespace ByteStream

def opened (position : Position) (content : Bytes) : ByteStream where
  bytes := content
  cursor := if position = .append then content.length else 0

/-- The next bytes, if there are that many. -/
def receive (b : ByteStream) (count : ℕ) : Option Bytes × ByteStream :=
  if b.cursor + count ≤ b.bytes.length then
    (some (b.bytes.slice b.cursor count), { b with cursor := b.cursor + count })
  else (none, b)

/-- Replaces bytes at the cursor, and appends what is left of the data. -/
def emit (b : ByteStream) (data : Bytes) : ByteStream where
  bytes := b.bytes.take b.cursor ++ data ++ b.bytes.drop (b.cursor + data.length)
  cursor := b.cursor + data.length

/-- Receives in a row, each with whether the end has not been met so far; then whether it has been met
at all. -/
def receives (b : ByteStream) (met : Bool) :
    List ℕ → (List (Bool × Option Bytes) × Bool) × ByteStream
  | [] => (([], met), b)
  | count :: counts =>
    let (data, b') := b.receive count
    let met' := met || data.isNone
    let ((answers, last), b'') := b'.receives met' counts
    (((!met', data) :: answers, last), b'')

end ByteStream

inductive StreamOp where
  | read (counts : List ℕ)
  | write (chunks : List Bytes)
  deriving Repr, DecidableEq

namespace StreamOp

def apply (b : ByteStream) :
    StreamOp → (List (Bool × Option Bytes) × Iostat) × ByteStream
  | .read counts =>
    let ((answers, met), b') := b.receives false counts
    ((answers, if met then .endOfFile else .ok), b')
  | .write chunks => ((chunks.map fun _ => (true, none), .ok), chunks.foldl ByteStream.emit b)

def applyAll (b : ByteStream) :
    List StreamOp → List (List (Bool × Option Bytes) × Iostat) × ByteStream
  | [] => ([], b)
  | op :: ops =>
    let (answer, b') := op.apply b
    let (answers, b'') := applyAll b' ops
    (answer :: answers, b'')

def emitted : StreamOp → ℕ
  | .read _ => 0
  | .write chunks => chunks.flatten.length

def direction : StreamOp → Direction
  | .read _ => .input
  | .write _ => .output

def work : StreamOp → Act Session (List (Bool × Option Bytes))
  | .read counts => counts.mapM Session.receive
  | .write chunks => do return (← chunks.mapM Session.emit).map fun ok => (ok, none)

def perform (source : SourceLine) (r : Receivers) (op : StreamOp) :
    Act Session (List (Bool × Option Bytes) × Iostat) :=
  Session.statement (.unformatted op.direction) source r op.work

end StreamOp

namespace ByteStream

variable {b : ByteStream}

/-- The cursor stays among the bytes, so that an emit leaves no gap. -/
theorem emit_bytes (h : b.cursor ≤ b.bytes.length) (data : Bytes) :
    (b.emit data).bytes = b.bytes.put b.cursor data := by
  by_cases hdata : data = []
  · simp [emit, hdata]
  · simp [emit, Bytes.put, Bytes.overlay, Bytes.extend, h, hdata]

theorem emit_within (h : b.cursor ≤ b.bytes.length) (data : Bytes) :
    (b.emit data).cursor ≤ (b.emit data).bytes.length := by
  simp only [emit, List.length_append, List.length_take]
  omega

theorem foldl_emit (h : b.cursor ≤ b.bytes.length) (chunks : List Bytes) :
    chunks.foldl emit b = b.emit chunks.flatten := by
  induction chunks generalizing b with
  | nil => simp [emit]
  | cons data chunks ih =>
    rw [List.foldl_cons, ih (emit_within h data), List.flatten_cons]
    have hcursor : ((b.emit data).emit chunks.flatten).cursor =
        (b.emit (data ++ chunks.flatten)).cursor := by
      simp [emit, Nat.add_assoc]
    have hbytes : ((b.emit data).emit chunks.flatten).bytes =
        (b.emit (data ++ chunks.flatten)).bytes := by
      rw [emit_bytes (emit_within h data), emit_bytes h, emit_bytes h]
      exact Bytes.put_append _ _ _ _
    exact congrArg₂ ByteStream.mk hbytes hcursor

theorem receive_bytes (count : ℕ) : (b.receive count).2.bytes = b.bytes := by
  unfold receive
  split_ifs <;> rfl

end ByteStream

namespace Session

structure Streaming (c : Connection) : Prop where
  access : c.access = .stream
  formatted : c.formatted = false
  fixedLength : c.fixedLength = false
  recordLength : c.recordLength = none
  endRecord : c.endRecord = none
  nonAdvancing : c.nonAdvancing = false

namespace Streaming

variable {c : Connection} (h : Streaming c)
include h

theorem hasMarkers : ExternalUnit.hasMarkers c = false := by
  simp [ExternalUnit.hasMarkers, h.access]

theorem fixedRecordLength : c.fixedRecordLength = none := by
  simp [Connection.fixedRecordLength, h.fixedLength]

theorem atEnd : c.atEnd = false := by
  rw [Connection.atEnd, h.endRecord]

theorem remaining : c.remaining = none := by
  rw [Connection.remaining, h.recordLength]
  rfl

end Streaming

section

variable {s : Session} {system : System} {n : ℕ} {hn : n < system.files.nodes.length}
variable {path : String} {b : ByteStream} {r : Receivers} {met : Bool}

theorem dataOffset_of_streaming (h : Streaming s.unit.connection) :
    s.unit.dataOffset = s.unit.offset := by
  rw [ExternalUnit.dataOffset, h.hasMarkers, if_neg Bool.false_ne_true]

/-- A unit that stands for the bytes with their cursor, with no statement in progress. -/
structure AtCursor (hn : n < system.files.nodes.length) (path : String) (s : Session)
    (b : ByteStream) : Prop where
  holds : s.channel.Holds (system.device hn path) b.bytes
  form : Streaming s.unit.connection
  offset_eq : s.unit.offset = b.cursor
  position_eq : s.unit.connection.position = 0
  furthest_eq : s.unit.connection.furthest = 0
  within : b.cursor ≤ b.bytes.length

theorem AtCursor.ended (h : AtCursor hn path s b) : AtCursor hn path s.ended b :=
  { h with form := { h.form with nonAdvancing := rfl } }

structure AtStart (hn : n < system.files.nodes.length) (path : String) (s : Session) (b : ByteStream)
    (direction : Direction) (r : Receivers) : Prop extends AtCursor hn path s b where
  reading_eq : s.unit.reading = decide (direction = .input)
  statement_eq : s.unit.statement = .unformatted direction
  status_eq : s.handler.status = .ok
  declared_eq : s.handler.declared = r

theorem AtCursor.begin_completes (h : AtCursor hn path s b) (direction : Direction)
    (source : SourceLine) (r : Receivers) :
    Completes (begin_ (.unformatted direction) source) s fun _ t =>
      AtStart hn path { t with handler := t.handler.declare r } b direction r := by
  refine (starts_of_begin h.holds (isOpen_of_holds h.holds) (fun _ => rfl) source r).mono ?_ fun _ _ => id
  intro _ t ht
  exact {
    holds := ht.holds
    form := ht.connection_eq ▸ h.form
    offset_eq := ht.offset_eq.trans h.offset_eq
    position_eq := ht.connection_eq ▸ h.position_eq
    furthest_eq := ht.connection_eq ▸ h.furthest_eq
    within := h.within
    reading_eq := ht.reading_eq
    statement_eq := ht.statement_eq
    status_eq := ht.status_eq
    declared_eq := ht.declared_eq }

/-! ### WRITE statements -/

theorem AtCursor.write_completes (h : AtCursor hn path s b) (source : SourceLine) (r : Receivers)
    (chunks : List Bytes)
    (hsize : b.bytes.length + chunks.flatten.length < FileSystem.offsetLimit) :
    Completes ((StreamOp.write chunks).perform source r) s fun out t =>
      out = ((StreamOp.write chunks).apply b).1 ∧
        AtCursor hn path t ((StreamOp.write chunks).apply b).2 := by
  refine statement_completes (B := fun t => AtStart hn path t b .output r)
    (h.begin_completes .output source r) ?_
  intro t ht
  have hdata : t.unit.dataOffset = b.cursor := by
    rw [dataOffset_of_streaming ht.form, ht.offset_eq]
  have hwithin := h.within
  have hwriting : Writing hn path t b.bytes := by
    refine ⟨ht.holds, ht.position_eq, ht.furthest_eq, ht.form.nonAdvancing, ht.reading_eq, ?_,
      ht.status_eq⟩
    rw [ht.statement_eq]
    rfl
  have hcompletes (w : Windowed Channel)
      (hw : w.Holds (system.device hn path) (b.bytes.put t.unit.dataOffset chunks.flatten)) :
      CompletesRecord (system.device hn path) (t.afterOutput w chunks.flatten.length) chunks.flatten.length
        (b.emit chunks.flatten).bytes := by
    rw [hdata, ← ByteStream.emit_bytes hwithin] at hw
    have hheld : (t.afterOutput w chunks.flatten.length).channel.Holds (system.device hn path)
        (b.emit chunks.flatten).bytes := hw
    exact completesRecord_stream hheld ht.form.fixedRecordLength ht.form.formatted ht.form.access
  refine Ends.bind (hwriting.emits_complete chunks ?_ ?_ hcompletes) ?_
  · intro length hfixed
    rw [ht.form.fixedRecordLength] at hfixed
    cases hfixed
  · rw [hdata]
    omega
  rintro _ _ ⟨rfl, hfinish⟩
  refine (ends_pure _).mpr (hfinish.mono ?_ fun _ _ => id)
  rintro _ _ ⟨rfl, w, hw, rfl⟩
  have hnext : AtCursor hn path ((t.afterOutput w chunks.flatten.length).onNextRecord w
      chunks.flatten.length) (b.emit chunks.flatten) :=
    { holds := hw
      form := { ht.form with }
      offset_eq := congrArg (· + chunks.flatten.length) ht.offset_eq
      position_eq := rfl
      furthest_eq := rfl
      within := ByteStream.emit_within hwithin _ }
  refine ⟨?_, ?_⟩
  · rw [List.map_map]
    rfl
  · change AtCursor hn path _ (chunks.foldl ByteStream.emit b)
    rw [ByteStream.foldl_emit hwithin]
    exact hnext.ended

/-! ### READ statements -/

/-- A READ in progress. The record started where the statement did; the cursor is behind what has been
received of it. -/
structure Consuming (hn : n < system.files.nodes.length) (path : String) (s : Session)
    (b : ByteStream) (r : Receivers) (met : Bool) : Prop where
  holds : s.channel.Holds (system.device hn path) b.bytes
  form : Streaming s.unit.connection
  cursor_eq : s.unit.offset + s.unit.connection.position = b.cursor
  furthest_eq : s.unit.connection.furthest = s.unit.connection.position
  within : b.cursor ≤ b.bytes.length
  reading_eq : s.unit.reading = true
  statement_eq : s.unit.statement = .unformatted .input
  status_eq : s.handler.status = if met then .endOfFile else .ok
  declared_eq : s.handler.declared = r

namespace Consuming

/-- A stream is one record, wherever it is asked for. -/
theorem ensureLocated_succeeds (h : Consuming hn path s b r met) :
    Succeeds ensureLocated s fun found t => found = true ∧ Consuming hn path t b r met := by
  refine ensureLocated_of_found h.form.atEnd (fun _ => h) fun _ => ?_
  exact findRecord_of_stream h.form.fixedRecordLength h.form.formatted h.form.access
    ⟨rfl, { h with form := { h.form with recordLength := rfl } }⟩

theorem received (h : Consuming hn path s b r met) {w : Windowed Channel}
    (hw : w.Holds (system.device hn path) b.bytes) {count : ℕ}
    (hcount : b.cursor + count ≤ b.bytes.length) :
    Consuming hn path (s.afterInput w count) { b with cursor := b.cursor + count } r met := by
  refine { h with
    holds := hw
    form := { h.form with }
    cursor_eq := ?_
    furthest_eq := ?_
    within := hcount }
  · change s.unit.offset + (s.unit.connection.position + count) = b.cursor + count
    rw [← Nat.add_assoc, h.cursor_eq]
  · change max s.unit.connection.furthest (s.unit.connection.position + count) = _
    rw [h.furthest_eq]
    exact max_eq_right (Nat.le_add_right _ _)

theorem metEnd (h : Consuming hn path s b r met) {w : Windowed Channel}
    (hw : w.Holds (system.device hn path) b.bytes) :
    Consuming hn path { s.withChannel w with handler := s.handler.record .endOfFile } b r true := by
  refine { h with
    holds := hw
    status_eq := ?_
    declared_eq := ?_ }
  · rw [if_pos rfl]
    refine Handler.status_record_endOfFile ?_
    rw [h.status_eq]
    cases met <;> simp
  · exact (s.handler.record_declared _).trans h.declared_eq

theorem getData_succeeds (h : Consuming hn path s b r met) (hr : r.receivesError = true)
    (hsize : b.bytes.length < FileSystem.offsetLimit) (count : ℕ) :
    Succeeds (getData count) s fun data t => data = (b.receive count).1 ∧
      Consuming hn path t (b.receive count).2 r (met || data.isNone) := by
  refine getData_of_located (mayRead_of_holds h.holds) h.form.formatted h.ensureLocated_succeeds ?_
  intro u hu
  have hoffset : u.unit.dataOffset + u.unit.connection.position = b.cursor := by
    rw [dataOffset_of_streaming hu.form, hu.cursor_eq]
  rw [hu.form.remaining, Option.any_none, if_neg Bool.false_ne_true, hoffset]
  by_cases hcount : b.cursor + count ≤ b.bytes.length
  · have hreceive : b.receive count =
        (some (b.bytes.slice b.cursor count), { b with cursor := b.cursor + count }) := if_pos hcount
    rw [hreceive]
    refine (fetch_succeeds hu.holds hcount hsize).mono ?_ fun _ _ => id
    rintro _ _ ⟨rfl, w, hw, rfl⟩
    refine ⟨rfl, ?_⟩
    rw [Option.isNone_some, Bool.or_false]
    exact hu.received hw hcount
  · have hreceive : b.receive count = (none, b) := if_neg hcount
    have hadmits : u.handler.declared.admits .endOfFile = true := by
      rw [hu.declared_eq]
      exact Receivers.admits_of_receivesError hr _
    rw [hreceive]
    refine (fetch_of_end hu.holds hu.within (not_le.mp hcount) hsize hadmits).mono ?_ fun _ _ => id
    rintro _ _ ⟨rfl, w, hw, rfl⟩
    refine ⟨rfl, ?_⟩
    rw [Option.isNone_none, Bool.or_true]
    exact hu.metEnd hw

theorem receives_complete (h : Consuming hn path s b r met) (hr : r.receivesError = true)
    (hsize : b.bytes.length < FileSystem.offsetLimit) (counts : List ℕ) :
    Completes (counts.mapM receive) s fun answers t => answers = (b.receives met counts).1.1 ∧
      Consuming hn path t (b.receives met counts).2 r (b.receives met counts).1.2 ∧
      (b.receives met counts).2.bytes = b.bytes := by
  induction counts generalizing s b met with
  | nil => exact ⟨rfl, h, rfl⟩
  | cons count counts ih =>
    have hreceive : Completes (receive count) s fun out t =>
        out = (!(met || (b.receive count).1.isNone), (b.receive count).1) ∧
          Consuming hn path t (b.receive count).2 r (met || (b.receive count).1.isNone) := by
      refine receive_completes ((h.getData_succeeds hr hsize count).mono ?_ fun _ _ => False.elim)
      rintro _ t ⟨rfl, ht⟩
      refine ⟨?_, ht⟩
      rw [ht.status_eq]
      cases (met || (b.receive count).1.isNone) <;> rfl
    rw [List.mapM_cons]
    apply Ends.bind hreceive
    rintro _ t ⟨rfl, ht⟩
    apply Ends.bind (ih ht (by rwa [ByteStream.receive_bytes]))
    rintro _ u ⟨rfl, hu, hbytes⟩
    exact ⟨rfl, hu, hbytes.trans (ByteStream.receive_bytes count)⟩

theorem advance_completes (h : Consuming hn path s b r met) :
    Completes advance s fun _ t => t.handler.status = (if met then .endOfFile else .ok) ∧
      AtCursor hn path t b := by
  refine report_completes (advanceRecord_of_input h.reading_eq
    (h.ensureLocated_succeeds.mono ?_ fun _ _ => False.elim))
  rintro _ t ⟨rfl, ht⟩
  have hstride : inputStride t.unit = t.unit.connection.position := by
    simp [inputStride, ht.form.fixedRecordLength, ht.form.formatted, ht.form.access, ht.furthest_eq]
  refine ⟨ht.status_eq, ht.holds, { ht.form with }, ?_, rfl, rfl, ht.within⟩
  change t.unit.offset + inputStride t.unit = b.cursor
  rw [hstride, ht.cursor_eq]

end Consuming

theorem AtCursor.read_completes (h : AtCursor hn path s b) (source : SourceLine)
    (hr : r.receivesError = true) (hsize : b.bytes.length < FileSystem.offsetLimit)
    (counts : List ℕ) :
    Completes ((StreamOp.read counts).perform source r) s fun out t =>
      out = ((StreamOp.read counts).apply b).1 ∧
        AtCursor hn path t ((StreamOp.read counts).apply b).2 ∧
        ((StreamOp.read counts).apply b).2.bytes = b.bytes := by
  refine statement_completes (B := fun t => AtStart hn path t b .input r)
    (h.begin_completes .input source r) ?_
  intro t ht
  have hconsuming : Consuming hn path t b r false := by
    refine ⟨ht.holds, ht.form, ?_, ?_, ht.within, ht.reading_eq, ht.statement_eq, ht.status_eq,
      ht.declared_eq⟩
    · rw [ht.offset_eq, ht.position_eq, Nat.add_zero]
    · rw [ht.furthest_eq, ht.position_eq]
  refine (hconsuming.receives_complete hr hsize counts).mono ?_ fun _ _ => id
  rintro _ u ⟨rfl, hu, hbytes⟩
  have htransfer : u.unit.statement.isTransfer = true := by
    rw [hu.statement_eq]
    rfl
  refine finish_of_transfer htransfer hu.form.nonAdvancing ?_
  refine hu.advance_completes.mono ?_ fun _ _ => id
  rintro _ v ⟨hstatus, hv⟩
  refine ⟨?_, ?_, hv.ended, hbytes⟩
  · rw [attachment_eq hv.holds]
    rfl
  · rw [hstatus]
    rfl

/-! ### Sequences of statements -/

def emittedBy (ops : List StreamOp) : ℕ := (ops.map StreamOp.emitted).sum

theorem AtCursor.run (h : AtCursor hn path s b) (source : SourceLine) (hr : r.receivesError = true)
    (ops : List StreamOp) (hsize : b.bytes.length + emittedBy ops < FileSystem.offsetLimit) :
    Completes (ops.mapM (StreamOp.perform source r)) s fun outs t =>
      outs = (StreamOp.applyAll b ops).1 ∧ AtCursor hn path t (StreamOp.applyAll b ops).2 := by
  induction ops generalizing s b with
  | nil => exact ⟨rfl, h⟩
  | cons op ops ih =>
    have hsplit : emittedBy (op :: ops) = op.emitted + emittedBy ops := rfl
    rw [hsplit] at hsize
    have hstep : Completes (op.perform source r) s fun out t => out = (op.apply b).1 ∧
        AtCursor hn path t (op.apply b).2 ∧
        (op.apply b).2.bytes.length ≤ b.bytes.length + op.emitted := by
      cases op with
      | read counts =>
        refine (h.read_completes source hr (by omega) counts).mono ?_ fun _ _ => id
        rintro _ t ⟨rfl, ht, hbytes⟩
        exact ⟨rfl, ht, by rw [hbytes]; exact Nat.le_add_right _ _⟩
      | write chunks =>
        have hemitted : (StreamOp.write chunks).emitted = chunks.flatten.length := rfl
        refine (h.write_completes source r chunks (by omega)).mono ?_ fun _ _ => id
        rintro _ t ⟨rfl, ht⟩
        refine ⟨rfl, ht, ?_⟩
        have hwithin := h.within
        change (chunks.foldl ByteStream.emit b).bytes.length ≤ _
        rw [ByteStream.foldl_emit hwithin, ByteStream.emit_bytes hwithin, Bytes.length_put, hemitted]
        split_ifs <;> omega
    rw [List.mapM_cons]
    apply Ends.bind hstep
    rintro _ t ⟨rfl, ht, hlength⟩
    apply Ends.bind (ih ht (by omega))
    rintro _ u ⟨rfl, hu⟩
    exact ⟨rfl, hu⟩

end

theorem atCursor_of_open {s t : Session} {status : OpenStatus} {position : Position}
    {path : Option String} {source : SourceLine} {w : Receivers} {iostat : Iostat} {n : ℕ}
    (hstatus : status ≠ .scratch) (hfresh : s.unit.reaffirms status path = false)
    (hopen : statement .connect source w (openUnit status position path
      { access := .stream, formatted := false }) s = .ok (true, iostat) t)
    (hfile : t.unit.attachment.backing = some (.file (.node n) true)) :
    t.system.files.LeadsTo (path.getD s.unit.defaultPath) n ∧
      ∃ hn : n < t.system.files.nodes.length, AtCursor hn (path.getD s.unit.defaultPath) t
        (.opened position (t.system.files.contentAt n)) := by
  obtain ⟨hopened, hleads, hn, hholds⟩ := opened_on_file hstatus hfresh hopen hfile
  refine ⟨hleads, hn, hholds, ?_, ?_, ?_, ?_, ?_⟩
  · rw [hopened.unit_eq]
    exact ⟨rfl, rfl, rfl, rfl, rfl, rfl⟩
  · rw [hopened.offset_eq, FileSystem.size_node]
    rfl
  · rw [hopened.unit_eq]
    rfl
  · rw [hopened.unit_eq]
    rfl
  · unfold ByteStream.opened
    dsimp only
    split_ifs
    · exact le_rfl
    · exact Nat.zero_le _

/-- A unit of unformatted stream access is an array of bytes with one cursor. Whatever its file holds at
first, READs and WRITEs in any order answer what the array tells, a READ sees all that was written
before it, and after a CLOSE the file holds the array and nothing else has changed. -/
theorem stream_statements {s t : Session} {status : OpenStatus} {position : Position}
    {path : Option String} {source : SourceLine} {w r : Receivers} {iostat : Iostat} {n : ℕ}
    {content : Bytes} (hstatus : status ≠ .scratch) (hfresh : s.unit.reaffirms status path = false)
    (hopen : statement .connect source w (openUnit status position path
      { access := .stream, formatted := false }) s = .ok (true, iostat) t)
    (hfile : t.unit.attachment.backing = some (.file (.node n) true))
    (hcontent : t.system.files.contentAt n = content) (hr : r.receivesError = true)
    (ops : List StreamOp)
    (hsize : content.length + emittedBy ops < FileSystem.offsetLimit) :
    Completes (do
        let outs ← ops.mapM (StreamOp.perform source r)
        return (outs, ← statement .disconnect source r (closeUnit .keep))) t fun out u =>
      out = ((StreamOp.applyAll (.opened position content) ops).1, (true, .ok)) ∧
        u.system = t.system.withContent n (StreamOp.applyAll (.opened position content) ops).2.bytes ∧
        u.system.files.contentOf? (path.getD s.unit.defaultPath) =
          some (StreamOp.applyAll (.opened position content) ops).2.bytes := by
  obtain ⟨hleads, hn, hat⟩ := atCursor_of_open hstatus hfresh hopen hfile
  rw [hcontent] at hat
  apply Ends.bind (hat.run source hr ops hsize)
  rintro _ u ⟨rfl, hu⟩
  apply Ends.bind (close_completes source r hu.holds)
  rintro _ v ⟨rfl, hsystem, -⟩
  obtain ⟨-, -, hstored⟩ := hleads.of_rewritten (congrArg System.files hsystem)
  exact ⟨rfl, hsystem, hstored⟩

def threeBytes : System :=
  { files := { nodes := [{ content := [1, 2, 3] }], names := [(["a"], 0)] } }

theorem stream_open_old : ∃ t, statement .connect {} {} (openUnit .old .asIs (some "a")
      { access := .stream, formatted := false }) { system := threeBytes, unit := .new 10 256 } =
        .ok (true, .ok) t ∧
      t.unit.attachment.backing = some (.file (.node 0) true) ∧
      t.system.files.contentAt 0 = [1, 2, 3] := by
  refine ⟨{ system := threeBytes
            unit := { number := 10, readChunk := 256, attachment := .ofFile "a" 0
                      connection := { access := .stream, formatted := false } } }, by cbv, rfl, rfl⟩

/-- A READ that goes too far, WRITEs over the last byte and behind it, and a READ at the end. -/
theorem stream_statements_three_bytes : ∃ t,
    statement .connect {} {} (openUnit .old .asIs (some "a")
      { access := .stream, formatted := false }) { system := threeBytes, unit := .new 10 256 } =
        .ok (true, .ok) t ∧
    Completes (do
        let outs ← [.read [2, 5], .write [[9], [8]], .read [0, 1]].mapM
          (StreamOp.perform {} { iostat := true })
        return (outs, ← statement .disconnect {} { iostat := true } (closeUnit .keep))) t fun out u =>
      out = ([([(true, some [1, 2]), (false, none)], .endOfFile),
        ([(true, none), (true, none)], .ok), ([(true, some []), (false, none)], .endOfFile)],
        (true, .ok)) ∧ u.system.files.contentOf? "a" = some [1, 2, 9, 8] := by
  obtain ⟨t, hopen, hfile, hcontent⟩ := stream_open_old
  refine ⟨t, hopen, ?_⟩
  refine (stream_statements (by decide) rfl hopen hfile hcontent rfl
    [.read [2, 5], .write [[9], [8]], .read [0, 1]] (by decide)).mono ?_ fun _ _ => id
  rintro _ u ⟨rfl, -, hcontent⟩
  exact ⟨rfl, hcontent⟩

end Session

end DataTransfer
