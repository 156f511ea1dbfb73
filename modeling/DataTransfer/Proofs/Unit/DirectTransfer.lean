import DataTransfer.Proofs.Unit.Input
import DataTransfer.Proofs.Unit.Opening
import DataTransfer.Proofs.Unit.Output
import DataTransfer.Proofs.Unit.Reading
import DataTransfer.Proofs.Unit.RecordMap

/-!
Statements of unformatted direct access, one by one: a WRITE puts one record in its place, and a READ
takes one from there, or meets the end of the file.
-/

namespace DataTransfer

namespace DirectOp

def direction : DirectOp → Direction
  | .write _ _ => .output
  | .read _ _ => .input

/-- What the statement does with its unit, and what it is answered: whether the record number was
taken, and for each piece whether the statement is free of errors and what was received. -/
def work : DirectOp → Act Session (Bool × List (Bool × Option Bytes))
  | .write record chunks => do
    let positioned ← Session.setRecord record
    return (positioned, (← chunks.mapM Session.emit).map fun ok => (ok, none))
  | .read record counts => do
    let positioned ← Session.setRecord record
    return (positioned, ← counts.mapM Session.receive)

def perform (source : SourceLine) (r : Receivers) (op : DirectOp) :
    Act Session ((Bool × List (Bool × Option Bytes)) × Iostat) :=
  Session.statement (.unformatted op.direction) source r op.work

/-- The statement is on a record whose offsets are accepted, and writes it whole. -/
def Suits (length : ℕ) : DirectOp → Prop
  | .write record chunks =>
    0 < record ∧ record * length < FileSystem.offsetLimit ∧ chunks.flatten.length = length
  | .read record _ => 0 < record ∧ record * length < FileSystem.offsetLimit

instance (length : ℕ) : ∀ op : DirectOp, Decidable (op.Suits length)
  | .write _ _ => inferInstanceAs (Decidable (_ ∧ _ ∧ _))
  | .read _ _ => inferInstanceAs (Decidable (_ ∧ _))

end DirectOp

namespace Session

structure Direct (c : Connection) (length : ℕ) : Prop where
  access : c.access = .direct
  formatted : c.formatted = false
  fixedLength : c.fixedLength = true
  recordLength : c.recordLength = some length
  nonAdvancing : c.nonAdvancing = false

namespace Direct

variable {c : Connection} {length : ℕ} (h : Direct c length)
include h

theorem hasMarkers : ExternalUnit.hasMarkers c = false := by
  simp [ExternalUnit.hasMarkers, h.fixedLength]

theorem fixedRecordLength : c.fixedRecordLength = some length := by
  simp [Connection.fixedRecordLength, h.fixedLength, h.recordLength]

end Direct

section

variable {s : Session} {system : System} {n : ℕ} {hn : n < system.files.nodes.length}
variable {path : String} {content : Bytes} {length : ℕ} {endRecord : Option ℕ}

structure AtDirect (hn : n < system.files.nodes.length) (path : String) (s : Session) (length : ℕ)
    (content : Bytes) (endRecord : Option ℕ) : Prop where
  holds : s.channel.Holds (system.device hn path) content
  form : Direct s.unit.connection length
  endRecord_eq : s.unit.connection.endRecord = endRecord

theorem AtDirect.ended (h : AtDirect hn path s length content endRecord) :
    AtDirect hn path s.ended length content endRecord :=
  { h with form := { h.form with nonAdvancing := rfl } }

structure OnRecord (hn : n < system.files.nodes.length) (path : String) (s : Session) (length : ℕ)
    (content : Bytes) (endRecord : Option ℕ) (direction : Direction) (r : Receivers)
    (record : ℕ) : Prop extends AtDirect hn path s length content endRecord where
  offset_eq : s.unit.offset = (record - 1) * length
  record_eq : s.unit.connection.record = record
  reading_eq : s.unit.reading = decide (direction = .input)
  statement_eq : s.unit.statement = .unformatted direction
  declared_eq : s.handler.declared = r

/-- A statement in progress on a unit that is turned the right way, but may be at any record. -/
structure Turned (hn : n < system.files.nodes.length) (path : String) (s : Session) (length : ℕ)
    (content : Bytes) (endRecord : Option ℕ) (direction : Direction) (r : Receivers) : Prop
    extends AtDirect hn path s length content endRecord where
  reading_eq : s.unit.reading = decide (direction = .input)
  statement_eq : s.unit.statement = .unformatted direction
  status_eq : s.handler.status = .ok
  declared_eq : s.handler.declared = r

theorem AtDirect.begin_completes (h : AtDirect hn path s length content endRecord)
    (direction : Direction) (source : SourceLine) (r : Receivers) :
    Completes (begin_ (.unformatted direction) source) s fun _ t =>
      Turned hn path { t with handler := t.handler.declare r } length content endRecord
        direction r := by
  refine (starts_of_begin h.holds (isOpen_of_holds h.holds) (fun _ => rfl) source r).mono ?_ fun _ _ => id
  intro _ t ht
  exact {
    holds := ht.holds
    form := ht.connection_eq ▸ h.form
    endRecord_eq := ht.connection_eq ▸ h.endRecord_eq
    reading_eq := ht.reading_eq
    statement_eq := ht.statement_eq
    status_eq := ht.status_eq
    declared_eq := ht.declared_eq }

theorem Turned.setRecord_completes {direction : Direction} {r : Receivers} {record : ℕ}
    (h : Turned hn path s length content endRecord direction r) (hrecord : 0 < record) :
    Completes (setRecord record) s fun ok t => ok = true ∧
      OnRecord hn path t length content endRecord direction r record ∧
      t.unit.connection.position = 0 ∧ t.unit.connection.furthest = 0 ∧ t.unit.located = false ∧
      t.handler.status = .ok := by
  unfold setRecord
  refine (ends_get _).mpr ?_
  dsimp only
  rw [h.form.fixedRecordLength, h.form.access]
  dsimp only
  rw [if_neg (by simpa using hrecord.ne')]
  exact ⟨rfl, { h with form := { h.form with access := rfl }, offset_eq := rfl, record_eq := rfl },
    rfl, rfl, rfl, h.status_eq⟩

/-! ### WRITE statements -/

theorem AtDirect.write_completes (h : AtDirect hn path s length content endRecord)
    (source : SourceLine) (r : Receivers) {record : ℕ} {chunks : List Bytes}
    (hsuits : (DirectOp.write record chunks).Suits length) :
    Completes ((DirectOp.write record chunks).perform source r) s fun out t =>
      out = ((true, chunks.map fun _ => (true, none)), .ok) ∧
        AtDirect hn path t length (content.put ((record - 1) * length) chunks.flatten)
          endRecord := by
  obtain ⟨hrecord, haccepted, hlength⟩ := hsuits
  refine statement_completes (B := fun t => Turned hn path t length content endRecord .output r)
    (h.begin_completes .output source r) ?_
  intro t ht
  apply Ends.bind (ht.setRecord_completes hrecord)
  rintro _ u ⟨rfl, hu, hposition, hfurthest, -, hstatus⟩
  have hdata : u.unit.dataOffset = (record - 1) * length := by
    rw [ExternalUnit.dataOffset, hu.form.hasMarkers, if_neg Bool.false_ne_true, hu.offset_eq]
  have hwriting : Writing hn path u content := by
    refine ⟨hu.holds, hposition, hfurthest, hu.form.nonAdvancing, hu.reading_eq, ?_, hstatus⟩
    rw [hu.statement_eq]
    rfl
  -- A record that is put whole needs nothing more at its end.
  have hcompletes (w : Windowed Channel)
      (hw : w.Holds (system.device hn path) (content.put u.unit.dataOffset chunks.flatten)) :
      CompletesRecord (system.device hn path) (u.afterOutput w chunks.flatten.length) length
        (content.put ((record - 1) * length) chunks.flatten) := by
    rw [hdata] at hw
    have hheld : (u.afterOutput w chunks.flatten.length).channel.Holds (system.device hn path)
        (content.put ((record - 1) * length) chunks.flatten) := hw
    exact completesRecord_fixed hheld hu.form.fixedRecordLength (.inl hu.form.formatted)
  refine Ends.bind (hwriting.emits_complete chunks ?_ ?_ hcompletes) ?_
  · intro l hl
    rw [hu.form.fixedRecordLength] at hl
    cases hl
    exact hlength.le
  · rw [hdata, hlength, sub_one_mul_add hrecord]
    exact haccepted
  rintro _ _ ⟨rfl, hfinish⟩
  refine (ends_pure _).mpr (hfinish.mono ?_ fun _ _ => id)
  rintro _ _ ⟨rfl, w, hw, rfl⟩
  have hnext : AtDirect hn path ((u.afterOutput w chunks.flatten.length).onNextRecord w length) length
      (content.put ((record - 1) * length) chunks.flatten) endRecord :=
    { hu with holds := hw, form := { hu.form with } }
  refine ⟨?_, hnext.ended⟩
  rw [List.map_map]
  rfl

/-! ### READ statements -/

theorem OnRecord.atEnd_eq {direction : Direction} {r : Receivers} {record : ℕ}
    (h : OnRecord hn path s length content endRecord direction r record) :
    s.unit.connection.atEnd = endRecord.any (· ≤ record) := by
  rw [Connection.atEnd, h.endRecord_eq, h.record_eq]
  cases endRecord <;> rfl

/-- The search for a record finds it if a byte of it is there. -/
theorem OnRecord.findRecord_succeeds {r : Receivers} {record : ℕ}
    (h : OnRecord hn path s length content endRecord .input r record)
    (hoffset : (record - 1) * length < FileSystem.offsetLimit)
    (hsize : content.length < FileSystem.offsetLimit) :
    Succeeds findRecord s fun found t =>
      found = decide (0 < min length (content.length - (record - 1) * length)) ∧
      ∃ w, w.Holds (system.device hn path) content ∧
        t = { s.withChannel w with unit := { (s.withChannel w).unit with terminator := 0 } } := by
  have hholds : Session.channel { s with unit := { s.unit with terminator := 0 } } = s.channel := rfl
  refine findRecord_of_fixed h.form.fixedRecordLength ?_
  rw [h.offset_eq]
  refine (windowed_succeeds (hholds ▸ h.holds.read_accepted length hoffset hsize)).mono ?_
    fun _ _ => id
  rintro got _ ⟨w, ⟨hw, rfl, -⟩, rfl⟩
  exact ⟨rfl, w, hw, rfl⟩

structure Receiving (hn : n < system.files.nodes.length) (path : String) (s : Session) (length : ℕ)
    (content : Bytes) (endRecord : Option ℕ) (r : Receivers) (record : ℕ) (failed : Bool)
    (pos : ℕ) : Prop extends OnRecord hn path s length content endRecord .input r record where
  position_eq : s.unit.connection.position = pos
  position_le : pos ≤ length
  status_eq : s.handler.status = if failed then .recordReadOverrun else .ok

/-- The file has this record, and the unit does not take it for the end. -/
structure Present (length : ℕ) (content : Bytes) (endRecord : Option ℕ) (record : ℕ) : Prop where
  length_pos : 0 < length
  record_pos : 0 < record
  within : record * length ≤ content.length
  accepted : content.length < FileSystem.offsetLimit
  notEnded : endRecord.any (· ≤ record) = false

namespace Receiving

variable {r : Receivers} {record pos : ℕ} {failed : Bool}
variable (h : Receiving hn path s length content endRecord r record failed pos)
variable (hp : Present length content endRecord record)
include h hp

theorem ensureLocated_succeeds : Succeeds ensureLocated s fun found t => found = true ∧
    t.unit.located = true ∧ Receiving hn path t length content endRecord r record failed pos := by
  have hstop := sub_one_mul_add hp.record_pos length
  have hlength := hp.length_pos
  have hwithin := hp.within
  have haccepted := hp.accepted
  refine ensureLocated_of_found (h.atEnd_eq.trans hp.notEnded) (fun hlocated => ⟨hlocated, h⟩)
    fun _ => (h.findRecord_succeeds (by omega) haccepted).mono ?_ fun _ _ => id
  rintro _ _ ⟨rfl, w, hw, rfl⟩
  exact ⟨decide_eq_true (by omega), rfl, { h with holds := hw, form := { h.form with } }⟩

theorem getData_attempts (count : ℕ) :
    Attempts (getData count) s
      (fun data t => pos + count ≤ length ∧
        data = some ((content.slice ((record - 1) * length) length).slice pos count) ∧
        Receiving hn path t length content endRecord r record failed (pos + count))
      (fun f t => ¬ pos + count ≤ length ∧ f = .recordReadOverrun ∧
        Receiving hn path t length content endRecord r record failed pos) := by
  refine getData_of_located (mayRead_of_holds h.holds) h.form.formatted (h.ensureLocated_succeeds hp) ?_
  rintro u ⟨-, hu⟩
  have hremaining : u.unit.connection.remaining = some (length - pos) := by
    rw [Connection.remaining, hu.form.recordLength, hu.position_eq]
    rfl
  have hdata : u.unit.dataOffset = (record - 1) * length := by
    rw [ExternalUnit.dataOffset, hu.form.hasMarkers, if_neg Bool.false_ne_true, hu.offset_eq]
  have hpos := h.position_le
  have hstop := sub_one_mul_add hp.record_pos length
  have hwithin := hp.within
  rw [hremaining, hdata, hu.position_eq, Option.any_some]
  by_cases hcount : pos + count ≤ length
  · rw [if_neg (by simpa using by omega), Bytes.slice_slice, Nat.min_eq_left (by omega)]
    refine (fetch_succeeds hu.holds (by omega) hp.accepted).attempts.mono ?_ fun _ _ => id
    rintro _ _ ⟨rfl, w, hw, rfl⟩
    exact ⟨hcount, rfl, { hu with
      holds := hw
      form := { hu.form with }
      position_eq := congrArg (· + count) hu.position_eq
      position_le := hcount }⟩
  · rw [if_pos (by simpa using by omega)]
    exact ⟨hcount, rfl, hu⟩

theorem receives_complete (counts : List ℕ) (hr : r.receivesError = true) :
    Completes (counts.mapM receive) s fun answers t => ∃ failed' pos',
      receives (content.slice ((record - 1) * length) length) failed pos counts =
        (answers, if failed' then .recordReadOverrun else .ok) ∧
      Receiving hn path t length content endRecord r record failed' pos' := by
  have hlength : (content.slice ((record - 1) * length) length).length = length := by
    have hstop := sub_one_mul_add hp.record_pos length
    have hwithin := hp.within
    rw [Bytes.length_slice]
    omega
  induction counts generalizing s failed pos with
  | nil => exact ⟨failed, pos, rfl, h⟩
  | cons count counts ih =>
    have hreceive : Completes (receive count) s fun out t =>
        (pos + count ≤ length ∧
          out = (!failed, some ((content.slice ((record - 1) * length) length).slice pos count)) ∧
          Receiving hn path t length content endRecord r record failed (pos + count)) ∨
        (¬ pos + count ≤ length ∧ out = (false, none) ∧
          Receiving hn path t length content endRecord r record true pos) := by
      refine receive_completes ((h.getData_attempts hp count).mono ?_ ?_)
      · rintro _ t ⟨hcount, rfl, ht⟩
        refine .inl ⟨hcount, ?_, ht⟩
        rw [ht.status_eq]
        cases failed <;> rfl
      · rintro _ t ⟨hcount, rfl, ht⟩
        obtain ⟨handler, hfault, hsame, hstatus⟩ :=
          Handler.fault_received .recordReadOverrun (ht.declared_eq ▸ hr)
        refine ⟨handler, hfault, .inr ⟨hcount, rfl, { ht with
          declared_eq := hsame.trans ht.declared_eq
          status_eq := ?_ }⟩⟩
        rw [hstatus, ht.status_eq]
        cases failed <;> rfl
    rw [List.mapM_cons]
    apply Ends.bind hreceive
    rintro _ t (⟨hcount, rfl, ht⟩ | ⟨hcount, rfl, ht⟩)
    · apply Ends.bind (ih ht)
      rintro answers u ⟨failed', pos', hrest, hu⟩
      rw [receives, hlength, if_pos hcount, hrest]
      exact ⟨failed', pos', rfl, hu⟩
    · apply Ends.bind (ih ht)
      rintro answers u ⟨failed', pos', hrest, hu⟩
      rw [receives, hlength, if_neg hcount, hrest]
      exact ⟨failed', pos', rfl, hu⟩

theorem advance_completes : Completes advance s fun _ t =>
    t.handler.status = (if failed then .recordReadOverrun else .ok) ∧
      AtDirect hn path t length content endRecord := by
  refine report_completes (advanceRecord_of_input h.reading_eq
    ((h.ensureLocated_succeeds hp).mono ?_ fun _ _ => False.elim))
  rintro _ t ⟨rfl, -, ht⟩
  exact ⟨ht.status_eq, { ht with form := { ht.form with } }⟩

end Receiving

theorem AtDirect.read_found (h : AtDirect hn path s length content endRecord) (source : SourceLine)
    {r : Receivers} (hr : r.receivesError = true) {record : ℕ}
    (hp : Present length content endRecord record) (counts : List ℕ) :
    Completes ((DirectOp.read record counts).perform source r) s fun out t =>
      out = ((true, (receives (content.slice ((record - 1) * length) length) false 0 counts).1),
        (receives (content.slice ((record - 1) * length) length) false 0 counts).2) ∧
      AtDirect hn path t length content endRecord := by
  refine statement_completes (B := fun t => Turned hn path t length content endRecord .input r)
    (h.begin_completes .input source r) ?_
  intro t ht
  apply Ends.bind (ht.setRecord_completes hp.record_pos)
  rintro _ u ⟨rfl, hu, hposition, -, -, hstatus⟩
  have hreceiving : Receiving hn path u length content endRecord r record false 0 :=
    ⟨hu, hposition, Nat.zero_le _, hstatus⟩
  apply Ends.bind (hreceiving.receives_complete hp counts hr)
  rintro answers v ⟨failed, pos, hanswers, hv⟩
  have htransfer : v.unit.statement.isTransfer = true := by
    rw [hv.statement_eq]
    rfl
  refine (ends_pure _).mpr (finish_of_transfer htransfer hv.form.nonAdvancing ?_)
  refine (hv.advance_completes hp).mono ?_ fun _ _ => id
  rintro _ x ⟨hstatus', hx⟩
  refine ⟨?_, ?_, hx.ended⟩
  · rw [attachment_eq hx.holds]
    rfl
  · rw [hanswers, hstatus']

/-- A READ in progress on a record that is not there; it may know so already. -/
structure Missing (hn : n < system.files.nodes.length) (path : String) (s : Session) (length : ℕ)
    (content : Bytes) (endRecord : Option ℕ) (r : Receivers) (record : ℕ) (known : Bool) : Prop
    extends OnRecord hn path s length content
      (if known then endAfterMiss endRecord record else endRecord) .input r record where
  located_eq : s.unit.located = false
  status_eq : s.handler.status = if known then .endOfFile else .ok

/-- The file does not have this record, or the unit takes it for the end. -/
structure Absent (length : ℕ) (content : Bytes) (endRecord : Option ℕ) (record : ℕ) : Prop where
  missed : endRecord.any (· ≤ record) = true ∨ content.length ≤ (record - 1) * length
  offset_accepted : (record - 1) * length < FileSystem.offsetLimit
  accepted : content.length < FileSystem.offsetLimit

namespace Missing

variable {r : Receivers} {record : ℕ} {known : Bool}

theorem notesEnd {t : Session} (hr : r.receivesError = true)
    (ht : OnRecord hn path t length content (endAfterMiss endRecord record) .input r record)
    (hlocated : t.unit.located = false)
    (hstatus : t.handler.status = .ok ∨ t.handler.status = .endOfFile) :
    t.NotesEnd fun u => false = false ∧ Missing hn path u length content endRecord r record true := by
  refine ⟨?_, rfl, { ht with
    declared_eq := (t.handler.record_declared _).trans ht.declared_eq
    located_eq := hlocated
    status_eq := Handler.status_record_endOfFile hstatus }⟩
  rw [ht.declared_eq]
  exact Receivers.admits_of_receivesError hr _

theorem ensureLocated_succeeds (h : Missing hn path s length content endRecord r record known)
    (ha : Absent length content endRecord record) (hr : r.receivesError = true) :
    Succeeds ensureLocated s fun found t => found = false ∧
      Missing hn path t length content endRecord r record true := by
  have hstatus : s.handler.status = .ok ∨ s.handler.status = .endOfFile := by
    rw [h.status_eq]
    cases known
    · exact .inl rfl
    · exact .inr rfl
  refine ensureLocated_attempts (fun hlocated => Bool.noConfusion (h.located_eq.symm.trans hlocated))
    (fun _ hpassed => ?_) fun _ hahead => ?_
  · rw [h.atEnd_eq] at hpassed
    have hsame : (if known then endAfterMiss endRecord record else endRecord) =
        endAfterMiss endRecord record := by
      cases known with
      | true => rfl
      | false => exact (if_pos hpassed).symm
    have hon := h.toOnRecord
    rw [hsame] at hon
    exact notesEnd hr hon h.located_eq hstatus
  · -- The end is not known yet: the record is looked for, and is not there.
    rw [h.atEnd_eq] at hahead
    obtain rfl : known = false := by
      cases known with
      | true => exact Bool.noConfusion ((endAfterMiss_any endRecord record).symm.trans hahead)
      | false => rfl
    have hnot : ¬ endRecord.any (· ≤ record) = true := Bool.eq_false_iff.mp hahead
    have hbehind := ha.missed.resolve_left hnot
    refine (h.findRecord_succeeds ha.offset_accepted ha.accepted).mono ?_ fun _ _ => id
    rintro _ _ ⟨rfl, w, hw, rfl⟩
    rw [if_neg (by rw [decide_eq_true_eq]; omega)]
    refine notesEnd hr { h with holds := hw, form := { h.form with }, endRecord_eq := ?_ }
      h.located_eq hstatus
    change some s.unit.connection.record = _
    rw [h.record_eq]
    exact (if_neg hnot).symm

theorem misses (ha : Absent length content endRecord record) (hr : r.receivesError = true) :
    Misses (fun s => ∃ known, Missing hn path s length content endRecord r record known)
      .endOfFile where
  ensureLocated s := by
    rintro ⟨known, h⟩
    refine (h.ensureLocated_succeeds ha hr).attempts.mono ?_ fun _ _ => id
    rintro _ t ⟨rfl, ht⟩
    exact ⟨rfl, ⟨true, ht⟩, ht.status_eq⟩
  status_ne := by decide
  formatted s := by
    rintro ⟨known, h⟩
    exact h.form.formatted
  mayRead s := by
    rintro ⟨known, h⟩
    rw [attachment_eq h.holds]
    rfl
  reading s := by
    rintro ⟨known, h⟩
    rw [h.reading_eq]
    rfl

end Missing

/-- A READ of a record that is not there meets the end of the file, which stays where it is. -/
theorem AtDirect.read_missed (h : AtDirect hn path s length content endRecord) (source : SourceLine)
    {r : Receivers} (hr : r.receivesError = true) {record : ℕ} (hrecord : 0 < record)
    (ha : Absent length content endRecord record) (counts : List ℕ) :
    Completes ((DirectOp.read record counts).perform source r) s fun out t =>
      out = ((true, counts.map fun _ => (false, none)), .endOfFile) ∧
      AtDirect hn path t length content (endAfterMiss endRecord record) := by
  refine statement_completes (B := fun t => Turned hn path t length content endRecord .input r)
    (h.begin_completes .input source r) ?_
  intro t ht
  apply Ends.bind (ht.setRecord_completes hrecord)
  rintro _ u ⟨rfl, hu, -, -, hlocated, hstatus⟩
  have hmisses : Misses (fun s => ∃ known,
      Missing hn path s length content endRecord r record known) .endOfFile := Missing.misses ha hr
  apply Ends.bind (hmisses.receives_complete counts ⟨false, hu, hlocated, hstatus⟩)
  rintro _ v ⟨rfl, ⟨known, hv⟩, -⟩
  have htransfer : v.unit.statement.isTransfer = true := by
    rw [hv.statement_eq]
    rfl
  refine (ends_pure _).mpr (finish_of_transfer htransfer hv.form.nonAdvancing ?_)
  refine (hmisses.advance_completes ⟨known, hv⟩).mono ?_ fun _ _ => id
  rintro _ x ⟨⟨known', hx⟩, hstatus'⟩
  obtain rfl : known' = true := by
    cases known' with
    | true => rfl
    | false =>
      rw [hx.status_eq] at hstatus'
      cases hstatus'
  refine ⟨?_, ?_, hx.toAtDirect.ended⟩
  · rw [attachment_eq hx.holds]
    rfl
  · rw [hstatus']

end

end Session

end DataTransfer
