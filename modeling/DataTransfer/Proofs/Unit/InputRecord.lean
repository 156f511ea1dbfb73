import DataTransfer.Proofs.Unit.FormWriting
import DataTransfer.Proofs.Unit.ListReading
import DataTransfer.Proofs.Unit.NumericItem
import DataTransfer.Proofs.Unit.StandardInput

/-!
The record that a formatted READ takes its items from: a line or a record of fixed length, of a file or
of standard input. The cursor moves in it from statement to statement, until one of them goes on to the
record that follows.
-/

namespace DataTransfer

open Bytes (chars)

/-- The record at the start of `rest` where records have this form, and what is behind it. A file may
end before its last record has its length. -/
def Form.FirstRecord (f : Form) (rest text after : Bytes) : Prop :=
  match f.recordLength with
  | none => FirstLine rest text after
  | some length => 0 < length ∧ rest ≠ [] ∧ text = rest.take length ∧ after = rest.drop length

/-- Where records come from: a file, or what is typed while the rest of the system stays. -/
inductive RecordSource where
  | file (device : Channel)
  | standardInput (system : System)

/-- Records of this form can be there, with these bytes before the current one and from it on. -/
def RecordSource.Accepts (f : Form) (before rest text : Bytes) : RecordSource → Prop
  | .file device => device.attachment.isTerminal = false ∧
      (before ++ rest).length < FileSystem.offsetLimit ∧
      before.length + f.recordLength.getD 0 < FileSystem.offsetLimit
  | .standardInput _ => f.recordLength = none ∧ text.length < 2 ^ 63

structure InputRecord where
  source : RecordSource
  form : Form
  before : Bytes
  rest : Bytes
  text : Bytes
  after : Bytes
  number : ℕ
  /-- The number of the record that is known for the end of the file. -/
  endRecord : Option ℕ := none
  formatted : form.formatted = true
  first : form.FirstRecord rest text after
  accepted : source.Accepts form before rest text
  inFile : ∀ last ∈ endRecord, number < last

namespace InputRecord

variable (R : InputRecord)

/-- All that can be read from the unit, and has been. -/
def content : Bytes := R.before ++ R.rest

def length : ℕ := R.form.recordLength.getD R.text.length

def stride : ℕ := R.form.recordLength.getD (R.rest.length - R.after.length)

def next : ℕ := R.before.length + R.stride

def charsFrom (position : ℕ) : List Char := chars (R.text.drop position)

/-- Reading from this column on comes to the end of a record of fixed length, and not before to that of
the file. -/
def closes (position : ℕ) : Bool := R.form.recordLength.any (· ≤ max position R.text.length)

/-- The end of the record for a READ from this column on. -/
def endFrom (position : ℕ) (nonAdvancing : Bool) : RecordBoundary := ⟨R.closes position, nonAdvancing⟩

theorem first_of_line (hlines : R.form.recordLength = none) : FirstLine R.rest R.text R.after := by
  have hfirst := R.first
  rwa [Form.FirstRecord, hlines] at hfirst

theorem first_of_fixed {length : ℕ} (hlength : R.form.recordLength = some length) :
    0 < length ∧ R.rest ≠ [] ∧ R.text = R.rest.take length ∧ R.after = R.rest.drop length := by
  have hfirst := R.first
  rwa [Form.FirstRecord, hlength] at hfirst

theorem text_prefix : R.text <+: R.rest := by
  cases hlength : R.form.recordLength with
  | none =>
    obtain ⟨terminator, hrest⟩ := (R.first_of_line hlength).exists_terminator
    rw [hrest]
    exact List.prefix_append _ _
  | some length =>
    rw [(R.first_of_fixed hlength).2.2.1]
    exact List.take_prefix _ _

theorem length_text_le : R.text.length ≤ R.length := by
  rw [length]
  cases hlength : R.form.recordLength with
  | none => exact le_rfl
  | some length =>
    rw [(R.first_of_fixed hlength).2.2.1, List.length_take]
    exact min_le_left _ _

theorem getElem?_text {position : ℕ} (hposition : position < R.length) :
    R.text[position]? = R.rest[position]? := by
  rw [length] at hposition
  cases hlength : R.form.recordLength with
  | none =>
    rw [hlength] at hposition
    obtain ⟨behind, hrest⟩ := R.text_prefix
    rw [← hrest]
    exact (List.getElem?_append_left hposition).symm
  | some length =>
    rw [hlength, Option.getD_some] at hposition
    rw [(R.first_of_fixed hlength).2.2.1, List.getElem?_take_of_lt hposition]

theorem head?_charsFrom (position : ℕ) :
    (R.charsFrom position).head? = R.text[position]?.map fun b => Char.ofNat b.toNat := by
  rw [charsFrom, chars, List.head?_map, List.head?_drop]

theorem length_charsFrom (position : ℕ) :
    (R.charsFrom position).length = R.text.length - position := by
  rw [charsFrom, Bytes.length_chars, List.length_drop]

theorem charsFrom_add (position columns : ℕ) :
    R.charsFrom (position + columns) = (R.charsFrom position).drop columns := by
  rw [charsFrom, charsFrom, chars, chars, ← List.map_drop, List.drop_drop]

/-- What a unit holds of its record: a clean window on the file, or what it has taken from standard
input of the line that has been typed. -/
inductive Supplied : Windowed Channel → Bool → ℕ → Prop
  | file {w : Windowed Channel} {device : Channel} {located : Bool} {position : ℕ}
    (hsource : R.source = .file device) (hdevice : w.device = device) (hshows : w.Shows R.content) :
    Supplied w located position
  | ahead {w : Windowed Channel} {system : System} {position : ℕ}
    (hsource : R.source = .standardInput system) (hattachment : w.device.attachment = .standard 0)
    (hsystem : w.device.system = { system with input := R.rest })
    (hclean : w.window.dirty = none) (hheld : Windowed.heldFrom w.window R.before.length = []) :
    Supplied w false position
  | typed {w : Windowed Channel} {system : System} {position column : ℕ}
    (hsource : R.source = .standardInput system) (hattachment : w.device.attachment = .standard 0)
    (hsystem : w.device.system = { system with input := R.after })
    (hcolumn : column ≤ position)
    (hwindow : w.window = { offset := R.before.length + column,
                            bytes := (R.rest.take (R.rest.length - R.after.length)).drop column }) :
    Supplied w true position

theorem Supplied.later {R : InputRecord} {w : Windowed Channel} {located : Bool} {position column : ℕ}
    (h : R.Supplied w located position) (hle : position ≤ column) : R.Supplied w located column := by
  cases h with
  | file hsource hdevice hshows => exact .file hsource hdevice hshows
  | ahead hsource hattachment hsystem hclean hheld =>
    exact .ahead hsource hattachment hsystem hclean hheld
  | typed hsource hattachment hsystem hcolumn hwindow =>
    exact .typed hsource hattachment hsystem (hcolumn.trans hle) hwindow

end InputRecord

namespace Session

/-- The unit stands in the record with its cursor at this column, within a statement or between two. -/
structure StandsIn (R : InputRecord) (position : ℕ) (s : Session) : Prop where
  supplied : R.Supplied s.channel s.unit.located position
  form : { s.unit.connection with nonAdvancing := false }.HasForm R.form
  readChunk_pos : 0 < s.unit.readChunk
  /-- A line that has been typed would be lost if the unit were turned around. -/
  turned : ∀ system, R.source = .standardInput system → s.unit.reading = true
  offset_eq : s.unit.offset = R.before.length
  record_eq : s.unit.connection.record = R.number
  endRecord_eq : s.unit.connection.endRecord = R.endRecord
  position_eq : s.unit.connection.position = position
  tabFloor_le : s.unit.connection.tabFloor ≤ position
  extent : s.unit.located = true →
    s.unit.connection.recordLength = some R.length ∧ inputStride s.unit = R.stride

/-- A formatted READ with this status has its cursor at this column of the record. -/
structure Reads (R : InputRecord) (nonAdvancing : Bool) (h : Handler) (position : ℕ) (s : Session) :
    Prop extends StandsIn R position s where
  nonAdvancing_eq : s.unit.connection.nonAdvancing = nonAdvancing
  handler_eq : s.handler = h
  statement_eq : ∃ modes, s.unit.statement = .formatted .input modes
  reading_eq : s.unit.reading = true

variable {R : InputRecord} {nonAdvancing : Bool} {h : Handler} {position : ℕ} {s t : Session}

namespace StandsIn

variable (hs : StandsIn R position s)
include hs

theorem fixedRecordLength_eq : s.unit.connection.fixedRecordLength = R.form.recordLength :=
  hs.form.fixedRecordLength

theorem formatted_eq : s.unit.connection.formatted = true := hs.form.formatted.trans R.formatted

theorem atEnd_eq : s.unit.connection.atEnd = false := by
  unfold Connection.atEnd
  rw [hs.endRecord_eq, hs.record_eq]
  cases hend : R.endRecord with
  | none => rfl
  | some last => simpa using R.inFile last (by rw [hend]; rfl)

theorem pastFixedRecord_eq {column : ℕ} (hposition : position = max column R.text.length) :
    s.unit.connection.pastFixedRecord = R.closes column := by
  have hfixed := hs.fixedRecordLength_eq
  rw [Connection.pastFixedRecord, hs.atEnd_eq, hs.position_eq, hposition, InputRecord.closes, ← hfixed,
    Connection.fixedRecordLength]
  cases s.unit.connection.fixedLength <;> simp

end StandsIn

/-! ### The search for its end -/

structure SameRead (s t : Session) : Prop where
  handler_eq : t.handler = s.handler
  statement_eq : t.unit.statement = s.unit.statement
  reading_eq : t.unit.reading = s.unit.reading
  nonAdvancing_eq : t.unit.connection.nonAdvancing = s.unit.connection.nonAdvancing

theorem SameRead.trans {u : Session} (h : SameRead s t) (h' : SameRead t u) : SameRead s u where
  handler_eq := h'.handler_eq.trans h.handler_eq
  statement_eq := h'.statement_eq.trans h.statement_eq
  reading_eq := h'.reading_eq.trans h.reading_eq
  nonAdvancing_eq := h'.nonAdvancing_eq.trans h.nonAdvancing_eq

theorem extent_of_fixed {u : ExternalUnit} {length : ℕ}
    (hform : { u.connection with nonAdvancing := false }.HasForm R.form)
    (hlength : R.form.recordLength = some length) :
    u.connection.recordLength = some R.length ∧ inputStride u = R.stride := by
  have hfixed : u.connection.fixedRecordLength = R.form.recordLength := hform.fixedRecordLength
  have hdeclared : u.connection.recordLength = R.form.recordLength :=
    hform.recordLength (by rw [hlength]; rfl)
  simp [InputRecord.length, InputRecord.stride, inputStride, hfixed, hdeclared, hlength]

theorem extent_of_line {u : ExternalUnit}
    (hform : { u.connection with nonAdvancing := false }.HasForm R.form)
    (hlines : R.form.recordLength = none)
    (hlength : u.connection.recordLength = some R.text.length)
    (hterminator : u.terminator = R.rest.length - R.text.length - R.after.length) :
    u.connection.recordLength = some R.length ∧ inputStride u = R.stride := by
  have hfixed : u.connection.fixedRecordLength = R.form.recordLength := hform.fixedRecordLength
  have hformatted : u.connection.formatted = true := hform.formatted.trans R.formatted
  obtain ⟨terminator, hrest⟩ := (R.first_of_line hlines).exists_terminator
  have htotal := congrArg List.length hrest
  simp only [List.length_append] at htotal
  simp [InputRecord.length, InputRecord.stride, inputStride, hfixed, hlines, hformatted, hlength,
    hterminator]
  omega

namespace StandsIn

variable (hs : StandsIn R position s)
include hs

theorem findRecord_of_fixed {length : ℕ} (hlength : R.form.recordLength = some length) :
    Succeeds findRecord s fun found t =>
      found = true ∧ StandsIn R position t.atLocated ∧ SameRead s t := by
  obtain ⟨hpos, hne, -, -⟩ := R.first_of_fixed hlength
  have haccepted := R.accepted
  have hrest : 0 < R.rest.length := List.length_pos_iff.mpr hne
  have hsupplied := hs.supplied
  generalize s.unit.located = located at hsupplied
  cases hsupplied with
  | ahead hsource => rw [hsource] at haccepted; cases hlength.symm.trans haccepted.1
  | typed hsource => rw [hsource] at haccepted; cases hlength.symm.trans haccepted.1
  | file hsource hdevice hshows =>
    rw [hsource] at haccepted
    have hshows' : ({ s with unit := { s.unit with terminator := 0 } } : Session).channel.Shows
        R.content := hshows
    have hoffset : s.unit.offset ≤ R.content.length := by
      rw [hs.offset_eq, InputRecord.content, List.length_append]
      exact Nat.le_add_right _ _
    refine Session.findRecord_of_fixed (hs.fixedRecordLength_eq.trans hlength)
      ((windowed_read_succeeds hshows' length hoffset haccepted.2.1).mono ?_ fun _ _ => id)
    rintro got _ ⟨w, rfl, hw, hgot, -⟩
    rw [hs.offset_eq, InputRecord.content, List.length_append, Nat.add_sub_cancel_left] at hgot
    refine ⟨decide_eq_true (by omega), { hs with
      supplied := .file hsource hdevice hw
      extent := fun _ => extent_of_fixed hs.form hlength }, rfl, rfl, rfl, rfl⟩

/-- The end of a line is found whichever way its bytes come. -/
theorem findRecord_of_line (hlines : R.form.recordLength = none)
    (hlocated : s.unit.located = false) : Succeeds findRecord s fun found t =>
      found = true ∧ StandsIn R position t.atLocated ∧ SameRead s t := by
  have hfirst := R.first_of_line hlines
  have haccepted := R.accepted
  have hsupplied := hs.supplied
  rw [hlocated] at hsupplied
  refine Session.findRecord_of_line (hs.fixedRecordLength_eq.trans hlines) hs.formatted_eq ?_
  have hform : Connection.HasForm
      { s.unit.connection with recordLength := some R.text.length, nonAdvancing := false } R.form :=
    { hs.form with recordLength := by simp [hlines] }
  cases hsupplied with
  | file hsource hdevice hshows =>
    rw [hsource] at haccepted
    refine (locateFormatted_succeeds (.line hfirst) hshows hs.offset_eq hs.readChunk_pos
      haccepted.2.1).mono ?_ fun _ _ => id
    rintro _ _ ⟨rfl, w, hw, rfl⟩
    exact ⟨rfl, { hs with
      supplied := .file hsource hdevice hw
      form := hform
      extent := fun _ => extent_of_line hform hlines rfl rfl }, rfl, rfl, rfl, rfl⟩
  | @ahead system _ hsource hattachment hsystem hclean hheld =>
    obtain ⟨typed, hrest, htyped, hline, hlast⟩ := FirstLine.exists_typed hfirst
    have hinput : s.system.input = typed ++ R.after :=
      (congrArg System.input hsystem).trans hrest
    have hstream : s.OnStream := ⟨hattachment, hclean, hs.readChunk_pos⟩
    rw [← hs.offset_eq] at hheld
    have htake : R.rest.take (R.rest.length - R.after.length) = typed := by
      rw [hrest, List.length_append, Nat.add_sub_cancel, List.take_left]
    refine (hstream.locateFormatted_succeeds htyped hline hlast hheld hinput).mono ?_ fun _ _ => id
    rintro _ _ ⟨rfl, rfl⟩
    have hsystem' : (s.holding s.unit.offset typed R.after).system = { system with input := R.after } :=
      congrArg (fun system : System => { system with input := R.after }) hsystem
    have hterminator : typed.length - R.text.length =
        R.rest.length - R.text.length - R.after.length := by
      rw [hrest, List.length_append]
      omega
    refine ⟨rfl, { hs with
      supplied := .typed hsource hattachment hsystem' (Nat.zero_le _) ?_
      form := hform
      extent := fun _ => extent_of_line hform hlines rfl hterminator }, rfl, rfl, rfl, rfl⟩
    rw [htake, ← hs.offset_eq]
    rfl

theorem ensureLocated_succeeds : Succeeds ensureLocated s fun found t =>
    found = true ∧ t.unit.located = true ∧ StandsIn R position t ∧ SameRead s t := by
  have hfind (hlocated : s.unit.located = false) : Succeeds findRecord s fun found t =>
      found = true ∧ StandsIn R position t.atLocated ∧ SameRead s t := by
    cases hlength : R.form.recordLength with
    | none => exact hs.findRecord_of_line hlength hlocated
    | some length => exact hs.findRecord_of_fixed hlength
  refine ensureLocated_of_found hs.atEnd_eq (fun hlocated => ⟨hlocated, hs, rfl, rfl, rfl, rfl⟩)
    fun hlocated => (hfind hlocated).mono ?_ fun _ _ => id
  rintro _ t ⟨rfl, ht, hkept⟩
  exact ⟨rfl, rfl, ht, { hkept with }⟩

end StandsIn

end Session

end DataTransfer
