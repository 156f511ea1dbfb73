import DataTransfer.Proofs.Unit.Opening
import DataTransfer.Proofs.Unit.RecordCursor

/-!
Formatted READs one after another. Each begins at the cursor that the one before it has left in the
record, and goes on to the record that follows unless it does not advance.
-/

namespace DataTransfer

open Bytes (chars)

namespace InputRecord

variable (R : InputRecord)

def Passed (w : Windowed Channel) : Prop :=
  match R.source with
  | .file device => w.device = device ∧ w.Shows R.content
  | .standardInput system =>
    w.device.attachment = .standard 0 ∧ w.device.system = { system with input := R.after } ∧
      w.window.dirty = none ∧ Windowed.heldFrom w.window R.next = []

structure Precedes (R' : InputRecord) : Prop where
  source_eq : R'.source = R.source
  form_eq : R'.form = R.form
  before_eq : R'.before = R.before ++ R.rest.take R.stride
  rest_eq : R'.rest = R.after
  number_eq : R'.number = R.number + 1
  endRecord_eq : R'.endRecord = R.endRecord

variable {R}

theorem after_eq (R : InputRecord) : R.after = R.rest.drop R.stride := by
  rw [stride]
  cases hlength : R.form.recordLength with
  | some length => exact (R.first_of_fixed hlength).2.2.2
  | none =>
    obtain ⟨typed, hrest, -⟩ := (R.first_of_line hlength).exists_typed
    rw [Option.getD_none, hrest, List.length_append, Nat.add_sub_cancel, List.drop_left]

theorem Precedes.content_eq {R' : InputRecord} (h : R.Precedes R') : R'.content = R.content := by
  rw [content, content, h.before_eq, h.rest_eq, R.after_eq, List.append_assoc, List.take_append_drop]

theorem Precedes.length_before {R' : InputRecord} (h : R.Precedes R') : R'.before.length = R.next := by
  have hne : R'.rest ≠ [] := by
    cases hlength : R'.form.recordLength with
    | none => exact List.length_pos_iff.mp (R'.first_of_line hlength).length_pos
    | some length => exact (R'.first_of_fixed hlength).2.1
  have hstride : R.stride ≤ R.rest.length := by
    rw [h.rest_eq, R.after_eq] at hne
    exact (List.length_lt_of_drop_ne_nil hne).le
  rw [h.before_eq, next, List.length_append, List.length_take_of_le hstride]

end InputRecord

def Handler.starting (source : SourceLine) (r : Receivers) : Handler := ({ source } : Handler).declare r

namespace Session

variable {R : InputRecord} {nonAdvancing : Bool} {h : Handler} {position : ℕ} {s t : Session}

structure InRecord (R : InputRecord) (position : ℕ) (s : Session) : Prop
    extends StandsIn R position s where
  advancing : s.unit.connection.nonAdvancing = false

/-- The unit stands at the first column of what follows the record, with no statement in progress. -/
structure BehindRecord (R : InputRecord) (s : Session) : Prop where
  passed : R.Passed s.channel
  form : s.unit.connection.HasForm R.form
  readChunk_pos : 0 < s.unit.readChunk
  reading_eq : s.unit.reading = true
  located_eq : s.unit.located = false
  offset_eq : s.unit.offset = R.next
  record_eq : s.unit.connection.record = R.number + 1
  endRecord_eq : s.unit.connection.endRecord = R.endRecord
  position_eq : s.unit.connection.position = 0
  furthest_eq : s.unit.connection.furthest = 0
  leftTabLimit_eq : s.unit.connection.leftTabLimit = none

theorem BehindRecord.inRecord {R' : InputRecord} (hs : BehindRecord R s) (hnext : R.Precedes R') :
    InRecord R' 0 s := by
  have hsupplied : R'.Supplied s.channel false 0 := by
    have hpassed := hs.passed
    unfold InputRecord.Passed at hpassed
    have hsource := hnext.source_eq
    cases hR : R.source with
    | file device =>
      rw [hR] at hpassed hsource
      exact .file hsource hpassed.1 (by rw [hnext.content_eq]; exact hpassed.2)
    | standardInput system =>
      rw [hR] at hpassed hsource
      obtain ⟨hattachment, hsystem, hclean, hheld⟩ := hpassed
      exact .ahead hsource hattachment (by rw [hnext.rest_eq]; exact hsystem) hclean
        (by rw [hnext.length_before]; exact hheld)
  exact {
    supplied := by rw [hs.located_eq]; exact hsupplied
    form := by rw [hnext.form_eq]; exact { hs.form with nonAdvancing := rfl }
    readChunk_pos := hs.readChunk_pos
    turned := fun _ _ => hs.reading_eq
    offset_eq := hs.offset_eq.trans hnext.length_before.symm
    record_eq := hs.record_eq.trans hnext.number_eq.symm
    endRecord_eq := hs.endRecord_eq.trans hnext.endRecord_eq.symm
    position_eq := hs.position_eq
    tabFloor_le := by rw [Connection.tabFloor, hs.leftTabLimit_eq]; rfl
    extent := by simp [hs.located_eq]
    advancing := hs.form.nonAdvancing }

theorem Opened.inRecord {status : OpenStatus} {position : Position} {path : Option String} {n : ℕ}
    {writable : Bool} (h : s.Opened status position path R.form (.node n) writable t)
    (hchunk : 0 < s.unit.readChunk) (hsource : R.source = .file t.channel.device)
    (hcontent : t.system.files.contentAt n = R.content) (hoffset : t.unit.offset = R.before.length)
    (hnumber : R.number = 1) (hend : R.endRecord = none) : InRecord R 0 t := by
  have hshows : t.channel.Shows R.content := by
    rw [← hcontent]
    exact h.shows (by rw [h.attachment_eq]; rfl)
  exact {
    supplied := .file hsource rfl hshows
    form := by rw [h.connection_eq]; exact ⟨rfl, rfl, rfl, fun _ => rfl, rfl⟩
    readChunk_pos := by rw [h.unit_eq]; exact hchunk
    turned := by simp [hsource]
    offset_eq := hoffset
    record_eq := by rw [h.connection_eq, hnumber]
    endRecord_eq := by rw [h.connection_eq, hend]
    position_eq := by rw [h.connection_eq]
    tabFloor_le := by rw [h.connection_eq]; exact le_rfl
    extent := by simp [h.located_eq]
    advancing := by rw [h.connection_eq] }

def onlyFile (content : Bytes) : System :=
  { files := { nodes := [{ content }], names := [(["a"], 0)] } }

def onOnlyFile (content : Bytes) (form : Form) : Session :=
  { system := onlyFile content
    unit := { number := 10, readChunk := 256, attachment := .ofFile "a" 0
              connection := ({} : Connection).withForm form } }

def openOnlyFile (form : Form) : Act Session (Bool × Iostat) :=
  statement .connect {} {} (openUnit .old .asIs (some "a") form)

theorem openOnlyFile_run (content : Bytes) (form : Form) :
    openOnlyFile form { system := onlyFile content, unit := .new 10 256 } =
      .ok (true, .ok) (onOnlyFile content form) := by
  cbv

theorem openOnlyFile_bind {α : Type} {content : Bytes} {form : Form} {act : Act Session α}
    {Q : α → Session → Prop} (h : Completes act (onOnlyFile content form) Q) :
    Completes (do discard (openOnlyFile form); act)
      { system := onlyFile content, unit := .new 10 256 } Q := by
  refine Ends.bind (Completes.of_run (openOnlyFile_run content form)).discard ?_
  rintro _ _ ⟨_, -, rfl⟩
  exact h

theorem onOnlyFile_inRecord (hsource : R.source = .file ⟨onlyFile R.content, .ofFile "a" 0⟩)
    (hbefore : R.before = []) (hnumber : R.number = 1) (hend : R.endRecord = none) :
    InRecord R 0 (onOnlyFile R.content R.form) := by
  obtain ⟨hopened, -⟩ :=
    opened_on_file (by decide) rfl (openOnlyFile_run R.content R.form) rfl
  exact hopened.inRecord (Nat.zero_lt_succ 255) hsource rfl (congrArg List.length hbefore).symm
    hnumber hend

def twoColumns : InputRecord where
  source := .file ⟨onlyFile [49, 50], .ofFile "a" 0⟩
  form := { recordLength := some 2 }
  before := []
  rest := [49, 50]
  text := [49, 50]
  after := []
  number := 1
  formatted := rfl
  first := ⟨by decide, by decide, rfl, rfl⟩
  accepted := ⟨rfl, by decide, by decide⟩
  inFile := by rintro _ ⟨⟩

def twoColumnLine : InputRecord where
  source := .file ⟨onlyFile [49, 50, 10], .ofFile "a" 0⟩
  form := {}
  before := []
  rest := [49, 50, 10]
  text := [49, 50]
  after := []
  number := 1
  formatted := rfl
  first := FirstLine.terminated (show newline ∉ [49, 50] by decide) []
  accepted := ⟨rfl, by decide, by decide⟩
  inFile := by rintro _ ⟨⟩

def columns (width : ℕ) (modes : Modes) : NumericItem :=
  .integer { kind := .i, width := some width, modes } .k4

/-! ### The end of a READ -/

theorem StandsIn.passed (hs : StandsIn R position s) (hlocated : s.unit.located = true) :
    R.Passed s.channel := by
  have hsupplied := hs.supplied
  rw [hlocated] at hsupplied
  unfold InputRecord.Passed
  cases hsupplied with
  | file hsource hdevice hshows =>
    rw [hsource]
    exact ⟨hdevice, hshows⟩
  | @typed system _ column hsource hattachment hsystem hcolumn hwindow =>
    rw [hsource]
    refine ⟨hattachment, hsystem, congrArg Window.dirty hwindow, ?_⟩
    have haccepted := R.accepted
    rw [hsource] at haccepted
    have hlines : R.form.recordLength = none := haccepted.1
    rw [hwindow, Windowed.heldFrom, InputRecord.next, InputRecord.stride, hlines, Option.getD_none]
    split_ifs
    · dsimp only
      rw [List.drop_drop, List.drop_of_length_le (by rw [List.length_take]; omega)]
    · rfl

theorem StandsIn.isTerminal_eq (hs : StandsIn R position s) : s.unit.attachment.isTerminal = false := by
  have haccepted := R.accepted
  have hsupplied := hs.supplied
  generalize s.unit.located = located at hsupplied
  cases hsupplied with
  | file hsource hdevice =>
    rw [hsource] at haccepted
    exact (congrArg (·.attachment.isTerminal) hdevice).trans haccepted.1
  | ahead hsource hattachment => exact congrArg Attachment.isTerminal hattachment
  | typed hsource hattachment => exact congrArg Attachment.isTerminal hattachment

theorem Reads.advance_completes (hs : Reads R nonAdvancing h position s) :
    Completes advance s fun _ t =>
      t.handler = h ∧ t.unit.attachment.isTerminal = false ∧ BehindRecord R t.ended := by
  refine report_completes (advanceRecord_of_input hs.reading_eq
    (hs.ensureLocated_succeeds.mono ?_ fun _ _ => False.elim))
  rintro _ t ⟨rfl, hlocated, ht, hkept⟩
  refine ⟨hkept.handler_eq.trans hs.handler_eq, ht.isTerminal_eq, {
    passed := ht.passed hlocated
    form := { ht.form with }
    readChunk_pos := ht.readChunk_pos
    reading_eq := hkept.reading_eq.trans hs.reading_eq
    located_eq := rfl
    offset_eq := ?_
    record_eq := congrArg (· + 1) ht.record_eq
    endRecord_eq := ht.endRecord_eq
    position_eq := rfl
    furthest_eq := rfl
    leftTabLimit_eq := rfl }⟩
  change t.unit.offset + inputStride t.unit = _
  rw [ht.offset_eq, (ht.extent hlocated).2]
  rfl

/-- A READ that does not advance leaves the unit in its record, unless it has met the end of it. -/
def EndsIn (R : InputRecord) (nonAdvancing : Bool) (position : ℕ) (status : Iostat) (s : Session) :
    Prop :=
  if nonAdvancing = true ∧ status ≠ .endOfRecord then InRecord R position s else BehindRecord R s

theorem Reads.finish_completes (hs : Reads R nonAdvancing h position s) :
    Completes finish s fun status t =>
      status = h.status ∧ EndsIn R nonAdvancing position h.status t := by
  obtain ⟨modes, hstatement⟩ := hs.statement_eq
  have htransfer : s.unit.statement.isTransfer = true := by rw [hstatement]; rfl
  have hinput : s.unit.statement.isInput = true := by rw [hstatement]; rfl
  have houtput : s.unit.statement.isOutput = false := by rw [hstatement]; rfl
  have hend : Completes endTransfer s fun _ t =>
      t.handler = h ∧ EndsIn R nonAdvancing position h.status t.ended := by
    rw [endTransfer]
    refine (ends_get _).mpr ?_
    dsimp only
    rw [hs.nonAdvancing_eq, hinput, houtput, Bool.true_and, hs.handler_eq]
    by_cases hstays : nonAdvancing = true ∧ h.status ≠ .endOfRecord
    · rw [if_neg (by simpa using hstays), if_neg Bool.false_ne_true]
      refine (ends_get _).mpr ?_
      rw [hs.isTerminal_eq, if_neg Bool.false_ne_true]
      exact ⟨hs.handler_eq, (if_pos hstays).mpr { hs with advancing := rfl }⟩
    · rw [if_pos (by simpa [imp_iff_not_or] using hstays)]
      apply Ends.bind hs.advance_completes.discard
      rintro _ t ⟨_, hhandler, hterminal, ht⟩
      simp only [flushIfTerminal, ends_get, hterminal]
      exact ⟨hhandler, (if_neg hstays).mpr ht⟩
  refine finish_of_endTransfer htransfer (hend.mono ?_ fun _ _ => id)
  rintro _ t ⟨hhandler, ht⟩
  exact ⟨congrArg Handler.status hhandler, ht⟩

/-! ### READ statements -/

/-- A READ of these items; unless it advances it says so. -/
def readItems (source : SourceLine) (r : Receivers) (nonAdvancing : Bool) (items : List NumericItem) :
    Act Session (List (Option NumericValue) × Iostat) :=
  statement (.formatted .input) source r do
    if nonAdvancing then setNonAdvancing true
    items.mapM NumericItem.input

theorem StandsIn.begun {kind : StatementKind} {source : SourceLine} {r : Receivers}
    (hs : StandsIn R position s) (ht : s.Begun kind source r t) : StandsIn R position t := by
  obtain ⟨system, unit, handler, items⟩ := t
  obtain ⟨hsystem, hunit, -⟩ := ht
  dsimp only at hsystem hunit
  subst hsystem hunit
  exact { hs with }

theorem StandsIn.prepare_completes (hs : StandsIn R position s) :
    Completes (prepare (.formatted .input) .input) s fun _ t =>
      StandsIn R position t ∧ t.unit.reading = true ∧ t.handler = s.handler ∧
        t.unit.statement = s.unit.statement ∧ t.unit.connection = s.unit.connection := by
  have hstream (system : System) (hsource : R.source = .standardInput system)
      (hattachment : s.unit.attachment = .standard 0) :
      Completes (prepare (.formatted .input) .input) s fun _ t =>
        StandsIn R position t ∧ t.unit.reading = true ∧ t.handler = s.handler ∧
          t.unit.statement = s.unit.statement ∧ t.unit.connection = s.unit.connection := by
    have hreading := hs.turned system hsource
    have hsame : decide (Direction.input = .input) = s.unit.reading := hreading.symm
    refine (prepare_of_same ?_ hsame).mono ?_ fun _ _ => id
    · rw [ExternalUnit.isOpen, hattachment]
      rfl
    · rintro _ t rfl
      exact ⟨hs, hreading, rfl, rfl, rfl⟩
  have hsupplied := hs.supplied
  generalize s.unit.located = located at hsupplied
  cases hsupplied with
  | ahead hsource hattachment => exact hstream _ hsource hattachment
  | typed hsource hattachment => exact hstream _ hsource hattachment
  | file hsource hdevice hshows =>
    refine (prepare_of_nothing_dirty (isOpen_of_shows hshows) hshows.clean).mono ?_ fun _ _ => id
    rintro _ _ ⟨located, hkept, rfl⟩
    exact ⟨{ hs with
      supplied := .file hsource hdevice hshows
      turned := fun _ _ => rfl
      extent := fun hnow => hs.extent (hkept hnow) }, rfl, rfl, rfl, rfl⟩

theorem InRecord.begin_completes (hs : InRecord R position s) (source : SourceLine) (r : Receivers) :
    Completes (begin_ (.formatted .input) source) s fun _ t =>
      Reads R false (.starting source r) position { t with handler := t.handler.declare r } := by
  refine begin_of_prepare (fun _ => rfl) ?_
  intro t ht
  refine (hs.toStandsIn.begun ht).prepare_completes.mono ?_ fun _ _ => id
  rintro _ u ⟨hu, hreading, hhandler, hstatement, hconnection⟩
  have hunit := ht.unit_eq
  exact { hu with
    nonAdvancing_eq := by
      change u.unit.connection.nonAdvancing = false
      rw [hconnection, hunit]
      exact hs.advancing
    handler_eq := by
      change u.handler.declare r = _
      rw [hhandler, ht.handler_eq]
      rfl
    statement_eq := ⟨_, hstatement.trans (by rw [hunit]; rfl)⟩
    reading_eq := hreading }

/-- What the items of a READ do in the record, and then its end, is what the READ does. -/
theorem InRecord.readItems_completes (hs : InRecord R position s) {source : SourceLine} {r : Receivers}
    {items : List NumericItem} {Q : List (Option NumericValue) × Iostat → Session → Prop}
    (hitems : ∀ t, Reads R nonAdvancing (.starting source r) position t →
      Completes (items.mapM NumericItem.input) t fun values u =>
        Completes finish u fun status v => Q (values, status) v) :
    Completes (readItems source r nonAdvancing items) s Q := by
  refine statement_completes (hs.begin_completes source r) ?_
  intro t ht
  cases nonAdvancing with
  | false => exact hitems t ht
  | true =>
    have hset : Completes (setNonAdvancing true) t fun _ u =>
        Reads R true (.starting source r) position u :=
      { ht with
        form := { ht.form with }
        nonAdvancing_eq := rfl }
    apply Ends.bind hset
    exact fun _ u hu => hitems u hu

end Session

/-! ### Items that find their values -/

/-- These items find these values in the record, one behind another from one column to another. -/
inductive InputRecord.Yields (R : InputRecord) :
    ℕ → List NumericItem → List NumericValue → ℕ → Prop
  | nil {position : ℕ} : Yields R position [] [] position
  | cons {item : NumericItem} {items : List NumericItem} {value : NumericValue}
    {values : List NumericValue} {position width column : ℕ}
    (hwidth : item.edit.budget = some width) (hfits : position + width ≤ R.text.length)
    (hvalue : (item.reading ((R.charsFrom position).take width)).1 = .ok value)
    (hrest : Yields R (position + width) items values column) :
    Yields R position (item :: items) (value :: values) column

namespace Session

variable {R : InputRecord} {nonAdvancing : Bool} {h : Handler} {position column : ℕ} {s : Session}
variable {items : List NumericItem} {values : List NumericValue}

theorem Reads.items_complete (hs : Reads R nonAdvancing h position s) (hstatus : h.status = .ok)
    (hyields : R.Yields position items values column) :
    Completes (items.mapM NumericItem.input) s fun found t =>
      found = values.map some ∧ Reads R nonAdvancing h column t := by
  induction hyields generalizing s with
  | nil => exact ⟨rfl, hs⟩
  | @cons item items value values position width column hwidth hfits hvalue hrest ih =>
    have hlength : width ≤ (R.charsFrom position).length := by
      rw [R.length_charsFrom]
      omega
    rw [List.mapM_cons]
    refine Ends.bind (item.input_completes (Remains.readFaces R position nonAdvancing) hwidth
      hs.remains hstatus (.inr ⟨hlength, value, hvalue⟩)) ?_
    intro a t ht
    rw [NumericItem.finds, Field.found, if_pos hlength, hvalue] at ht
    obtain ⟨rfl, taken, htaken, ht⟩ := ht
    have hcount := congrArg List.length htaken
    rw [List.length_append, List.length_drop] at hcount
    obtain rfl : taken.length = width := by omega
    refine Ends.bind (ih ht) ?_
    rintro _ u ⟨rfl, hu⟩
    exact ⟨rfl, hu⟩

theorem InRecord.reads_values (hs : InRecord R position s) (source : SourceLine) (r : Receivers)
    (nonAdvancing : Bool) (hyields : R.Yields position items values column) :
    Completes (readItems source r nonAdvancing items) s fun out t =>
      out = (values.map some, .ok) ∧ EndsIn R nonAdvancing column .ok t := by
  refine hs.readItems_completes fun t ht => ?_
  refine (ht.items_complete rfl hyields).mono ?_ fun _ _ => id
  rintro _ u ⟨rfl, hu⟩
  refine hu.finish_completes.mono ?_ fun _ _ => id
  rintro _ v ⟨rfl, hv⟩
  exact ⟨rfl, hv⟩

end Session

end DataTransfer
