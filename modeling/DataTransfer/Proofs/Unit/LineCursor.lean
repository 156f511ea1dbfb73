import DataTransfer.Proofs.Unit.LineSearch
import DataTransfer.Proofs.Unit.Opening

/-!
The cursor of a READ in its record. A look at the record finds what stands at the cursor, and at the end
of the file it notes that; the READ goes on to what follows the record.
-/

namespace DataTransfer

def Handler.looking (h : Handler) (record : Option Bytes) : Handler :=
  if record.isSome then h else h.record .endOfFile

theorem Handler.looking_declared (h : Handler) (record : Option Bytes) :
    (h.looking record).declared = h.declared := by
  unfold looking
  split_ifs
  · rfl
  · exact h.record_declared _

namespace Session

variable {s t : Session} {before rest after : Bytes} {record : Option Bytes}
variable {device : Channel}

/-! ### A READ in progress -/

/-- A READ in progress that has come to this record, or to the end of the file. -/
structure OnLine (device : Channel) (before rest after : Bytes) (record : Option Bytes)
    (s : Session) : Prop extends AtLine device before rest s where
  next : NextRecord rest record after
  extent : s.unit.located = true → ∃ line, record = some line ∧
    s.unit.connection.recordLength = some line.length ∧
    s.unit.terminator = rest.length - line.length - after.length
  reading_eq : s.unit.reading = true

/-- A READ that has looked at its record is where it was, and has noted the end of the file. -/
structure Looked (record : Option Bytes) (s t : Session) : Prop where
  handler_eq : t.handler = s.handler.looking record
  items_eq : t.items = s.items
  statement_eq : t.unit.statement = s.unit.statement
  position_eq : t.unit.connection.position = s.unit.connection.position

structure Between (device : Channel) (before rest : Bytes) (s : Session) : Prop
    extends AtLine device before rest s where
  position_eq : rest ≠ [] → s.unit.connection.position = 0
  located_eq : s.unit.located = false

theorem between_of_connected {attachment : Attachment} {n : ℕ} {writable : Bool}
    (hchunk : 0 < s.unit.readChunk) (hread : attachment.mayRead = true)
    (hterminal : attachment.isTerminal = false)
    (hbacking : attachment.backing = some (.file (.node n) writable))
    (hunit : t.unit = { s.connectedUnit {} attachment 0 with
      statement := .idle
      held := false }.setConnection fun c => { c with nonAdvancing := false }) :
    Between t.channel.device [] (t.system.files.contentAt n) t := by
  have hattachment : t.unit.attachment = attachment := by
    rw [hunit]
    rfl
  have hshows : t.channel.Shows (t.system.files.contentAt n) := by
    refine shows_of_connected (by rwa [hattachment]) (by rwa [hattachment]) 0 ?_
    rw [hunit]
    rfl
  refine ⟨⟨rfl, hshows, ?_, ?_, ?_, ?_, ?_⟩, ?_, ?_⟩
  · rw [hunit]
    exact ⟨rfl, rfl, rfl, rfl⟩
  · rw [hunit]
    exact hchunk
  · change t.unit.attachment.isTerminal = false
    rw [hattachment]
    exact hterminal
  · rw [hunit]
    rfl
  · rw [hunit]
    exact fun _ => rfl
  · rw [hunit]
    exact fun _ => rfl
  · rw [hunit]
    rfl

theorem between_of_open {status : OpenStatus} {position : Position} {path : Option String}
    {source : SourceLine} {r : Receivers} {iostat : Iostat} {n : ℕ} {writable : Bool}
    (hchunk : 0 < s.unit.readChunk) (hfresh : s.unit.reaffirms status path = false)
    (hopen : statement .connect source r (openUnit status position path {}) s =
      .ok (true, iostat) t)
    (hfile : t.unit.attachment.backing = some (.file (.node n) writable))
    (hstart : t.unit.offset = 0) : Between t.channel.device [] (t.system.files.contentAt n) t := by
  obtain ⟨ref, writable', hopened⟩ := opened_of_open hfresh hopen
  have hattachment := hopened.attachment_eq
  have hunit := hopened.unit_eq
  rw [hstart] at hunit
  refine between_of_connected hchunk ?_ ?_ hfile hunit
  · rw [hattachment]
    rfl
  · rw [hattachment]
    rfl

theorem reopen_completes {status : OpenStatus} {path : String} {n : ℕ}
    (hclosed : s.unit.isOpen = false) (hstatus : status = .old ∨ status = .unknown)
    (hleads : s.system.files.LeadsTo path n) (hchunk : 0 < s.unit.readChunk) (source : SourceLine)
    (r : Receivers) :
    Completes (statement .connect source r (openUnit status .asIs (some path) {})) s fun out t =>
      out = (true, .ok) ∧ t.system = s.system ∧
        Between t.channel.device [] (s.system.files.contentAt n) t := by
  obtain ⟨hnamed, hopen⟩ := hleads.reopen hstatus
  refine (open_completes {} source r hclosed hnamed hopen).mono ?_ fun _ _ => id
  rintro _ t ⟨rfl, hsystem, hunit⟩
  refine ⟨rfl, hsystem, ?_⟩
  have hbacking : (Attachment.ofFile path n).backing = some (.file (.node n) true) := rfl
  have hbetween : Between t.channel.device [] (t.system.files.contentAt n) t :=
    between_of_connected hchunk rfl rfl hbacking hunit
  rwa [hsystem] at hbetween

theorem Between.ended (h : Between device before rest s) : Between device before rest s.ended :=
  { h with form := { h.form with nonAdvancing := rfl } }

theorem Between.onLine (h : Between device before rest s) (hnext : NextRecord rest record after)
    (hreading : s.unit.reading = true) : OnLine device before rest after record s :=
  { h with
    next := hnext
    extent := fun hlocated => absurd hlocated (by simp [h.located_eq])
    reading_eq := hreading }

theorem Between.beginning (h : Between device before rest s) (kind : StatementKind)
    (source : SourceLine) (r : Receivers) : Between device before rest (s.beginning kind source r) :=
  { h with }

namespace OnLine

theorem firstLine {line : Bytes} (h : OnLine device before rest after (some line) s) :
    FirstLine rest line after := by
  cases h.next
  assumption

variable (h : OnLine device before rest after record s)
include h

/-! ### Looks at the record -/

theorem rest_ne_nil (hrecord : record.isSome = true) : rest ≠ [] := by
  rintro rfl
  cases h.next with
  | atEnd => cases hrecord
  | line hline => exact absurd hline.length_pos (lt_irrefl 0)

theorem ensureLocated_succeeds (hsize : (before ++ rest).length < FileSystem.offsetLimit)
    (hadmits : record = none → s.handler.declared.admits .endOfFile = true) :
    Succeeds ensureLocated s fun found t => found = record.isSome ∧
      (found = true → t.unit.located = true) ∧
      OnLine device before rest after record t ∧ Looked record s t := by
  refine ensureLocated_attempts (fun hlocated => ?_) (fun _ hend => ?_) fun _ _ => ?_
  · obtain ⟨line, rfl, -⟩ := h.extent hlocated
    exact ⟨rfl, fun _ => hlocated, h, ⟨rfl, rfl, rfl, rfl⟩⟩
  · cases record with
    | some line =>
      rw [Connection.atEnd, h.endRecord_eq (h.rest_ne_nil rfl)] at hend
      cases hend
    | none => exact ⟨hadmits rfl, rfl, nofun, { h with }, ⟨rfl, rfl, rfl, rfl⟩⟩
  · refine findRecord_of_line h.form.fixedRecordLength h.form.formatted
      ((h.locateFormatted_succeeds h.next hsize).mono ?_ fun _ _ => id)
    rintro _ _ ⟨rfl, w, hw, rfl⟩
    cases record with
    | some line =>
      exact ⟨rfl, fun _ => rfl, { h with
        shows := hw
        form := { h.form with }
        extent := fun _ => ⟨line, rfl, rfl, rfl⟩ }, ⟨rfl, rfl, rfl, rfl⟩⟩
    | none =>
      refine ⟨hadmits rfl, rfl, nofun, { h with
        shows := hw, form := { h.form with }, endRecord_eq := ?_ }, ⟨rfl, rfl, rfl, rfl⟩⟩
      intro hne
      cases h.next
      exact absurd rfl hne

theorem peek_succeeds (hsize : (before ++ rest).length < FileSystem.offsetLimit)
    (hadmits : record = none → s.handler.declared.admits .endOfFile = true) :
    Succeeds peek s fun ch t =>
      ch = ((record.bind (·[s.unit.connection.position]?)).map fun b => Char.ofNat b.toNat) ∧
        OnLine device before rest after record t ∧ Looked record s t := by
  refine peek_attempts h.form.formatted h.shows.mayRead
    ((h.ensureLocated_succeeds hsize hadmits).mono ?_ fun _ _ => id)
  rintro _ t ⟨rfl, hlocated, ht, hlooked⟩
  cases record with
  | none => exact ⟨rfl, ht, hlooked⟩
  | some line =>
    obtain ⟨_, ⟨⟩, hlength, -⟩ := ht.extent (hlocated rfl)
    have hline := h.firstLine
    refine atCursor_attempts ht.form.formatted hlength
      (congrArg₂ (· + ·) ht.offset_eq hlooked.position_eq) (fun hbehind => ?_) fun hinside => ?_
    · rw [hlooked.position_eq] at hbehind
      rw [Option.bind_some, List.getElem?_eq_none hbehind]
      exact ⟨rfl, ht, hlooked⟩
    · rw [hlooked.position_eq] at hinside
      have hfits : before.length + s.unit.connection.position < (before ++ rest).length := by
        have hle := hline.length_le
        rw [List.length_append]
        omega
      refine (windowed_read_succeeds ht.shows 1 hfits.le hsize).mono ?_ fun _ _ => id
      rintro got _ ⟨w, rfl, hw, hgot, hbytes⟩
      obtain rfl : got = 1 := by omega
      refine ⟨?_, { ht with shows := hw }, { hlooked with }⟩
      change (w.bytesAt _ 1).head?.map _ = _
      rw [hbytes, hline.head?_slice hinside]
      rfl

/-! ### Moves of the cursor -/

theorem moveTo_succeeds (column : ℕ) :
    Succeeds (moveTo column) s fun _ t => OnLine device before rest after record t ∧
      t.handler = s.handler ∧ t.items = s.items ∧ t.unit.statement = s.unit.statement ∧
      t.unit.connection.position = column := by
  refine (moveTo_of_within (by simp [h.form.fixedRecordLength])).mono ?_ fun _ _ => id
  rintro _ _ rfl
  exact ⟨{ h with form := { h.form with } }, rfl, rfl, rfl, rfl⟩

theorem advanceRecord_succeeds (hsize : (before ++ rest).length < FileSystem.offsetLimit)
    (hadmits : record = none → s.handler.declared.admits .endOfFile = true) :
    Succeeds advanceRecord s fun _ t => t.handler = s.handler.looking record ∧ t.items = s.items ∧
      t.unit.statement = s.unit.statement ∧ t.unit.reading = true ∧
      ∃ before', before' ++ after = before ++ rest ∧ Between device before' after t := by
  refine advanceRecord_of_input h.reading_eq
    ((h.ensureLocated_succeeds hsize hadmits).mono ?_ fun _ _ => id)
  rintro _ t ⟨rfl, hlocated, ht, hlooked⟩
  cases record with
  | none =>
    have hpassed : t.unit.located = false := by
      cases hfound : t.unit.located with
      | false => rfl
      | true =>
        obtain ⟨line, hnone, -⟩ := ht.extent hfound
        cases hnone
    cases h.next
    exact ⟨hlooked.handler_eq, hlooked.items_eq, hlooked.statement_eq, ht.reading_eq,
      before, rfl, ht.toAtLine, fun hne => absurd rfl hne, hpassed⟩
  | some line =>
    obtain ⟨_, ⟨⟩, hlength, hterminator⟩ := ht.extent (hlocated rfl)
    have hline := h.firstLine
    obtain ⟨terminator, hbytes⟩ := hline.exists_terminator
    have hstride : inputStride t.unit = line.length + terminator.length := by
      simp only [inputStride, ht.form.fixedRecordLength, ht.form.formatted, hlength, hterminator,
        hbytes, List.length_append]
      change line.length + _ = _
      omega
    have hcontent : before ++ (line ++ terminator) ++ after = before ++ rest := by
      rw [hbytes]
      simp
    refine ⟨hlooked.handler_eq, hlooked.items_eq, hlooked.statement_eq, ht.reading_eq,
      before ++ (line ++ terminator), hcontent, ⟨ht.device_eq, ?_,
      { ht.form with leftTabLimit := rfl }, ht.readChunk_pos, ht.isTerminal_eq, ?_,
      fun _ => ht.endRecord_eq (h.rest_ne_nil rfl)⟩, fun _ => rfl, rfl⟩
    · rw [hcontent]
      exact ht.shows
    · change t.unit.offset + inputStride t.unit = _
      rw [hstride, ht.offset_eq, List.length_append, List.length_append]

theorem finish_completes (htransfer : s.unit.statement.isTransfer = true)
    (hsize : (before ++ rest).length < FileSystem.offsetLimit)
    (hadmits : record = none → s.handler.declared.admits .endOfFile = true) :
    Completes finish s fun status t => status = (s.handler.looking record).status ∧
      ∃ before', before' ++ after = before ++ rest ∧ Between device before' after t := by
  refine finish_of_transfer htransfer h.form.nonAdvancing (Ends.mono (report_completes
    (Q := fun _ t => t.handler = s.handler.looking record ∧
      ∃ before', before' ++ after = before ++ rest ∧ Between device before' after t)
    ((h.advanceRecord_succeeds hsize hadmits).mono ?_ fun _ _ => False.elim)) ?_ fun _ _ => id)
  · rintro _ t ⟨hhandler, -, -, -, ht⟩
    exact ⟨hhandler, ht⟩
  · rintro _ t ⟨hhandler, before', hbefore, ht⟩
    refine ⟨?_, congrArg Handler.status hhandler, before', hbefore, ht.ended⟩
    have hterminal := ht.isTerminal_eq
    rwa [← ht.device_eq] at hterminal

end OnLine

end Session

end DataTransfer
