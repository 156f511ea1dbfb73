import DataTransfer.Proofs.Unit.Assembly
import DataTransfer.Proofs.Unit.LineSearch
import DataTransfer.Proofs.Unit.Steps

/-!
A WRITE on a record of which a part has been read. READs leave the cursor where they like, but they do
not count as having reached a column: the WRITE takes the columns before its data for new ones, and
makes them blank.
-/

namespace DataTransfer

open Session (newline)

/-- A record starts at this offset. Records of fixed length follow one another from where the connection
started, or from the start of the file where their number is given; other records are the lines. -/
def Form.StartsRecord (f : Form) (start : ℕ) (content : Bytes) (offset : ℕ) : Prop :=
  match f.recordLength with
  | none => ∃ before rest, content = before ++ rest ∧ offset = before.length ∧
      lines content = lines before ++ lines rest
  | some length => ∃ i, offset = start + i * length ∨ offset = i * length

theorem FirstLine.exists_before {rest line after : Bytes} (h : FirstLine rest line after)
    (before : Bytes) : ∃ before', before ++ rest = before' ++ after ∧
      before'.length = before.length + (rest.length - after.length) ∧
      lines (before ++ rest) = lines before' ++ lines after := by
  cases h with
  | @terminated whole hline after =>
    refine ⟨before ++ whole ++ [newline], by simp, ?_, ?_⟩
    · simp only [List.length_append, List.length_cons, List.length_nil]
      omega
    · rw [← List.append_assoc, lines_append_newline, lines_append_newline, lines_nil, List.append_nil]
  | tail hline hne =>
    refine ⟨before ++ rest, (List.append_nil _).symm, by simp, ?_⟩
    rw [lines_nil, List.append_nil]

namespace Form.StartsRecord

variable {f : Form} {start offset : ℕ} {content : Bytes}

theorem of_number {length : ℕ} (h : f.recordLength = some length) (i : ℕ) :
    f.StartsRecord start content (i * length) := by
  unfold StartsRecord
  rw [h]
  exact ⟨i, .inr rfl⟩

theorem next {length : ℕ} (hlength : f.recordLength = some length)
    (h : f.StartsRecord start content offset) : f.StartsRecord start content (offset + length) := by
  unfold StartsRecord at h ⊢
  rw [hlength] at h ⊢
  obtain ⟨i, rfl | rfl⟩ := h
  · exact ⟨i + 1, .inl (by rw [Nat.succ_mul, Nat.add_assoc])⟩
  · exact ⟨i + 1, .inr (Nat.succ_mul _ _).symm⟩

end Form.StartsRecord

namespace Session

variable {s t : Session} {c : Channel} {n : ℕ} {f : Form} {start : ℕ} {content : Bytes}

/-! ### Units that READs have left -/

/-- A formatted unit with the cursor anywhere in its record. Nothing waits to be written, and no output
has reached the record. -/
structure MidRecord (c : Channel) (f : Form) (start : ℕ) (content : Bytes) (s : Session) : Prop where
  device_eq : s.channel.device = c
  shows : s.channel.Shows content
  readChunk_pos : 0 < s.unit.readChunk
  form : { s.unit.connection with nonAdvancing := false }.HasForm f
  furthest_eq : s.unit.connection.furthest = 0
  leftTabLimit_eq : s.unit.connection.leftTabLimit = none
  within : ∀ length, f.recordLength = some length → s.unit.connection.position ≤ length
  starts : f.StartsRecord start content s.unit.offset
  /-- The search for the end of a line has found where the next record starts. -/
  passes : s.unit.located = true → f.StartsRecord start content (s.unit.offset + inputStride s.unit)

namespace MidRecord

theorem fixedRecordLength_eq (h : MidRecord c f start content s) :
    s.unit.connection.fixedRecordLength = f.recordLength := h.form.fixedRecordLength

theorem formatted_eq (h : MidRecord c f start content s) (hf : f.formatted = true) :
    s.unit.connection.formatted = true := h.form.formatted.trans hf

theorem windowMoved (h : MidRecord c f start content s) {w : Windowed Channel}
    (hw : w.Shows content ∧ w.device = c) : MidRecord c f start content (s.withChannel w) :=
  { h with device_eq := hw.2, shows := hw.1 }

theorem moved (h : MidRecord c f start content s) {position : ℕ}
    (hwithin : ∀ length, f.recordLength = some length → position ≤ length) :
    MidRecord c f start content
      { s with unit := s.unit.setConnection fun c => { c with position } } :=
  { h with form := { h.form with }, within := hwithin }

theorem ended (h : MidRecord c f start content s) : MidRecord c f start content s.ended :=
  { h with form := { h.form with } }

theorem atRecord (h : MidRecord c f start content s) (record : ℕ) {offset : ℕ}
    (hstarts : f.StartsRecord start content offset) :
    MidRecord c f start content { s with
      unit := { s.unit with
        offset
        connection := { s.unit.connection with record }.beginRecord
        located := false } } :=
  { h with
    form := { h.form with }
    furthest_eq := rfl
    leftTabLimit_eq := rfl
    within := fun _ _ => Nat.zero_le _
    starts := hstarts
    passes := nofun }

end MidRecord

def Perusing (c : Channel) (f : Form) (start : ℕ) (content : Bytes) (s : Session) : Prop :=
  MidRecord c f start content s ∧ s.unit.reading = true ∧ s.unit.statement.direction? = some .input

theorem windowed_perusing {α : Type} {act : Windowed.Op Channel α}
    (hact : Preserves (fun w => w.Shows content ∧ w.device = c) act) :
    Attempt.Carries True (Perusing c f start content) (windowed act) :=
  windowed_carries fun s ⟨h, hs⟩ => (hact s.channel ⟨h.shows, h.device_eq⟩).mono
    (fun _ _ hw => ⟨h.windowMoved hw, hs⟩) fun _ _ hw => ⟨h.windowMoved hw, hs⟩

theorem windowRead_perusing (offset count : ℕ) :
    Attempt.Carries True (Perusing c f start content) (windowed (Windowed.read offset count)) := by
  refine windowed_perusing ?_
  rintro w ⟨hw, rfl⟩
  exact (hw.read_ends offset count).mono (fun _ _ => And.right) fun _ _ => id

theorem MidRecord.inputStride_of_fixed {length : ℕ} (h : MidRecord c f start content s)
    (hlength : f.recordLength = some length) : inputStride s.unit = length := by
  have hfixed := h.fixedRecordLength_eq
  have hdeclared : s.unit.connection.recordLength = f.recordLength :=
    h.form.recordLength (by rw [hlength]; rfl)
  simp [inputStride, hfixed, hdeclared, hlength]

section

variable (hf : f.formatted = true)
include hf

theorem MidRecord.searched (h : MidRecord c f start content s) (hlength : f.recordLength = none)
    {before rest after : Bytes} {record : Option Bytes} {found : Bool}
    (hcontent : content = before ++ rest) (hoffset : s.unit.offset = before.length)
    (hnext : NextRecord rest record after) (ht : Searched s before rest after record found t) :
    MidRecord c f start content t ∧ t.unit.reading = s.unit.reading ∧
      t.unit.statement = s.unit.statement ∧
      (found = true → f.StartsRecord start content (t.unit.offset + inputStride t.unit)) := by
  subst hcontent
  obtain ⟨rfl, w, hw, rfl⟩ := ht
  have hmoved : MidRecord c f start (before ++ rest) (s.withWindow w) :=
    { h with device_eq := h.device_eq, shows := hw }
  cases hnext with
  | atEnd => exact ⟨hmoved, rfl, rfl, nofun⟩
  | @line _ line after hline =>
    have hpasses : f.StartsRecord start (before ++ rest) (s.unit.offset + inputStride
        ((s.withWindow w).withExtent line.length (rest.length - line.length - after.length)).unit) := by
      have hfixed : s.unit.connection.fixedLength = false := by
        rw [show s.unit.connection.fixedLength = _ from h.form.fixedLength, hlength]
        rfl
      have hstride : inputStride
          ((s.withWindow w).withExtent line.length (rest.length - line.length - after.length)).unit =
            line.length + (rest.length - line.length - after.length) := by
        simp [inputStride, withExtent, withWindow, ExternalUnit.setConnection,
          Connection.fixedRecordLength, hfixed, h.formatted_eq hf]
      obtain ⟨before', hcontent, hlength', hlines⟩ := hline.exists_before before
      obtain ⟨terminator, hrest⟩ := hline.exists_terminator
      have htotal := congrArg List.length hrest
      simp only [List.length_append] at htotal
      unfold Form.StartsRecord
      rw [hlength]
      refine ⟨before', after, hcontent, ?_, hlines⟩
      rw [hstride, hoffset, hlength']
      omega
    refine ⟨{ hmoved with form := { hmoved.form with recordLength := ?_ }, passes := fun _ => hpasses },
      rfl, rfl, fun _ => hpasses⟩
    intro hsome
    rw [hlength] at hsome
    cases hsome

variable (hsize : content.length < FileSystem.offsetLimit)
include hsize

/-- Where a record is found, it leads to where another one starts. -/
theorem findRecord_ends (h : Perusing c f start content s) :
    Ends findRecord.run s
      (fun r t => Perusing c f start content t ∧ (r = .ok true →
        f.StartsRecord start content (t.unit.offset + inputStride t.unit)))
      fun _ t => Perusing c f start content t := by
  obtain ⟨h, hs⟩ := h
  refine (Ends.attempt_get _).mpr ?_
  dsimp only
  rw [h.fixedRecordLength_eq]
  cases hlength : f.recordLength with
  | some length =>
    have hcarries : Attempt.Carries True (Perusing c f start content) (do
        modifyUnit fun u => { u with terminator := 0 }
        return decide (0 < (← windowed (Windowed.read s.unit.offset length)))) := by
      refine .bind (fun t ht => ?_) fun _ => (windowRead_perusing _ _).bind fun _ => .pure _
      refine ⟨{ ht.1 with passes := fun _ => ?_ }, ht.2⟩
      have hstride : inputStride { t.unit with terminator := 0 } = inputStride t.unit := by
        simp [inputStride, ht.1.fixedRecordLength_eq, hlength]
      rw [hstride, ht.1.inputStride_of_fixed hlength]
      exact ht.1.starts.next hlength
    refine (hcarries s ⟨h, hs⟩).mono (fun _ t ht => ⟨ht, fun _ => ?_⟩) fun _ _ ht => ht.2
    rw [ht.1.inputStride_of_fixed hlength]
    exact ht.1.starts.next hlength
  | none =>
    dsimp only
    rw [if_pos (h.formatted_eq hf)]
    have hstarts := h.starts
    unfold Form.StartsRecord at hstarts
    rw [hlength] at hstarts
    obtain ⟨before, rest, hcontent, hoffset, -⟩ := hstarts
    obtain ⟨record, after, hnext⟩ := NextRecord.exists_next rest
    have hshows := h.shows
    rw [hcontent] at hshows hsize
    refine Ends.mono (locateFormatted_succeeds hnext hshows hoffset h.readChunk_pos hsize) ?_
      fun _ _ => False.elim
    rintro (f | found) t ht
    · exact ht.elim
    · obtain ⟨hmid, hreading, hstatement, hpasses⟩ :=
        h.searched hf hlength hcontent hoffset hnext ht
      refine ⟨⟨hmid, hreading.trans hs.1, by rw [hstatement]; exact hs.2⟩, fun hfound => hpasses ?_⟩
      exact Except.ok.inj hfound

omit hf hsize in
theorem modifyHandler_perusing (change : Handler → Except Crash Handler) :
    Attempt.Carries True (Perusing c f start content) (modifyHandler change) :=
  modifyHandler_leaves (fun _ _ h => ⟨{ h.1 with }, h.2⟩) change

theorem ensureLocated_ends (h : Perusing c f start content s) :
    Ends ensureLocated.run s
      (fun r t => Perusing c f start content t ∧ (r = .ok true → t.unit.located = true))
      fun _ t => Perusing c f start content t := by
  have hmissed (t : Session) (ht : Perusing c f start content t) : Ends (ExceptT.run (do
      signalEndOfFile
      return false)) t
      (fun r u => Perusing c f start content u ∧ (r = .ok true → u.unit.located = true))
      fun _ u => Perusing c f start content u := by
    refine Ends.attempt_bind (P := fun r u => Perusing c f start content u) ?_ ?_ ?_
    · exact (modifyHandler_perusing _ t ht).mono (fun _ _ => id) fun _ _ => And.right
    · exact fun _ u hu => ⟨hu, nofun⟩
    · exact fun _ u hu => ⟨hu, nofun⟩
  refine (Ends.attempt_get _).mpr ?_
  split_ifs with hlocated
  · exact ⟨h, fun _ => hlocated⟩
  refine (Ends.attempt_get _).mpr ?_
  dsimp only
  split_ifs
  · exact hmissed s h
  refine Ends.attempt_bind (findRecord_ends hf hsize h) ?_ fun _ _ ht => ⟨ht.1, nofun⟩
  rintro (_ | _) t ⟨ht, hpasses⟩
  · exact hmissed _ ⟨{ ht.1 with form := { ht.1.form with } }, ht.2⟩
  · exact ⟨⟨{ ht.1 with passes := fun _ => hpasses rfl }, ht.2⟩, fun _ => rfl⟩

omit hf hsize in
theorem moveTo_perusing (column : ℕ) :
    Attempt.Carries True (Perusing c f start content) (moveTo column) := by
  rintro s ⟨h, hs⟩
  refine (Ends.attempt_get _).mpr ?_
  dsimp only
  rw [h.fixedRecordLength_eq]
  have hmoved {position : ℕ} (hwithin : ∀ length, f.recordLength = some length → position ≤ length) :
      Perusing c f start content
        { s with unit := s.unit.setConnection fun c => { c with position } } :=
    ⟨h.moved hwithin, hs⟩
  cases hlength : f.recordLength with
  | none => exact hmoved (by simp [hlength])
  | some length =>
    dsimp only
    split
    · refine Ends.attempt_bind (P := fun _ t => Perusing c f start content t)
        (hmoved (by simp [hlength])) (fun _ t ht => ?_) fun _ _ => id
      split
      · exact modifyHandler_perusing _ t ht
      · exact ht
    · next hover => exact hmoved (by simp_all)

theorem advanceRecord_perusing :
    Attempt.Carries True (Perusing c f start content) advanceRecord := by
  intro s hs
  refine (Ends.attempt_get _).mpr ?_
  rw [if_pos hs.2.1]
  refine Ends.attempt_bind ((ensureLocated_ends hf hsize hs).mono (fun _ _ => id)
    fun _ _ ht => ⟨trivial, ht⟩) ?_ fun _ _ => And.left
  rintro (_ | _) t ⟨ht, hlocated⟩
  · exact ht
  · exact ⟨ht.1.atRecord _ (ht.1.passes (hlocated rfl)), ht.2⟩

/-- Whatever a READ does, its cursor stays in a record of the file. -/
theorem operationSteps_perusing : OperationSteps False (Perusing c f start content) where
  peek := LookSteps.peek_carries windowRead_perusing
    (fun s hs => (ensureLocated_ends hf hsize hs).mono (fun _ _ => And.left)
      fun _ _ ht => ⟨trivial, ht⟩) (.inl trivial) (.inl trivial)
  getData count := .get_bind fun s hs => by
    rw [if_pos (hs.1.formatted_eq hf)]
    exact fun _ ht => ⟨trivial, ht⟩
  putData data := .get_bind fun s hs => by
    rw [if_pos (by rw [StatementState.isInput, hs.2.2]; rfl)]
    exact fun _ ht => ⟨trivial, ht⟩
  moveTo := moveTo_perusing
  advanceRecord := advanceRecord_perusing hf hsize
  flush := .get_bind fun s _ => by
    split_ifs
    · refine .bind (windowed_perusing ?_) fun _ t ht => ?_
      · rintro w hw
        unfold Ends
        rw [Windowed.flush_of_clean hw.1.clean]
        exact hw
      · change Perusing c f start content t.synced
        rwa [synced_of_shows ht.1.shows]
    · exact .pure _
  handler _ _ hs _ := ⟨{ hs.1 with }, hs.2⟩
  items _ _ hs := ⟨{ hs.1 with }, hs.2⟩
  statement _ _ hs hdirection := ⟨{ hs.1 with }, hs.2.1, hdirection.trans hs.2.2⟩
  nonAdvancing _ _ hs := ⟨{ hs.1 with form := { hs.1.form with } }, hs.2⟩
  record s length record hs hlength :=
    ⟨hs.1.atRecord record (.of_number (hs.1.fixedRecordLength_eq.symm.trans hlength) _), hs.2⟩
  leftTabLimit := False.elim

end

/-! ### READ statements -/

theorem MidRecord.begin_completes (h : MidRecord c f start content s) {t : Transfer}
    (hinput : t.direction = .input) :
    Completes (begin_ t.kind t.source) s fun _ u => Perusing c f start content u := by
  have hkind (modes : Modes) : (StatementState.begin_ t.kind modes).direction? = some .input := by
    rw [Transfer.kind, t.form.direction_begin, hinput]
  refine begin_of_prepare hkind ?_
  intro u hu
  have hopen : u.unit.isOpen = true := by
    rw [hu.unit_eq]
    exact isOpen_of_shows h.shows
  have hclean : u.unit.window.dirty = none := by
    rw [hu.unit_eq]
    exact h.shows.clean
  refine (prepare_of_nothing_dirty hopen hclean).mono ?_ fun _ _ => id
  rintro _ _ ⟨located, hlocated, rfl⟩
  obtain ⟨system, unit, handler, items⟩ := u
  obtain ⟨rfl, rfl, -⟩ := hu
  exact ⟨{ h with passes := fun htrue => h.passes (hlocated htrue) }, rfl, hkind _⟩

section

variable (hf : f.formatted = true) (hsize : content.length < FileSystem.offsetLimit)
include hf hsize

theorem MidRecord.read_ends (h : MidRecord c f start content s) {t : Transfer}
    (hinput : t.direction = .input) (hown : t.isOwn = true)
    (htabs : .operation .leftTabLimit ∉ t.steps) :
    Ends t.perform s
      (fun _ u => MidRecord c f start content u ∧ u.unit.connection.nonAdvancing = false)
      fun _ _ => True := by
  have hsteps : OperationSteps False (Perusing c f start content) := operationSteps_perusing hf hsize
  refine (hsteps.enter_ends hown htabs ?_).bind fun _ u hu => ?_
  · exact (h.begin_completes hinput).mono (fun _ _ => id) fun _ _ => False.elim
  refine (hsteps.finish_ends (fun v hv houtput => ?_) hu).mono ?_ fun _ _ => id
  · rw [StatementState.isOutput, hv.2.2] at houtput
    cases houtput
  · rintro _ _ ⟨v, hv, -, rfl⟩
    exact ⟨hv.1.ended, rfl⟩

theorem MidRecord.reads_end (reads : List Transfer)
    (hreads : ∀ t ∈ reads, t.direction = .input ∧ t.isOwn = true ∧
      .operation .leftTabLimit ∉ t.steps)
    (h : MidRecord c f start content s) (hadvancing : s.unit.connection.nonAdvancing = false) :
    Ends (reads.mapM Transfer.perform) s
      (fun _ u => MidRecord c f start content u ∧ u.unit.connection.nonAdvancing = false)
      fun _ _ => True := by
  refine Ends.mapM_invariant (I := fun u => MidRecord c f start content u ∧
    u.unit.connection.nonAdvancing = false) (fun t ht u hu => ?_) ⟨h, hadvancing⟩
  obtain ⟨hinput, hown, htabs⟩ := hreads t ht
  exact hu.1.read_ends hf hsize hinput hown htabs

end

theorem Opened.midRecord {status : OpenStatus} {position : Position} {path : Option String}
    (h : s.Opened status position path f (.node n) true t) (hchunk : 0 < s.unit.readChunk) :
    MidRecord t.channel.device f t.unit.offset (t.system.files.contentAt n) t := by
  refine ⟨rfl, h.shows (by rw [h.attachment_eq]; rfl), ?_, ?_, ?_, ?_, ?_, ?_, ?_⟩
  · rw [h.unit_eq]
    exact hchunk
  · rw [h.connection_eq]
    exact ⟨rfl, rfl, rfl, fun _ => rfl, rfl⟩
  · rw [h.connection_eq]
  · rw [h.connection_eq]
  · rw [h.connection_eq]
    exact fun _ _ => Nat.zero_le _
  · unfold Form.StartsRecord
    cases f.recordLength with
    | some length => exact ⟨0, .inl (by simp)⟩
    | none =>
      rw [h.offset_eq, FileSystem.size_node]
      split_ifs
      · exact ⟨_, [], (List.append_nil _).symm, rfl, by rw [lines_nil, List.append_nil]⟩
      · exact ⟨[], _, rfl, rfl, rfl⟩
  · rw [h.located_eq]
    exact nofun

/-! ### The WRITE behind them -/

namespace MidRecord

variable (hc : c.OpenTo n)
include hc

theorem holds (h : MidRecord c f start content s) : s.channel.Holds hc.device content := by
  obtain ⟨m, writable, hbacking, hcontent⟩ := h.shows.attached
  have hnode : m = n := by
    rw [h.device_eq, hc.backing] at hbacking
    cases hbacking
    rfl
  subst hnode
  have hvalid : hc.device.Valid s.channel.device := by
    rw [h.device_eq]
    exact ⟨_, Channel.withContent_contentAt.symm⟩
  refine ⟨Windowed.coherent_of_clean hvalid h.shows.clean ?_, ?_,
    Windowed.flushable_of_clean h.shows.clean⟩
  · exact h.shows.bytes.trans (by rw [← hcontent]; rfl)
  · rw [Windowed.flat_of_clean h.shows.clean]
    exact hcontent

/-- The draft of the WRITE is empty, with the cursor where the READs have left it. -/
theorem writes (h : MidRecord c f start content s) (hf : f.formatted = true)
    (hadvancing : s.unit.connection.nonAdvancing = false) {kind : StatementKind} {r : Receivers}
    (hkind : kind.isWrite = true) (hr : r.receivesError = true)
    (ht : s.Starts hc.device content kind .output r t) :
    Writes t hc.device f s.unit.offset content
      { draft := { cursor := s.unit.connection.position } } false where
  holds := ht.holds
  form := ht.connection_eq ▸ { h.form with nonAdvancing := hadvancing }
  formatted_eq := hf
  offset_eq := ht.offset_eq
  position_eq := congrArg Connection.position ht.connection_eq
  furthest_eq := ht.connection_eq ▸ h.furthest_eq
  leftTabLimit_eq := ht.connection_eq ▸ h.leftTabLimit_eq
  reading_eq := ht.reading_eq
  direction_eq := by
    rw [ht.statement_eq]
    exact StatementKind.direction_of_isWrite hkind _
  receives := by
    rw [ht.declared_eq]
    exact hr
  status_eq := ht.status_eq
  within length hlength := ⟨Nat.zero_le _, h.within length hlength⟩

end MidRecord

/-- The record that a WRITE of this data makes of the current one, if nothing has been written to it
before. -/
def overwritten (s : Session) (f : Form) (data : Bytes) : Bytes :=
  (({ cursor := s.unit.connection.position } : Draft).step f.recordLength (.emit data)).record
    f.recordLength

theorem MidRecord.write_completes (hc : c.OpenTo n) (h : MidRecord c f start content s)
    (hf : f.formatted = true) (hadvancing : s.unit.connection.nonAdvancing = false)
    {kind : StatementKind} (hkind : kind.isWrite = true) (source : SourceLine) {r : Receivers}
    (hr : r.receivesError = true) (data : Bytes)
    (hroom : s.unit.offset + (s.overwritten f data).length < FileSystem.offsetLimit) :
    Completes (do
        let out ← statement kind source r (emit data)
        return (out, ← statement .disconnect source r (closeUnit .keep))) s fun out t =>
      out = ((f.recordLength.all (s.unit.connection.position + data.length ≤ ·),
        if f.recordLength.all (s.unit.connection.position + data.length ≤ ·) then .ok
          else .recordWriteOverrun), (true, .ok)) ∧
      t.system = (c.withContent n (content.put s.unit.offset (s.overwritten f data))).system := by
  have haccepts : ({ cursor := s.unit.connection.position } : Draft).accepts f.recordLength
      (.emit data) = f.recordLength.all (s.unit.connection.position + data.length ≤ ·) := by
    simp [Draft.accepts, Draft.target]
  have hwrite : Completes (statement kind source r (emit data)) s fun out t =>
      out = (f.recordLength.all (s.unit.connection.position + data.length ≤ ·),
        if f.recordLength.all (s.unit.connection.position + data.length ≤ ·) then .ok
          else .recordWriteOverrun) ∧
      t.channel.Holds hc.device (content.put s.unit.offset (s.overwritten f data)) := by
    refine statement_completes (B := fun t => s.Starts hc.device content kind .output r t)
      (starts_of_begin (h.holds hc) (isOpen_of_shows h.shows)
        (StatementKind.direction_of_isWrite hkind) source r) fun t ht => ?_
    have hstep := (h.writes hc hf hadvancing hkind hr ht).emit_completes hc data
    rw [Pages.step_emit_none, Pages.accepts_emit_none] at hstep
    dsimp only at hstep
    rw [haccepts] at hstep
    refine (hstep hroom).mono ?_ fun _ _ => id
    rintro _ u ⟨rfl, hu⟩
    refine (hu.finish_completes hc hroom).mono ?_ fun _ _ => id
    rintro _ v ⟨rfl, hv⟩
    refine ⟨?_, hv.holds⟩
    cases f.recordLength.all (s.unit.connection.position + data.length ≤ ·) <;> rfl
  refine hwrite.bind ?_
  rintro _ t ⟨rfl, ht⟩
  refine (close_of_openTo hc source r ht).bind ?_
  rintro _ u ⟨rfl, hsystem, -⟩
  exact ⟨rfl, hsystem⟩

theorem overwritten_eq {data : Bytes}
    (hroom : f.recordLength.all (s.unit.connection.position + data.length ≤ ·) = true) :
    ∃ rest, s.overwritten f data = .fill s.unit.connection.position blank ++ data ++ rest := by
  have haccepts : ({ cursor := s.unit.connection.position } : Draft).accepts f.recordLength
      (.emit data) = true := by
    simpa [Draft.accepts, Draft.target] using hroom
  rw [overwritten, Draft.step, if_pos haccepts, Draft.overlaid_start]
  cases f.recordLength <;> exact ⟨_, rfl⟩

/-- A WRITE behind READs of a formatted unit. Whatever they have read, they leave the cursor in some
column of a record of the file. The WRITE puts its data there, if the record has room for it; but it
takes the record for a new one. What the READs have passed is blank in the file then, and so is, or is
no longer part of the record, what is behind the data. -/
theorem write_after_read_blanks {status : OpenStatus} {position : Position} {path : Option String}
    {source : SourceLine} {w r : Receivers} {iostat : Iostat} {statuses : List Iostat}
    {reads : List Transfer} {kind : StatementKind} {u : Session}
    (hchunk : 0 < s.unit.readChunk) (hstatus : status ≠ .scratch)
    (hfresh : s.unit.reaffirms status path = false) (hf : f.formatted = true)
    (hopen : statement .connect source w (openUnit status position path f) s = .ok (true, iostat) t)
    (hfile : t.unit.attachment.backing = some (.file (.node n) true))
    (hcontent : t.system.files.contentAt n = content)
    (hsize : content.length < FileSystem.offsetLimit)
    (hreads : ∀ read ∈ reads, read.direction = .input ∧ read.isOwn = true ∧
      .operation .leftTabLimit ∉ read.steps)
    (hrun : reads.mapM Transfer.perform t = .ok statuses u)
    (hkind : kind.isWrite = true) (hr : r.receivesError = true) (data : Bytes)
    (hroom : u.unit.offset + (u.overwritten f data).length < FileSystem.offsetLimit) :
    f.StartsRecord t.unit.offset content u.unit.offset ∧
      Completes (do
          let out ← statement kind source r (emit data)
          return (out, ← statement .disconnect source r (closeUnit .keep))) u fun out v =>
        ∃ stored, v.system.files.contentOf? (path.getD s.unit.defaultPath) = some stored ∧
          stored = content.put u.unit.offset (u.overwritten f data) ∧
          out.2 = (true, .ok) ∧
          if f.recordLength.all (u.unit.connection.position + data.length ≤ ·) then
            out.1 = (true, .ok) ∧
              stored.Has u.unit.offset (.fill u.unit.connection.position blank ++ data)
          else out.1 = (false, .recordWriteOverrun) := by
  obtain ⟨hopened, hleads, hn, -⟩ := opened_on_file hstatus hfresh hopen hfile
  obtain ⟨hc, -⟩ := hopened.beforeRecord hf hn
  have hstart := hopened.midRecord hchunk
  rw [hcontent] at hstart
  have hadvancing : t.unit.connection.nonAdvancing = false := by rw [hopened.connection_eq]
  obtain ⟨hmid, hended⟩ := (hstart.reads_end hf hsize reads hreads hadvancing).of_run hrun
  refine ⟨hmid.starts, ?_⟩
  refine (hmid.write_completes hc hf hended hkind source hr data hroom).mono ?_ fun _ _ => id
  rintro _ v ⟨rfl, hsystem⟩
  obtain ⟨-, -, hstored⟩ := hleads.of_rewritten (congrArg System.files hsystem)
  refine ⟨_, hstored, rfl, rfl, ?_⟩
  split_ifs with haccepted
  · obtain ⟨rest, hrecord⟩ := overwritten_eq haccepted
    rw [hrecord, ← Bytes.put_append]
    exact ⟨Prod.ext haccepted rfl, (Bytes.has_put content _ _).put (.inl le_rfl)⟩
  · exact Prod.ext (Bool.eq_false_iff.mpr haccepted) rfl

def twoLines : System :=
  { files := { nodes := [{ content := [97, 98, 10, 49, 50, 51, 52, 10] }], names := [(["a"], 0)] } }

theorem twoLines_open_old : ∃ t, statement .connect {} {} (openUnit .old .asIs (some "a") {})
      { system := twoLines, unit := .new 10 256 } = .ok (true, .ok) t ∧
    t = { system := twoLines
          unit := { number := 10, readChunk := 256, attachment := .ofFile "a" 0 } } := by
  refine ⟨_, ?_, rfl⟩
  cbv

/-- One READ passes the first line, another the first three columns of the second. -/
theorem write_after_read_blanks_second_line : ∃ t u,
    statement .connect {} {} (openUnit .old .asIs (some "a") {})
      { system := twoLines, unit := .new 10 256 } = .ok (true, .ok) t ∧
    [{ direction := .input },
      { direction := .input
        steps := [.item (.nonAdvancing true), .operation (.call .char),
          .operation (.call (.relative 3))] }].mapM
      Transfer.perform t = .ok [.ok, .ok] u ∧
    Completes (do
        let out ← statement (.formatted .output) {} { iostat := true } (emit [88, 89])
        return (out, ← statement .disconnect {} { iostat := true } (closeUnit .keep))) u fun out v =>
      out = ((true, .ok), (true, .ok)) ∧
        v.system.files.contentOf? "a" = some [97, 98, 10, 32, 32, 32, 88, 89, 10] := by
  obtain ⟨t, hopen, ht⟩ := twoLines_open_old
  obtain ⟨u, hrun, hu⟩ : ∃ u, ([{ direction := .input },
      { direction := .input
        steps := [.item (.nonAdvancing true), .operation (.call .char),
          .operation (.call (.relative 3))] }] : List Transfer).mapM Transfer.perform t = .ok [.ok, .ok] u ∧
      u.unit = { number := 10, readChunk := 256, attachment := .ofFile "a" 0
                 connection := { recordLength := some 4, record := 2, position := 3 }
                 window := { offset := 3, bytes := [49, 50, 51, 52, 10] }
                 offset := 3, located := true, terminator := 1, reading := true } := by
    subst ht
    exact ⟨_, rfl, rfl⟩
  refine ⟨t, u, hopen, hrun, ?_⟩
  have hcontent : t.system.files.contentAt 0 = [97, 98, 10, 49, 50, 51, 52, 10] := by
    rw [ht]
    rfl
  have hkind : (StatementKind.formatted .output).isWrite = true := rfl
  have hwrite := write_after_read_blanks (r := { iostat := true }) (by decide) (by decide) rfl rfl hopen
    (by rw [ht]; rfl) hcontent (by decide) (by simp [Transfer.isOwn, TransferStep.isOwn]) hrun hkind
    rfl [88, 89] (by unfold overwritten; rw [hu]; decide)
  refine hwrite.2.mono ?_ fun _ _ => id
  rintro ⟨out, closed⟩ v ⟨stored, hstored, rfl, hclosed, hout⟩
  unfold overwritten at hstored
  rw [hu] at hstored hout
  exact ⟨Prod.ext hout.1 hclosed, hstored⟩

/-- The three columns `123` that a READ has looked at are blank behind a WRITE of `XY`. -/
theorem write_blanks_columns_read :
    Completes (do
        discard (statement .connect {} {} (openUnit .old .asIs (some "a") {}))
        let read ← statement (.formatted .input) {} { iostat := true } (do
          setNonAdvancing true
          let looks ← [0, 1, 2].mapM fun column : ℤ => do
            discard (moveAbsolute column)
            nextChar
          return (looks, ← moveAbsolute 3))
        let written ← statement (.formatted .output) {} { iostat := true } (emit [88, 89])
        discard (statement .disconnect {} {} (closeUnit .keep))
        return (read, written))
      { system := { files := { nodes := [{ content := [49, 50, 51, 52, 53, 54, 10] }]
                               names := [(["a"], 0)] } }
        unit := .new 10 256 } fun out t =>
      out = ((([some '1', some '2', some '3'], true), .ok), (true, .ok)) ∧
        ∃ stored, t.system.files.contentOf? "a" = some stored ∧
          stored = [32, 32, 32, 88, 89, 10, 10] ∧ ¬ stored.Has 0 [49, 50, 51] := by
  have hopen : ∃ t, statement .connect {} {} (openUnit .old .asIs (some "a") {})
      { system := { files := { nodes := [{ content := [49, 50, 51, 52, 53, 54, 10] }]
                               names := [(["a"], 0)] } }
        unit := .new 10 256 } = .ok (true, .ok) t ∧
      t = { system := { files := { nodes := [{ content := [49, 50, 51, 52, 53, 54, 10] }]
                                   names := [(["a"], 0)] } }
            unit := { number := 10, readChunk := 256, attachment := .ofFile "a" 0 } } := by
    refine ⟨_, ?_, rfl⟩
    cbv
  obtain ⟨_, hrun, rfl⟩ := hopen
  refine Ends.bind (Completes.of_run hrun).discard ?_
  rintro _ _ ⟨_, -, rfl⟩
  refine ⟨rfl, _, ?_, rfl, by unfold Bytes.Has; decide⟩
  cbv

end Session

end DataTransfer
