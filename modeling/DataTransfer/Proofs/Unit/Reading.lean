import Mathlib.Algebra.GroupWithZero.Nat
import Mathlib.Data.List.Forall2
import DataTransfer.Proofs.Unit.Framing
import DataTransfer.Proofs.Unit.Input

/-!
Reading framed records back. One READ takes one record, whatever it receives of it; what it receives
is told by the payload alone.
-/

namespace DataTransfer

/-- What the receives of one READ answer on a payload, from a position on, and how the READ ends. A
receive of more than is left takes nothing and is the fault of the READ. -/
def receives (payload : Bytes) : (failed : Bool) → (pos : ℕ) → List ℕ →
    List (Bool × Option Bytes) × Iostat
  | failed, _, [] => ([], if failed then .recordReadOverrun else .ok)
  | failed, pos, count :: counts =>
    if pos + count ≤ payload.length then
      let (answers, status) := receives payload failed (pos + count) counts
      ((!failed, some (payload.slice pos count)) :: answers, status)
    else
      let (answers, status) := receives payload true pos counts
      ((false, none) :: answers, status)

/-- What READs answer on a file of payloads: each on the next payload, and past the last the end of
the file. -/
def readBack : List Bytes → List (List ℕ) → List (List (Bool × Option Bytes) × Iostat)
  | _, [] => []
  | [], counts :: reads => (counts.map fun _ => (false, none), .endOfFile) :: readBack [] reads
  | payload :: payloads, counts :: reads =>
    receives payload false 0 counts :: readBack payloads reads

/-- However a payload is split up, its pieces come in order and make it up. -/
theorem receives_split (payload : Bytes) (pos : ℕ) (counts : List ℕ)
    (h : pos + counts.sum = payload.length) :
    ∃ pieces : List Bytes, receives payload false pos counts =
      (pieces.map fun piece => (true, some piece), .ok) ∧ pieces.flatten = payload.drop pos := by
  induction counts generalizing pos with
  | nil =>
    refine ⟨[], rfl, ?_⟩
    rw [List.drop_of_length_le (by simpa using h.ge)]
    rfl
  | cons count counts ih =>
    rw [List.sum_cons] at h
    obtain ⟨pieces, hpieces, hflat⟩ := ih (pos + count) (by omega)
    refine ⟨payload.slice pos count :: pieces, ?_, ?_⟩
    · rw [receives, if_pos (by omega), hpieces]
      rfl
    · rw [List.flatten_cons, hflat, Bytes.slice, ← List.drop_drop, List.take_append_drop]

theorem readBack_whole {payloads : List Bytes} {reads : List (List ℕ)}
    (h : List.Forall₂ (fun payload counts => counts.sum = payload.length) payloads reads) :
    ∃ records : List (List Bytes), records.map List.flatten = payloads ∧
      readBack payloads reads =
        records.map fun pieces => (pieces.map fun piece => (true, some piece), .ok) := by
  induction h with
  | nil => exact ⟨[], rfl, rfl⟩
  | @cons payload counts payloads reads hsum _ ih =>
    obtain ⟨records, rfl, hback⟩ := ih
    obtain ⟨pieces, hpieces, hflat⟩ := receives_split payload 0 counts (by omega)
    refine ⟨pieces :: records, ?_, ?_⟩
    · rw [List.map_cons, hflat, List.drop_zero]
    · rw [readBack, hpieces, hback]
      rfl

structure FrameAt (content : Bytes) (offset : ℕ) (payload : Bytes) : Prop where
  stands : content.slice offset (8 + payload.length) = frame payload
  lt : payload.length < 2 ^ 32

namespace FrameAt

variable {content payload : Bytes} {offset : ℕ}

theorem of_append (before after : Bytes) (hlt : payload.length < 2 ^ 32) :
    FrameAt (before ++ (frame payload ++ after)) before.length payload := by
  have h := Bytes.slice_append_right before (frame payload ++ after) 0 (8 + payload.length)
  rw [Nat.add_zero] at h
  refine ⟨?_, hlt⟩
  rw [h, Bytes.slice_append_left _ _ (by rw [length_frame]; omega), Nat.add_comm 8, ← length_frame,
    Bytes.slice_length]

variable (h : FrameAt content offset payload)
include h

theorem within : offset + (8 + payload.length) ≤ content.length := by
  have hlen := congrArg List.length h.stands
  rw [Bytes.length_slice, length_frame] at hlen
  omega

theorem slice_eq {a k : ℕ} (hle : a + k ≤ 8 + payload.length) :
    content.slice (offset + a) k = (frame payload).slice a k := by
  have hpart := Bytes.slice_slice content offset (8 + payload.length) a k
  rw [h.stands, Nat.min_eq_left (by omega)] at hpart
  exact hpart.symm

theorem header : content.slice offset 4 = Bytes.littleEndian 4 payload.length := by
  rw [← Nat.add_zero offset, h.slice_eq (by omega), frame, List.append_assoc,
    Bytes.slice_append_left _ _ (by simp)]
  exact List.take_of_length_le (by simp)

theorem footer : content.slice (offset + 4 + payload.length) 4 =
    Bytes.littleEndian 4 payload.length := by
  have hbehind := Bytes.slice_append_right (Bytes.littleEndian 4 payload.length ++ payload)
    (Bytes.littleEndian 4 payload.length) 0 4
  rw [List.length_append, Bytes.length_littleEndian, Nat.add_zero] at hbehind
  rw [Nat.add_assoc, h.slice_eq (by omega), frame, hbehind]
  exact List.take_of_length_le (by simp)

theorem payload_slice {a k : ℕ} (hle : a + k ≤ payload.length) :
    content.slice (offset + 4 + a) k = payload.slice a k := by
  have hbehind := Bytes.slice_append_right (Bytes.littleEndian 4 payload.length)
    (payload ++ Bytes.littleEndian 4 payload.length) a k
  rw [Bytes.length_littleEndian] at hbehind
  rw [Nat.add_assoc, h.slice_eq (by omega), frame, List.append_assoc, hbehind,
    Bytes.slice_append_left _ _ hle]

end FrameAt

namespace Session

section

variable {s : Session} {r : Receivers} {content payload : Bytes} {V : View content}
variable {offset record : ℕ}

structure Standing (V : View content) (s : Session) (offset record : ℕ) : Prop where
  shown : V.shown s.channel
  form : Unformatted s.unit.connection
  offset_eq : s.unit.offset = offset
  record_eq : s.unit.connection.record = record
  position_eq : s.unit.connection.position = 0
  furthest_eq : s.unit.connection.furthest = 0
  located_eq : s.unit.located = false

theorem Standing.ended (h : Standing V s offset record) : Standing V s.ended offset record :=
  { h with form := { h.form with nonAdvancing := rfl } }

structure Seeking (V : View content) (s : Session) (offset record : ℕ) : Prop
    extends Standing V s offset record where
  reading_eq : s.unit.reading = true
  statement_eq : s.unit.statement = .unformatted .input

/-! ### A READ on a record -/

structure Reading (V : View content) (r : Receivers) (s : Session) (offset record : ℕ)
    (payload : Bytes) (failed : Bool) (pos : ℕ) : Prop where
  shown : V.shown s.channel
  form : Unformatted s.unit.connection
  offset_eq : s.unit.offset = offset
  record_eq : s.unit.connection.record = record
  position_eq : s.unit.connection.position = pos
  position_le : pos ≤ payload.length
  endRecord_eq : s.unit.connection.endRecord = none
  located : s.unit.located = true → s.unit.connection.recordLength = some payload.length
  reading_eq : s.unit.reading = true
  statement_eq : s.unit.statement = .unformatted .input
  status_eq : s.handler.status = if failed then .recordReadOverrun else .ok
  declared_eq : s.handler.declared = r

variable {failed : Bool} {pos : ℕ}

theorem Seeking.reading (h : Seeking V s offset record) (payload : Bytes)
    (hend : s.unit.connection.endRecord = none) (hstatus : s.handler.status = .ok)
    (hdeclared : s.handler.declared = r) : Reading V r s offset record payload false 0 := by
  refine { h with
    position_le := Nat.zero_le _
    endRecord_eq := hend
    located := ?_
    status_eq := hstatus
    declared_eq := hdeclared }
  intro hlocated
  rw [h.located_eq] at hlocated
  cases hlocated

theorem ofLittleEndian_length {count : ℕ} (hcount : count < 2 ^ 32) :
    Bytes.ofLittleEndian (Bytes.littleEndian 4 count) = count := by
  rw [Bytes.ofLittleEndian_littleEndian]
  exact Nat.mod_eq_of_lt hcount

/-- A search that meets a header: the record is cut off, its footer tells another length, or it is there. -/
theorem locateUnformatted_of_header {Q : Bool → Session → Prop} {R : Fault → Session → Prop}
    (h : V.shown s.channel) (hoffset : s.unit.offset = offset) {header footer : ℕ}
    (hheader : Bytes.ofLittleEndian (content.slice offset 4) = header)
    (hfooter : Bytes.ofLittleEndian (content.slice (offset + 4 + header) 4) = footer)
    (hfour : offset + 4 ≤ content.length)
    (hcut : content.length < offset + (8 + header) → ∀ w, V.shown w →
      R (.badUnformattedRecord (corruptText s.unit.connection.record offset
        ("hit EOF reading record with length " ++ toString header ++ " bytes"))) (s.withChannel w))
    (hdiffer : offset + (8 + header) ≤ content.length → footer ≠ header → ∀ w, V.shown w →
      R (.badUnformattedRecord (corruptText s.unit.connection.record offset
        ("record header has length " ++ toString header ++
          " that does not match record footer (" ++ toString footer ++ ")"))) (s.withChannel w))
    (hfound : offset + (8 + header) ≤ content.length → footer = header → ∀ w, V.shown w →
      Q true { s.withChannel w with
        unit := (s.withChannel w).unit.setConnection fun c =>
          { c with recordLength := some header } }) :
    Attempts locateUnformatted s Q R := by
  simp only [locateUnformatted, attempts_get, ExternalUnit.markerBytes, hoffset]
  refine Attempts.bind (View.read_succeeds h 4 (by omega)).attempts ?_
  rintro got _ ⟨w, ⟨hw, hgot, hbytes⟩, rfl⟩
  obtain rfl : got = 4 := by omega
  rw [if_neg (by decide), if_neg (by decide)]
  refine (attempts_gets_bind _ _).mpr ?_
  have hheld : (s.withChannel w).unit.window = w.window := rfl
  rw [hheld, hbytes, hheader]
  refine Attempts.bind (View.read_succeeds (s := s.withChannel w) hw (2 * 4 + header)
    (by omega)).attempts ?_
  rintro got _ ⟨w', ⟨hw', hgot', hbytes'⟩, rfl⟩
  by_cases hlong : offset + (8 + header) ≤ content.length
  · obtain rfl : got = 8 + header := by omega
    have hlast : w'.window.bytesAt (offset + 4 + header) 4 = content.slice (offset + 4 + header) 4 := by
      rw [Nat.add_assoc, Window.bytesAt_add w'.window (by rw [hbytes', Bytes.length_slice]; omega)
        (by omega), hbytes', Bytes.slice_slice, Nat.min_eq_left (by omega)]
    have hheld' : ((s.withChannel w).withChannel w').unit.window = w'.window := rfl
    rw [if_neg (by omega)]
    refine (attempts_gets_bind _ _).mpr ?_
    rw [hheld', hlast, hfooter]
    split_ifs with hne
    · exact hdiffer hlong hne w' hw'
    · exact hfound hlong (not_not.mp hne) w' hw'
  · rw [if_pos (by omega)]
    exact hcut (Nat.lt_of_not_le hlong) w' hw'

theorem locateUnformatted_of_markers (h : V.shown s.channel) {count : ℕ}
    (hoffset : s.unit.offset = offset)
    (hheader : content.slice offset 4 = Bytes.littleEndian 4 count)
    (hfooter : content.slice (offset + 4 + count) 4 = Bytes.littleEndian 4 count)
    (hcount : count < 2 ^ 32) (hwithin : offset + (8 + count) ≤ content.length) :
    Succeeds locateUnformatted s fun found t => found = true ∧ ∃ w, V.shown w ∧
      t = { s.withChannel w with
        unit := (s.withChannel w).unit.setConnection fun c =>
          { c with recordLength := some count } } := by
  have hlength {bs : Bytes} (hbs : bs = Bytes.littleEndian 4 count) : Bytes.ofLittleEndian bs = count :=
    hbs ▸ ofLittleEndian_length hcount
  exact locateUnformatted_of_header h hoffset (hlength hheader) (hlength hfooter) (by omega)
    (fun hcut => absurd hwithin hcut.not_ge) (fun _ hne => absurd rfl hne)
    fun _ _ w hw => ⟨rfl, w, hw, rfl⟩

theorem findRecord_of_unformatted {Q : Bool → Session → Prop} {R : Fault → Session → Prop}
    (h : Unformatted s.unit.connection) (hlocate : Attempts locateUnformatted s Q R) :
    Attempts findRecord s Q R :=
  findRecord_of_markers h.fixedRecordLength h.formatted (by rw [h.access]; decide) hlocate

section

variable (h : Reading V r s offset record payload failed pos) (hframe : FrameAt content offset payload)
include h hframe

theorem Reading.ensureLocated_succeeds :
    Succeeds ensureLocated s fun found t => found = true ∧ t.unit.located = true ∧
      Reading V r t offset record payload failed pos := by
  refine ensureLocated_of_found (by rw [Connection.atEnd, h.endRecord_eq])
    (fun hlocated => ⟨hlocated, h⟩) fun _ => ?_
  refine findRecord_of_unformatted h.form ((locateUnformatted_of_markers h.shown h.offset_eq
    hframe.header hframe.footer hframe.lt hframe.within).mono ?_ fun _ _ => id)
  rintro _ _ ⟨rfl, w, hw, rfl⟩
  exact ⟨rfl, rfl, { h with shown := hw, form := { h.form with }, located := fun _ => rfl }⟩

theorem Reading.getData_attempts (count : ℕ) :
    Attempts (getData count) s
      (fun data t => pos + count ≤ payload.length ∧ data = some (payload.slice pos count) ∧
        Reading V r t offset record payload failed (pos + count))
      (fun f t => ¬ pos + count ≤ payload.length ∧ f = .recordReadOverrun ∧
        Reading V r t offset record payload failed pos) := by
  refine getData_of_located (V.mayRead h.shown) h.form.formatted (h.ensureLocated_succeeds hframe) ?_
  rintro u ⟨hlocated, hu⟩
  have hwithin := hframe.within
  have hremaining : u.unit.connection.remaining = some (payload.length - pos) := by
    rw [Connection.remaining, hu.located hlocated, hu.position_eq]
    rfl
  have hdata : u.unit.dataOffset = offset + 4 := by
    rw [ExternalUnit.dataOffset, hu.form.hasMarkers, if_pos rfl, hu.offset_eq]
    rfl
  have hpos := h.position_le
  rw [hremaining, hdata, hu.position_eq, Option.any_some]
  by_cases hcount : pos + count ≤ payload.length
  · rw [if_neg (by simpa using by omega), ← hframe.payload_slice hcount]
    refine (fetch_of_view hu.shown (by omega)).attempts.mono ?_ fun _ _ => id
    rintro _ _ ⟨rfl, w, hw, rfl⟩
    exact ⟨hcount, rfl, { hu with
      shown := hw
      form := { hu.form with }
      position_eq := congrArg (· + count) hu.position_eq
      position_le := hcount }⟩
  · rw [if_pos (by simpa using by omega)]
    exact ⟨hcount, rfl, hu⟩

theorem Reading.receive_of_le {count : ℕ} (hcount : pos + count ≤ payload.length) :
    Completes (receive count) s fun out t => out = (!failed, some (payload.slice pos count)) ∧
      Reading V r t offset record payload failed (pos + count) := by
  refine receive_completes ((h.getData_attempts hframe count).mono ?_ ?_)
  · rintro _ t ⟨-, rfl, ht⟩
    rw [ht.status_eq]
    refine ⟨?_, ht⟩
    cases failed <;> rfl
  · rintro _ _ ⟨hover, -⟩
    exact absurd hcount hover

theorem Reading.receive_of_not_le {count : ℕ} (hcount : ¬ pos + count ≤ payload.length)
    (hr : r.receivesError = true) :
    Completes (receive count) s fun out t => out = (false, none) ∧
      Reading V r t offset record payload true pos := by
  refine receive_completes ((h.getData_attempts hframe count).mono ?_ ?_)
  · rintro _ _ ⟨hle, -⟩
    exact absurd hle hcount
  · rintro _ t ⟨-, rfl, ht⟩
    obtain ⟨handler, hfault, hsame, hstatus⟩ :=
      Handler.fault_received .recordReadOverrun (ht.declared_eq ▸ hr)
    refine ⟨handler, hfault, rfl, { ht with
      status_eq := ?_
      declared_eq := hsame.trans ht.declared_eq }⟩
    rw [hstatus, ht.status_eq]
    cases failed <;> rfl

theorem Reading.advance_completes :
    Completes advance s fun _ t =>
      t.handler.status = (if failed then .recordReadOverrun else .ok) ∧
        Standing V t (offset + (frame payload).length) (record + 1) ∧
        t.unit.connection.endRecord = none := by
  refine report_completes (advanceRecord_of_input h.reading_eq
    ((h.ensureLocated_succeeds hframe).mono ?_ fun _ _ => False.elim))
  rintro _ t ⟨rfl, hlocated, ht⟩
  have hstride : inputStride t.unit = payload.length + 8 := by
    simp only [inputStride, ht.form.fixedRecordLength, ht.form.formatted, ht.form.access,
      ht.located hlocated]
    rfl
  refine ⟨ht.status_eq, ⟨ht.shown, { ht.form with }, ?_, ?_, rfl, rfl, rfl⟩, ht.endRecord_eq⟩
  · change t.unit.offset + inputStride t.unit = _
    rw [hstride, ht.offset_eq, length_frame]
  · exact congrArg (· + 1) ht.record_eq

theorem Reading.finish_completes :
    Completes finish s fun status t =>
      status = (if failed then .recordReadOverrun else .ok) ∧
        Standing V t (offset + (frame payload).length) (record + 1) ∧
        t.unit.connection.endRecord = none := by
  refine finish_of_transfer (by rw [h.statement_eq]; rfl) h.form.nonAdvancing ?_
  refine (h.advance_completes hframe).mono ?_ fun _ _ => id
  rintro _ t ⟨hstatus, ht, hnone⟩
  exact ⟨V.isTerminal ht.shown, hstatus, ht.ended, hnone⟩

end

theorem receives_of_failed (payload : Bytes) (pos : ℕ) (counts : List ℕ) :
    (receives payload true pos counts).2 = .recordReadOverrun := by
  induction counts generalizing pos with
  | nil => rfl
  | cons count counts ih =>
    rw [receives]
    split_ifs
    · exact ih (pos + count)
    · exact ih pos

theorem Reading.receives_complete (counts : List ℕ)
    (h : Reading V r s offset record payload failed pos) (hframe : FrameAt content offset payload)
    (hadmits : r.admits (receives payload failed pos counts).2 = true) :
    Completes (counts.mapM receive) s fun answers t => ∃ failed' pos',
      receives payload failed pos counts = (answers, if failed' then .recordReadOverrun else .ok) ∧
        Reading V r t offset record payload failed' pos' := by
  induction counts generalizing s failed pos with
  | nil => exact ⟨failed, pos, rfl, h⟩
  | cons count counts ih =>
    rw [List.mapM_cons]
    by_cases hcount : pos + count ≤ payload.length
    · rw [receives, if_pos hcount] at hadmits ⊢
      apply Ends.bind (h.receive_of_le hframe hcount)
      rintro _ t ⟨rfl, ht⟩
      apply Ends.bind (ih ht hadmits)
      rintro answers u ⟨failed', pos', hrest, hu⟩
      rw [hrest]
      exact ⟨failed', pos', rfl, hu⟩
    · rw [receives, if_neg hcount] at hadmits ⊢
      have hr : r.receivesError = true := by
        rwa [receives_of_failed] at hadmits
      apply Ends.bind (h.receive_of_not_le hframe hcount hr)
      rintro _ t ⟨rfl, ht⟩
      apply Ends.bind (ih ht hadmits)
      rintro answers u ⟨failed', pos', hrest, hu⟩
      rw [hrest]
      exact ⟨failed', pos', rfl, hu⟩

/-! ### A READ where there is no record -/

theorem Seeking.misses_end (V : View content) (record : ℕ) {handler : Handler}
    (hstatus : handler.status = .ok)
    (hadmits : handler.declared.admits .endOfFile = true) :
    Misses (fun s => Seeking V s content.length record ∧
      (s.handler = handler ∨ s.handler = handler.record .endOfFile)) .endOfFile where
  ensureLocated s := by
    rintro ⟨h, hhandler⟩
    have hrecorded := Handler.status_record_of_ok (s := .endOfFile) hstatus (by decide)
    have hdeclared : s.handler.declared = handler.declared := by
      rcases hhandler with heq | heq <;> rw [heq]
      exact handler.record_declared _
    have hnext : s.handler.record .endOfFile = handler.record .endOfFile := by
      rcases hhandler with heq | heq <;> rw [heq]
      exact handler.record_record _
    have hnotes {t : Session} (ht : Seeking V t content.length record)
        (hsame : t.handler = s.handler) : t.NotesEnd fun u => false = false ∧
          (Seeking V u content.length record ∧
            (u.handler = handler ∨ u.handler = handler.record .endOfFile)) ∧
          u.handler.status = .endOfFile := by
      rw [NotesEnd, hsame, hdeclared, hnext]
      exact ⟨hadmits, rfl, ⟨{ ht with }, .inr rfl⟩, hrecorded⟩
    refine ensureLocated_attempts (fun hlocated => Bool.noConfusion (h.located_eq.symm.trans hlocated))
      (fun _ _ => hnotes h rfl) fun _ _ => ?_
    have hnone : Succeeds locateUnformatted s fun found t => found = false ∧
        ∃ w, V.shown w ∧ t = s.withChannel w := by
      simp only [locateUnformatted, attempts_get, h.offset_eq]
      apply Attempts.bind (View.read_succeeds h.shown _ le_rfl)
      rintro got _ ⟨w, ⟨hw, hgot, -⟩, rfl⟩
      rw [Nat.sub_self, Nat.min_zero] at hgot
      rw [if_pos hgot]
      exact ⟨rfl, w, hw, rfl⟩
    refine findRecord_of_unformatted h.form (hnone.attempts.mono ?_ fun _ _ => id)
    rintro _ _ ⟨rfl, w, hw, rfl⟩
    exact hnotes { h with shown := hw, form := { h.form with } } rfl
  status_ne := by decide
  formatted s h := h.1.form.formatted
  mayRead s h := V.mayRead h.1.shown
  reading s h := h.1.reading_eq

/-- A READ that has met the same condition all the time ends with it, before its record. -/
theorem Seeking.finish_of_misses {I : Session → Prop} {status : Iostat} (hI : Misses I status)
    (hseeking : ∀ t, I t → Seeking V t offset record) (h : I s) :
    Completes finish s fun out t => out = status ∧ Standing V t offset record ∧
      ∃ u, I u ∧ t = u.ended := by
  have hs := hseeking s h
  refine finish_of_transfer (by rw [hs.statement_eq]; rfl) hs.form.nonAdvancing ?_
  refine (hI.advance_completes h).mono ?_ fun _ _ => id
  rintro _ t ⟨ht, hstatus⟩
  have hstanding := (hseeking t ht).toStanding
  exact ⟨V.isTerminal hstanding.shown, hstatus, hstanding.ended, t, ht, rfl⟩

end

/-! ### READs in turn -/

section

variable {s : Session} {system : System} {n : ℕ} {hn : n < system.files.nodes.length}
variable {path : String} {r : Receivers} {before payload after content : Bytes}

theorem begin_input (source : SourceLine) (r : Receivers) {offset : ℕ}
    (h : AtRecord hn path s offset content) (hsize : content.length < FileSystem.offsetLimit) :
    Completes (begin_ (.unformatted .input) source) s fun _ t =>
      Seeking (.ofHolds hn path hsize) { t with handler := t.handler.declare r } offset
        s.unit.connection.record ∧
      t.unit.connection.endRecord = s.unit.connection.endRecord ∧
      (t.handler.declare r).status = .ok ∧ (t.handler.declare r).declared = r := by
  refine (starts_of_begin h.holds (isOpen_of_holds h.holds) (fun _ => rfl) source r).mono ?_ fun _ _ => id
  intro _ t ht
  refine ⟨{
    shown := ht.holds
    form := ht.connection_eq ▸ h.form
    offset_eq := ht.offset_eq.trans h.offset_eq
    record_eq := congrArg Connection.record ht.connection_eq
    position_eq := ht.connection_eq ▸ h.position_eq
    furthest_eq := ht.connection_eq ▸ h.furthest_eq
    located_eq := Bool.eq_false_iff.mpr fun htrue => Bool.false_ne_true
      (h.located_eq.symm.trans (ht.located htrue))
    reading_eq := ht.reading_eq
    statement_eq := ht.statement_eq }, congrArg Connection.endRecord ht.connection_eq, ht.status_eq,
    ht.declared_eq⟩

theorem Standing.atRecord {offset record : ℕ} {hsize : content.length < FileSystem.offsetLimit}
    (h : Standing (.ofHolds hn path hsize) s offset record) : AtRecord hn path s offset content :=
  ⟨h.shown, h.form, h.offset_eq, h.position_eq, h.furthest_eq, h.located_eq⟩

theorem read_completes (source : SourceLine) (counts : List ℕ)
    (h : AtRecord hn path s before.length (before ++ (frame payload ++ after)))
    (hend : s.unit.connection.endRecord = none) (hlen : payload.length < 2 ^ 32)
    (hsize : (before ++ (frame payload ++ after)).length < FileSystem.offsetLimit)
    (hadmits : r.admits (receives payload false 0 counts).2 = true) :
    Completes (statement (.unformatted .input) source r (counts.mapM receive)) s fun out t =>
      out = receives payload false 0 counts ∧
        AtRecord hn path t (before ++ frame payload).length (before ++ (frame payload ++ after)) ∧
        t.unit.connection.endRecord = none := by
  have hframe := FrameAt.of_append before after hlen
  refine statement_completes (B := fun t => Reading (.ofHolds hn path hsize) r t before.length
    s.unit.connection.record payload false 0) ?_ ?_
  · refine (begin_input source r h hsize).mono ?_ fun _ _ => id
    rintro _ t ⟨ht, hsame, hstatus, hdeclared⟩
    exact ht.reading payload (hsame.trans hend) hstatus hdeclared
  intro t ht
  refine (ht.receives_complete counts hframe hadmits).mono ?_ fun _ _ => id
  rintro answers u ⟨failed, pos, hreceives, hu⟩
  refine (hu.finish_completes hframe).mono ?_ fun _ _ => id
  rintro _ v ⟨rfl, hv, hnone⟩
  rw [← List.length_append] at hv
  exact ⟨hreceives.symm, hv.atRecord, hnone⟩

theorem read_of_end (source : SourceLine) (counts : List ℕ)
    (h : AtRecord hn path s content.length content) (hr : r.admits .endOfFile = true)
    (hsize : content.length < FileSystem.offsetLimit) :
    Completes (statement (.unformatted .input) source r (counts.mapM receive)) s fun out t =>
      out = (counts.map (fun _ => (false, none)), .endOfFile) ∧
        AtRecord hn path t content.length content := by
  refine statement_completes (B := fun t => Seeking (.ofHolds hn path hsize) t content.length
    s.unit.connection.record ∧ t.handler.status = .ok ∧ t.handler.declared = r) ?_ ?_
  · refine (begin_input source r h hsize).mono ?_ fun _ _ => id
    rintro _ t ⟨ht, -, hstatus, hdeclared⟩
    exact ⟨ht, hstatus, hdeclared⟩
  rintro t ⟨ht, hstatus, hdeclared⟩
  have hmisses := Seeking.misses_end (.ofHolds hn path hsize) s.unit.connection.record hstatus
    (by rw [hdeclared]; exact hr)
  refine (hmisses.receives_complete counts ⟨ht, .inl rfl⟩).mono ?_ fun _ _ => id
  rintro _ u ⟨rfl, hu, -⟩
  refine (Seeking.finish_of_misses hmisses (fun _ h => h.1) hu).mono ?_ fun _ _ => id
  rintro _ v ⟨rfl, hv, -⟩
  exact ⟨rfl, hv.atRecord⟩

theorem reads_complete (source : SourceLine) (payloads : List Bytes) (reads : List (List ℕ))
    (h : AtRecord hn path s before.length (before ++ frames payloads))
    (hend : payloads = [] ∨ s.unit.connection.endRecord = none)
    (hlen : ∀ payload ∈ payloads, payload.length < 2 ^ 32)
    (hsize : (before ++ frames payloads).length < FileSystem.offsetLimit)
    (hadmits : ∀ answer ∈ readBack payloads reads, r.admits answer.2 = true) :
    Completes (reads.mapM fun counts =>
        statement (.unformatted .input) source r (counts.mapM receive)) s fun outs t =>
      outs = readBack payloads reads ∧
        t.channel.Holds (system.device hn path) (before ++ frames payloads) := by
  induction reads generalizing s payloads before with
  | nil =>
    refine ⟨?_, h.holds⟩
    cases payloads <;> rfl
  | cons counts reads ih =>
    rw [List.mapM_cons]
    cases payloads with
    | nil =>
      have hnil : before ++ frames [] = before := List.append_nil before
      rw [hnil] at h hsize ⊢
      apply Ends.bind (read_of_end source counts h (hadmits _ List.mem_cons_self) hsize)
      rintro _ t ⟨rfl, ht⟩
      rw [← hnil] at ht
      apply Ends.bind (ih [] (by simpa [frames] using ht) (.inl rfl)
        (fun _ hx => absurd hx List.not_mem_nil)
        (by simpa [frames] using hsize)
        fun answer hanswer => hadmits answer (List.mem_cons_of_mem _ hanswer))
      rintro _ u ⟨rfl, hu⟩
      rw [hnil] at hu
      exact ⟨rfl, hu⟩
    | cons payload payloads =>
      have hnext : before ++ (frame payload ++ frames payloads) =
          before ++ frame payload ++ frames payloads := (List.append_assoc _ _ _).symm
      rw [frames_cons] at h hsize ⊢
      apply Ends.bind (read_completes source counts h (hend.resolve_left (List.cons_ne_nil _ _))
        (hlen _ List.mem_cons_self) hsize (hadmits _ List.mem_cons_self))
      rintro _ t ⟨rfl, ht, hnone⟩
      rw [hnext] at ht hsize ⊢
      apply Ends.bind (ih payloads ht (.inr hnone)
        (fun x hx => hlen x (List.mem_cons_of_mem _ hx)) hsize
        fun answer hanswer => hadmits answer (List.mem_cons_of_mem _ hanswer))
      rintro _ u ⟨rfl, hu⟩
      exact ⟨rfl, hu⟩

end

end Session

end DataTransfer
