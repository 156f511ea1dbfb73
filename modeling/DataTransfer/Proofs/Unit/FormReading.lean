import DataTransfer.Proofs.Unit.FormWriting
import DataTransfer.Proofs.Unit.Reading

/-!
READs on a connection of any unformatted form. Where a complete record stands, one READ gets its bytes
from where the form has its payload, and goes on to the next record.
-/

namespace DataTransfer

namespace Form

def found (f : Form) (count : ℕ) : Option ℕ :=
  match f.recordLength with
  | some length => some length
  | none => if f.access = .stream then none else some count

variable {f : Form} {content payload : Bytes} {start : ℕ}

theorem Stands.length_le (h : f.Stands content start payload) (hfits : f.Fits payload) :
    start + f.dataStart + payload.length ≤ content.length := by
  have hne : f.standing payload ≠ [] := by
    rw [← List.length_pos_iff, length_standing]
    exact hfits.pos
  have hle := h.standing.length_le hne
  rwa [length_standing] at hle

theorem Stands.markers (h : f.Stands content start payload) (hformatted : f.formatted = false)
    (hlength : f.recordLength = none) (haccess : f.access ≠ .stream) :
    content.slice start 4 = Bytes.littleEndian 4 payload.length ∧
      content.slice (start + 4 + payload.length) 4 = Bytes.littleEndian 4 payload.length ∧
      start + (8 + payload.length) ≤ content.length := by
  have hframing : f.framing payload.length =
      [(0, Bytes.littleEndian 4 payload.length),
        (4 + payload.length, Bytes.littleEndian 4 payload.length)] := by
    rw [Form.framing, hlength]
    dsimp only
    rw [if_neg (by simp [hformatted]), if_neg haccess]
    rfl
  have hheader := h.framing (0, Bytes.littleEndian 4 payload.length)
    (by rw [hframing]; exact List.mem_cons_self)
  have hfooter := h.framing (4 + payload.length, Bytes.littleEndian 4 payload.length)
    (by rw [hframing]; exact List.mem_cons_of_mem _ List.mem_cons_self)
  have hmarker : (Bytes.littleEndian 4 payload.length).length = 4 := Bytes.length_littleEndian _ _
  have hend := hfooter.length_le (List.ne_nil_of_length_pos (by rw [hmarker]; decide))
  unfold Bytes.Has at hheader hfooter
  rw [hmarker] at hheader hfooter hend
  exact ⟨hheader, by rw [Nat.add_assoc]; exact hfooter, by omega⟩

end Form

namespace Session

variable {s : Session} {system : System} {n : ℕ} {hn : n < system.files.nodes.length}
variable {path : String} {f : Form} {content payload : Bytes} {offset pos : ℕ}

/-- A READ in progress at a position of the record at `offset`. -/
structure Fetching (hn : n < system.files.nodes.length) (path : String) (s : Session) (f : Form)
    (content : Bytes) (offset : ℕ) (payload : Bytes) (pos : ℕ) : Prop where
  holds : s.channel.Holds (system.device hn path) content
  form : s.unit.connection.HasForm f
  offset_eq : s.unit.offset = offset
  position_eq : s.unit.connection.position = pos
  furthest_eq : s.unit.connection.furthest = pos
  position_le : pos ≤ payload.length
  endRecord_eq : s.unit.connection.endRecord = none
  located : s.unit.located = true → s.unit.connection.recordLength = f.found payload.length
  reading_eq : s.unit.reading = true
  statement_eq : s.unit.statement = .unformatted .input
  status_eq : s.handler.status = .ok

/-- A complete record of an unformatted form stands at `offset`. -/
structure OnDisk (f : Form) (content : Bytes) (offset : ℕ) (payload : Bytes) : Prop where
  stands : f.Stands content offset payload
  fits : f.Fits payload
  formatted : f.formatted = false
  accepted : content.length < FileSystem.offsetLimit

namespace Fetching

variable (h : Fetching hn path s f content offset payload pos) (hd : OnDisk f content offset payload)
include h hd

theorem findRecord_succeeds : Succeeds findRecord s fun found t => found = true ∧
    t.unit.connection.recordLength = f.found payload.length ∧
    Fetching hn path t.atLocated f content offset payload pos := by
  have hlength_le := hd.stands.length_le hd.fits
  have hpos := hd.fits.pos
  have hformatted : s.unit.connection.formatted = false := h.form.formatted.trans hd.formatted
  cases hlength : f.recordLength with
  | some length =>
    have hle := hd.fits.le length hlength
    have hfound : s.unit.connection.recordLength = f.found payload.length := by
      rw [h.form.recordLength (by rw [hlength]; rfl), Form.found, hlength]
    have hheld : Session.channel { s with unit := { s.unit with terminator := 0 } } = s.channel := rfl
    refine findRecord_of_fixed (h.form.fixedRecordLength.trans hlength) ((windowed_succeeds
      (hheld ▸ h.holds.read_file length (by rw [h.offset_eq]; omega) hd.accepted)).mono ?_
      fun _ _ => id)
    rintro got _ ⟨w, ⟨hw, hgot, -⟩, rfl⟩
    rw [h.offset_eq] at hgot
    exact ⟨decide_eq_true (by omega), hfound,
      { h with holds := hw, form := { h.form with }, located := fun _ => hfound }⟩
  | none =>
    have hlines := h.form.fixedRecordLength.trans hlength
    have hnot : ¬ f.recordLength.isSome = true := by simp [hlength]
    by_cases haccess : f.access = .stream
    · have hfound : none = f.found payload.length := by
        rw [Form.found, hlength]
        exact (if_pos haccess).symm
      exact findRecord_of_stream hlines hformatted (h.form.access.trans haccess) ⟨rfl, hfound, { h with
        form := { h.form with recordLength := fun hsome => absurd hsome hnot }
        located := fun _ => hfound }⟩
    · have hfound : some payload.length = f.found payload.length := by
        rw [Form.found, hlength]
        exact (if_neg haccess).symm
      obtain ⟨hheader, hfooter, hend⟩ := hd.stands.markers hd.formatted hlength haccess
      refine findRecord_of_markers hlines hformatted (h.form.access.trans_ne haccess)
        ((locateUnformatted_of_markers (V := .ofHolds hn path hd.accepted) h.holds h.offset_eq
          hheader hfooter hd.fits.lt hend).mono ?_ fun _ _ => id)
      rintro _ _ ⟨rfl, w, hw, rfl⟩
      exact ⟨rfl, hfound, { h with
        holds := hw
        form := { h.form with recordLength := fun hsome => absurd hsome hnot }
        located := fun _ => hfound }⟩

theorem ensureLocated_succeeds : Succeeds ensureLocated s fun found t => found = true ∧
    t.unit.connection.recordLength = f.found payload.length ∧
    Fetching hn path t f content offset payload pos := by
  exact ensureLocated_of_found (by rw [Connection.atEnd, h.endRecord_eq])
    (fun hlocated => ⟨h.located hlocated, h⟩) fun _ => h.findRecord_succeeds hd

theorem getData_succeeds {count : ℕ} (hcount : pos + count ≤ payload.length) :
    Succeeds (getData count) s fun data t => data = some ((f.standing payload).slice pos count) ∧
      Fetching hn path t f content offset payload (pos + count) := by
  have hformatted : s.unit.connection.formatted = false := h.form.formatted.trans hd.formatted
  refine getData_of_located (mayRead_of_holds h.holds) hformatted (h.ensureLocated_succeeds hd) ?_
  rintro u ⟨hfound, hu⟩
  have hlength_le := hd.stands.length_le hd.fits
  have hdata : u.unit.dataOffset = offset + f.dataStart := by
    rw [ExternalUnit.dataOffset, hu.form.hasMarkers, hu.offset_eq, Form.dataStart]
    split_ifs <;> rfl
  have hroom : ¬ u.unit.connection.remaining.any (· < count) = true := by
    rw [Connection.remaining, hfound, hu.position_eq, Form.found]
    cases hlength : f.recordLength with
    | some length =>
      have hle := hd.fits.le length hlength
      simpa using by omega
    | none =>
      dsimp only
      split_ifs
      · simp
      · simpa using by omega
  have hstanding : (f.standing payload).slice pos count =
      content.slice (offset + f.dataStart + pos) count := by
    rw [← hd.stands.standing, Bytes.slice_slice, Form.length_standing, Nat.min_eq_left (by omega)]
  rw [if_neg hroom, hdata, hu.position_eq, hstanding]
  refine (fetch_succeeds hu.holds (by omega) hd.accepted).mono ?_ fun _ _ => id
  rintro _ _ ⟨rfl, w, hw, rfl⟩
  refine ⟨rfl, { hu with
    holds := hw
    form := { hu.form with }
    position_eq := congrArg (· + count) hu.position_eq
    furthest_eq := ?_
    position_le := hcount }⟩
  change max u.unit.connection.furthest (u.unit.connection.position + count) = _
  rw [hu.furthest_eq, hu.position_eq]
  exact max_eq_right (Nat.le_add_right _ _)

omit h in
theorem receives_complete (h : Fetching hn path s f content offset payload pos) {counts : List ℕ}
    (hcounts : pos + counts.sum = payload.length) :
    Completes (counts.mapM receive) s fun answers t =>
      (∃ pieces : List Bytes, answers = pieces.map (fun piece => (true, some piece)) ∧
        pieces.flatten = (f.standing payload).drop pos) ∧
      Fetching hn path t f content offset payload payload.length := by
  induction counts generalizing s pos with
  | nil =>
    obtain rfl : pos = payload.length := by simpa using hcounts
    refine ⟨⟨[], rfl, ?_⟩, h⟩
    rw [List.drop_of_length_le (Form.length_standing f payload).le]
    rfl
  | cons count counts ih =>
    rw [List.sum_cons] at hcounts
    have hreceive : Completes (receive count) s fun out t =>
        out = (true, some ((f.standing payload).slice pos count)) ∧
          Fetching hn path t f content offset payload (pos + count) := by
      refine receive_completes ((h.getData_succeeds hd (by omega)).mono ?_ fun _ _ => False.elim)
      rintro _ t ⟨rfl, ht⟩
      rw [ht.status_eq]
      exact ⟨rfl, ht⟩
    rw [List.mapM_cons]
    apply Ends.bind hreceive
    rintro _ t ⟨rfl, ht⟩
    apply Ends.bind (ih ht (by omega))
    rintro _ u ⟨⟨pieces, rfl, hpieces⟩, hu⟩
    refine ⟨⟨_ :: pieces, rfl, ?_⟩, hu⟩
    rw [List.flatten_cons, hpieces, Bytes.slice, ← List.drop_drop, List.take_append_drop]

omit h in
theorem advance_completes (h : Fetching hn path s f content offset payload payload.length) :
    Completes advance s fun _ t => t.handler.status = .ok ∧
      AtForm hn path t f (offset + f.stride payload.length) content ∧
      t.unit.connection.endRecord = none ∧ t.unit.located = false := by
  refine report_completes (advanceRecord_of_input h.reading_eq
    ((h.ensureLocated_succeeds hd).mono ?_ fun _ _ => False.elim))
  rintro _ t ⟨rfl, hfound, ht⟩
  have hstride : inputStride t.unit = f.stride payload.length := by
    simp only [inputStride, ht.form.fixedRecordLength, ht.form.formatted, ht.form.access,
      hd.formatted, hfound, Form.found, Form.stride, ht.furthest_eq]
    cases f.recordLength with
    | some length => rfl
    | none =>
      by_cases haccess : f.access = .stream
      · simp [haccess]
      · simp [haccess, Nat.add_comm]
  refine ⟨ht.status_eq, ⟨ht.holds, { ht.form with }, ?_, rfl, rfl⟩, ht.endRecord_eq, rfl⟩
  change t.unit.offset + inputStride t.unit = _
  rw [hstride, ht.offset_eq]

end Fetching

theorem AtForm.read_completes (h : AtForm hn path s f offset content)
    (hd : OnDisk f content offset payload) (hend : s.unit.connection.endRecord = none)
    (hlocated : s.unit.located = false) (source : SourceLine) (r : Receivers) {counts : List ℕ}
    (hcounts : counts.sum = payload.length) :
    Completes (statement (.unformatted .input) source r (counts.mapM receive)) s fun out t =>
      (∃ pieces : List Bytes, out = (pieces.map (fun piece => (true, some piece)), .ok) ∧
        pieces.flatten = f.standing payload) ∧
      AtForm hn path t f (offset + f.stride payload.length) content ∧
      t.unit.connection.endRecord = none ∧ t.unit.located = false := by
  refine statement_completes
    (B := fun t => s.Starts (system.device hn path) content (.unformatted .input) .input r t)
    (starts_of_begin h.holds (isOpen_of_holds h.holds) (fun _ => rfl) source r) ?_
  intro t ht
  have hbegun := h.begun ht
  have hstart : Fetching hn path t f content offset payload 0 :=
    { hbegun with
      position_le := Nat.zero_le _
      endRecord_eq := ht.connection_eq ▸ hend
      located := fun htrue => absurd (ht.located htrue) (by simp [hlocated])
      reading_eq := ht.reading_eq
      statement_eq := ht.statement_eq
      status_eq := ht.status_eq }
  refine (hstart.receives_complete hd (by omega)).mono ?_ fun _ _ => id
  rintro _ u ⟨⟨pieces, rfl, hpieces⟩, hu⟩
  refine finish_of_transfer (by rw [hu.statement_eq]; rfl) hu.form.nonAdvancing ?_
  refine (hu.advance_completes hd).mono ?_ fun _ _ => id
  rintro _ v ⟨hstatus, hv, hnone, hunlocated⟩
  refine ⟨by rw [attachment_eq hv.holds]; rfl, ⟨pieces, ?_, hpieces⟩, hv.ended, hnone, hunlocated⟩
  rw [hstatus]

end Session

end DataTransfer
