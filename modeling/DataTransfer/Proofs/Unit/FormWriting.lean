import DataTransfer.Proofs.Unit.Layout
import DataTransfer.Proofs.Unit.Output

/-!
WRITEs on a connection of any form. One WRITE puts one record into the file, payload first and framing
when the record is completed; it succeeds just when the record has room for the payload.
-/

namespace DataTransfer

def StatementKind.isWrite : StatementKind → Bool
  | .formatted direction => direction = .output
  | .listDirected direction => direction = .output
  | .unformatted direction => direction = .output
  | _ => false

theorem StatementKind.direction_of_isWrite {kind : StatementKind} (h : kind.isWrite = true)
    (modes : Modes) : (StatementState.begin_ kind modes).direction? = some .output := by
  cases kind <;> simp_all [isWrite, StatementState.begin_, StatementState.direction?]

/-- A connection of this form, with no other way of transfer than record by record. -/
structure Connection.HasForm (c : Connection) (f : Form) : Prop where
  access : c.access = f.access
  formatted : c.formatted = f.formatted
  fixedLength : c.fixedLength = f.recordLength.isSome
  recordLength : f.recordLength.isSome = true → c.recordLength = f.recordLength
  nonAdvancing : c.nonAdvancing = false

namespace Connection.HasForm

variable {c : Connection} {f : Form} (h : c.HasForm f)
include h

theorem fixedRecordLength : c.fixedRecordLength = f.recordLength := by
  rw [Connection.fixedRecordLength, h.fixedLength]
  split_ifs with hfixed
  · exact h.recordLength hfixed
  · exact (Option.not_isSome_iff_eq_none.mp hfixed).symm

theorem hasMarkers : ExternalUnit.hasMarkers c =
    ExternalUnit.hasMarkers (({} : Connection).withForm f) := by
  rw [ExternalUnit.hasMarkers, h.access, h.formatted, h.fixedLength]
  rfl

end Connection.HasForm

namespace Session

variable {s : Session} {system : System} {n : ℕ} {hn : n < system.files.nodes.length}
variable {path : String} {f : Form} {content : Bytes} {offset : ℕ}

/-- A unit of this form at the start of the record at `offset`, with no statement in progress. -/
structure AtForm (hn : n < system.files.nodes.length) (path : String) (s : Session) (f : Form)
    (offset : ℕ) (content : Bytes) : Prop where
  holds : s.channel.Holds (system.device hn path) content
  form : s.unit.connection.HasForm f
  offset_eq : s.unit.offset = offset
  position_eq : s.unit.connection.position = 0
  furthest_eq : s.unit.connection.furthest = 0

namespace AtForm

theorem ended (h : AtForm hn path s f offset content) : AtForm hn path s.ended f offset content :=
  { h with form := { h.form with nonAdvancing := rfl } }

theorem begun (h : AtForm hn path s f offset content) {kind : StatementKind} {direction : Direction}
    {r : Receivers} {t : Session} (ht : s.Starts (system.device hn path) content kind direction r t) :
    AtForm hn path t f offset content where
  holds := ht.holds
  form := ht.connection_eq ▸ h.form
  offset_eq := ht.offset_eq.trans h.offset_eq
  position_eq := ht.connection_eq ▸ h.position_eq
  furthest_eq := ht.connection_eq ▸ h.furthest_eq

theorem dataOffset_eq (h : AtForm hn path s f offset content) :
    s.unit.dataOffset = offset + f.dataStart := by
  rw [ExternalUnit.dataOffset, h.form.hasMarkers, h.offset_eq, Form.dataStart]
  split_ifs <;> rfl

theorem completesRecord (h : AtForm hn path s f offset content) {w : Windowed Channel}
    {content' : Bytes} (hw : w.Holds (system.device hn path) content') {count : ℕ}
    (hcount : count < 2 ^ 32) (hfits : ∀ length, f.recordLength = some length → count ≤ length)
    (hsize : offset + f.stride count < FileSystem.offsetLimit) :
    CompletesRecord (system.device hn path) (s.afterOutput w count) (f.stride count)
      (content'.puts offset (f.framing count)) := by
  have hheld : (s.afterOutput w count).channel.Holds (system.device hn path) content' := hw
  have hfixed : (s.afterOutput w count).unit.connection.fixedRecordLength = f.recordLength :=
    h.form.fixedRecordLength
  have hformatted : (s.afterOutput w count).unit.connection.formatted = f.formatted :=
    h.form.formatted
  have haccess : (s.afterOutput w count).unit.connection.access = f.access := h.form.access
  obtain rfl : s.unit.offset = offset := h.offset_eq
  unfold Form.stride at hsize ⊢
  unfold Form.framing
  cases hlength : f.recordLength with
  | some length =>
    rw [hlength] at hfixed hsize
    have hle := hfits length hlength
    dsimp only
    split_ifs with hlines
    · rcases hle.lt_or_eq with hshort | rfl
      · exact completesRecord_fill hheld hfixed (hformatted.trans hlines) hshort hsize
      · -- A record that is full needs no fill.
        rw [Nat.sub_self]
        exact completesRecord_fixed hheld hfixed (.inr le_rfl)
    · exact completesRecord_fixed hheld hfixed (.inl (hformatted.trans (by simpa using hlines)))
  | none =>
    rw [hlength] at hfixed hsize
    dsimp only at hsize ⊢
    split_ifs at hsize ⊢ with hlines hstream
    · exact completesRecord_line hheld hfixed (hformatted.trans hlines) hsize
    · exact completesRecord_stream hheld hfixed (hformatted.trans (by simpa using hlines))
        (haccess.trans hstream)
    · have hmarkers := completesRecord_markers hheld hfixed
        (hformatted.trans (by simpa using hlines)) (by rwa [haccess]) hcount hsize
      rw [Nat.add_assoc] at hmarkers
      exact hmarkers

abbrev succeeded (chunks : List Bytes) : List Bool × Iostat := (chunks.map fun _ => true, .ok)

theorem writing (h : AtForm hn path s f offset content) {kind : StatementKind} {r : Receivers}
    (hkind : kind.isWrite = true) {t : Session}
    (ht : s.Starts (system.device hn path) content kind .output r t) : Writing hn path t content := by
  have hbegun := h.begun ht
  refine ⟨hbegun.holds, hbegun.position_eq, hbegun.furthest_eq, hbegun.form.nonAdvancing,
    ht.reading_eq, ?_, ht.status_eq⟩
  rw [ht.statement_eq]
  exact StatementKind.direction_of_isWrite hkind _

theorem write_completes (h : AtForm hn path s f offset content) (source : SourceLine) (r : Receivers)
    {kind : StatementKind} (hkind : kind.isWrite = true) {chunks : List Bytes}
    (hfits : f.Fits chunks.flatten)
    (hsize : offset + f.stride chunks.flatten.length < FileSystem.offsetLimit) :
    Completes (statement kind source r (chunks.mapM emit)) s fun out t => out = succeeded chunks ∧
      AtForm hn path t f (offset + f.stride chunks.flatten.length)
        (f.store content offset chunks.flatten) := by
  refine statement_completes (B := fun t => s.Starts (system.device hn path) content kind .output r t)
    (starts_of_begin h.holds (isOpen_of_holds h.holds) (StatementKind.direction_of_isWrite hkind) source r) ?_
  intro t ht
  have hbegun := h.begun ht
  have hwithin := Form.dataStart_add_le hfits.le
  have hcompletes (w : Windowed Channel)
      (hw : w.Holds (system.device hn path) (content.put t.unit.dataOffset chunks.flatten)) :
      CompletesRecord (system.device hn path) (t.afterOutput w chunks.flatten.length)
        (f.stride chunks.flatten.length) (f.store content offset chunks.flatten) := by
    rw [hbegun.dataOffset_eq] at hw
    exact hbegun.completesRecord hw hfits.lt hfits.le hsize
  refine ((h.writing hkind ht).emits_complete chunks ?_ ?_ hcompletes).mono ?_ fun _ _ => id
  · intro length hlength
    rw [hbegun.form.fixedRecordLength] at hlength
    exact hfits.le length hlength
  · rw [hbegun.dataOffset_eq]
    omega
  rintro _ _ ⟨rfl, hfinish⟩
  refine hfinish.mono ?_ fun _ _ => id
  rintro _ _ ⟨rfl, w, hw, rfl⟩
  have hnext : AtForm hn path ((t.afterOutput w chunks.flatten.length).onNextRecord w
      (f.stride chunks.flatten.length)) f (offset + f.stride chunks.flatten.length)
        (f.store content offset chunks.flatten) :=
    { holds := hw
      form := { hbegun.form with }
      offset_eq := congrArg (· + f.stride chunks.flatten.length) hbegun.offset_eq
      position_eq := rfl
      furthest_eq := rfl }
  exact ⟨rfl, hnext.ended⟩

end AtForm

/-! ### Payloads that do not fit -/

theorem Putting.emit_refused {written data : Bytes} (h : Putting hn path s content written) {length : ℕ}
    (hfixed : s.unit.connection.fixedRecordLength = some length)
    (hover : length < (written ++ data).length) :
    Ends (emit data) s (fun ok _ => ok = false) fun _ _ => True := by
  have hput : Attempts (putData data) s (fun _ _ => False) fun _ _ => True := by
    have hafter : length < max written.length (written.length + data.length) := by
      rw [List.length_append] at hover
      omega
    simp only [putData, attempts_get, h.isInput_eq, Bool.false_eq_true, if_false]
    refine Attempts.bind (requireWritable_succeeds h.holds).attempts ?_
    rintro _ t ht
    rw [ht]
    simp only [attempts_get, h.position_eq, h.furthest_eq, hfixed, Option.any_some, hafter,
      decide_true, if_true]
    trivial
  refine Ends.bind (Ends.mono hput (fun _ _ => id) fun _ _ => False.elim) ?_
  intro result t hr
  cases result with
  | ok a => exact hr.elim
  | error e =>
    unfold Ends
    dsimp only
    cases t.handler.fault e with
    | ok handler => rfl
    | error c => trivial

/-- Only what has room in the record is emitted without an error. -/
theorem Putting.emits_end {written : Bytes} (h : Putting hn path s content written) {length : ℕ}
    (hfixed : s.unit.connection.fixedRecordLength = some length) (hwritten : written.length ≤ length)
    (hsize : s.unit.dataOffset + length < FileSystem.offsetLimit) (chunks : List Bytes) :
    Ends (chunks.mapM emit) s
      (fun oks _ => oks = chunks.map (fun _ => true) → (written ++ chunks.flatten).length ≤ length)
      fun _ _ => True := by
  induction chunks generalizing s written with
  | nil => exact fun _ => by simpa using hwritten
  | cons data chunks ih =>
    rw [List.mapM_cons]
    by_cases hroom : (written ++ data).length ≤ length
    · have hfits (l : ℕ) (hl : s.unit.connection.fixedRecordLength = some l) :
          (written ++ data).length ≤ l := by
        cases hfixed.symm.trans hl
        exact hroom
      refine Ends.bind ((h.emit_completes data hfits (by omega)).mono (fun _ _ => id)
        fun _ _ => False.elim) ?_
      rintro _ _ ⟨rfl, ⟨w, rfl⟩, ht⟩
      refine Ends.bind (ih ht hfixed hroom hsize) ?_
      rintro oks u hu hoks
      rw [List.flatten_cons, ← List.append_assoc]
      exact hu (List.cons.inj hoks).2
    · refine Ends.bind (h.emit_refused hfixed (not_le.mp hroom)) ?_
      rintro _ t rfl
      refine Ends.bind (Ends.trivial _ t) ?_
      rintro oks u - hoks
      cases hoks

namespace AtForm

/-- A WRITE of a payload that does not fit its record does not succeed. -/
theorem write_ends (h : AtForm hn path s f offset content) (source : SourceLine) (r : Receivers)
    {kind : StatementKind} (hkind : kind.isWrite = true) {chunks : List Bytes}
    (hpos : 0 < chunks.flatten.length) (hlt : chunks.flatten.length < 2 ^ 32)
    (hsize : offset + f.stride chunks.flatten.length < FileSystem.offsetLimit) :
    Ends (statement kind source r (chunks.mapM emit)) s
      (fun out t => out = succeeded chunks → f.Fits chunks.flatten ∧
        AtForm hn path t f (offset + f.stride chunks.flatten.length)
          (f.store content offset chunks.flatten)) fun _ _ => True := by
  by_cases hroom : ∀ length, f.recordLength = some length → chunks.flatten.length ≤ length
  · have hfits : f.Fits chunks.flatten := ⟨hpos, hlt, hroom⟩
    exact (h.write_completes source r hkind hfits hsize).mono (fun _ _ hout _ => ⟨hfits, hout.2⟩)
      fun _ _ => False.elim
  · obtain ⟨length, hlength, hover⟩ : ∃ length, f.recordLength = some length ∧
        ¬ chunks.flatten.length ≤ length := by
      simpa only [not_forall, exists_prop] using hroom
    have hemits : Ends (statement kind source r (chunks.mapM emit)) s
        (fun out _ => out.1 = chunks.map (fun _ => true) → chunks.flatten.length ≤ length)
        fun _ _ => True := by
      refine statement_ends (B := fun t => s.Starts (system.device hn path) content kind .output r t)
        (Q := fun oks => oks = chunks.map (fun _ => true) → chunks.flatten.length ≤ length)
        (starts_of_begin h.holds (isOpen_of_holds h.holds) (StatementKind.direction_of_isWrite hkind)
          source r) ?_
      intro t ht
      have hbegun := h.begun ht
      have hfixed : t.unit.connection.fixedRecordLength = some length :=
        hbegun.form.fixedRecordLength.trans hlength
      have hstart : f.dataStart = 0 := by
        rw [Form.dataStart_eq, hlength]
        simp
      refine (h.writing hkind ht).putting.emits_end hfixed (Nat.zero_le _) ?_ chunks
      rw [hbegun.dataOffset_eq, hstart]
      simpa [Form.stride, hlength] using hsize
    refine hemits.mono (fun out _ hout hok => ?_) fun _ _ _ => trivial
    exact absurd (hout (congrArg Prod.fst hok)) hover

end AtForm

/-! ### WRITEs one after another -/

def writeAll (source : SourceLine) (r : Receivers) (records : List (StatementKind × List Bytes)) :
    Act Session (List (List Bool × Iostat)) :=
  records.mapM fun record => statement record.1 source r (record.2.mapM emit)

abbrev payloads (records : List (StatementKind × List Bytes)) : List Bytes :=
  records.map (·.2.flatten)

abbrev allSucceeded (records : List (StatementKind × List Bytes)) : List (List Bool × Iostat) :=
  records.map (AtForm.succeeded ·.2)

namespace AtForm

variable {records : List (StatementKind × List Bytes)}

theorem writeAll_completes (h : AtForm hn path s f offset content) (source : SourceLine)
    (r : Receivers) (hkind : ∀ record ∈ records, record.1.isWrite = true)
    (hfits : ∀ payload ∈ payloads records, f.Fits payload)
    (hsize : offset + f.extent (payloads records) < FileSystem.offsetLimit) :
    Completes (writeAll source r records) s fun outs t => outs = allSucceeded records ∧
      t.channel.Holds (system.device hn path) (f.storeAll content offset (payloads records)) := by
  induction records generalizing s offset content with
  | nil => exact ⟨rfl, h.holds⟩
  | cons record records ih =>
    have hextent : f.extent (payloads (record :: records)) =
        f.stride record.2.flatten.length + f.extent (payloads records) := rfl
    rw [writeAll, List.mapM_cons]
    refine Ends.bind (h.write_completes source r (hkind _ List.mem_cons_self)
      (hfits _ List.mem_cons_self) (by omega)) ?_
    rintro _ t ⟨rfl, ht⟩
    refine Ends.bind (ih ht (fun x hx => hkind x (List.mem_cons_of_mem _ hx))
      (fun x hx => hfits x (List.mem_cons_of_mem _ hx)) (by omega)) ?_
    rintro _ u ⟨rfl, hu⟩
    exact ⟨rfl, hu⟩

theorem writeAll_ends (h : AtForm hn path s f offset content) (source : SourceLine) (r : Receivers)
    (hkind : ∀ record ∈ records, record.1.isWrite = true)
    (hlen : ∀ payload ∈ payloads records, 0 < payload.length ∧ payload.length < 2 ^ 32)
    (hsize : offset + f.extent (payloads records) < FileSystem.offsetLimit) :
    Ends (writeAll source r records) s
      (fun outs _ => outs = allSucceeded records → ∀ payload ∈ payloads records, f.Fits payload)
      fun _ _ => True := by
  induction records generalizing s offset content with
  | nil => exact fun _ _ => nofun
  | cons record records ih =>
    have hextent : f.extent (payloads (record :: records)) =
        f.stride record.2.flatten.length + f.extent (payloads records) := rfl
    obtain ⟨hpos, hlt⟩ := hlen _ List.mem_cons_self
    rw [writeAll, List.mapM_cons]
    refine Ends.bind (h.write_ends source r (hkind _ List.mem_cons_self) hpos hlt (by omega)) ?_
    intro out t hout
    by_cases hok : out = succeeded record.2
    · obtain ⟨hfits, ht⟩ := hout hok
      refine Ends.bind (ih ht (fun x hx => hkind x (List.mem_cons_of_mem _ hx))
        (fun x hx => hlen x (List.mem_cons_of_mem _ hx)) (by omega)) ?_
      intro outs u hu hall
      exact List.forall_mem_cons.mpr ⟨hfits, hu (List.cons.inj hall).2⟩
    · refine Ends.bind (Ends.trivial _ t) ?_
      intro outs u _ hall
      exact absurd (List.cons.inj hall).1 hok

end AtForm

end Session

end DataTransfer
