import DataTransfer.Proofs.Unit.Session

/-!
Output from the start of a record on. Whatever pieces it comes in, they stand in the file one behind
the other, from the place where the data of the record starts.
-/

namespace DataTransfer.Session

variable {s : Session} {system : System} {n : ℕ} {hn : n < system.files.nodes.length}
variable {path : String} {content written : Bytes}

def afterOutput (s : Session) (w : Windowed Channel) (count : ℕ) : Session :=
  { s.withChannel w with
    unit := (s.withChannel w).unit.setConnection fun c =>
      { c with position := count, furthest := count } }

structure Putting (hn : n < system.files.nodes.length) (path : String) (s : Session)
    (content written : Bytes) : Prop where
  holds : s.channel.Holds (system.device hn path) (content.put s.unit.dataOffset written)
  position_eq : s.unit.connection.position = written.length
  furthest_eq : s.unit.connection.furthest = written.length
  isInput_eq : s.unit.statement.isInput = false
  inError_eq : s.handler.inError = false

namespace Putting

theorem afterOutput_eq (h : Putting hn path s content written) :
    s.afterOutput s.channel written.length = s := by
  have hconnection (c : Connection) (hp : c.position = written.length)
      (hf : c.furthest = written.length) :
      { c with position := written.length, furthest := written.length } = c := by
    obtain ⟨⟩ := c
    cases hp
    cases hf
    rfl
  change { s with unit := { s.unit with connection :=
    { s.unit.connection with position := written.length, furthest := written.length } } } = s
  rw [hconnection _ h.position_eq h.furthest_eq]

theorem putData_succeeds (h : Putting hn path s content written) {data : Bytes}
    (hfits : ∀ length, s.unit.connection.fixedRecordLength = some length →
      (written ++ data).length ≤ length)
    (hsize : s.unit.dataOffset + (written ++ data).length < FileSystem.offsetLimit) :
    Succeeds (putData data) s fun _ t => (∃ w, t = s.afterOutput w (written ++ data).length) ∧
      Putting hn path t content (written ++ data) := by
  have hlength : written.length + data.length = (written ++ data).length :=
    List.length_append.symm
  have hfurthest : max written.length (written.length + data.length) = (written ++ data).length :=
    hlength ▸ max_eq_right (Nat.le_add_right _ _)
  have hoverrun : ¬ s.unit.connection.fixedRecordLength.any (· < (written ++ data).length) = true := by
    intro hany
    obtain ⟨length, hfixed, hlt⟩ := (Option.any_eq_true _ _).mp hany
    exact absurd (hfits length hfixed) (by simpa using hlt)
  simp only [putData, attempts_get, h.isInput_eq, Bool.false_eq_true, if_false]
  apply Attempts.bind (requireWritable_succeeds h.holds)
  rintro _ t ht
  rw [ht]
  simp only [attempts_get, h.position_eq, h.furthest_eq, hfurthest, if_neg hoverrun, lt_irrefl,
    decide_false, Bool.false_and, Bool.false_eq_true, if_false]
  have hstep : Completes (Windowed.write (s.unit.dataOffset + written.length) data) s.channel
      fun _ w => w.Holds (system.device hn path)
        (content.put s.unit.dataOffset (written ++ data)) := by
    rw [← Bytes.put_append]
    exact h.holds.write_file data (by omega)
  apply Attempts.bind (windowed_succeeds hstep)
  rintro _ _ ⟨w, hw, rfl⟩
  refine (modifyConnection_succeeds _).mono ?_ fun _ _ => id
  rintro _ _ rfl
  rw [hlength]
  exact ⟨⟨w, rfl⟩, hw, rfl, rfl, h.isInput_eq, h.inError_eq⟩

theorem emit_completes (h : Putting hn path s content written) (data : Bytes)
    (hfits : ∀ length, s.unit.connection.fixedRecordLength = some length →
      (written ++ data).length ≤ length)
    (hsize : s.unit.dataOffset + (written ++ data).length < FileSystem.offsetLimit) :
    Completes (emit data) s fun ok t => ok = true ∧
      (∃ w, t = s.afterOutput w (written ++ data).length) ∧
        Putting hn path t content (written ++ data) := by
  refine report_completes ((h.putData_succeeds hfits hsize).mono ?_ fun _ _ => False.elim)
  intro _ t ht
  refine ⟨?_, ht⟩
  rw [ht.2.inError_eq]
  rfl

theorem emits_complete (chunks : List Bytes) (h : Putting hn path s content written)
    (hfits : ∀ length, s.unit.connection.fixedRecordLength = some length →
      (written ++ chunks.flatten).length ≤ length)
    (hsize : s.unit.dataOffset + (written ++ chunks.flatten).length < FileSystem.offsetLimit) :
    Completes (chunks.mapM emit) s fun oks t => oks = chunks.map (fun _ => true) ∧
      (∃ w, t = s.afterOutput w (written ++ chunks.flatten).length) ∧
        Putting hn path t content (written ++ chunks.flatten) := by
  induction chunks generalizing s written with
  | nil =>
    rw [List.flatten_nil, List.append_nil]
    exact ⟨rfl, ⟨s.channel, h.afterOutput_eq.symm⟩, h⟩
  | cons data chunks ih =>
    rw [List.flatten_cons, ← List.append_assoc] at hfits hsize ⊢
    rw [List.mapM_cons]
    refine Ends.bind (h.emit_completes data ?_ ?_) ?_
    · intro length hfixed
      have hle := hfits length hfixed
      rw [List.length_append] at hle
      omega
    · rw [List.length_append] at hsize
      omega
    rintro _ _ ⟨rfl, ⟨w, rfl⟩, ht⟩
    apply Ends.bind (ih ht hfits hsize)
    rintro _ _ ⟨rfl, ⟨w', rfl⟩, hu⟩
    exact ⟨rfl, ⟨w', rfl⟩, hu⟩

end Putting

/-! ### The end of a record -/

/-- The current output record can be completed: it takes `stride` bytes of the file, which then holds
this content. -/
def CompletesRecord (F : FlatDevice Channel) (s : Session) (stride : ℕ) (content : Bytes) : Prop :=
  Succeeds completeRecord s fun got t => got = stride ∧
    ∃ w, w.Holds F content ∧ t = s.withChannel w

section

variable {c : Channel} {hc : c.AttachedTo n} (h : s.channel.Holds hc.device content)
include h

theorem completesRecord_fixed {length : ℕ}
    (hfixed : s.unit.connection.fixedRecordLength = some length)
    (hfull : s.unit.connection.formatted = false ∨ length ≤ s.unit.connection.furthest) :
    CompletesRecord hc.device s length content := by
  have hno : ¬ (s.unit.connection.formatted && s.unit.connection.furthest < length) = true := by
    rcases hfull with hformatted | hle
    · simp [hformatted]
    · simp [hle]
  refine (attempts_get _).mpr ?_
  dsimp only
  rw [hfixed]
  dsimp only
  rw [if_neg hno]
  exact ⟨rfl, s.channel, h, rfl⟩

theorem completesRecord_fill {length : ℕ}
    (hfixed : s.unit.connection.fixedRecordLength = some length)
    (hformatted : s.unit.connection.formatted = true)
    (hshort : s.unit.connection.furthest < length)
    (hsize : s.unit.offset + length < FileSystem.offsetLimit) :
    CompletesRecord hc.device s length
      (content.put (s.unit.offset + s.unit.connection.furthest)
        (.fill (length - s.unit.connection.furthest) blank)) := by
  refine (attempts_get _).mpr ?_
  dsimp only
  rw [hfixed]
  dsimp only
  rw [if_pos (by simp [hformatted, hshort])]
  refine Attempts.bind (windowed_succeeds (hc.write_completes h _ ?_)) ?_
  · rw [Bytes.length_fill]
    omega
  rintro _ _ ⟨w, hw, rfl⟩
  exact ⟨rfl, w, hw, rfl⟩

theorem completesRecord_line (hfixed : s.unit.connection.fixedRecordLength = none)
    (hformatted : s.unit.connection.formatted = true)
    (hsize : s.unit.offset + (s.unit.connection.furthest + 1) < FileSystem.offsetLimit) :
    CompletesRecord hc.device s (s.unit.connection.furthest + 1)
      (content.put (s.unit.offset + s.unit.connection.furthest) [newline]) := by
  refine (attempts_get _).mpr ?_
  dsimp only
  rw [hfixed]
  dsimp only
  rw [if_pos hformatted]
  refine Attempts.bind (windowed_succeeds (hc.write_completes h _ hsize)) ?_
  rintro _ _ ⟨w, hw, rfl⟩
  exact ⟨rfl, w, hw, rfl⟩

theorem completesRecord_stream (hfixed : s.unit.connection.fixedRecordLength = none)
    (hformatted : s.unit.connection.formatted = false) (haccess : s.unit.connection.access = .stream) :
    CompletesRecord hc.device s s.unit.connection.furthest content := by
  refine (attempts_get _).mpr ?_
  dsimp only
  rw [hfixed]
  dsimp only
  rw [hformatted, if_neg Bool.false_ne_true, if_pos haccess]
  exact ⟨rfl, s.channel, h, rfl⟩

/-- Any other unformatted record gets its markers, the header at its start and the footer behind its
data. -/
theorem completesRecord_markers (hfixed : s.unit.connection.fixedRecordLength = none)
    (hformatted : s.unit.connection.formatted = false) (haccess : s.unit.connection.access ≠ .stream)
    (hshort : s.unit.connection.furthest < 2 ^ 32)
    (hsize : s.unit.offset + (2 * ExternalUnit.markerBytes + s.unit.connection.furthest) <
      FileSystem.offsetLimit) :
    CompletesRecord hc.device s (2 * ExternalUnit.markerBytes + s.unit.connection.furthest)
      ((content.put s.unit.offset
          (.littleEndian ExternalUnit.markerBytes s.unit.connection.furthest)).put
        (s.unit.offset + ExternalUnit.markerBytes + s.unit.connection.furthest)
        (.littleEndian ExternalUnit.markerBytes s.unit.connection.furthest)) := by
  have hlt : ¬ 256 ^ ExternalUnit.markerBytes ≤ s.unit.connection.furthest := by
    have : 256 ^ ExternalUnit.markerBytes = 2 ^ 32 := by decide
    omega
  have hmarker : (Bytes.littleEndian ExternalUnit.markerBytes s.unit.connection.furthest).length =
      ExternalUnit.markerBytes := Bytes.length_littleEndian _ _
  refine (attempts_get _).mpr ?_
  dsimp only
  rw [hfixed]
  dsimp only
  rw [hformatted, if_neg Bool.false_ne_true, if_neg haccess, if_neg hlt]
  refine Attempts.bind (windowed_succeeds (hc.write_completes h _ (by omega))) ?_
  rintro _ _ ⟨w, hw, rfl⟩
  refine Attempts.bind (windowed_succeeds (hc.write_completes hw _ (by omega))) ?_
  rintro _ _ ⟨w', hw', rfl⟩
  exact ⟨rfl, w', hw', rfl⟩

end

/-- The session on the next record, behind `stride` more bytes of the file. -/
def onNextRecord (s : Session) (w : Windowed Channel) (stride : ℕ) : Session :=
  { s.withChannel w with
    unit := nextRecord { (s.withChannel w).unit with offset := s.unit.offset + stride } }

/-- A WRITE goes on to the next record when it has completed the current one. -/
theorem CompletesRecord.advance_completes {c : Channel} {stride : ℕ} (hc : c.OpenTo n)
    (h : CompletesRecord hc.device s stride content) (hreading : s.unit.reading = false) :
    Completes advance s fun ok t => ok = (!s.handler.inError) ∧
      ∃ w, w.Holds hc.device content ∧ t = s.onNextRecord w stride := by
  refine report_completes (Attempts.mono (P := fun _ t =>
    ∃ w, w.Holds hc.device content ∧ t = s.onNextRecord w stride) ?_ ?_ fun _ _ => False.elim)
  · simp only [advanceRecord, attempts_get, hreading, Bool.false_eq_true, if_false]
    apply Attempts.bind h
    rintro _ _ ⟨rfl, w, hw, rfl⟩
    apply Attempts.bind (modifyUnit_succeeds _)
    rintro _ _ rfl
    have hposition : w.device.attachment.mayPosition = true := by
      rw [hc.attachment_eq hw]
      exact hc.mayPosition
    simp only [attempts_get, withChannel, hposition]
    refine (modifyUnit_succeeds _).mono ?_ fun _ _ => id
    rintro _ _ rfl
    exact ⟨w, hw, rfl⟩
  · rintro _ _ ⟨w, hw, rfl⟩
    exact ⟨rfl, w, hw, rfl⟩

/-! ### WRITE statements -/

/-- A WRITE that has put nothing yet. -/
structure Writing (hn : n < system.files.nodes.length) (path : String) (s : Session)
    (content : Bytes) : Prop where
  holds : s.channel.Holds (system.device hn path) content
  position_eq : s.unit.connection.position = 0
  furthest_eq : s.unit.connection.furthest = 0
  nonAdvancing_eq : s.unit.connection.nonAdvancing = false
  reading_eq : s.unit.reading = false
  direction_eq : s.unit.statement.direction? = some .output
  status_eq : s.handler.status = .ok

namespace Writing

theorem putting (h : Writing hn path s content) : Putting hn path s content [] where
  holds := h.holds
  position_eq := h.position_eq
  furthest_eq := h.furthest_eq
  isInput_eq := by
    rw [StatementState.isInput, h.direction_eq]
    rfl
  inError_eq := by
    rw [Handler.inError, h.status_eq]
    rfl

theorem finish_completes (h : Writing hn path s content) {data content' : Bytes}
    {w : Windowed Channel} {stride : ℕ}
    (hcompletes : CompletesRecord (system.device hn path) (s.afterOutput w data.length) stride content') :
    Completes finish (s.afterOutput w data.length) fun status u => status = .ok ∧
      ∃ w, w.Holds (system.device hn path) content' ∧
        u = ((s.afterOutput w data.length).onNextRecord w stride).ended := by
  have htransfer : s.unit.statement.isTransfer = true := by
    rw [StatementState.isTransfer, h.direction_eq]
    rfl
  have hadvance : Completes advance (s.afterOutput w data.length) fun ok t =>
      ok = (!s.handler.inError) ∧ ∃ w', w'.Holds (system.device hn path) content' ∧
        t = (s.afterOutput w data.length).onNextRecord w' stride :=
    hcompletes.advance_completes (System.openTo hn path) h.reading_eq
  refine finish_of_transfer htransfer h.nonAdvancing_eq ?_
  refine hadvance.mono ?_ fun _ _ => id
  rintro _ _ ⟨-, w', hw', rfl⟩
  refine ⟨?_, h.status_eq, w', hw', rfl⟩
  change w'.device.attachment.isTerminal = false
  rw [hw'.attachment_eq]
  rfl

theorem emits_complete (h : Writing hn path s content) (chunks : List Bytes)
    (hfits : ∀ length, s.unit.connection.fixedRecordLength = some length →
      chunks.flatten.length ≤ length)
    (hsize : s.unit.dataOffset + chunks.flatten.length < FileSystem.offsetLimit) {stride : ℕ}
    {content' : Bytes}
    (hcompletes : ∀ w, w.Holds (system.device hn path)
        (content.put s.unit.dataOffset chunks.flatten) →
      CompletesRecord (system.device hn path) (s.afterOutput w chunks.flatten.length) stride content') :
    Completes (chunks.mapM emit) s fun oks t => oks = chunks.map (fun _ => true) ∧
      Completes finish t fun status u => status = .ok ∧
        ∃ w, w.Holds (system.device hn path) content' ∧
          u = ((s.afterOutput w chunks.flatten.length).onNextRecord w stride).ended := by
  refine (h.putting.emits_complete chunks hfits hsize).mono ?_ fun _ _ => id
  rintro _ _ ⟨hoks, ⟨w, rfl⟩, hput⟩
  exact ⟨hoks, h.finish_completes (hcompletes w hput.holds)⟩

end Writing

end DataTransfer.Session
