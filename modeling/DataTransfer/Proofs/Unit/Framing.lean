import DataTransfer.Proofs.Unit.Output

/-!
Unformatted sequential records. A record is written data first, and its two markers when it ends; a
file written so is the concatenation of its framed payloads, and is read back record by record,
however the data was split up in either direction.
-/

namespace DataTransfer

def frame (payload : Bytes) : Bytes :=
  Bytes.littleEndian 4 payload.length ++ payload ++ Bytes.littleEndian 4 payload.length

def frames (payloads : List Bytes) : Bytes := (payloads.map frame).flatten

theorem frames_cons (payload : Bytes) (payloads : List Bytes) :
    frames (payload :: payloads) = frame payload ++ frames payloads := rfl

theorem frames_singleton (payload : Bytes) : frames [payload] = frame payload :=
  List.append_nil _

theorem frames_append (first second : List Bytes) :
    frames (first ++ second) = frames first ++ frames second := by
  rw [frames, List.map_append, List.flatten_append]
  rfl

@[simp] theorem length_frame (payload : Bytes) : (frame payload).length = payload.length + 8 := by
  simp [frame]
  omega

/-- Data, then the header before it, then the footer behind it make a frame. -/
theorem put_frame (content payload : Bytes) :
    (((content.put (content.length + 4) payload).put content.length
      (.littleEndian 4 payload.length)).put (content.length + 4 + payload.length)
      (.littleEndian 4 payload.length)) = content ++ frame payload := by
  have hfour : (Bytes.littleEndian 4 payload.length).length = 4 := Bytes.length_littleEndian _ _
  have hne : ¬ (4 : ℕ) = 0 := by decide
  refine Bytes.ext_byte ?_ fun i => ?_
  · simp only [Bytes.length_put, List.length_append, length_frame, hfour, if_neg hne]
    split_ifs <;> omega
  · simp only [frame, Bytes.byte_put, Bytes.byte_append, List.length_append, hfour]
    by_cases hi : i < content.length
    · rw [if_neg (by omega), if_neg (by omega), if_neg (by omega), if_pos hi]
    · rw [if_neg hi, Bytes.byte_of_length_le (not_lt.mp hi)]
      have hbehind (j : ℕ) (hj : 4 ≤ j) : (Bytes.littleEndian 4 payload.length).byte j = 0 :=
        Bytes.byte_of_length_le (hfour.trans_le hj)
      split_ifs <;> first | rfl | omega | (congr 1; omega) | exact (hbehind _ (by omega)).symm

namespace Session

structure Unformatted (c : Connection) : Prop where
  access : c.access = .sequential
  formatted : c.formatted = false
  fixedLength : c.fixedLength = false
  nonAdvancing : c.nonAdvancing = false

namespace Unformatted

variable {c : Connection} (h : Unformatted c)
include h

theorem hasMarkers : ExternalUnit.hasMarkers c = true := by
  simp [ExternalUnit.hasMarkers, h.access, h.formatted, h.fixedLength]

theorem fixedRecordLength : c.fixedRecordLength = none := by
  simp [Connection.fixedRecordLength, h.fixedLength]

end Unformatted

section

variable {s : Session} {system : System} {n : ℕ} {hn : n < system.files.nodes.length}
variable {path : String} {content written : Bytes}

/-- A unit at the start of the record at `offset`, with no statement in progress. -/
structure AtRecord (hn : n < system.files.nodes.length) (path : String) (s : Session)
    (offset : ℕ) (content : Bytes) : Prop where
  holds : s.channel.Holds (system.device hn path) content
  form : Unformatted s.unit.connection
  offset_eq : s.unit.offset = offset
  position_eq : s.unit.connection.position = 0
  furthest_eq : s.unit.connection.furthest = 0
  located_eq : s.unit.located = false

theorem AtRecord.ended {offset : ℕ} (h : AtRecord hn path s offset content) :
    AtRecord hn path s.ended offset content :=
  { h with form := { h.form with nonAdvancing := rfl } }

theorem AtRecord.begun {offset : ℕ} {kind : StatementKind} {source : SourceLine} {r : Receivers}
    {t : Session} (h : AtRecord hn path s offset content) (ht : s.Begun kind source r t) :
    AtRecord hn path t offset content := by
  obtain ⟨hholds, hform, hoffset, hposition, hfurthest, hlocated⟩ := h
  rw [← ht.channel_eq] at hholds
  refine ⟨hholds, ?_, ?_, ?_, ?_, ?_⟩ <;> rw [ht.unit_eq] <;> assumption

theorem AtRecord.isOpen {offset : ℕ} (h : AtRecord hn path s offset content) :
    s.unit.isOpen = true := by
  rw [ExternalUnit.isOpen, attachment_eq h.holds]
  rfl

/-! ### Output -/

theorem AtRecord.dataOffset_eq (h : AtRecord hn path s content.length content) :
    s.unit.dataOffset = content.length + 4 := by
  rw [ExternalUnit.dataOffset, h.form.hasMarkers, if_pos rfl, h.offset_eq]
  rfl

/-- The markers are put around the data when the record ends. -/
theorem AtRecord.completesRecord (h : AtRecord hn path s content.length content)
    {w : Windowed Channel}
    (hw : w.Holds (system.device hn path) (content.put (content.length + 4) written))
    (hlen : written.length < 2 ^ 32)
    (hsize : content.length + (8 + written.length) < FileSystem.offsetLimit) :
    CompletesRecord (system.device hn path) (s.afterOutput w written.length) (8 + written.length)
      (content ++ frame written) := by
  have hheld : (s.afterOutput w written.length).channel.Holds (system.device hn path)
      (content.put (content.length + 4) written) := hw
  have hoffset : (s.afterOutput w written.length).unit.offset = content.length := h.offset_eq
  have haccess : s.unit.connection.access ≠ .stream := by
    rw [h.form.access]
    decide
  have hmarkers := completesRecord_markers hheld h.form.fixedRecordLength h.form.formatted haccess hlen
    (by rw [hoffset]; exact hsize)
  rw [hoffset] at hmarkers
  rw [← put_frame]
  exact hmarkers

theorem write_completes (source : SourceLine) (r : Receivers) {chunks : List Bytes}
    (h : AtRecord hn path s content.length content) (hreading : s.unit.reading = false)
    (hlen : chunks.flatten.length < 2 ^ 32)
    (hsize : content.length + 8 + chunks.flatten.length < FileSystem.offsetLimit) :
    Completes (statement (.unformatted .output) source r (chunks.mapM emit)) s fun out t =>
      out = (chunks.map (fun _ => true), .ok) ∧ t.unit.reading = false ∧
        AtRecord hn path t (content ++ frame chunks.flatten).length
          (content ++ frame chunks.flatten) := by
  refine statement_completes (begin_of_same r (fun _ => rfl) h.isOpen hreading.symm) ?_
  intro t ht
  have hbegun := h.begun ht
  have hturned : t.unit.reading = false := by
    rw [ht.unit_eq]
    exact hreading
  have hwriting : Writing hn path t content := by
    refine ⟨hbegun.holds, hbegun.position_eq, hbegun.furthest_eq, hbegun.form.nonAdvancing, hturned,
      ?_, ?_⟩
    · rw [ht.unit_eq]
      rfl
    · rw [ht.handler_eq]
      rfl
  have hcompletes (w : Windowed Channel)
      (hw : w.Holds (system.device hn path) (content.put t.unit.dataOffset chunks.flatten)) :
      CompletesRecord (system.device hn path) (t.afterOutput w chunks.flatten.length)
        (8 + chunks.flatten.length) (content ++ frame chunks.flatten) := by
    rw [hbegun.dataOffset_eq] at hw
    exact hbegun.completesRecord hw hlen (by omega)
  refine (hwriting.emits_complete chunks ?_ ?_ hcompletes).mono ?_ fun _ _ => id
  · intro length hfixed
    rw [hbegun.form.fixedRecordLength] at hfixed
    cases hfixed
  · rw [hbegun.dataOffset_eq]
    omega
  rintro _ _ ⟨rfl, hfinish⟩
  refine hfinish.mono ?_ fun _ _ => id
  rintro _ _ ⟨rfl, w, hw, rfl⟩
  refine ⟨rfl, hturned, AtRecord.ended ⟨hw, { hbegun.form with }, ?_, rfl, rfl, hbegun.located_eq⟩⟩
  change t.unit.offset + _ = _
  rw [hbegun.offset_eq, List.length_append, length_frame, Nat.add_comm 8]

theorem writes_complete (source : SourceLine) (r : Receivers) (records : List (List Bytes))
    (h : AtRecord hn path s content.length content) (hreading : s.unit.reading = false)
    (hlen : ∀ chunks ∈ records, chunks.flatten.length < 2 ^ 32)
    (hsize : (content ++ frames (records.map List.flatten)).length < FileSystem.offsetLimit) :
    Completes (records.mapM fun chunks =>
        statement (.unformatted .output) source r (chunks.mapM emit)) s fun outs t =>
      outs = records.map (fun chunks => (chunks.map (fun _ => true), .ok)) ∧
        t.channel.Holds (system.device hn path) (content ++ frames (records.map List.flatten)) := by
  induction records generalizing s content with
  | nil => exact ⟨rfl, by simpa [frames] using h.holds⟩
  | cons chunks records ih =>
    have hframes : content ++ frames ((chunks :: records).map List.flatten) =
        content ++ frame chunks.flatten ++ frames (records.map List.flatten) := by
      simp [frames]
    rw [hframes] at hsize ⊢
    have hsize' := hsize
    simp only [List.length_append, length_frame] at hsize'
    rw [List.mapM_cons]
    apply Ends.bind (write_completes source r h hreading
      (hlen chunks List.mem_cons_self) (by omega))
    rintro _ t ⟨rfl, ht, hat⟩
    apply Ends.bind (ih hat ht (fun x hx => hlen x (List.mem_cons_of_mem _ hx)) hsize)
    rintro _ u ⟨rfl, hu⟩
    exact ⟨rfl, hu⟩

end

end Session

end DataTransfer
