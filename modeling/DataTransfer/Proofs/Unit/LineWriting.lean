import DataTransfer.Proofs.Unit.LineSearch
import DataTransfer.Proofs.Unit.Output

/-!
Formatted WRITEs behind the last line of a file. Each puts one line there, and a newline when it
ends.
-/

namespace DataTransfer

def terminated (records : List Bytes) : Bytes := (records.map (· ++ [Session.newline])).flatten

theorem terminated_cons (record : Bytes) (records : List Bytes) :
    terminated (record :: records) = record ++ [Session.newline] ++ terminated records := rfl

namespace Session

variable {s : Session} {system : System} {n : ℕ} {hn : n < system.files.nodes.length}
variable {path : String} {content written : Bytes}

/-- A unit that writes, behind all that its file holds. -/
structure AtFileEnd (hn : n < system.files.nodes.length) (path : String) (s : Session)
    (content : Bytes) : Prop where
  holds : s.channel.Holds (system.device hn path) content
  form : Formatted s.unit.connection
  offset_eq : s.unit.offset = content.length
  position_eq : s.unit.connection.position = 0
  furthest_eq : s.unit.connection.furthest = 0
  reading_eq : s.unit.reading = false

namespace AtFileEnd

theorem isOpen (h : AtFileEnd hn path s content) : s.unit.isOpen = true := by
  rw [ExternalUnit.isOpen, attachment_eq h.holds]
  rfl

theorem ended (h : AtFileEnd hn path s content) : AtFileEnd hn path s.ended content :=
  { h with form := { h.form with nonAdvancing := rfl } }

theorem begun {kind : StatementKind} {source : SourceLine} {r : Receivers} {t : Session}
    (h : AtFileEnd hn path s content) (ht : s.Begun kind source r t) :
    AtFileEnd hn path t content := by
  obtain ⟨hholds, hform, hoffset, hposition, hfurthest, hreading⟩ := h
  rw [← ht.channel_eq] at hholds
  refine ⟨hholds, ?_, ?_, ?_, ?_, ?_⟩ <;> rw [ht.unit_eq] <;> assumption

theorem dataOffset_eq (h : AtFileEnd hn path s content) : s.unit.dataOffset = content.length := by
  rw [ExternalUnit.dataOffset_of_formatted h.form.formatted, h.offset_eq]

theorem completesRecord (h : AtFileEnd hn path s content) {w : Windowed Channel}
    (hw : w.Holds (system.device hn path) (content ++ written))
    (hsize : (content ++ (written ++ [newline])).length < FileSystem.offsetLimit) :
    CompletesRecord (system.device hn path) (s.afterOutput w written.length) (written.length + 1)
      (content ++ (written ++ [newline])) := by
  have hheld : (s.afterOutput w written.length).channel.Holds (system.device hn path)
      (content ++ written) := hw
  have hoffset : (s.afterOutput w written.length).unit.offset = content.length := h.offset_eq
  have hend : content.length + (written.length + 1) < FileSystem.offsetLimit := by simpa using hsize
  have hline := completesRecord_line hheld h.form.fixedRecordLength h.form.formatted
    (by rw [hoffset]; exact hend)
  have hstop : (s.afterOutput w written.length).unit.offset +
      (s.afterOutput w written.length).unit.connection.furthest = (content ++ written).length := by
    rw [hoffset, List.length_append]
    rfl
  rw [hstop, Bytes.put_length, List.append_assoc] at hline
  exact hline

theorem appends_line {α : Type} {kind : StatementKind} {work : Act Session α} {answer : α}
    {data : Bytes} (h : AtFileEnd hn path s content)
    (hkind : ∀ modes, (StatementState.begin_ kind modes).direction? = some .output)
    (hwork : ∀ t, Writing hn path t content → Formatted t.unit.connection →
      t.unit.statement = .begin_ kind s.unit.connection.modes → t.unit.dataOffset = content.length →
      Completes work t fun a u => a = answer ∧ ∃ items w,
        u = { t with items }.afterOutput w data.length ∧
          w.Holds (system.device hn path) (content ++ data))
    (hsize : (content ++ (data ++ [newline])).length < FileSystem.offsetLimit) (source : SourceLine)
    (r : Receivers) :
    Completes (statement kind source r work) s fun out t => out = (answer, .ok) ∧
      AtFileEnd hn path t (content ++ (data ++ [newline])) := by
  refine statement_completes (begin_of_same r hkind h.isOpen h.reading_eq.symm) ?_
  intro t ht
  have hbegun := h.begun ht
  have hwriting : Writing hn path t content := by
    refine ⟨hbegun.holds, hbegun.position_eq, hbegun.furthest_eq, hbegun.form.nonAdvancing,
      hbegun.reading_eq, ?_, ?_⟩
    · rw [ht.unit_eq]
      exact hkind _
    · rw [ht.handler_eq]
      rfl
  refine (hwork t hwriting hbegun.form (by rw [ht.unit_eq]) hbegun.dataOffset_eq).mono ?_
    fun _ _ => id
  rintro _ _ ⟨rfl, items, w, rfl, hw⟩
  -- The number of items is of no account for the line.
  have hitems : AtFileEnd hn path { t with items } content := { hbegun with }
  have hwritten : Writing hn path { t with items } content := { hwriting with }
  refine (hwritten.finish_completes (hitems.completesRecord hw hsize)).mono ?_ fun _ _ => id
  rintro _ _ ⟨rfl, w, hw, rfl⟩
  refine ⟨rfl, AtFileEnd.ended ⟨hw, { hbegun.form with leftTabLimit := rfl }, ?_, rfl, rfl,
    hbegun.reading_eq⟩⟩
  change t.unit.offset + (data.length + 1) = _
  rw [hbegun.offset_eq, List.length_append, List.length_append]
  rfl

theorem appends_lines {α β : Type} {write : β → Act Session α} {answer : β → α} {line : β → Bytes}
    (hwrite : ∀ x s content, AtFileEnd hn path s content →
      (content ++ (line x ++ [newline])).length < FileSystem.offsetLimit →
      Completes (write x) s fun out t => out = answer x ∧
        AtFileEnd hn path t (content ++ (line x ++ [newline]))) (xs : List β)
    (h : AtFileEnd hn path s content)
    (hsize : (content ++ terminated (xs.map line)).length < FileSystem.offsetLimit) :
    Completes (xs.mapM write) s fun outs t => outs = xs.map answer ∧
      AtFileEnd hn path t (content ++ terminated (xs.map line)) := by
  induction xs generalizing s content with
  | nil =>
    refine ⟨rfl, ?_⟩
    rw [List.map_nil, terminated, List.map_nil, List.flatten_nil, List.append_nil]
    exact h
  | cons x xs ih =>
    have hsplit : content ++ terminated ((x :: xs).map line) =
        content ++ (line x ++ [newline]) ++ terminated (xs.map line) := by
      rw [List.map_cons, terminated_cons, List.append_assoc content]
    rw [hsplit] at hsize ⊢
    have hfirst : (content ++ (line x ++ [newline])).length < FileSystem.offsetLimit := by
      rw [List.length_append] at hsize
      omega
    rw [List.mapM_cons]
    apply Ends.bind (hwrite x s content h hfirst)
    rintro _ t ⟨rfl, ht⟩
    apply Ends.bind (ih ht hsize)
    rintro _ u ⟨rfl, hu⟩
    exact ⟨rfl, hu⟩

theorem write_completes (source : SourceLine) (r : Receivers) {chunks : List Bytes}
    (h : AtFileEnd hn path s content)
    (hsize : (content ++ (chunks.flatten ++ [newline])).length < FileSystem.offsetLimit) :
    Completes (statement (.formatted .output) source r (chunks.mapM emit)) s fun out t =>
      out = (chunks.map (fun _ => true), .ok) ∧
        AtFileEnd hn path t (content ++ (chunks.flatten ++ [newline])) := by
  refine h.appends_line (fun _ => rfl) ?_ hsize source r
  intro t ht hform _ hoffset
  have hfits : t.unit.dataOffset + chunks.flatten.length < FileSystem.offsetLimit := by
    rw [hoffset, ← List.length_append]
    rw [← List.append_assoc, List.length_append, List.length_singleton] at hsize
    omega
  refine (ht.putting.emits_complete chunks ?_ hfits).mono ?_ fun _ _ => id
  · intro length hfixed
    rw [hform.fixedRecordLength] at hfixed
    cases hfixed
  rintro _ _ ⟨rfl, ⟨w, rfl⟩, hput⟩
  have hheld : w.Holds (system.device hn path) (content.put t.unit.dataOffset chunks.flatten) :=
    hput.holds
  rw [hoffset, Bytes.put_length] at hheld
  exact ⟨rfl, t.items, w, rfl, hheld⟩

theorem writes_complete (source : SourceLine) (r : Receivers) (records : List (List Bytes))
    (h : AtFileEnd hn path s content)
    (hsize : (content ++ terminated (records.map List.flatten)).length < FileSystem.offsetLimit) :
    Completes (records.mapM fun chunks =>
        statement (.formatted .output) source r (chunks.mapM emit)) s fun outs t =>
      outs = records.map (fun chunks => (chunks.map (fun _ => true), .ok)) ∧
        AtFileEnd hn path t (content ++ terminated (records.map List.flatten)) :=
  appends_lines (fun _ _ _ h hsize => h.write_completes source r hsize) records h hsize

end AtFileEnd

end Session

end DataTransfer
