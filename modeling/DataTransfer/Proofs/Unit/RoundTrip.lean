import Mathlib
import DataTransfer.Proofs.Unit.Reading

/-!
The round trip of unformatted sequential files: what WRITEs leave on disk, and what READs of it
answer after the file has been opened again.
-/

namespace DataTransfer.Session

/-- OPEN of a file for unformatted sequential access, some work on it, and CLOSE. -/
def onFile {α : Type} (status : OpenStatus) (path : String) (source : SourceLine) (r : Receivers)
    (work : Act Session α) : Act Session ((Bool × Iostat) × α × (Bool × Iostat)) := do
  let opened ← statement .connect source r
    (openUnit status .asIs (some path) { formatted := false })
  let a ← work
  let closed ← statement .disconnect source r (closeUnit .keep)
  return (opened, a, closed)

/-- One WRITE for each record, which puts the record in pieces. -/
def writeRecords (source : SourceLine) (r : Receivers) (records : List (List Bytes)) :
    Act Session (List (List Bool × Iostat)) :=
  records.mapM fun chunks => statement (.unformatted .output) source r (chunks.mapM emit)

/-- One READ for each list of counts, which receives as many bytes at a time. -/
def readRecords (source : SourceLine) (r : Receivers) (reads : List (List ℕ)) :
    Act Session (List (List (Bool × Option Bytes) × Iostat)) :=
  reads.mapM fun counts => statement (.unformatted .input) source r (counts.mapM receive)

section

variable {s : Session} {status : OpenStatus} {path : String} {n : ℕ} {files : FileSystem}

/-- Work on a file starts at its first record, and what the unit then holds is in the file after the
CLOSE. -/
theorem onFile_completes {α : Type} {source : SourceLine} {r : Receivers} {work : Act Session α}
    {P : α → Bytes → Prop} (hclosed : s.unit.isOpen = false) (hstatus : status ≠ .scratch)
    (hopen : s.system.files.open_ path (Channel.request status) = .ok (.node n, files))
    (hn : n < ({ s.system with files } : System).files.nodes.length)
    (hwork : ∀ t, AtRecord hn path t 0 (files.contentAt n) → t.unit.reading = false →
      t.unit.connection.endRecord = none →
      Completes work t fun a u =>
        ∃ content, P a content ∧ u.channel.Holds (System.device hn path) content) :
    Completes (onFile status path source r work) s fun out t =>
      ∃ content, out.1 = (true, .ok) ∧ P out.2.1 content ∧ out.2.2 = (true, .ok) ∧
        t.system = System.withContent { s.system with files } n content := by
  apply Ends.bind (open_completes _ source r hclosed hstatus hopen)
  rintro _ t ⟨rfl, hsystem, hunit⟩
  have hchannel : t.channel = ⟨⟨{ s.system with files }, .ofFile path n⟩, { offset := 0 }⟩ := by
    rw [channel, hsystem, hunit]
    rfl
  have hstart : AtRecord hn path t 0 (files.contentAt n) := by
    refine ⟨?_, ?_, ?_, ?_, ?_, ?_⟩
    · rw [hchannel]
      exact System.holds_opened 0
    · rw [hunit]
      exact ⟨rfl, rfl, rfl, rfl⟩
    all_goals rw [hunit]; rfl
  apply Ends.bind (hwork t hstart (by rw [hunit]; rfl) (by rw [hunit]; rfl))
  rintro a u ⟨content, ha, hu⟩
  apply Ends.bind (close_completes source r hu)
  rintro _ v ⟨rfl, hsystem', -⟩
  exact ⟨content, rfl, ha, rfl, hsystem'⟩

theorem written_on_file (hclosed : s.unit.isOpen = false) (hstatus : status ≠ .scratch)
    (hopen : s.system.files.open_ path (Channel.request status) = .ok (.node n, files))
    (hn : n < files.nodes.length) (hempty : files.contentAt n = []) (source : SourceLine)
    (r : Receivers) (records : List (List Bytes))
    (hlen : ∀ chunks ∈ records, chunks.flatten.length < 2 ^ 32)
    (hsize : (frames (records.map List.flatten)).length < FileSystem.offsetLimit) :
    Completes (onFile status path source r (writeRecords source r records)) s fun out t =>
      out = ((true, .ok), records.map (fun chunks => (chunks.map fun _ => true, .ok)), (true, .ok)) ∧
        t.system.files = files.setContent (.node n) (frames (records.map List.flatten)) := by
  refine (onFile_completes (P := fun outs content => content = frames (records.map List.flatten) ∧
    outs = records.map (fun chunks => (chunks.map fun _ => true, .ok))) hclosed hstatus hopen hn
    ?_).mono ?_ fun _ _ => id
  · intro t ht hreading _
    rw [hempty] at ht
    have hstart : AtRecord hn path t ([] : Bytes).length [] := ht
    refine (writes_complete source r records hstart hreading hlen hsize).mono ?_ fun _ _ => id
    rintro _ u ⟨rfl, hu⟩
    exact ⟨_, ⟨rfl, rfl⟩, hu⟩
  · rintro ⟨_, _, _⟩ t ⟨_, rfl, ⟨rfl, rfl⟩, rfl, hsystem⟩
    exact ⟨rfl, congrArg System.files hsystem⟩

theorem read_from_file (hclosed : s.unit.isOpen = false) (hstatus : status = .old ∨ status = .unknown)
    (hleads : s.system.files.LeadsTo path n) {payloads : List Bytes}
    (hcontent : s.system.files.contentAt n = frames payloads) (source : SourceLine) (r : Receivers)
    (reads : List (List ℕ)) (hlen : ∀ payload ∈ payloads, payload.length < 2 ^ 32)
    (hsize : (frames payloads).length < FileSystem.offsetLimit)
    (hadmits : ∀ answer ∈ readBack payloads reads, r.admits answer.2 = true) :
    Completes (onFile status path source r (readRecords source r reads)) s fun out t =>
      out = ((true, .ok), readBack payloads reads, (true, .ok)) ∧ t.system = s.system := by
  obtain ⟨hnamed, hopen⟩ := hleads.reopen hstatus
  refine (onFile_completes (P := fun outs content =>
    content = frames payloads ∧ outs = readBack payloads reads) hclosed hnamed hopen hleads.lt_length
    ?_).mono ?_ fun _ _ => id
  · intro t ht _ hend
    rw [hcontent] at ht
    have hstart : AtRecord hleads.lt_length path t ([] : Bytes).length ([] ++ frames payloads) := ht
    refine (reads_complete source payloads reads hstart (.inr hend) hlen hsize hadmits).mono ?_
      fun _ _ => id
    rintro _ u ⟨rfl, hu⟩
    exact ⟨_, ⟨rfl, rfl⟩, hu⟩
  · rintro ⟨_, _, _⟩ t ⟨_, rfl, ⟨rfl, rfl⟩, rfl, hsystem⟩
    rw [hsystem, System.withContent, ← hcontent, FileSystem.setContent_contentAt]
    exact ⟨rfl, rfl⟩

/-- A file that one WRITE for each record has made holds the framed records and nothing else. Opened
again it gives each record to one READ, whatever this receives of it, and then its end; READs that
receive no more and no less than there is get the records back. -/
theorem unformatted_round_trip (hclosed : s.unit.isOpen = false) (hstatus : status ≠ .scratch)
    (hopen : s.system.files.open_ path (Channel.request status) = .ok (.node n, files))
    (hempty : files.contentAt n = []) (source : SourceLine) (w : Receivers)
    (records : List (List Bytes)) (hlen : ∀ chunks ∈ records, chunks.flatten.length < 2 ^ 32)
    (hsize : (frames (records.map List.flatten)).length < FileSystem.offsetLimit) :
    Completes (onFile status path source w (writeRecords source w records)) s fun out t =>
      out = ((true, .ok), records.map (fun chunks => (chunks.map fun _ => true, .ok)), (true, .ok)) ∧
      t.system.files.contentOf? path = some (frames (records.map List.flatten)) ∧
      ∀ (t' : Session) (again : OpenStatus) (r : Receivers) (reads : List (List ℕ)),
        t'.system = t.system → t'.unit.isOpen = false → again = .old ∨ again = .unknown →
        (∀ answer ∈ readBack (records.map List.flatten) reads, r.admits answer.2 = true) →
        Completes (onFile again path source r (readRecords source r reads)) t' fun out u =>
          out = ((true, .ok), readBack (records.map List.flatten) reads, (true, .ok)) ∧
            u.system = t.system ∧
            (List.Forall₂ (fun chunks counts => counts.sum = chunks.flatten.length) records reads →
              ∃ again : List (List Bytes),
                again.map List.flatten = records.map List.flatten ∧
                out.2.1 = again.map fun pieces =>
                  (pieces.map fun piece => (true, some piece), .ok)) := by
  have hopened : files.LeadsTo path n := by
    refine FileSystem.leadsTo_of_open ?_ hopen
    cases status <;> rfl
  have hn := hopened.lt_length
  refine (written_on_file hclosed hstatus hopen hn hempty source w records hlen hsize).mono ?_
    fun _ _ => id
  rintro _ t ⟨rfl, hfiles⟩
  obtain ⟨hleads, hcontent, hstored⟩ := hopened.of_rewritten hfiles
  refine ⟨rfl, hstored, ?_⟩
  intro t' again r reads hsame hclosed' hagain hadmits
  rw [← hsame] at hleads hcontent ⊢
  refine (read_from_file hclosed' hagain hleads hcontent source r reads ?_ hsize hadmits).mono ?_
    fun _ _ => id
  · intro payload hpayload
    obtain ⟨chunks, hchunks, rfl⟩ := List.mem_map.mp hpayload
    exact hlen chunks hchunks
  · rintro _ u ⟨rfl, hu⟩
    refine ⟨rfl, hu, ?_⟩
    intro hwhole
    exact readBack_whole (List.forall₂_map_left_iff.mpr hwhole)

/-- Two records, one of them in two pieces, read by READs of too little, of too much and of what is
not there. -/
theorem unformatted_round_trip_two_records :
    Completes (onFile .new "data" {} {} (writeRecords {} {} [[[1], [2, 3]], [[4]]]))
      { system := {}, unit := .new 10 256 } fun _ t =>
        t.system.files.contentOf? "data" =
            some [3, 0, 0, 0, 1, 2, 3, 3, 0, 0, 0, 1, 0, 0, 0, 4, 1, 0, 0, 0] ∧
          Completes (onFile .old "data" {} { iostat := true }
              (readRecords {} { iostat := true } [[2], [1, 1], []]))
            { system := t.system, unit := .new 11 256 } fun out _ =>
              out = ((true, .ok), [([(true, some [1, 2])], .ok),
                ([(true, some [4]), (false, none)], .recordReadOverrun), ([], .endOfFile)],
                (true, .ok)) := by
  have hopen : ({} : FileSystem).open_ "data" (Channel.request .new) =
      .ok (.node 0, { nodes := [{}], names := [(["data"], 0)] }) := by cbv
  refine (unformatted_round_trip rfl (by decide) hopen rfl {} {} [[[1], [2, 3]], [[4]]] (by decide)
    (by decide)).mono ?_ fun _ _ => id
  rintro _ t ⟨-, hcontent, hread⟩
  refine ⟨hcontent, ?_⟩
  refine (hread { system := t.system, unit := .new 11 256 } .old { iostat := true }
    [[2], [1, 1], []] rfl rfl (.inl rfl) (by decide)).mono ?_ fun _ _ => id
  rintro _ _ ⟨rfl, -⟩
  rfl

end

end DataTransfer.Session
