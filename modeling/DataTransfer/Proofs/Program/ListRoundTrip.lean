import DataTransfer.Proofs.Program.Statements
import DataTransfer.Proofs.Unit.LineRoundTrip
import DataTransfer.Proofs.Unit.ListRecords

/-!
The round trip of integers through a list-directed file: what a program writes with one statement for
each list, it reads again with as many statements of as many items, and then comes the end of the file.
-/

namespace DataTransfer.Program

open Session (listLine)

variable {p : Program} {n : ℤ} {path : String} {k : ℕ} {lists : List (List ℤ)}

/-- OPEN of a file, one list-directed WRITE for each list of values, and CLOSE. -/
def writeLists (n : ℤ) (status : OpenStatus) (path : String) (source : SourceLine) (r : Receivers)
    (lists : List (List ℤ)) :
    Act Program (Option (Bool × Iostat) × List (Option (List Bool × Iostat)) × Option Iostat) := do
  let opened ← statement n .connect source r (Session.openWith { file := some path, status })
  let written ← lists.mapM fun values =>
    statement n (.listDirected .output) source r (values.mapM Session.outputInteger)
  return (opened, written, ← close n .keep source r)

/-- OPEN of an old file, one list-directed READ for each number of items, and a READ of one more. -/
def readLists (n : ℤ) (path : String) (source : SourceLine) (r last : Receivers) (edit : DataEdit)
    (counts : List ℕ) :
    Act Program (Option (Bool × Iostat) × List (Option (List (Option ℤ) × Iostat)) ×
      Option (Option ℤ × Iostat)) := do
  let opened ← statement n .connect source r (Session.openWith { file := some path, status := .old })
  let read ← counts.mapM fun count => statement n (.listDirected .input) source r
    ((List.replicate count edit).mapM (Session.inputInteger · 16))
  let behind ← statement n (.listDirected .input) source last (Session.inputInteger edit 16)
  return (opened, read, behind)

theorem Vacant.writeLists_completes (h : p.Vacant n) {status : OpenStatus} {files : FileSystem}
    (hnew : status = .new ∨ status = .replace ∨
      status = .unknown ∧ p.system.files.contentOf? path = none)
    (hopen : p.system.files.open_ path (Channel.request status) = .ok (.node k, files))
    (hsize : (terminated (lists.map listLine)).length < FileSystem.offsetLimit)
    (source : SourceLine) (r : Receivers) :
    Completes (writeLists n status path source r lists) p fun out q =>
      out = (some (true, .ok), lists.map (fun values => some (values.map fun _ => true, .ok)),
        some .ok) ∧ q.Vacant n ∧ q.system.files.LeadsTo path k ∧
      q.system.files.contentAt k = terminated (lists.map listLine) := by
  have hstatus : status ≠ .scratch := by
    rintro rfl
    simp at hnew
  have hempty : files.contentAt k = [] := by
    refine FileSystem.contentAt_of_open ?_ hopen
    rcases hnew with rfl | rfl | ⟨rfl, hnone⟩
    · exact .inl rfl
    · exact .inr (.inl rfl)
    · exact .inr (.inr hnone)
  have hwrite : (Channel.request status).write = true := by cases status <;> rfl
  have hleads := FileSystem.leadsTo_of_open hwrite hopen
  apply Ends.bind (h.statement_completes
    (Session.open_empty_completes rfl hstatus hopen hempty source r))
  rintro _ p₁ ⟨_, t₁, rfl, ⟨rfl, hsystem₁, hn, hend₁⟩, hp₁⟩
  apply Ends.bind (hp₁.statements_complete (Session.AtFileEnd.appends_lines
    (fun values _ _ hend hsize => hend.list_write_completes source r values hsize) lists hend₁ hsize))
  rintro _ p₂ ⟨_, t₂, rfl, ⟨rfl, hend₂⟩, hp₂⟩
  apply Ends.bind (hp₂.close_completes (Session.close_completes source r hend₂.holds))
  rintro _ q ⟨ok, iostat, t₃, rfl, ⟨⟨rfl, rfl⟩, hsystem₃, -⟩, hvacant, hsystem⟩
  have hfiles : q.system.files = files.setContent (.node k) (terminated (lists.map listLine)) := by
    rw [hsystem, hsystem₃, hsystem₁]
    rfl
  obtain ⟨hleads', hcontent, -⟩ := hleads.of_rewritten hfiles
  refine ⟨?_, hvacant, hleads', hcontent⟩
  rw [List.map_map]
  rfl

theorem Vacant.readLists_completes (h : p.Vacant n) (hleads : p.system.files.LeadsTo path k)
    (hcontent : p.system.files.contentAt k = terminated (lists.map listLine))
    (hvalues : ∀ values ∈ lists, ∀ v ∈ values, -2 ^ 127 ≤ v ∧ v < 2 ^ 127)
    (hsize : (terminated (lists.map listLine)).length < FileSystem.offsetLimit) {edit : DataEdit}
    (hedit : edit.kind = .listDirected) (source : SourceLine) (r : Receivers) {last : Receivers}
    (hlast : last.admits .endOfFile = true) :
    Completes (readLists n path source r last edit (lists.map List.length)) p fun out _ =>
      out = (some (true, .ok), lists.map (fun values => some (values.map some, .ok)),
        some (none, .endOfFile)) := by
  have hchunk : 0 < (ExternalUnit.new n p.readChunk).readChunk := lt_max_of_lt_left Nat.one_pos
  apply Ends.bind (h.statement_completes
    (Session.reopen_completes rfl (.inl rfl) hleads hchunk source r))
  rintro _ p₁ ⟨_, t₁, rfl, ⟨rfl, -, hbetween₁⟩, hp₁⟩
  rw [hcontent] at hbetween₁
  rw [List.mapM_map]
  apply Ends.bind (hp₁.statements_complete
    (hbetween₁.list_records_complete hedit hvalues source r hsize))
  rintro _ p₂ ⟨_, t₂, rfl, ⟨rfl, hbetween₂⟩, hp₂⟩
  apply Ends.bind (hp₂.statement_completes (hbetween₂.end_read_completes source hlast hsize))
  rintro _ q ⟨_, t₃, rfl, ⟨rfl, -⟩, -⟩
  rw [List.map_map]
  rfl

/-- Lists of INTEGER values of 16 bytes, written to a new file with one list-directed WRITE for each
list, are read again, after the file has been closed and opened as an old one, by one list-directed
READ of as many items for each list. A further READ of an item gets the end of the file. -/
theorem integer_lists_round_trip {past : List Directory.Event} (htracks : Directory.Tracks past p)
    (hlive : p.lookUp? n = none) (hclosing : p.closing? n = none) {status : OpenStatus}
    {files : FileSystem}
    (hnew : status = .new ∨ status = .replace ∨
      status = .unknown ∧ p.system.files.contentOf? path = none)
    (hopen : p.system.files.open_ path (Channel.request status) = .ok (.node k, files))
    (lists : List (List ℤ)) (hvalues : ∀ values ∈ lists, ∀ v ∈ values, -2 ^ 127 ≤ v ∧ v < 2 ^ 127)
    (hsize : (terminated (lists.map listLine)).length < FileSystem.offsetLimit) {edit : DataEdit}
    (hedit : edit.kind = .listDirected) (source : SourceLine) (r : Receivers) {last : Receivers}
    (hlast : last.admits .endOfFile = true) :
    Completes (do
        let written ← writeLists n status path source r lists
        return (written, ← readLists n path source r last edit (lists.map List.length))) p
      fun out _ => out =
        ((some (true, .ok), lists.map (fun values => some (values.map fun _ => true, .ok)), some .ok),
          some (true, .ok), lists.map (fun values => some (values.map some, .ok)),
          some (none, .endOfFile)) := by
  have hvacant : p.Vacant n := ⟨⟨past, htracks⟩, hlive, hclosing⟩
  apply Ends.bind (hvacant.writeLists_completes hnew hopen hsize source r)
  rintro _ q ⟨rfl, hq, hleads, hcontent⟩
  apply Ends.bind (hq.readLists_completes hleads hcontent hvalues hsize hedit source r hlast)
  rintro _ _ rfl
  rfl

/-- The smallest value and the largest one, with nothing between them. -/
theorem integer_lists_round_trip_extremes :
    Completes (do
        let written ← writeLists 10 .new "a" {} {} [[-2 ^ 127, 0], [], [2 ^ 127 - 1]]
        return (written, ← readLists 10 "a" {} {} { endOfFile := true } { kind := .listDirected }
          [2, 0, 1])) (.new {} {}) fun out _ => out =
      ((some (true, .ok), [some ([true, true], .ok), some ([], .ok), some ([true], .ok)], some .ok),
        some (true, .ok), [some ([some (-2 ^ 127), some 0], .ok), some ([], .ok),
          some ([some (2 ^ 127 - 1)], .ok)], some (none, .endOfFile)) := by
  have htracks := Directory.tracks_new {} {}
  have hopen : FileSystem.open_ {} "a" (Channel.request .new) =
      .ok (.node 0, { nodes := [{}], names := [(["a"], 0)] }) := by cbv
  exact integer_lists_round_trip htracks (htracks.lookUp_eq 10) (htracks.closing_eq 10) (.inl rfl) hopen
    [[-2 ^ 127, 0], [], [2 ^ 127 - 1]] (by decide) (by cbv) rfl {} {} rfl

end DataTransfer.Program
