import Mathlib
import DataTransfer.Proofs.Unit.LineReading
import DataTransfer.Proofs.Unit.LineWriting

/-!
The round trip of formatted sequential files: what WRITEs append to a file, and what READs of it
answer after it has been opened again.
-/

namespace DataTransfer

/-! ### READs of whole records -/

namespace FormattedRead

/-- A READ that takes its record from the first byte to the last. -/
def TakesAll (read : FormattedRead) : Prop := read.looks = [.chars none]

def wholeAnswer : Option Bytes → List Answer × Iostat
  | some line => ([.chars (line.map fun b => Char.ofNat b.toNat)], .ok)
  | none => ([.chars []], .endOfFile)

end FormattedRead

namespace Card

theorem takeCharsIn_completes {text : Bytes} {fuel position : ℕ} (handler : Handler)
    (hroom : text.length < 2 ^ 63) (hfuel : text.length < position + fuel) :
    Completes (Field.takeCharsIn fuel : Act Card (List Char)) ⟨some text, position, handler⟩
      fun cs c => cs = (text.drop position).map (fun b => Char.ofNat b.toNat) ∧
        c.record = some text ∧ c.handler = handler := by
  induction fuel generalizing position with
  | zero =>
    rw [List.drop_of_length_le (by omega)]
    exact ⟨rfl, rfl, rfl⟩
  | succ fuel ih =>
    have hcurrent : Completes (FieldSource.current : Act Card (Option Char))
        ⟨some text, position, handler⟩ fun ch c =>
          ch = text[position]?.map (fun b => Char.ofNat b.toNat) ∧
            c = ⟨some text, position, handler⟩ := ⟨rfl, rfl⟩
    apply Ends.bind hcurrent
    rintro _ _ ⟨rfl, rfl⟩
    rcases Nat.lt_or_ge position text.length with hin | hout
    · rw [List.getElem?_eq_getElem hin, List.drop_eq_getElem_cons hin]
      have hmove : Completes (FieldSource.moveBy 1 : Act Card Unit)
          ⟨some text, position, handler⟩ fun _ c => c = ⟨some text, position + 1, handler⟩ :=
        Card.moved_one (by change position + 1 < _; omega)
      apply Ends.bind hmove
      rintro _ _ rfl
      apply Ends.bind (ih (by omega))
      rintro cs c ⟨rfl, hc⟩
      exact ⟨rfl, hc⟩
    · rw [List.getElem?_eq_none hout, List.drop_of_length_le hout]
      exact ⟨rfl, rfl, rfl⟩

end Card

/-- A READ that takes all of its record gets it, or the end of the file. -/
theorem FormattedRead.TakesAll.eq_of_sees {read : FormattedRead} (h : read.TakesAll)
    (hreceivers : read.receivers.admits .endOfFile = true) {record : Option Bytes}
    (hroom : ∀ line ∈ record, line.length < 2 ^ 63) {out : List Answer × Iostat}
    (hsees : read.Sees record out) : out = wholeAnswer record := by
  unfold TakesAll at h
  cases record with
  | some line =>
    obtain ⟨card, hrun⟩ := hsees
    -- One more round than there are characters: the last finds the end of the record.
    have hfuel : line.length < 0 + (line.length + 1) := by omega
    have hwhole : Ends read.onCard (read.start (some line))
        (fun out _ => out = wholeAnswer (some line)) fun _ _ => False := by
      rw [onCard, h, List.mapM_cons, List.mapM_nil]
      refine Ends.bind (P := fun answers c => answers = (wholeAnswer (some line)).1 ∧
        c.record = some line ∧ c.handler.status = .ok) ?_ ?_
      · refine Ends.bind (P := fun answer c => [answer] = (wholeAnswer (some line)).1 ∧
          c.record = some line ∧ c.handler.status = .ok) ?_ fun _ _ => id
        apply Ends.bind (Card.takeCharsIn_completes _ (hroom line rfl) hfuel)
        rintro _ c ⟨rfl, hrecord, hhandler⟩
        exact ⟨rfl, hrecord, by rw [hhandler]; rfl⟩
      · rintro _ c ⟨rfl, hrecord, hstatus⟩
        simp only [Card.finish, bind_assoc, ends_get, hrecord]
        exact congrArg (_, ·) hstatus
    exact hwhole.of_run hrun
  | none =>
    have hstatus : out.2 = .endOfFile := by
      refine status_of_sees_none hreceivers ?_ hsees
      rw [h]
      decide
    obtain ⟨card, hrun⟩ := hsees
    have hstart : Card.AtEnd (read.start none) := ⟨rfl, hreceivers, .inl rfl⟩
    have hempty : Ends read.onCard (read.start none) (fun out _ => out.1 = [.chars []])
        fun _ _ => False := by
      rw [onCard, h, List.mapM_cons, List.mapM_nil]
      refine Ends.bind (P := fun answers c => answers = [.chars []] ∧ c.AtEnd) ?_ ?_
      · refine Ends.bind (P := fun answer c => answer = .chars [] ∧ c.AtEnd) ?_ ?_
        · have hnothing : Completes (Field.takeCharsIn 1 : Act Card (List Char)) (read.start none)
              fun cs c => cs = [] ∧ c.AtEnd := by
            apply Ends.bind hstart.current_completes
            rintro _ c ⟨rfl, hc⟩
            exact ⟨rfl, hc⟩
          apply Ends.bind hnothing
          rintro _ c ⟨rfl, hc⟩
          exact ⟨rfl, hc⟩
        · rintro _ c ⟨rfl, hc⟩
          exact ⟨rfl, hc⟩
      · rintro _ c ⟨rfl, hc⟩
        apply Ends.bind hc.finish_completes
        exact fun _ _ _ => rfl
    exact Prod.ext (hempty.of_run hrun) hstatus

/-! ### Files written and read -/

namespace Session

/-- One WRITE for each record, which puts the record in pieces, and CLOSE. -/
def writeLines (source : SourceLine) (r : Receivers) (records : List (List Bytes)) :
    Act Session (List (List Bool × Iostat) × Bool × Iostat) := do
  let written ← records.mapM fun chunks =>
    statement (.formatted .output) source r (chunks.mapM emit)
  return (written, ← statement .disconnect source r (closeUnit .keep))

/-- OPEN of a file for formatted sequential access, and READs of it. -/
def readLines (status : OpenStatus) (path : String) (source : SourceLine) (r : Receivers)
    (reads : List FormattedRead) : Act Session ((Bool × Iostat) × List (List Answer × Iostat)) := do
  let opened ← statement .connect source r (openUnit status .asIs (some path) {})
  return (opened, ← reads.mapM FormattedRead.perform)

section

variable {s t : Session} {status : OpenStatus} {n : ℕ}

theorem Opened.atFileEnd {position : Position} {path : Option String} {name : String}
    (h : s.Opened status position path {} (.node n) true t)
    (hname : s.unit.openName status path = some name) (hn : n < t.system.files.nodes.length)
    (hstart : position = .append ∨ t.system.files.contentAt n = []) :
    AtFileEnd hn name t (t.system.files.contentAt n) := by
  have hoffset : t.unit.offset = (t.system.files.contentAt n).length := by
    rw [h.offset_eq, FileSystem.size_node]
    rcases hstart with rfl | hempty
    · exact if_pos rfl
    · rw [hempty]
      exact ite_self _
  refine ⟨h.holds hname hn, ?_, hoffset, ?_, ?_, ?_⟩
  · rw [h.unit_eq]
    exact ⟨rfl, rfl, rfl, rfl⟩
  all_goals rw [h.unit_eq]; rfl

theorem open_empty_completes {path : String} {files : FileSystem} (hclosed : s.unit.isOpen = false)
    (hstatus : status ≠ .scratch)
    (hopen : s.system.files.open_ path (Channel.request status) = .ok (.node n, files))
    (hempty : files.contentAt n = []) (source : SourceLine) (r : Receivers) :
    Completes (statement .connect source r (openUnit status .asIs (some path) {})) s fun out t =>
      out = (true, .ok) ∧ t.system = { s.system with files } ∧
        ∃ hn : n < t.system.files.nodes.length, AtFileEnd hn path t [] := by
  obtain ⟨_, t, hrun, rfl, hsystem, hunit⟩ :=
    (open_completes {} source r hclosed hstatus hopen).exists_run
  have hfresh : s.unit.reaffirms status (some path) = false := by
    simp [ExternalUnit.reaffirms, hclosed]
  have hfile : t.unit.attachment.backing = some (.file (.node n) true) := by
    rw [hunit]
    rfl
  obtain ⟨hopened, -, hn, -⟩ := opened_on_file hstatus hfresh hrun hfile
  have hcontent : t.system.files.contentAt n = [] := by
    rw [hsystem]
    exact hempty
  have hend := hopened.atFileEnd (if_neg hstatus) hn (.inr hcontent)
  rw [hcontent] at hend
  refine (Completes.of_run hrun).mono ?_ fun _ _ => id
  rintro _ _ ⟨rfl, rfl⟩
  exact ⟨rfl, hsystem, hn, hend⟩

theorem writeLines_completes {system : System} {hn : n < system.files.nodes.length} {path : String}
    {content : Bytes} (source : SourceLine) (r : Receivers) (records : List (List Bytes))
    (h : AtFileEnd hn path s content)
    (hsize : (content ++ terminated (records.map List.flatten)).length < FileSystem.offsetLimit) :
    Completes (writeLines source r records) s fun out t =>
      out = (records.map (fun chunks => (chunks.map fun _ => true, .ok)), true, .ok) ∧
        t.system = system.withContent n (content ++ terminated (records.map List.flatten)) := by
  apply Ends.bind (h.writes_complete source r records hsize)
  rintro _ t ⟨rfl, ht⟩
  apply Ends.bind (close_completes source r ht.holds)
  rintro _ u ⟨rfl, hsystem, -⟩
  exact ⟨rfl, hsystem⟩

theorem readLines_complete {path : String} (hclosed : s.unit.isOpen = false)
    (hstatus : status = .old ∨ status = .unknown) (hleads : s.system.files.LeadsTo path n)
    (hchunk : 0 < s.unit.readChunk)
    (hsize : (s.system.files.contentAt n).length < FileSystem.offsetLimit) (source : SourceLine)
    (r : Receivers) (reads : List FormattedRead)
    (hreads : ∀ read ∈ reads, read.receivers.receivesError = true) :
    Completes (readLines status path source r reads) s fun out t =>
      out.1 = (true, .ok) ∧ out.2.length = reads.length ∧ t.system = s.system ∧
      ∀ (k : ℕ) (read : FormattedRead) answer, reads[k]? = some read → out.2[k]? = some answer →
        read.Sees (lines (s.system.files.contentAt n))[k]? answer := by
  apply Ends.bind (reopen_completes hclosed hstatus hleads hchunk source r)
  rintro _ t ⟨rfl, hsystem, hbetween⟩
  apply Ends.bind (hbetween.reads_complete reads hreads hsize)
  rintro outs u ⟨hlength, houts, hdevice⟩
  exact ⟨rfl, hlength, (congrArg Channel.system hdevice).trans hsystem, houts⟩

end

/-- WRITEs to a unit that an OPEN has left at the end of its file append their records as lines, and
the CLOSE leaves the file so. Opened again, through windows of any size, the file shows READs the
lines it had, then the records that were written, each to one READ whatever this looks at, and then
its end. -/
theorem formatted_round_trip {s t : Session} {status : OpenStatus} {position : Position}
    {path : Option String} {source : SourceLine} {w : Receivers} {iostat : Iostat} {n : ℕ}
    (hstatus : status ≠ .scratch) (hfresh : s.unit.reaffirms status path = false)
    (hopen : statement .connect source w (openUnit status position path {}) s =
      .ok (true, iostat) t)
    (hfile : t.unit.attachment.backing = some (.file (.node n) true))
    (hstart : position = .append ∨ t.system.files.contentAt n = [])
    (hwhole : t.system.files.contentAt n = [] ∨
      (t.system.files.contentAt n).getLast? = some newline)
    (records : List (List Bytes))
    (hrecords : ∀ chunks ∈ records,
      newline ∉ chunks.flatten ∧ chunks.flatten.getLast? ≠ some carriageReturn)
    (hsize : (t.system.files.contentAt n ++ terminated (records.map List.flatten)).length <
      FileSystem.offsetLimit) :
    Completes (writeLines source w records) t fun out u =>
      out = (records.map (fun chunks => (chunks.map fun _ => true, .ok)), true, .ok) ∧
      u.system.files.contentOf? (path.getD s.unit.defaultPath) =
        some (t.system.files.contentAt n ++ terminated (records.map List.flatten)) ∧
      ∀ (v : Session) (again : OpenStatus) (r : Receivers) (reads : List FormattedRead),
        v.system = u.system → v.unit.isOpen = false → 0 < v.unit.readChunk →
        again = .old ∨ again = .unknown →
        (∀ read ∈ reads, read.receivers.receivesError = true) →
        Completes (readLines again (path.getD s.unit.defaultPath) source r reads) v fun out x =>
          out.1 = (true, .ok) ∧ out.2.length = reads.length ∧ x.system = u.system ∧
          ∀ (k : ℕ) (read : FormattedRead) answer, reads[k]? = some read → out.2[k]? = some answer →
            read.Sees (lines (t.system.files.contentAt n) ++ records.map List.flatten)[k]? answer ∧
            (read.TakesAll → answer = FormattedRead.wholeAnswer
              (lines (t.system.files.contentAt n) ++ records.map List.flatten)[k]?) ∧
            ((lines (t.system.files.contentAt n) ++ records.map List.flatten).length ≤ k →
              (∀ look ∈ read.looks, look.suits = true) → answer.2 = .endOfFile) := by
  obtain ⟨hopened, hleads, -⟩ := opened_on_file hstatus hfresh hopen hfile
  have hname : s.unit.openName status path = some (path.getD s.unit.defaultPath) := if_neg hstatus
  refine (writeLines_completes source w records
    (hopened.atFileEnd hname hleads.lt_length hstart) hsize).mono ?_ fun _ _ => id
  rintro _ u ⟨rfl, hsystem⟩
  obtain ⟨hleads', hcontent, hstored⟩ := hleads.of_rewritten (congrArg System.files hsystem)
  -- What was written splits into the lines it was made of, behind those of the old content.
  have hlines : lines (u.system.files.contentAt n) =
      lines (t.system.files.contentAt n) ++ records.map List.flatten := by
    rw [hcontent, lines_append hwhole, terminated, lines_written]
    intro record hrecord
    obtain ⟨chunks, hchunks, rfl⟩ := List.mem_map.mp hrecord
    exact hrecords chunks hchunks
  refine ⟨rfl, hstored, ?_⟩
  intro v again r reads hsame hclosed hchunk hagain hreads
  rw [← hcontent] at hsize
  rw [← hlines, ← hsame]
  rw [← hsame] at hleads' hsize
  refine (readLines_complete hclosed hagain hleads' hchunk hsize source r reads hreads).mono ?_
    fun _ _ => id
  rintro out x ⟨hout, hlength, hx, hsees⟩
  refine ⟨hout, hlength, hx, ?_⟩
  intro k read answer hread hanswer
  have hsees' := hsees k read answer hread hanswer
  have hadmits := Receivers.admits_of_receivesError (hreads read (List.mem_of_getElem? hread))
    .endOfFile
  have hroom : ∀ line ∈ (lines (v.system.files.contentAt n))[k]?, line.length < 2 ^ 63 :=
    fun line hline => (length_le_of_mem_lines (List.mem_of_getElem? hline)).trans_lt hsize
  refine ⟨hsees', fun hall => hall.eq_of_sees hadmits hroom hsees', fun hbehind hsuits => ?_⟩
  rw [List.getElem?_eq_none hbehind] at hsees'
  exact FormattedRead.status_of_sees_none hadmits hsuits hsees'

/-- `ab`, in two pieces, and an empty record behind the line that a file has, read back through
windows of one byte at first. -/
theorem formatted_round_trip_appended :
    Completes (do
        discard (statement .connect {} {} (openUnit .old .append (some "a") {}))
        writeLines {} {} [[[97], [98]], []])
      { system := { files := { nodes := [{ content := [120, 10] }], names := [(["a"], 0)] } }
        unit := .new 10 1 } fun _ t =>
      t.system.files.contentOf? "a" = some [120, 10, 97, 98, 10, 10] ∧
      Completes (readLines .old "a" {} {} (List.replicate 4 { looks := [.chars none] }))
          { system := t.system, unit := .new 11 1 } fun out _ =>
        out = ((true, .ok), [([.chars ['x']], .ok), ([.chars ['a', 'b']], .ok), ([.chars []], .ok),
          ([.chars []], .endOfFile)]) := by
  obtain ⟨t, hrun, hfile, hcontent⟩ : ∃ t, statement .connect {} {}
      (openUnit .old .append (some "a") {})
      { system := { files := { nodes := [{ content := [120, 10] }], names := [(["a"], 0)] } }
        unit := .new 10 1 } = .ok (true, .ok) t ∧
      t.unit.attachment.backing = some (.file (.node 0) true) ∧
      t.system.files.contentAt 0 = [120, 10] := by
    refine ⟨{ system := { files := { nodes := [{ content := [120, 10] }], names := [(["a"], 0)] } }
              unit := { number := 10, readChunk := 1, attachment := .ofFile "a" 0
                        window := { offset := 2 }, offset := 2 } }, by cbv, rfl, rfl⟩
  have hlines : lines [120, 10] ++ [[[97], [98]], []].map List.flatten = [[120], [97, 98], []] := by
    decide
  apply Ends.bind (Completes.of_run hrun).discard
  rintro _ _ ⟨_, -, rfl⟩
  refine (formatted_round_trip (by decide) rfl hrun hfile (.inl rfl) (.inr (by rw [hcontent]; rfl))
    [[[97], [98]], []] (by decide) (by rw [hcontent]; decide)).mono ?_ fun _ _ => id
  rintro _ u ⟨-, hwritten, hread⟩
  rw [hcontent] at hwritten hread
  rw [hlines] at hread
  refine ⟨hwritten, ?_⟩
  refine (hread { system := u.system, unit := .new 11 1 } .old {}
    (List.replicate 4 { looks := [.chars none] }) rfl rfl Nat.one_pos (.inl rfl) (by decide)).mono ?_
    fun _ _ => id
  rintro ⟨_, answers⟩ _ ⟨rfl, hlength, -, hanswers⟩
  obtain ⟨a, b, c, d, rfl⟩ := List.length_eq_four.mp hlength
  obtain rfl := (hanswers 0 _ a rfl rfl).2.1 rfl
  obtain rfl := (hanswers 1 _ b rfl rfl).2.1 rfl
  obtain rfl := (hanswers 2 _ c rfl rfl).2.1 rfl
  obtain rfl := (hanswers 3 _ d rfl rfl).2.1 rfl
  rfl

end Session

end DataTransfer
