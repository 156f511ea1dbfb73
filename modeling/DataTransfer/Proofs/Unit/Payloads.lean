import DataTransfer.Proofs.Unit.FormReading
import DataTransfer.Proofs.Unit.Opening
import DataTransfer.Proofs.Unit.RoundTrip

/-!
Records on disk for every form of connection: what WRITEs to a new file leave after the CLOSE, and what
READs get back after the file has been opened again.
-/

namespace DataTransfer.Session

/-- One WRITE for each record, and CLOSE. -/
def writeForm (source : SourceLine) (r : Receivers) (records : List (StatementKind × List Bytes)) :
    Act Session (List (List Bool × Iostat) × Bool × Iostat) := do
  let written ← writeAll source r records
  return (written, ← statement .disconnect source r (closeUnit .keep))

/-- OPEN with this form, and one READ for each record. -/
def readForm (form : Form) (status : OpenStatus) (path : String) (source : SourceLine) (r : Receivers)
    (reads : List (List ℕ)) :
    Act Session ((Bool × Iostat) × List (List (Bool × Option Bytes) × Iostat)) := do
  let opened ← statement .connect source r (openUnit status .asIs (some path) form)
  return (opened, ← readRecords source r reads)

abbrev received (records : List (List Bytes)) : List (List (Bool × Option Bytes) × Iostat) :=
  records.map fun pieces => (pieces.map fun piece => (true, some piece), .ok)

section

variable {s t : Session} {system : System} {n : ℕ} {hn : n < system.files.nodes.length}
variable {path : String} {f : Form} {content : Bytes} {offset : ℕ}

theorem AtForm.reads_complete (h : AtForm hn path s f offset content)
    (hend : s.unit.connection.endRecord = none) (hlocated : s.unit.located = false)
    (source : SourceLine) (r : Receivers) {stored : List Bytes} {reads : List (List ℕ)}
    (hdisk : ∀ (k : ℕ) (payload : Bytes), stored[k]? = some payload →
      OnDisk f content (offset + f.start stored k) payload)
    (hreads : List.Forall₂ (fun payload counts => counts.sum = payload.length) stored reads) :
    Completes (readRecords source r reads) s fun outs t =>
      (∃ again : List (List Bytes), outs = received again ∧
        again.map List.flatten = stored.map f.standing) ∧
      t.channel.Holds (system.device hn path) content := by
  induction hreads generalizing s offset with
  | nil => exact ⟨⟨[], rfl, rfl⟩, h.holds⟩
  | @cons payload counts stored reads hcounts hreads ih =>
    rw [readRecords, List.mapM_cons]
    apply Ends.bind (h.read_completes (hdisk 0 payload rfl) hend hlocated source r hcounts)
    rintro _ t ⟨⟨pieces, rfl, hpieces⟩, ht, hend', hlocated'⟩
    have hdisk' (k : ℕ) (other : Bytes) (hk : stored[k]? = some other) :
        OnDisk f content (offset + f.stride payload.length + f.start stored k) other := by
      rw [Nat.add_assoc, ← Form.start_cons_succ]
      exact hdisk (k + 1) other hk
    apply Ends.bind (ih ht hend' hlocated' hdisk')
    rintro _ u ⟨⟨again, rfl, hagain⟩, hu⟩
    refine ⟨⟨pieces :: again, rfl, ?_⟩, hu⟩
    rw [List.map_cons, List.map_cons, hpieces, hagain]

theorem atForm_of_open {status : OpenStatus} {position : Position} {name : Option String}
    {source : SourceLine} {w : Receivers} {iostat : Iostat} (hstatus : status ≠ .scratch)
    (hfresh : s.unit.reaffirms status name = false)
    (hopen : statement .connect source w (openUnit status position name f) s = .ok (true, iostat) t)
    (hfile : t.unit.attachment.backing = some (.file (.node n) true))
    (hempty : t.system.files.contentAt n = []) :
    t.system.files.LeadsTo (name.getD s.unit.defaultPath) n ∧
      ∃ hn : n < t.system.files.nodes.length,
        AtForm hn (name.getD s.unit.defaultPath) t f 0 [] := by
  obtain ⟨hopened, hleads, hn, hholds⟩ := opened_on_file hstatus hfresh hopen hfile
  rw [hempty] at hholds
  refine ⟨hleads, hn, hholds, ?_, ?_, ?_, ?_⟩
  · rw [hopened.unit_eq]
    exact ⟨rfl, rfl, rfl, fun _ => rfl, rfl⟩
  · rw [hopened.offset_eq, FileSystem.size_node, hempty]
    exact ite_self _
  all_goals rw [hopened.unit_eq]; rfl

theorem AtForm.writeForm_completes (h : AtForm hn path s f 0 []) (hleads : system.files.LeadsTo path n)
    (source : SourceLine) (r : Receivers) {records : List (StatementKind × List Bytes)}
    (hkind : ∀ record ∈ records, record.1.isWrite = true)
    (hfits : ∀ payload ∈ payloads records, f.Fits payload)
    (hsize : f.extent (payloads records) < FileSystem.offsetLimit) :
    Completes (writeForm source r records) s fun out t => out = (allSucceeded records, true, .ok) ∧
      t.system.files.LeadsTo path n ∧
      t.system.files.contentAt n = f.storeAll [] 0 (payloads records) := by
  apply Ends.bind (h.writeAll_completes source r hkind hfits (by omega))
  rintro _ t ⟨rfl, ht⟩
  apply Ends.bind (close_completes source r ht)
  rintro _ u ⟨rfl, hsystem, -⟩
  obtain ⟨hleads', hcontent, -⟩ := hleads.of_rewritten (congrArg System.files hsystem)
  exact ⟨rfl, hleads', hcontent⟩

theorem AtForm.writeForm_ends (h : AtForm hn path s f 0 []) (source : SourceLine) (r : Receivers)
    {records : List (StatementKind × List Bytes)}
    (hkind : ∀ record ∈ records, record.1.isWrite = true)
    (hlen : ∀ payload ∈ payloads records, 0 < payload.length ∧ payload.length < 2 ^ 32)
    (hsize : f.extent (payloads records) < FileSystem.offsetLimit) :
    Ends (writeForm source r records) s
      (fun out _ => out.1 = allSucceeded records → ∀ payload ∈ payloads records, f.Fits payload)
      fun _ _ => True := by
  refine Ends.bind (h.writeAll_ends source r hkind hlen (by omega)) ?_
  intro outs t houts
  exact (Ends.trivial _ t).bind fun _ _ _ => houts

theorem onDisk_storeAll {stored : List Bytes} (hfits : ∀ payload ∈ stored, f.Fits payload)
    (hformatted : f.formatted = false) (hsize : f.extent stored < FileSystem.offsetLimit) (k : ℕ)
    (payload : Bytes) (hk : stored[k]? = some payload) :
    OnDisk f (f.storeAll [] 0 stored) (f.start stored k) payload := by
  have hstands := Form.stands_storeAll [] 0 hfits k hk
  rw [Nat.zero_add] at hstands
  refine ⟨hstands, hfits payload (List.mem_of_getElem? hk), hformatted, ?_⟩
  exact (Form.length_storeAll_le hfits (Nat.zero_le _) (Nat.zero_add _).le).trans_lt hsize

theorem readForm_completes (hclosed : s.unit.isOpen = false) {status : OpenStatus}
    (hstatus : status = .old ∨ status = .unknown) (hleads : s.system.files.LeadsTo path n)
    (hcontent : s.system.files.contentAt n = content) (source : SourceLine) (r : Receivers)
    {stored : List Bytes} {reads : List (List ℕ)}
    (hdisk : ∀ (k : ℕ) (payload : Bytes), stored[k]? = some payload →
      OnDisk f content (f.start stored k) payload)
    (hreads : List.Forall₂ (fun payload counts => counts.sum = payload.length) stored reads) :
    Completes (readForm f status path source r reads) s fun out _ => out.1 = (true, .ok) ∧
      ∃ again : List (List Bytes), out.2 = received again ∧
        again.map List.flatten = stored.map f.standing := by
  obtain ⟨hnamed, hopen⟩ := hleads.reopen hstatus
  apply Ends.bind (open_completes f source r hclosed hnamed hopen)
  rintro _ t ⟨rfl, hsystem, hunit⟩
  have hchannel : t.channel = ⟨⟨s.system, .ofFile path n⟩, { offset := 0 }⟩ := by
    rw [channel, hsystem, hunit]
    rfl
  have hstart : AtForm hleads.lt_length path t f 0 content := by
    refine ⟨?_, ?_, ?_, ?_, ?_⟩
    · rw [hchannel, ← hcontent]
      exact System.holds_opened 0
    · rw [hunit]
      exact ⟨rfl, rfl, rfl, fun _ => rfl, rfl⟩
    all_goals rw [hunit]; rfl
  apply Ends.bind (hstart.reads_complete (by rw [hunit]; rfl) (by rw [hunit]; rfl) source r
    (by simpa using hdisk) hreads)
  rintro _ u ⟨hout, -⟩
  exact ⟨rfl, hout⟩

end

/-- Where payloads stand, for every form. WRITEs to a file that an OPEN has made or emptied all succeed
if and only if every payload fits its record. After the CLOSE the file holds the records one behind the
other, each with what the form has around it, and the framing is outside of all payloads; an unformatted
file that is opened again gives READs the payloads back. All of this is for forms that leave room for
their framing. Under the one form that does not, direct access without a record length, a header
stands where the first bytes of the payload have been, and READs get the header instead of them. -/
theorem payloads_stand {s t : Session} {status : OpenStatus} {position : Position}
    {path : Option String} {form : Form} {source : SourceLine} {w : Receivers} {iostat : Iostat}
    {n : ℕ} (hstatus : status ≠ .scratch) (hfresh : s.unit.reaffirms status path = false)
    (hopen : statement .connect source w (openUnit status position path form) s =
      .ok (true, iostat) t)
    (hfile : t.unit.attachment.backing = some (.file (.node n) true))
    (hempty : t.system.files.contentAt n = []) (records : List (StatementKind × List Bytes))
    (hkind : ∀ record ∈ records, record.1.isWrite = true)
    (hlen : ∀ payload ∈ payloads records, 0 < payload.length ∧ payload.length < 2 ^ 32)
    (hsize : form.extent (payloads records) < FileSystem.offsetLimit) :
    Ends (writeForm source w records) t
      (fun out u =>
        (out.1 = allSucceeded records ↔ ∀ payload ∈ payloads records, form.Fits payload) ∧
        (out.1 = allSucceeded records → out.2 = (true, .ok) ∧
          u.system.files.contentOf? (path.getD s.unit.defaultPath) =
            some (form.storeAll [] 0 (payloads records)) ∧
          (∀ (k : ℕ) (payload : Bytes), (payloads records)[k]? = some payload →
            form.Stands (form.storeAll [] 0 (payloads records)) (form.start (payloads records) k)
              payload) ∧
          (form.overlaps = false → form.Apart (payloads records) ∧
            ∀ payload ∈ payloads records, form.standing payload = payload) ∧
          (form.formatted = false →
            ∀ (v : Session) (again : OpenStatus) (r : Receivers) (reads : List (List ℕ)),
              v.system = u.system → v.unit.isOpen = false → again = .old ∨ again = .unknown →
              List.Forall₂ (fun payload counts => counts.sum = payload.length)
                (payloads records) reads →
              Completes (readForm form again (path.getD s.unit.defaultPath) source r reads) v
                fun out _ => out.1 = (true, .ok) ∧ ∃ pieces : List (List Bytes),
                  out.2 = received pieces ∧
                    pieces.map List.flatten = (payloads records).map form.standing)))
      fun _ _ => ¬ ∀ payload ∈ payloads records, form.Fits payload := by
  obtain ⟨hleads, hn, hat⟩ := atForm_of_open hstatus hfresh hopen hfile hempty
  by_cases hfits : ∀ payload ∈ payloads records, form.Fits payload
  · refine (hat.writeForm_completes hleads source w hkind hfits hsize).mono ?_ fun _ _ => False.elim
    rintro _ u ⟨rfl, hleads', hcontent⟩
    refine ⟨iff_of_true rfl hfits, fun _ => ⟨rfl, ?_, ?_, ?_, ?_⟩⟩
    · rw [hleads'.contentOf?_eq, hcontent]
    · intro k payload hk
      have hstands := Form.stands_storeAll [] 0 hfits k hk
      rwa [Nat.zero_add] at hstands
    · exact fun hroom => ⟨Form.apart_of_fits hroom hfits, fun payload _ =>
        Form.standing_eq_self hroom payload⟩
    · intro hformatted v again r reads hsame hclosed hagain hreads
      rw [← hsame] at hleads' hcontent
      exact readForm_completes hclosed hagain hleads' hcontent source r
        (onDisk_storeAll hfits hformatted hsize) hreads
  · refine (hat.writeForm_ends source w hkind hlen hsize).mono ?_ fun _ _ _ => hfits
    exact fun out u hout => ⟨⟨hout, fun h => absurd h hfits⟩, fun h => absurd (hout h) hfits⟩

theorem open_new (form : Form) : ∃ t, statement .connect {} {} (openUnit .new .asIs (some "d") form)
      { system := {}, unit := .new 10 256 } = .ok (true, .ok) t ∧
    t.unit.attachment.backing = some (.file (.node 0) true) ∧ t.system.files.contentAt 0 = [] := by
  refine ⟨{ system := { files := { nodes := [{}], names := [(["d"], 0)] } }
            unit := { number := 10, readChunk := 256, attachment := .ofFile "d" 0
                      connection := ({} : Connection).withForm form } }, by cbv, rfl, rfl⟩

/-- Two records with markers, and the READs of both. -/
theorem payloads_stand_with_markers : ∃ t, statement .connect {} {}
      (openUnit .new .asIs (some "d") { formatted := false })
      { system := {}, unit := .new 10 256 } = .ok (true, .ok) t ∧
    Completes (writeForm {} {} [(.unformatted .output, [[97], [98]]), (.unformatted .output, [[99]])])
      t fun out u => out = ([([true, true], .ok), ([true], .ok)], true, .ok) ∧
        u.system.files.contentOf? "d" =
          some [2, 0, 0, 0, 97, 98, 2, 0, 0, 0, 1, 0, 0, 0, 99, 1, 0, 0, 0] ∧
        Completes (readForm { formatted := false } .old "d" {} {} [[2], [1]])
          { system := u.system, unit := .new 11 256 } fun out _ => ∃ pieces : List (List Bytes),
            out = ((true, .ok), received pieces) ∧
              pieces.map List.flatten = [[97, 98], [99]] := by
  obtain ⟨t, hopen, hfile, hempty⟩ := open_new { formatted := false }
  refine ⟨t, hopen, ?_⟩
  have hfits : ∀ payload ∈ payloads
      [(.unformatted .output, [[97], [98]]), (.unformatted .output, [[99]])],
      ({ formatted := false } : Form).Fits payload := by
    intro payload hpayload
    have hpos : 0 < payload.length ∧ payload.length < 2 ^ 32 := by
      revert payload
      decide
    exact ⟨hpos.1, hpos.2, nofun⟩
  refine (payloads_stand (by decide) rfl hopen hfile hempty
    [(.unformatted .output, [[97], [98]]), (.unformatted .output, [[99]])] (by decide) (by decide)
    (by decide)).mono ?_ fun _ _ hnot => hnot hfits
  rintro ⟨_, _⟩ u ⟨hall, hsucceeded⟩
  obtain rfl := hall.mpr hfits
  obtain ⟨rfl, hcontent, -, -, hread⟩ := hsucceeded rfl
  refine ⟨rfl, hcontent, ?_⟩
  refine (hread rfl { system := u.system, unit := .new 11 256 } .old {} [[2], [1]] rfl rfl (.inl rfl)
    (.cons rfl (.cons rfl .nil))).mono ?_ fun _ _ => id
  rintro ⟨_, _⟩ v ⟨rfl, pieces, rfl, hpieces⟩
  exact ⟨pieces, rfl, hpieces⟩

/-- A header in the place of the first bytes of a payload. -/
theorem direct_header_overwrites : ∃ t, statement .connect {} {}
      (openUnit .new .asIs (some "d") { access := .direct, formatted := false })
      { system := {}, unit := .new 10 256 } = .ok (true, .ok) t ∧
    Completes (writeForm {} {} [(.unformatted .output, [[97, 98, 99, 100, 101, 102]])]) t fun out u =>
      out = ([([true], .ok)], true, .ok) ∧
        u.system.files.contentOf? "d" = some [6, 0, 0, 0, 101, 102, 0, 0, 0, 0, 6, 0, 0, 0] ∧
        Completes (readForm { access := .direct, formatted := false } .old "d" {} {} [[6]])
          { system := u.system, unit := .new 11 256 } fun out _ => ∃ pieces : List (List Bytes),
            out = ((true, .ok), received pieces) ∧
              pieces.map List.flatten = [[6, 0, 0, 0, 101, 102]] := by
  obtain ⟨t, hopen, hfile, hempty⟩ := open_new { access := .direct, formatted := false }
  obtain ⟨hleads, hn, hat⟩ := atForm_of_open (by decide) rfl hopen hfile hempty
  refine ⟨t, hopen, ?_⟩
  have hfits : ∀ payload ∈ payloads [(.unformatted .output, [[97, 98, 99, 100, 101, 102]])],
      ({ access := .direct, formatted := false } : Form).Fits payload := by
    rintro payload hpayload
    obtain rfl := List.mem_singleton.mp hpayload
    exact ⟨by decide, by decide, nofun⟩
  refine (hat.writeForm_completes hleads {} {} (by decide) hfits (by decide)).mono ?_ fun _ _ => id
  rintro _ u ⟨rfl, hleads', hcontent⟩
  refine ⟨rfl, ?_, ?_⟩
  · exact hleads'.contentOf?_eq.trans (congrArg some hcontent)
  · have hreads : List.Forall₂ (fun payload counts => counts.sum = payload.length)
        (payloads [(.unformatted .output, [[97, 98, 99, 100, 101, 102]])]) [[6]] := .cons rfl .nil
    refine (readForm_completes (s := { system := u.system, unit := .new 11 256 }) rfl (.inl rfl)
      hleads' hcontent {} {} (onDisk_storeAll hfits rfl (by decide)) hreads).mono ?_ fun _ _ => id
    rintro ⟨_, _⟩ v ⟨rfl, pieces, rfl, hpieces⟩
    exact ⟨pieces, rfl, hpieces⟩

end DataTransfer.Session
