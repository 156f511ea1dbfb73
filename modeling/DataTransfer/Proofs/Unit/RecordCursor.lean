import DataTransfer.Proofs.Unit.InputRecord

/-!
The cursor of a formatted READ in its record: what a look at it gives, how it moves, and where it is
when the READ ends.
-/

namespace DataTransfer

open Bytes (chars)

theorem InputRecord.end_lt (R : InputRecord) {device : Channel} (hsource : R.source = .file device) :
    R.before.length + R.length < FileSystem.offsetLimit := by
  have haccepted := R.accepted
  rw [hsource] at haccepted
  obtain ⟨-, hsize, hend⟩ := haccepted
  rw [List.length_append] at hsize
  rw [InputRecord.length]
  cases hlength : R.form.recordLength with
  | none =>
    have hle := R.text_prefix.length_le
    rw [Option.getD_none]
    omega
  | some length =>
    rw [hlength, Option.getD_some] at hend
    exact hend

theorem InputRecord.length_lt (R : InputRecord) : R.length < 2 ^ 63 := by
  cases hsource : R.source with
  | file device => exact (Nat.le_add_left _ _).trans_lt (R.end_lt hsource)
  | standardInput system =>
    have haccepted := R.accepted
    rw [hsource] at haccepted
    rw [InputRecord.length, haccepted.1]
    exact haccepted.2

namespace Session

variable {R : InputRecord} {nonAdvancing : Bool} {h : Handler} {position : ℕ} {s t : Session}
variable {cs : List Char}

namespace StandsIn

variable (hs : StandsIn R position s)
include hs

theorem mayRead : s.unit.attachment.mayRead = true := by
  have hsupplied := hs.supplied
  generalize s.unit.located = located at hsupplied
  cases hsupplied with
  | file hsource hdevice hshows => exact hshows.mayRead
  | ahead hsource hattachment => exact congrArg Attachment.mayRead hattachment
  | typed hsource hattachment => exact congrArg Attachment.mayRead hattachment

/-! ### Looks -/

theorem read_of_file {device : Channel} (hsource : R.source = .file device)
    (hdevice : s.channel.device = device) (hshows : s.channel.Shows R.content)
    (hposition : position < R.length) :
    Succeeds (windowed (Windowed.read (R.before.length + position) 1)) s fun got t =>
      StandsIn R position t ∧ SameRead s t ∧ (got = 0 → R.text[position]? = none) ∧
        (got ≠ 0 →
          (t.unit.window.bytesAt (R.before.length + position) 1).head? = R.text[position]?) := by
  have haccepted := R.accepted
  rw [hsource] at haccepted
  have hoffset := (Nat.add_lt_add_left hposition _).trans (R.end_lt hsource)
  refine (windowed_read_accepted hshows 1 hoffset haccepted.2.1).mono ?_ fun _ _ => id
  rintro got _ ⟨w, rfl, hw, hgot, hbytes⟩
  rw [InputRecord.content, List.length_append, Nat.add_sub_add_left] at hgot
  refine ⟨{ hs with supplied := .file hsource hdevice hw }, ⟨rfl, rfl, rfl, rfl⟩,
    fun hnone => ?_, fun hsome => ?_⟩
  · rw [R.getElem?_text hposition, List.getElem?_eq_none (by omega)]
  · obtain rfl : got = 1 := by omega
    change (w.bytesAt _ 1).head? = _
    rw [hbytes, InputRecord.content, Bytes.slice_append_right, R.getElem?_text hposition, Bytes.slice,
      List.head?_take, if_neg Nat.one_ne_zero, List.head?_drop]

theorem read_of_typed {system : System} {column : ℕ} (hlocated : s.unit.located = true)
    (hsource : R.source = .standardInput system) (hattachment : s.unit.attachment = .standard 0)
    (hsystem : s.system = { system with input := R.after }) (hcolumn : column ≤ position)
    (hwindow : s.unit.window =
      { offset := R.before.length + column
        bytes := (R.rest.take (R.rest.length - R.after.length)).drop column })
    (hposition : position < R.length) :
    Succeeds (windowed (Windowed.read (R.before.length + position) 1)) s fun got t =>
      StandsIn R position t ∧ SameRead s t ∧ (got = 0 → R.text[position]? = none) ∧
        (got ≠ 0 →
          (t.unit.window.bytesAt (R.before.length + position) 1).head? = R.text[position]?) := by
  have haccepted := R.accepted
  rw [hsource] at haccepted
  have hlines : R.form.recordLength = none := haccepted.1
  have hheld : position < R.text.length := by
    rwa [InputRecord.length, hlines, Option.getD_none] at hposition
  obtain ⟨typed, hrest, -, hline, -⟩ := (R.first_of_line hlines).exists_typed
  have hstream : s.OnStream := ⟨hattachment, congrArg Window.dirty hwindow, hs.readChunk_pos⟩
  have htake : R.rest.take (R.rest.length - R.after.length) = typed := by
    rw [hrest, List.length_append, Nat.add_sub_cancel, List.take_left]
  rw [htake] at hwindow
  have hkept : Windowed.heldFrom s.unit.window (R.before.length + position) =
      typed.drop position := by
    rw [hwindow, Windowed.heldFrom, if_pos (Nat.add_le_add_left hcolumn _)]
    dsimp only
    rw [List.drop_drop, Nat.add_sub_add_left, Nat.add_sub_cancel' hcolumn]
  have hinside : position < typed.length := hheld.trans_le hline.length_le
  have hread := hstream.read_succeeds (R.before.length + position) 1
    (System.splitLine_of_le_one (Nat.sub_le _ _) _)
  rw [hkept, show 1 - (typed.drop position).length = 0 by rw [List.length_drop]; omega,
    List.take_zero, List.append_nil, List.drop_zero] at hread
  refine hread.mono ?_ fun _ _ => id
  rintro got _ ⟨hgot, rfl⟩
  refine ⟨{ hs with supplied := ?_ }, ⟨rfl, rfl, rfl, rfl⟩, fun hnone => ?_, fun _ => ?_⟩
  · change R.Supplied _ s.unit.located _
    rw [hlocated]
    refine .typed hsource hattachment hsystem le_rfl ?_
    rw [htake]
    rfl
  · rw [List.length_drop] at hgot
    omega
  · change (Window.bytesAt ⟨_, typed.drop position, none⟩ _ 1).head? = _
    rw [Window.bytesAt, if_neg (lt_irrefl _), Nat.sub_self, Bytes.slice, List.drop_zero,
      List.head?_take, if_neg Nat.one_ne_zero, List.head?_drop, R.getElem?_text hposition, hrest,
      List.getElem?_append_left hinside]

/-- The byte at the cursor comes from the file, as far as it goes, or from the line that is held. -/
theorem read_succeeds (hlocated : s.unit.located = true) (hposition : position < R.length) :
    Succeeds (windowed (Windowed.read (R.before.length + position) 1)) s fun got t =>
      StandsIn R position t ∧ SameRead s t ∧ (got = 0 → R.text[position]? = none) ∧
        (got ≠ 0 →
          (t.unit.window.bytesAt (R.before.length + position) 1).head? = R.text[position]?) := by
  have hsupplied := hs.supplied
  rw [hlocated] at hsupplied
  cases hsupplied with
  | file hsource hdevice hshows => exact hs.read_of_file hsource hdevice hshows hposition
  | typed hsource hattachment hsystem hcolumn hwindow =>
    exact hs.read_of_typed hlocated hsource hattachment hsystem hcolumn hwindow hposition

theorem peek_succeeds : Succeeds peek s fun ch t =>
    ch = (R.charsFrom position).head? ∧ StandsIn R position t ∧ SameRead s t := by
  refine peek_attempts hs.formatted_eq hs.mayRead (hs.ensureLocated_succeeds.mono ?_ fun _ _ => id)
  rintro _ t ⟨rfl, hlocated, ht, hkept⟩
  rw [R.head?_charsFrom]
  refine atCursor_attempts ht.formatted_eq (ht.extent hlocated).1
    (congrArg₂ (· + ·) ht.offset_eq ht.position_eq) (fun hbehind => ?_) fun hinside => ?_
  · rw [ht.position_eq] at hbehind
    rw [List.getElem?_eq_none (R.length_text_le.trans hbehind)]
    exact ⟨rfl, ht, hkept⟩
  · rw [ht.position_eq] at hinside
    refine (ht.read_succeeds hlocated hinside).mono ?_ fun _ _ => id
    rintro got u ⟨hu, hkept', hnone, hsome⟩
    refine ⟨?_, hu, hkept.trans hkept'⟩
    split_ifs with hgot
    · rw [hnone hgot]
      rfl
    · rw [hsome hgot]

/-! ### Moves -/

theorem withPosition {column : ℕ} (hle : position ≤ column) :
    StandsIn R column
      { s with unit := s.unit.setConnection fun c => { c with position := column } } :=
  { hs with
    supplied := hs.supplied.later hle
    form := { hs.form with }
    position_eq := rfl
    tabFloor_le := hs.tabFloor_le.trans hle }

theorem move_completes (hposition : position < R.length) : Completes (moveRelative 1) s fun _ t =>
    StandsIn R (position + 1) t ∧ SameRead s t := by
  have htarget : s.unit.connection.target (.relative 1) = position + 1 := by
    have hlength := R.length_lt
    rw [Connection.target_one (hs.tabFloor_le.trans hs.position_eq.ge)] <;>
      rw [hs.position_eq]
    omega
  have hwithin (length : ℕ) (hfixed : s.unit.connection.fixedRecordLength = some length) :
      position + 1 ≤ length := by
    rw [hs.fixedRecordLength_eq] at hfixed
    rw [InputRecord.length, hfixed] at hposition
    exact hposition
  refine (ends_get _).mpr (report_completes ?_)
  rw [htarget]
  refine (moveTo_of_within hwithin).mono ?_ fun _ _ => False.elim
  rintro _ _ rfl
  exact ⟨hs.withPosition (Nat.le_succ _), rfl, rfl, rfl, rfl⟩

theorem length_le_reach : (R.charsFrom position).length ≤ s.reach := by
  rw [R.length_charsFrom]
  refine (Nat.sub_le _ _).trans ?_
  have hle := R.text_prefix.length_le
  have hextent := hs.extent
  have haccepted := R.accepted
  have hsupplied := hs.supplied
  generalize s.unit.located = located at hsupplied hextent
  cases hsupplied with
  | file hsource hdevice hshows =>
    have hreach := Session.length_le_reach hshows
    rw [InputRecord.content, List.length_append] at hreach
    omega
  | ahead hsource hattachment hsystem =>
    have havailable : s.unit.attachment.available s.system = R.rest.length := by
      rw [show s.unit.attachment = _ from hattachment, show s.system = _ from hsystem]
      rfl
    unfold reach
    omega
  | typed hsource =>
    rw [hsource] at haccepted
    have hlines : R.form.recordLength = none := haccepted.1
    have hlength := (hextent rfl).1
    rw [InputRecord.length, hlines, Option.getD_none] at hlength
    unfold reach
    rw [hlength, Option.getD_some]
    omega

end StandsIn

/-! ### A READ in the record -/

def Remains (R : InputRecord) (start : ℕ) (nonAdvancing : Bool) (h : Handler) (cs : List Char)
    (s : Session) : Prop :=
  ∃ taken, R.charsFrom start = taken ++ cs ∧ Reads R nonAdvancing h (start + taken.length) s

theorem Reads.remains (hs : Reads R nonAdvancing h position s) :
    Remains R position nonAdvancing h (R.charsFrom position) s := ⟨[], rfl, hs⟩

theorem Reads.kept (hs : Reads R nonAdvancing h position s) {column : ℕ} (ht : StandsIn R column t)
    (hkept : SameRead s t) : Reads R nonAdvancing h column t where
  toStandsIn := ht
  nonAdvancing_eq := hkept.nonAdvancing_eq.trans hs.nonAdvancing_eq
  handler_eq := hkept.handler_eq.trans hs.handler_eq
  statement_eq := by
    rw [hkept.statement_eq]
    exact hs.statement_eq
  reading_eq := hkept.reading_eq.trans hs.reading_eq

theorem Remains.leaves (R : InputRecord) (start : ℕ) (nonAdvancing : Bool) (h : Handler) :
    FieldSource.Leaves (Remains R start nonAdvancing h) where
  current := by
    rintro cs s ⟨taken, hcs, hs⟩
    have hleft : R.charsFrom (start + taken.length) = cs := by
      rw [R.charsFrom_add, hcs, List.drop_left]
    refine (nextChar_of_peek hs.peek_succeeds).mono ?_ fun _ _ => id
    rintro _ t ⟨rfl, ht, hkept⟩
    rw [hleft]
    exact ⟨rfl, taken, hcs, hs.kept ht hkept⟩
  move := by
    rintro c cs s ⟨taken, hcs, hs⟩
    have hposition : start + taken.length < R.length := by
      have hlength := congrArg List.length hcs
      rw [R.length_charsFrom, List.length_append, List.length_cons] at hlength
      have hle := R.length_text_le
      omega
    refine Ends.mono (hs.move_completes hposition).discard ?_ fun _ _ => id
    rintro _ t ⟨_, ht, hkept⟩
    refine ⟨taken ++ [c], by rw [hcs, List.append_assoc]; rfl, ?_⟩
    rw [List.length_append, List.length_singleton, ← Nat.add_assoc]
    exact hs.kept ht hkept
  length_le_reach := by
    rintro cs s ⟨taken, hcs, hs⟩
    have hreach := hs.length_le_reach
    rwa [R.charsFrom_add, hcs, List.drop_left] at hreach

/-- A READ that begins at a column of its record faces the end that the record has from there. -/
theorem Remains.readFaces (R : InputRecord) (start : ℕ) (nonAdvancing : Bool) :
    ReadFaces (Remains R start nonAdvancing) (R.endFrom start nonAdvancing) where
  leaves := Remains.leaves R start nonAdvancing
  handler_eq := fun ⟨_, _, hs⟩ => hs.handler_eq
  signalled := fun ⟨taken, hcs, hs⟩ _ => ⟨taken, hcs, { hs with handler_eq := rfl }⟩
  pastFixedRecord := by
    rintro h s ⟨taken, hcs, hs⟩
    refine hs.pastFixedRecord_eq ?_
    have hlength := congrArg List.length hcs
    rw [R.length_charsFrom, List.append_nil] at hlength
    omega
  nonAdvancing := fun ⟨_, _, hs⟩ => hs.nonAdvancing_eq
  formatted := fun ⟨_, _, hs⟩ => hs.statement_eq
  items := fun ⟨taken, hcs, hs⟩ _ => ⟨taken, hcs, { hs with }⟩

end Session

end DataTransfer
