import DataTransfer.Proofs.Unit.InputRecord

/-!
What a formatted READ of a file has before it: the rest of the current record and the records that follow,
and what a look, a move of the cursor and an advance do to them.
-/

namespace DataTransfer

open Bytes (chars)

/-! ### The records that there are -/

/-- The records in these bytes: the lines, or pieces of the declared length, of which the last one may be
shorter. -/
def recordsIn (declared : Option ℕ) (rest : Bytes) : List Bytes :=
  match declared with
  | none => lines rest
  | some length =>
    (List.range ((rest.length + (length - 1)) / length)).map fun i => rest.slice (i * length) length

namespace Form.FirstRecord

variable {f : Form} {rest text after : Bytes}

theorem drop_stride (h : f.FirstRecord rest text after) :
    rest.drop (f.recordLength.getD (rest.length - after.length)) = after := by
  unfold FirstRecord at h
  cases hlength : f.recordLength with
  | none =>
    rw [hlength] at h
    obtain ⟨terminator, hrest⟩ := FirstLine.exists_terminator h
    rw [Option.getD_none, hrest, ← List.append_assoc, List.length_append, Nat.add_sub_cancel,
      List.drop_left]
  | some length =>
    rw [hlength] at h
    exact h.2.2.2.symm

theorem length_text_le (h : f.FirstRecord rest text after) :
    text.length ≤ f.recordLength.getD text.length := by
  unfold FirstRecord at h
  cases hlength : f.recordLength with
  | none => exact le_rfl
  | some length =>
    rw [hlength] at h
    rw [h.2.2.1, List.length_take]
    exact min_le_left _ _

theorem text_prefix (h : f.FirstRecord rest text after) : text <+: rest := by
  unfold FirstRecord at h
  cases hlength : f.recordLength with
  | none =>
    rw [hlength] at h
    obtain ⟨terminator, hrest⟩ := FirstLine.exists_terminator h
    rw [hrest]
    exact List.prefix_append _ _
  | some length =>
    rw [hlength] at h
    rw [h.2.2.1]
    exact List.take_prefix _ _

theorem getElem?_text (h : f.FirstRecord rest text after) {i : ℕ}
    (hi : i < f.recordLength.getD text.length) : text[i]? = rest[i]? := by
  cases hlength : f.recordLength with
  | none =>
    obtain ⟨behind, rfl⟩ := h.text_prefix
    rw [hlength] at hi
    exact (List.getElem?_append_left hi).symm
  | some length =>
    unfold FirstRecord at h
    rw [hlength] at h hi
    rw [h.2.2.1]
    exact List.getElem?_take_of_lt hi

/-- A record that is taken to go on behind the last byte is the last one. -/
theorem after_eq_nil (h : f.FirstRecord rest text after) {i : ℕ} (hrest : rest.length ≤ i)
    (hi : i < f.recordLength.getD text.length) : after = [] := by
  have htext := h.text_prefix.length_le
  unfold FirstRecord at h
  cases hlength : f.recordLength with
  | none =>
    rw [hlength, Option.getD_none] at hi
    omega
  | some length =>
    rw [hlength] at h hi
    rw [h.2.2.2]
    exact List.drop_of_length_le (hrest.trans hi.le)

theorem ne_nil (h : f.FirstRecord rest text after) : rest ≠ [] := by
  unfold FirstRecord at h
  cases hlength : f.recordLength with
  | none =>
    rw [hlength] at h
    exact List.length_pos_iff.mp (FirstLine.length_pos h)
  | some length =>
    rw [hlength] at h
    exact h.2.1

theorem length_after_lt (h : f.FirstRecord rest text after) : after.length < rest.length := by
  have hne : 0 < rest.length := List.length_pos_iff.mpr h.ne_nil
  unfold FirstRecord at h
  cases hlength : f.recordLength with
  | none =>
    rw [hlength] at h
    cases h with
    | terminated hline after =>
      rw [List.length_append, List.length_cons]
      omega
    | tail hline hrest => exact hne
  | some length =>
    rw [hlength] at h
    rw [h.2.2.2, List.length_drop]
    omega

theorem recordsIn_eq (h : f.FirstRecord rest text after) :
    recordsIn f.recordLength rest = text :: recordsIn f.recordLength after := by
  unfold FirstRecord at h
  cases hlength : f.recordLength with
  | none =>
    rw [hlength] at h
    exact FirstLine.lines_eq h
  | some length =>
    rw [hlength] at h
    obtain ⟨hpos, hne, rfl, rfl⟩ := h
    have hrest : 0 < rest.length := List.length_pos_iff.mpr hne
    have hcount : (rest.length + (length - 1)) / length =
        ((rest.drop length).length + (length - 1)) / length + 1 := by
      rw [← Nat.add_div_right _ hpos, List.length_drop]
      by_cases hlast : length ≤ rest.length
      · congr 1
        omega
      · rw [show rest.length - length = 0 by omega, Nat.div_eq_of_lt_le (k := 1) (by omega) (by omega),
          Nat.div_eq_of_lt_le (k := 1) (by omega) (by omega)]
    simp only [recordsIn, hcount, List.range_succ_eq_map, List.map_cons, List.map_map]
    congr 1
    · rw [Nat.zero_mul]
      rfl
    · refine List.map_congr_left fun i _ => ?_
      rw [Function.comp_apply, Nat.succ_mul, Nat.add_comm (i * length)]
      simp only [Bytes.slice, List.drop_drop]

end Form.FirstRecord

theorem Form.exists_firstRecord (f : Form) {rest : Bytes} (hlength : f.recordLength ≠ some 0)
    (hne : rest ≠ []) : ∃ text after, f.FirstRecord rest text after := by
  unfold FirstRecord
  cases hdeclared : f.recordLength with
  | none => exact FirstLine.exists_of_ne_nil hne
  | some length =>
    have hpos : length ≠ 0 := fun hzero => hlength (hzero ▸ hdeclared)
    exact ⟨_, _, Nat.pos_of_ne_zero hpos, hne, rfl, rfl⟩

theorem recordsIn_nil (declared : Option ℕ) : recordsIn declared [] = [] := by
  cases declared with
  | none => rfl
  | some length =>
    cases length with
    | zero => rfl
    | succ length =>
      have hcount : (([] : Bytes).length + (length + 1 - 1)) / (length + 1) = 0 :=
        Nat.div_eq_of_lt (by rw [List.length_nil]; omega)
      rw [recordsIn, hcount]
      rfl

theorem recordsIn_zero (rest : Bytes) : recordsIn (some 0) rest = [] := by
  rw [recordsIn, Nat.div_zero]
  rfl

theorem Form.firstRecord_of_records {f : Form} {rest text : Bytes} {later : List Bytes}
    (h : recordsIn f.recordLength rest = text :: later) :
    ∃ after, f.FirstRecord rest text after ∧ recordsIn f.recordLength after = later := by
  have hlength : f.recordLength ≠ some 0 := by
    intro hzero
    rw [hzero, recordsIn_zero] at h
    cases h
  have hne : rest ≠ [] := by
    rintro rfl
    rw [recordsIn_nil] at h
    cases h
  obtain ⟨text', after, hfirst⟩ := f.exists_firstRecord hlength hne
  rw [hfirst.recordsIn_eq] at h
  obtain ⟨rfl, rfl⟩ := List.cons.inj h
  exact ⟨after, hfirst, rfl⟩

theorem Form.length_recordsIn_le (f : Form) (rest : Bytes) :
    (recordsIn f.recordLength rest).length ≤ rest.length := by
  induction hlength : rest.length using Nat.strong_induction_on generalizing rest with
  | _ n ih =>
    cases hrecords : recordsIn f.recordLength rest with
    | nil => exact Nat.zero_le _
    | cons text later =>
      obtain ⟨after, hfirst, rfl⟩ := firstRecord_of_records hrecords
      have hshorter := hfirst.length_after_lt
      have hafter := ih after.length (by omega) after rfl
      rw [List.length_cons]
      omega

/-! ### What a READ has before it -/

namespace Session

variable {content : Bytes} {s t : Session}

/-- The records from the current one on, as far as the unit does not take one of them for the end of the
file. -/
def recordsAhead (content : Bytes) (s : Session) : List Bytes :=
  let records := recordsIn s.unit.connection.fixedRecordLength (content.drop s.unit.offset)
  match s.unit.connection.endRecord with
  | none => records
  | some last => records.take (last - s.unit.connection.record)

/-- What a READ has before it: the rest of the current record, and the records that follow. -/
def textsAhead (content : Bytes) (s : Session) : List (List Char) :=
  match s.recordsAhead content with
  | [] => []
  | text :: later => chars (text.drop s.unit.connection.position) :: later.map chars

def Found (content : Bytes) (u : ExternalUnit) : Prop :=
  u.connection.atEnd = false ∧ ∃ text after,
    ({ recordLength := u.connection.fixedRecordLength } : Form).FirstRecord (content.drop u.offset)
      text after ∧
    u.connection.recordLength = some (u.connection.fixedRecordLength.getD text.length) ∧
    inputStride u = u.connection.fixedRecordLength.getD ((content.drop u.offset).length - after.length)

/-- A formatted READ of a file, which receives the conditions that it meets. Its cursor is at most `margin`
columns left of the left tab limit. -/
structure Listing (content : Bytes) (margin : ℕ) (s : Session) : Prop where
  shows : s.channel.Shows content
  formatted : s.unit.connection.formatted = true
  declared : s.unit.connection.fixedLength = true → s.unit.connection.recordLength.isSome = true
  readChunk_pos : 0 < s.unit.readChunk
  reading_eq : s.unit.reading = true
  tabFloor_le : Connection.shifted s.unit.connection.tabFloor 0 ≤ s.unit.connection.position + margin
  receives : s.handler.declared.receivesError = true
  found : s.unit.located = true → Found content s.unit

theorem windowed_read_attempts (h : s.channel.Shows content)
    (hsize : content.length < FileSystem.offsetLimit) (offset count : ℕ) :
    Attempts (windowed (Windowed.read offset count)) s
      (fun got t => ∃ w, t = s.withWindow w ∧ t.channel.Shows content ∧
        got = min count (content.length - offset) ∧ w.bytesAt offset got = content.slice offset got)
      fun _ t => content.length < offset ∧ ∃ w, t = s.withWindow w ∧ t.channel.Shows content := by
  by_cases haccepted : offset < FileSystem.offsetLimit
  · exact (windowed_read_accepted h count haccepted hsize).attempts
  have hsame (w : Windowed Channel) (hw : w.Shows content) (hdevice : w.device = s.channel.device) :
      s.withChannel w = s.withWindow w.window ∧ (s.withWindow w.window).channel.Shows content := by
    have hwindow : s.withChannel w = s.withWindow w.window := by
      rw [withChannel, hdevice]
      rfl
    exact ⟨hwindow, hwindow ▸ hw⟩
  refine (windowed_attempts (h.read_ends offset count)).mono ?_ ?_
  · rintro got _ ⟨w, ⟨hgot, hw, hdevice⟩, rfl⟩
    obtain ⟨hwindow, hshows⟩ := hsame w hw hdevice
    obtain rfl : got = 0 := by omega
    refine ⟨w.window, hwindow, hwindow ▸ hshows, by omega, ?_⟩
    unfold Window.bytesAt
    split_ifs <;> rfl
  · rintro _ _ ⟨_, w, ⟨hw, hdevice⟩, -, rfl⟩
    obtain ⟨hwindow, hshows⟩ := hsame w hw hdevice
    exact ⟨by omega, w.window, hwindow, hwindow ▸ hshows⟩

def Sought (s t : Session) : Prop :=
  ∃ window terminator recordLength,
    (s.unit.connection.fixedLength = true → recordLength = s.unit.connection.recordLength) ∧
    t = { s with
      unit := { s.unit with
        window, terminator, connection := { s.unit.connection with recordLength } } }

theorem Sought.fixedRecordLength_eq (h : Sought s t) :
    t.unit.connection.fixedRecordLength = s.unit.connection.fixedRecordLength := by
  obtain ⟨window, terminator, recordLength, hlength, rfl⟩ := h
  unfold Connection.fixedRecordLength
  cases hfixed : s.unit.connection.fixedLength with
  | true => simp [hlength hfixed]
  | false => simp

theorem Sought.recordsAhead_eq (h : Sought s t) : t.recordsAhead content = s.recordsAhead content := by
  have hfixed := h.fixedRecordLength_eq
  obtain ⟨window, terminator, recordLength, -, rfl⟩ := h
  unfold recordsAhead
  rw [hfixed]

theorem found_of_fixed {u : ExternalUnit} {length : ℕ} (hatEnd : u.connection.atEnd = false)
    (hfixed : u.connection.fixedRecordLength = some length)
    (hdeclared : u.connection.recordLength = some length) (hpos : 0 < length)
    (hne : content.drop u.offset ≠ []) : Found content u := by
  refine ⟨hatEnd, (content.drop u.offset).take length, (content.drop u.offset).drop length, ?_⟩
  rw [hfixed]
  exact ⟨⟨hpos, hne, rfl, rfl⟩, hdeclared, by simp [inputStride, hfixed, hdeclared]⟩

theorem found_of_line {line after : Bytes} (hformatted : s.unit.connection.formatted = true)
    (hlines : s.unit.connection.fixedLength = false) (hatEnd : s.unit.connection.atEnd = false)
    (hline : FirstLine (content.drop s.unit.offset) line after) :
    Found content
      (s.withExtent line.length
        ((content.drop s.unit.offset).length - line.length - after.length)).unit := by
  have hfixed : (s.withExtent line.length ((content.drop s.unit.offset).length - line.length -
      after.length)).unit.connection.fixedRecordLength = none := by
    change (if s.unit.connection.fixedLength = true then _ else _) = _
    rw [hlines, if_neg Bool.false_ne_true]
  refine ⟨hatEnd, line, after, ?_⟩
  rw [hfixed]
  refine ⟨hline, rfl, ?_⟩
  obtain ⟨terminator, htotal⟩ := hline.exists_terminator
  have hlength := congrArg List.length htotal
  simp only [List.length_append] at hlength
  simp only [inputStride, hfixed, Option.isSome_none, Bool.false_eq_true, if_false, Option.getD_none]
  change (if s.unit.connection.formatted = true then line.length + _ else _) = _
  rw [if_pos hformatted]
  change line.length + ((content.drop s.unit.offset).length - line.length - after.length) =
    (content.drop s.unit.offset).length - after.length
  omega

namespace Listing

variable {margin : ℕ} (h : Listing content margin s)
include h

/-- The reach of the session is far more than the doublings that the search for a newline takes. -/
theorem lt_of_reach {window n : ℕ} (hn : s.reach ≤ n) (hwindow : 0 < window) :
    content.length - s.unit.offset < window * 2 ^ n :=
  calc content.length - s.unit.offset ≤ s.reach := (Nat.sub_le _ _).trans (length_le_reach h.shows)
    _ ≤ n := hn
    _ < 2 ^ n := Nat.lt_two_pow_self
    _ ≤ window * 2 ^ n := Nat.le_mul_of_pos_left _ hwindow

theorem locateFormattedIn_attempts (hsize : content.length < FileSystem.offsetLimit)
    (hlines : s.unit.connection.fixedLength = false) {window n : ℕ} (hwindow : 0 < window)
    (hn : content.length - s.unit.offset < window * 2 ^ n) :
    Attempts (locateFormattedIn (n + 1) window) s
      (fun found t => Sought s t ∧ t.channel.Shows content ∧
        (found = true → content.drop s.unit.offset ≠ [] ∧
          (s.unit.connection.atEnd = false → Found content t.unit)) ∧
        (found = false → content.drop s.unit.offset = []))
      fun _ t => Sought s t ∧ t.channel.Shows content ∧ content.drop s.unit.offset = [] := by
  have hsame (w : Window) : Sought s (s.withWindow w) :=
    ⟨w, s.unit.terminator, s.unit.connection.recordLength, fun _ => rfl, rfl⟩
  by_cases hinside : s.unit.offset ≤ content.length
  · have hcontent : content.take s.unit.offset ++ content.drop s.unit.offset = content :=
      List.take_append_drop _ _
    have hoffset : s.unit.offset = (content.take s.unit.offset).length := by
      rw [List.length_take, min_eq_left hinside]
    have hsearch {record : Option Bytes} {after : Bytes}
        (hnext : NextRecord (content.drop s.unit.offset) record after) :=
      locateFormattedIn_succeeds hnext (by rw [hcontent]; exact h.shows) hoffset
        (by rw [hcontent]; exact hsize) hwindow (by rw [List.length_drop]; exact hn)
    by_cases hrest : content.drop s.unit.offset = []
    · have hnone : NextRecord (content.drop s.unit.offset) none [] := hrest ▸ .atEnd
      refine (hsearch hnone).attempts.mono ?_ fun _ _ => False.elim
      rintro _ t ⟨rfl, w, hw, rfl⟩
      exact ⟨hsame w, hcontent ▸ hw, nofun, fun _ => hrest⟩
    · obtain ⟨line, after, hline⟩ := FirstLine.exists_of_ne_nil hrest
      refine (hsearch (.line hline)).attempts.mono ?_ fun _ _ => False.elim
      rintro _ t ⟨rfl, w, hw, rfl⟩
      exact ⟨⟨w, _, some line.length, by simp [hlines], rfl⟩, hcontent ▸ hw, fun _ => ⟨hrest,
        fun hatEnd => found_of_line (s := s.withWindow w) h.formatted hlines hatEnd hline⟩, nofun⟩
  -- Behind the end of the file the first look finds that nothing is left.
  · have hrest : content.drop s.unit.offset = [] := List.drop_of_length_le (by omega)
    refine (attempts_get _).mpr ?_
    refine Attempts.bind ((windowed_read_attempts h.shows hsize _ _).mono (fun _ _ => id) ?_) ?_
    · rintro _ _ ⟨-, w, rfl, hw⟩
      exact ⟨hsame w, hw, hrest⟩
    · rintro _ _ ⟨w, rfl, hw, rfl, -⟩
      rw [if_pos (by omega)]
      exact ⟨hsame w, hw, nofun, fun _ => hrest⟩

/-- The search for the current record finds it where there is one. -/
theorem findRecord_attempts (hsize : content.length < FileSystem.offsetLimit)
    (hatEnd : s.unit.connection.atEnd = false) :
    Attempts findRecord s
      (fun found t => Sought s t ∧ t.channel.Shows content ∧ (found = true → Found content t.unit) ∧
        (found = false →
          recordsIn s.unit.connection.fixedRecordLength (content.drop s.unit.offset) = []))
      fun _ t => Sought s t ∧ t.channel.Shows content ∧
        recordsIn s.unit.connection.fixedRecordLength (content.drop s.unit.offset) = [] := by
  cases hfixed : s.unit.connection.fixedRecordLength with
  | some length =>
    obtain ⟨hlength, hdeclared⟩ : s.unit.connection.fixedLength = true ∧
        s.unit.connection.recordLength = some length := by
      rw [Connection.fixedRecordLength] at hfixed
      split_ifs at hfixed with hlength
      exact ⟨hlength, hfixed⟩
    have hsame (w : Window) : Sought s { s with unit := { s.unit with window := w, terminator := 0 } } :=
      ⟨w, 0, s.unit.connection.recordLength, fun _ => rfl, rfl⟩
    have hshows : ({ s with unit := { s.unit with terminator := 0 } } : Session).channel.Shows
        content := h.shows
    refine findRecord_of_fixed hfixed ((windowed_read_attempts hshows hsize _ _).mono ?_ ?_)
    · rintro _ _ ⟨w, rfl, hw, rfl, -⟩
      refine ⟨hsame w, hw, fun hfound => ?_, fun hnone => ?_⟩
      · have hpos : 0 < length ∧ s.unit.offset < content.length := by
          have hgot := of_decide_eq_true hfound
          omega
        have hne : content.drop s.unit.offset ≠ [] :=
          List.length_pos_iff.mp (by rw [List.length_drop]; omega)
        exact found_of_fixed hatEnd hfixed hdeclared hpos.1 hne
      · have hgot := of_decide_eq_false hnone
        by_cases hzero : length = 0
        · rw [hzero, recordsIn_zero]
        · rw [List.drop_of_length_le (by omega), recordsIn_nil]
    · rintro _ _ ⟨hoffset, w, rfl, hw⟩
      refine ⟨hsame w, hw, ?_⟩
      rw [List.drop_of_length_le hoffset.le, recordsIn_nil]
  | none =>
    have hlines : s.unit.connection.fixedLength = false := by
      rw [Connection.fixedRecordLength] at hfixed
      refine Bool.eq_false_iff.mpr fun hlength => ?_
      have hsome := h.declared hlength
      rw [if_pos hlength] at hfixed
      rw [hfixed] at hsome
      cases hsome
    refine findRecord_of_line hfixed h.formatted ((attempts_get _).mpr ?_)
    exact (h.locateFormattedIn_attempts hsize hlines h.readChunk_pos
        (h.lt_of_reach le_rfl h.readChunk_pos)).mono
      (fun _ _ ht => ⟨ht.1, ht.2.1, fun hfound => (ht.2.2.1 hfound).2 hatEnd,
        fun hfound => by rw [ht.2.2.2 hfound]; rfl⟩)
      fun _ _ ht => ⟨ht.1, ht.2.1, by rw [ht.2.2]; rfl⟩

theorem sought (ht : Sought s t) (hshows : t.channel.Shows content)
    (hfound : t.unit.located = true → Found content t.unit) : Listing content margin t := by
  obtain ⟨window, terminator, recordLength, hlength, rfl⟩ := ht
  refine { h with shows := hshows, declared := fun hfixed => ?_, found := hfound }
  change recordLength.isSome = true
  rw [hlength hfixed]
  exact h.declared hfixed

end Listing

theorem Sought.textsAhead_eq (h : Sought s t) : t.textsAhead content = s.textsAhead content := by
  have hrecords : t.recordsAhead content = s.recordsAhead content := h.recordsAhead_eq
  obtain ⟨window, terminator, recordLength, -, rfl⟩ := h
  unfold textsAhead
  rw [hrecords]

theorem recordsAhead_of_atEnd (h : s.unit.connection.atEnd = true) :
    s.recordsAhead content = [] := by
  unfold Connection.atEnd at h
  unfold recordsAhead
  cases hend : s.unit.connection.endRecord with
  | none => simp [hend] at h
  | some last =>
    rw [hend] at h
    dsimp only
    rw [Nat.sub_eq_zero_of_le (of_decide_eq_true h), List.take_zero]

theorem recordsAhead_of_none
    (h : recordsIn s.unit.connection.fixedRecordLength (content.drop s.unit.offset) = []) :
    s.recordsAhead content = [] := by
  unfold recordsAhead
  cases s.unit.connection.endRecord with
  | none => exact h
  | some last =>
    dsimp only
    rw [h, List.take_nil]

theorem Found.recordsAhead_eq (h : Found content s.unit) : ∃ text after later,
    ({ recordLength := s.unit.connection.fixedRecordLength } : Form).FirstRecord
      (content.drop s.unit.offset) text after ∧
    s.unit.connection.recordLength = some (s.unit.connection.fixedRecordLength.getD text.length) ∧
    inputStride s.unit =
      s.unit.connection.fixedRecordLength.getD ((content.drop s.unit.offset).length - after.length) ∧
    s.recordsAhead content = text :: later ∧
    later = match s.unit.connection.endRecord with
      | none => recordsIn s.unit.connection.fixedRecordLength after
      | some last => (recordsIn s.unit.connection.fixedRecordLength after).take
          (last - (s.unit.connection.record + 1)) := by
  obtain ⟨hatEnd, text, after, hfirst, hlength, hstride⟩ := h
  refine ⟨text, after, _, hfirst, hlength, hstride, ?_, rfl⟩
  have hrecords := hfirst.recordsIn_eq
  unfold recordsAhead
  unfold Connection.atEnd at hatEnd
  dsimp only at hrecords ⊢
  rw [hrecords]
  cases hend : s.unit.connection.endRecord with
  | none => rfl
  | some last =>
    rw [hend] at hatEnd
    have hbefore := of_decide_eq_false hatEnd
    dsimp only
    rw [show last - s.unit.connection.record = last - (s.unit.connection.record + 1) + 1 by omega,
      List.take_succ_cons]

theorem firstRecord_of_recordsAhead {text : Bytes} {later : List Bytes}
    (h : s.recordsAhead content = text :: later) : ∃ after,
      ({ recordLength := s.unit.connection.fixedRecordLength } : Form).FirstRecord
        (content.drop s.unit.offset) text after := by
  have hprefix : text :: later <+:
      recordsIn s.unit.connection.fixedRecordLength (content.drop s.unit.offset) := by
    unfold recordsAhead at h
    dsimp only at h
    split at h
    · rw [h]
    · rw [← h]
      exact List.take_prefix _ _
  obtain ⟨records, hrecords⟩ := hprefix
  obtain ⟨after, hfirst, -⟩ := Form.firstRecord_of_records
    (f := { recordLength := s.unit.connection.fixedRecordLength }) hrecords.symm
  exact ⟨after, hfirst⟩

/-- The column behind a character is far below the largest one. -/
theorem position_lt_of_recordsAhead (hsize : content.length < FileSystem.offsetLimit) {text : Bytes}
    {later : List Bytes} (h : s.recordsAhead content = text :: later)
    (hinside : s.unit.connection.position < text.length) :
    s.unit.connection.position + 1 < 2 ^ 63 := by
  obtain ⟨after, hfirst⟩ := firstRecord_of_recordsAhead h
  have htext := hfirst.text_prefix.length_le.trans (List.drop_suffix _ content).length_le
  have hcontent : content.length < 2 ^ 63 := hsize
  omega

theorem textsAhead_of_records_nil (h : s.recordsAhead content = []) : s.textsAhead content = [] := by
  rw [textsAhead, h]

namespace Listing

variable {margin : ℕ} (h : Listing content margin s)
include h

theorem ensureLocated_attempts (hsize : content.length < FileSystem.offsetLimit) :
    Attempts ensureLocated s
      (fun found t => Listing content margin t ∧ t.textsAhead content = s.textsAhead content ∧
        (found = true → t.unit.located = true ∧ t.handler = s.handler) ∧
        (found = false → s.textsAhead content = [] ∧ t.handler = s.handler.record .endOfFile))
      fun _ t => Listing content margin t ∧ t.textsAhead content = s.textsAhead content ∧
        t.handler = s.handler ∧ s.textsAhead content = [] := by
  have hnotes {t : Session} (ht : Listing content margin t) (hhandler : t.handler = s.handler)
      (hsame : t.textsAhead content = s.textsAhead content) (hnone : s.textsAhead content = []) :
      t.NotesEnd fun u => Listing content margin u ∧ u.textsAhead content = s.textsAhead content ∧
        (false = true → u.unit.located = true ∧ u.handler = s.handler) ∧
        (false = false → s.textsAhead content = [] ∧ u.handler = s.handler.record .endOfFile) := by
    have hreceives : (t.handler.record .endOfFile).declared.receivesError = true :=
      (congrArg Receivers.receivesError (t.handler.record_declared _)).trans ht.receives
    exact ⟨Receivers.admits_of_receivesError ht.receives _, { ht with receives := hreceives }, hsame,
      Bool.noConfusion, fun _ => ⟨hnone, congrArg (Handler.record · .endOfFile) hhandler⟩⟩
  refine Session.ensureLocated_attempts
    (fun hlocated => ⟨h, rfl, fun _ => ⟨hlocated, rfl⟩, Bool.noConfusion⟩)
    (fun _ hatEnd => hnotes h rfl rfl (textsAhead_of_records_nil (recordsAhead_of_atEnd hatEnd)))
    fun hlocated hinside => ?_
  have hsought {t : Session} (ht : Sought s t) (hshows : t.channel.Shows content) :
      Listing content margin t ∧ t.unit.located = false ∧ t.handler = s.handler ∧
        t.textsAhead content = s.textsAhead content := by
    have hsame : t.unit.located = s.unit.located ∧ t.handler = s.handler := by
      obtain ⟨_, _, _, -, rfl⟩ := ht
      exact ⟨rfl, rfl⟩
    have hunlocated : t.unit.located = false := hsame.1.trans hlocated
    exact ⟨h.sought ht hshows fun htrue => Bool.noConfusion (hunlocated.symm.trans htrue), hunlocated,
      hsame.2, ht.textsAhead_eq⟩
  refine (h.findRecord_attempts hsize hinside).mono ?_ ?_
  · rintro found t ⟨ht, hshows, hfound, hnone⟩
    obtain ⟨hlisting, hunlocated, hhandler, hsame⟩ := hsought ht hshows
    cases found with
    | true =>
      exact ⟨{ hlisting with found := fun _ => hfound rfl }, hsame, fun _ => ⟨rfl, hhandler⟩,
        Bool.noConfusion⟩
    | false =>
      have hnil := textsAhead_of_records_nil (recordsAhead_of_none (hnone rfl))
      have hended : Listing content margin t.atLastRecord :=
        { hlisting with found := fun htrue => Bool.noConfusion (hunlocated.symm.trans htrue) }
      have hatEnd : t.atLastRecord.unit.connection.atEnd = true := decide_eq_true le_rfl
      exact hnotes hended hhandler
        ((textsAhead_of_records_nil (recordsAhead_of_atEnd hatEnd)).trans hnil.symm) hnil
  · rintro _ t ⟨ht, hshows, hnone⟩
    obtain ⟨hlisting, -, hhandler, hsame⟩ := hsought ht hshows
    exact ⟨hlisting, hsame, hhandler, textsAhead_of_records_nil (recordsAhead_of_none hnone)⟩

theorem peek_attempts (hsize : content.length < FileSystem.offsetLimit) :
    Attempts peek s
      (fun ch t => Listing content margin t ∧ t.textsAhead content = s.textsAhead content ∧
        ch = (s.textsAhead content).head?.bind List.head? ∧
        (s.textsAhead content ≠ [] → t.unit.located = true ∧ t.handler = s.handler) ∧
        (s.textsAhead content = [] → t.handler = s.handler.record .endOfFile))
      fun _ t => Listing content margin t ∧ t.textsAhead content = s.textsAhead content ∧
        t.handler = s.handler ∧ (s.textsAhead content = [] ∨ s.textsAhead content = [[]]) := by
  refine Session.peek_attempts h.formatted h.shows.mayRead ((h.ensureLocated_attempts hsize).mono ?_ ?_)
  swap
  · rintro _ t ⟨ht, hsame, hhandler, hnone⟩
    exact ⟨ht, hsame, hhandler, .inl hnone⟩
  rintro found t ⟨ht, hsame, hfound, hnone⟩
  cases found with
  | false =>
    obtain ⟨hnil, hhandler⟩ := hnone rfl
    rw [hnil]
    exact ⟨ht, hsame.trans hnil, rfl, absurd rfl, fun _ => hhandler⟩
  | true =>
    obtain ⟨hlocated, hhandler⟩ := hfound rfl
    obtain ⟨text, after, later, hfirst, hlength, -, hrecords, hlater⟩ := (ht.found hlocated).recordsAhead_eq
    have hahead : s.textsAhead content =
        chars (text.drop t.unit.connection.position) :: later.map chars := by
      rw [← hsame, textsAhead, hrecords]
    have hhead : (s.textsAhead content).head?.bind List.head? =
        text[t.unit.connection.position]?.map fun b => Char.ofNat b.toNat := by
      rw [hahead, List.head?_cons, Option.bind_some, chars, List.head?_map, List.head?_drop]
    have hne : s.textsAhead content ≠ [] := by simp [hahead]
    rw [hhead]
    refine atCursor_attempts ht.formatted hlength rfl (fun hbehind => ?_) fun hinside => ?_
    · rw [List.getElem?_eq_none (hfirst.length_text_le.trans hbehind)]
      exact ⟨ht, hsame, rfl, fun _ => ⟨hlocated, hhandler⟩, fun hnil => absurd hnil hne⟩
    refine (windowed_read_attempts ht.shows hsize _ 1).mono ?_ ?_
    · rintro got _ ⟨w, rfl, hw, hgot, hbytes⟩
      refine ⟨{ ht with shows := hw }, hsame, ?_, fun _ => ⟨hlocated, hhandler⟩,
        fun hnil => absurd hnil hne⟩
      rw [hfirst.getElem?_text hinside, List.getElem?_drop]
      split_ifs with hzero
      · rw [List.getElem?_eq_none (by omega)]
        rfl
      · obtain rfl : got = 1 := by omega
        change (w.bytesAt _ 1).head?.map _ = _
        rw [hbytes, Bytes.slice, List.head?_take, if_neg Nat.one_ne_zero, List.head?_drop]
    -- The file system takes no offset so far behind the last byte.
    · rintro _ _ ⟨hoffset, w, rfl, hw⟩
      have hrest : (content.drop t.unit.offset).length ≤ t.unit.connection.position := by
        rw [List.length_drop]
        omega
      have hnone : later = [] := by
        rw [hlater, hfirst.after_eq_nil hrest hinside, recordsIn_nil]
        cases t.unit.connection.endRecord <;> simp
      have htext : text.drop t.unit.connection.position = [] :=
        List.drop_of_length_le (hfirst.text_prefix.length_le.trans hrest)
      exact ⟨{ ht with shows := hw }, hsame, hhandler, .inr (by rw [hahead, htext, hnone]; rfl)⟩

theorem nextChar_completes (hsize : content.length < FileSystem.offsetLimit) :
    Completes nextChar s fun ch t => ch = (s.textsAhead content).head?.bind List.head? ∧
      Listing content margin t ∧ t.textsAhead content = s.textsAhead content ∧
      (t.handler = s.handler ∧ s.textsAhead content ≠ [] ∧ t.unit.located = true ∨
        t.handler.status ≠ .ok ∧
          (s.textsAhead content = [] ∨ s.textsAhead content = [[]])) := by
  refine Ends.bind (h.peek_attempts hsize) fun found t ht => ?_
  cases found with
  | ok ch =>
    obtain ⟨hlisting, hsame, rfl, hsome, hnone⟩ := ht
    refine ⟨rfl, hlisting, hsame, ?_⟩
    by_cases hnil : s.textsAhead content = []
    · refine .inr ⟨?_, .inl hnil⟩
      rw [hnone hnil]
      exact s.handler.status_record_ne_ok nofun
    · obtain ⟨hlocated, hhandler⟩ := hsome hnil
      exact .inl ⟨hhandler, hnil, hlocated⟩
  | error f =>
    obtain ⟨hlisting, hsame, hhandler, hnone⟩ := ht
    obtain ⟨handler, hfault, hdeclared, -⟩ := t.handler.fault_received f hlisting.receives
    refine Ends.bind (noting_completes hfault) ?_
    rintro _ _ rfl
    have hreceives : handler.declared.receivesError = true :=
      (congrArg Receivers.receivesError hdeclared).trans hlisting.receives
    refine ⟨?_, { hlisting with receives := hreceives }, hsame, .inr ⟨?_, hnone⟩⟩
    · rcases hnone with hnil | hnil <;> rw [hnil] <;> rfl
    · exact Handler.status_ne_ok_of_fault hfault

theorem atColumn {text : Bytes} {records : List Bytes} (hrecords : s.recordsAhead content = text :: records)
    {column : ℕ} (hcolumn : s.unit.connection.position ≤ column) {handler : Handler}
    (hdeclared : handler.declared = s.handler.declared) :
    let t : Session := { s with
      unit := s.unit.setConnection fun c => { c with position := column }, handler }
    Listing content margin t ∧
      (Connection.shifted s.unit.connection.tabFloor 0 ≤ column → Listing content 0 t) ∧
      t.textsAhead content = chars (text.drop column) :: records.map chars := by
  intro t
  have ht (m : ℕ) (hm : Connection.shifted s.unit.connection.tabFloor 0 ≤ column + m) :
      Listing content m t :=
    { h with tabFloor_le := hm, receives := (congrArg Receivers.receivesError hdeclared).trans h.receives }
  refine ⟨ht margin (h.tabFloor_le.trans (Nat.add_le_add_right hcolumn margin)), ht 0, ?_⟩
  change (match s.recordsAhead content with
    | [] => []
    | text :: records => chars (text.drop column) :: records.map chars) = _
  rw [hrecords]

/-- A move by one column passes the next character, and a cursor that is left of the left tab limit also
passes what is before the limit. Where the limit is behind the record, that is noted. -/
theorem moveRelative_completes (hsize : content.length < FileSystem.offsetLimit) {c : Char}
    {cs : List Char} {later : List (List Char)}
    (hahead : s.textsAhead content = (c :: cs) :: later) :
    Completes (moveRelative 1) s fun _ t => Listing content margin t ∧
      (margin = 0 → t.textsAhead content = cs :: later ∧ t.handler = s.handler) ∧
      ∃ left, t.textsAhead content = left :: later ∧ left.length ≤ cs.length ∧
        (Listing content 0 t ∧ t.handler = s.handler ∨ left = [] ∧ t.handler.status ≠ .ok) := by
  have htexts := hahead
  unfold textsAhead at htexts
  cases hrecords : s.recordsAhead content with
  | nil =>
    rw [hrecords] at htexts
    cases htexts
  | cons text records =>
    rw [hrecords] at htexts
    obtain ⟨hchars, rfl⟩ := List.cons.inj htexts
    have hlength := congrArg List.length hchars
    rw [Bytes.length_chars, List.length_drop, List.length_cons] at hlength
    obtain ⟨after, hfirst⟩ := firstRecord_of_recordsAhead hrecords
    have hroom := position_lt_of_recordsAhead hsize hrecords (by omega)
    have htarget : s.unit.connection.target (.relative 1) =
        max (s.unit.connection.position + 1) (Connection.shifted s.unit.connection.tabFloor 0) := by
      rw [Connection.target, Connection.shifted_of_lt (by omega) (by omega)]
      omega
    have hpassed (hmargin : margin = 0) :
        s.unit.connection.target (.relative 1) = s.unit.connection.position + 1 := by
      have hlimit := h.tabFloor_le
      omega
    refine (ends_get _).mpr (report_completes ?_)
    by_cases hwithin : ∀ length, s.unit.connection.fixedRecordLength = some length →
        s.unit.connection.target (.relative 1) ≤ length
    · have hmoved : s.unit.connection.position ≤ s.unit.connection.target (.relative 1) := by omega
      obtain ⟨ht, ht₀, hahead⟩ := h.atColumn hrecords hmoved rfl
      refine (moveTo_of_within hwithin).attempts.mono ?_ fun _ _ => False.elim
      rintro _ _ rfl
      refine ⟨ht, fun hmargin => ⟨?_, rfl⟩, _, hahead, ?_, .inl ⟨ht₀ (by omega), rfl⟩⟩
      · rw [List.drop_eq_getElem_cons (by omega)] at hchars
        rw [hahead, hpassed hmargin, ← (List.cons.inj hchars).2]
        rfl
      · rw [Bytes.length_chars, List.length_drop]
        omega
    · obtain ⟨length, hfixed, hover⟩ : ∃ length, s.unit.connection.fixedRecordLength = some length ∧
          length < s.unit.connection.target (.relative 1) := by simpa using hwithin
      have htext : text.length ≤ length := by
        have hfits := hfirst.length_text_le
        rwa [hfixed] at hfits
      have hleft : chars (text.drop length) = [] := by rw [List.drop_of_length_le htext]; rfl
      have hbehind : s.unit.connection.position ≤ length := by omega
      refine moveTo_of_over hfixed hover (fun _ => ⟨Receivers.admits_of_receivesError h.receives _, ?_⟩)
        fun _ => ?_
      · obtain ⟨ht, -, hahead⟩ := h.atColumn hrecords hbehind (s.handler.record_declared .endOfRecord)
        exact ⟨ht, fun hmargin => by have hnext := hpassed hmargin; omega, _, hahead,
          by rw [hleft]; exact Nat.zero_le _, .inr ⟨hleft, s.handler.status_record_ne_ok (by decide)⟩⟩
      · obtain ⟨handler, hfault, hdeclared, -⟩ := s.handler.fault_received
          (if s.unit.reading then .recordReadOverrun else .recordWriteOverrun) h.receives
        obtain ⟨ht, -, hahead⟩ := h.atColumn hrecords hbehind hdeclared
        exact ⟨handler, hfault, ht, fun hmargin => by have hnext := hpassed hmargin; omega, _, hahead,
          by rw [hleft]; exact Nat.zero_le _, .inr ⟨hleft, Handler.status_ne_ok_of_fault hfault⟩⟩

theorem advance_completes {cs : List Char} {later : List (List Char)}
    (hahead : s.textsAhead content = cs :: later) (hlocated : s.unit.located = true)
    (hstatus : s.handler.status = .ok) :
    Completes advance s fun ok t => ok = true ∧ Listing content 0 t ∧
      t.textsAhead content = later ∧ t.handler = s.handler := by
  obtain ⟨text, after, records, hfirst, -, hstride, hrecords, hlater⟩ := (h.found hlocated).recordsAhead_eq
  have htexts := hahead
  rw [textsAhead, hrecords] at htexts
  obtain ⟨-, rfl⟩ := List.cons.inj htexts
  have hsuccess : (!s.handler.inError) = true := by
    rw [Handler.inError, hstatus]
    rfl
  refine report_completes (advanceRecord_of_input h.reading_eq (ensureLocated_of_located hlocated
    ⟨hsuccess, { h with
      found := fun hlocated => absurd hlocated Bool.false_ne_true
      tabFloor_le := le_rfl }, ?_, rfl⟩))
  have hafter : content.drop (s.unit.offset + inputStride s.unit) = after := by
    rw [← List.drop_drop, hstride]
    exact hfirst.drop_stride
  have hnext : s.onNextInput.recordsAhead content = records := by
    rw [hlater]
    change (match s.unit.connection.endRecord with
      | none => recordsIn s.unit.connection.fixedRecordLength
          (content.drop (s.unit.offset + inputStride s.unit))
      | some last => (recordsIn s.unit.connection.fixedRecordLength
          (content.drop (s.unit.offset + inputStride s.unit))).take
            (last - (s.unit.connection.record + 1))) = _
    rw [hafter]
  rw [textsAhead, hnext]
  cases records <;> rfl

end Listing

end Session

end DataTransfer
