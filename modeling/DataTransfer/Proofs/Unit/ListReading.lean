import Mathlib.Data.List.Basic
import DataTransfer.Proofs.Field.ListText
import DataTransfer.Proofs.Unit.LineCursor
import DataTransfer.Statement

/-!
List-directed READs over the records of a file. Each item goes on from where the one before it has
stopped, over the ends of records, and takes the next field.
-/

namespace DataTransfer

open Session (newline carriageReturn)

/-- The characters of a file, one for each byte. -/
def Bytes.chars (bytes : Bytes) : List Char := bytes.map fun b => Char.ofNat b.toNat

namespace Bytes

@[simp] theorem chars_append (a b : Bytes) : (a ++ b).chars = a.chars ++ b.chars := List.map_append

@[simp] theorem length_chars (a : Bytes) : a.chars.length = a.length := List.length_map _

theorem chars_injective : Function.Injective chars := List.map_injective_iff.mpr ofNat_toNat_injective

end Bytes

open Bytes (chars)

/-! ### The records of a file as a text -/

namespace FirstLine

variable {rest line after : Bytes}

theorem newline_notMem (h : FirstLine rest line after) : newline ∉ line := by
  cases h with
  | @terminated whole h after =>
    obtain ⟨suffix, hsuffix⟩ := stripReturn_prefix whole
    exact fun hmem => h (hsuffix ▸ List.mem_append_left suffix hmem)
  | tail h => exact h

theorem recordEnd (h : FirstLine rest line after) :
    RecordEnd (chars (rest.drop line.length)) (chars after) ∧
      ((chars (rest.drop line.length)).head? = some '\n' → line.getLast? ≠ some carriageReturn) := by
  cases h with
  | @terminated whole h after =>
    unfold stripReturn
    split_ifs with hlast
    · obtain ⟨start, rfl⟩ := List.getLast?_eq_some_iff.mp hlast
      rw [List.dropLast_concat, List.append_assoc, List.drop_left]
      exact ⟨.returned _, nofun⟩
    · rw [List.drop_left]
      exact ⟨.newline _, fun _ => hlast⟩
  | tail h =>
    rw [List.drop_length]
    exact ⟨.file, nofun⟩

theorem inRecord (h : FirstLine rest line after) (pos : ℕ) :
    InRecord (chars (line.drop pos)) (chars (rest.drop line.length)) := by
  refine ⟨?_, ⟨_, h.recordEnd.1⟩, ?_⟩
  · intro hmem
    obtain ⟨b, hb, hnewline⟩ := List.mem_map.mp hmem
    obtain rfl : b = newline := Bytes.ofNat_toNat_injective hnewline
    exact h.newline_notMem (List.mem_of_mem_drop hb)
  · intro hhead hlast
    rw [Bytes.chars, List.getLast?_map] at hlast
    obtain ⟨b, hb, hreturn⟩ := Option.map_eq_some_iff.mp hlast
    obtain rfl : b = carriageReturn := Bytes.ofNat_toNat_injective hreturn
    refine h.recordEnd.2 hhead ?_
    obtain ⟨start, hstart⟩ := List.getLast?_eq_some_iff.mp hb
    rw [← List.take_append_drop pos line, hstart, ← List.append_assoc]
    exact List.getLast?_concat

theorem drop_append_drop (h : FirstLine rest line after) {pos : ℕ} (hpos : pos ≤ line.length) :
    line.drop pos ++ rest.drop line.length = rest.drop pos := by
  obtain ⟨terminator, rfl⟩ := h.exists_terminator
  rw [List.drop_left, List.drop_append_of_le_length hpos]

end FirstLine

theorem RecordEnd.unique {text after after' : List Char} (h : RecordEnd text after)
    (h' : RecordEnd text after') : after = after' := by
  cases h <;> cases h' <;> rfl

namespace Session

variable {s t : Session} {device : Channel} {content before rest : Bytes} {handler : Handler}
variable {items : ℕ} {cs tail text trail : List Char}

/-! ### A READ in its text -/

/-- A list-directed READ whose record goes on with `cs`, and behind it the file with `tail`. -/
structure Facing (device : Channel) (content : Bytes) (handler : Handler) (items : ℕ)
    (cs tail : List Char) (s : Session) : Prop where
  onLine : ∃ before rest after line, before ++ rest = content ∧
    OnLine device before rest after (some line) s ∧ s.unit.connection.position ≤ line.length ∧
    cs = chars (line.drop s.unit.connection.position) ∧ tail = chars (rest.drop line.length)
  handler_eq : s.handler = handler
  items_eq : s.items = items
  statement_eq : ∃ modes, s.unit.statement = .listDirected .input modes

/-- A list-directed READ that has this text before it, up to the end of the file. -/
def AtText (device : Channel) (content : Bytes) (handler : Handler) (items : ℕ) (text : List Char)
    (s : Session) : Prop :=
  ∃ cs tail, cs ++ tail = text ∧ Facing device content handler items cs tail s

namespace Facing

variable (h : Facing device content handler items cs tail s)
include h

theorem inRecord : InRecord cs tail := by
  obtain ⟨before, rest, after, line, -, hline, -, rfl, rfl⟩ := h.onLine
  exact hline.firstLine.inRecord _

theorem length_le_reach : (cs ++ tail).length ≤ s.reach := by
  obtain ⟨before, rest, after, line, -, hline, hpos, rfl, rfl⟩ := h.onLine
  have hreach := hline.length_le_reach
  rw [← Bytes.chars_append, hline.firstLine.drop_append_drop hpos, Bytes.length_chars,
    List.length_drop]
  rw [List.length_append] at hreach
  omega

theorem nextChar_completes (hsize : content.length < FileSystem.offsetLimit) :
    Completes nextChar s fun ch t => ch = cs.head? ∧
      Facing device content handler items cs tail t := by
  obtain ⟨before, rest, after, line, rfl, hline, hpos, rfl, rfl⟩ := h.onLine
  refine (nextChar_of_peek (hline.peek_succeeds hsize nofun)).mono ?_ fun _ _ => id
  rintro _ t ⟨rfl, ht, hlooked⟩
  refine ⟨?_, ⟨before, rest, after, line, rfl, ht, ?_, ?_, rfl⟩, ?_, ?_, ?_⟩
  · rw [Bytes.chars, List.head?_map, List.head?_drop]
    rfl
  · rw [hlooked.position_eq]
    exact hpos
  · rw [hlooked.position_eq]
  · exact hlooked.handler_eq.trans h.handler_eq
  · exact hlooked.items_eq.trans h.items_eq
  · rw [hlooked.statement_eq]
    exact h.statement_eq

end Facing

theorem Facing.move_completes (hsize : content.length < FileSystem.offsetLimit) {c : Char}
    (h : Facing device content handler items (c :: cs) tail s) :
    Completes (moveRelative 1) s fun _ t => Facing device content handler items cs tail t := by
  obtain ⟨before, rest, after, line, hcontent, hline, hpos, hcs, htail⟩ := h.onLine
  have hin : s.unit.connection.position < line.length := by
    have hlength := congrArg List.length hcs
    rw [Bytes.length_chars, List.length_drop, List.length_cons] at hlength
    omega
  have htarget : s.unit.connection.target (.relative 1) = s.unit.connection.position + 1 := by
    refine Connection.target_one (hline.form.tabFloor.trans_le (Nat.zero_le _)) ?_
    have hlength : line.length ≤ content.length := by
      rw [← hcontent, List.length_append]
      exact hline.firstLine.length_le.trans (Nat.le_add_left _ _)
    have hroom : content.length < 2 ^ 63 := hsize
    omega
  refine (ends_get _).mpr (report_completes ?_)
  rw [htarget]
  refine (hline.moveTo_succeeds _).mono ?_ fun _ _ => False.elim
  rintro _ t ⟨ht, hhandler, hitems, hstatement, hposition⟩
  refine ⟨⟨before, rest, after, line, hcontent, ht, ?_, ?_, htail⟩, hhandler.trans h.handler_eq,
    hitems.trans h.items_eq, ?_⟩
  · rw [hposition]
    exact hin
  · rw [List.drop_eq_getElem_cons hin] at hcs
    rw [hposition]
    exact (List.cons.inj hcs).2
  · rw [hstatement]
    exact h.statement_eq

theorem Facing.leaves (hsize : content.length < FileSystem.offsetLimit) :
    FieldSource.Leaves fun cs => Facing device content handler items cs tail where
  current h := h.nextChar_completes hsize
  move h := Ends.mono (h.move_completes hsize).discard (fun _ _ ⟨_, ht⟩ => ht) fun _ _ => id
  length_le_reach h := le_trans (by simp) h.length_le_reach

theorem Between.facing {after line : Bytes} (h : Between device before rest s)
    (hline : FirstLine rest line after) (hreading : s.unit.reading = true)
    (hstatement : ∃ modes, s.unit.statement = .listDirected .input modes) :
    AtText device (before ++ rest) s.handler s.items (chars rest) s := by
  have hposition := h.position_eq (List.length_pos_iff.mp hline.length_pos)
  refine ⟨chars line, chars (rest.drop line.length), ?_, ⟨before, rest, after, line, rfl,
    h.onLine (.line hline) hreading, ?_, ?_, rfl⟩, rfl, rfl, hstatement⟩
  · rw [← Bytes.chars_append]
    exact congrArg chars (hline.drop_append_drop (Nat.zero_le _))
  · rw [hposition]
    exact Nat.zero_le _
  · rw [hposition]
    rfl

theorem Facing.advance_completes (h : Facing device content handler items [] tail s)
    (hsize : content.length < FileSystem.offsetLimit) (hstatus : handler.status = .ok)
    (hend : RecordEnd tail text) (hne : text ≠ []) :
    Completes advance s fun ok t => ok = true ∧ AtText device content handler items text t := by
  obtain ⟨before, rest, after, line, rfl, hline, hpos, hcs, rfl⟩ := h.onLine
  obtain rfl : text = chars after := hend.unique hline.firstLine.recordEnd.1
  refine report_completes ((hline.advanceRecord_succeeds hsize nofun).mono ?_ fun _ _ => False.elim)
  rintro _ t ⟨hhandler, hitems, hstatement, hreading, before', hcontent, ht⟩
  have hsame : t.handler = handler := hhandler.trans h.handler_eq
  obtain ⟨line', after', hline'⟩ := FirstLine.exists_of_ne_nil fun hnil => hne (congrArg chars hnil)
  refine ⟨by rw [hsame, Handler.inError, hstatus]; rfl, ?_⟩
  rw [← hcontent, ← h.items_eq, ← hitems, ← hsame]
  exact ht.facing hline' hreading (by rw [hstatement]; exact h.statement_eq)

namespace AtText

theorem skipBlanks_completes {blanks : List Char} (hblanks : ∀ c ∈ blanks, Field.IsBlank c)
    (htext : ∀ c ∈ text.head?, ¬ Field.IsBlank c) (hsize : content.length < FileSystem.offsetLimit)
    (h : AtText device content handler items (blanks ++ text) s) :
    Completes Field.skipBlanks s fun _ t => AtText device content handler items text t := by
  obtain ⟨cs, tail, hcs, h⟩ := h
  obtain ⟨cs', rfl, rfl, -⟩ := h.inRecord.of_plains (fun c hc => (hblanks c hc).plain) hcs
  refine ((Facing.leaves hsize).skipBlanks_completes hblanks ?_ h).mono ?_ fun _ _ => id
  · intro c hc
    cases cs' with
    | nil => cases hc
    | cons d cs' => exact htext c hc
  · exact fun _ t ht => ⟨cs', tail, rfl, ht⟩

theorem nextChar_of_plain {c : Char} (hc : Plain c) (hsize : content.length < FileSystem.offsetLimit)
    (h : AtText device content handler items (c :: text) s) :
    Completes nextChar s fun ch t => ch = some c ∧
      AtText device content handler items (c :: text) t := by
  obtain ⟨cs, tail, hcs, h⟩ := h
  obtain ⟨cs', rfl, -⟩ := h.inRecord.of_plain hc hcs
  refine (h.nextChar_completes hsize).mono ?_ fun _ _ => id
  rintro _ t ⟨rfl, ht⟩
  exact ⟨rfl, _, tail, hcs, ht⟩

theorem nextChar_of_end {after : List Char} (hend : RecordEnd text after)
    (hsize : content.length < FileSystem.offsetLimit)
    (h : AtText device content handler items text s) :
    Completes nextChar s fun ch t => ch = none ∧ AtText device content handler items text t := by
  obtain ⟨cs, tail, rfl, h⟩ := h
  obtain rfl := h.inRecord.of_end hend
  refine (h.nextChar_completes hsize).mono ?_ fun _ _ => id
  rintro _ t ⟨rfl, ht⟩
  exact ⟨rfl, _, tail, rfl, ht⟩

theorem move_completes {c : Char} (hc : Plain c) (hsize : content.length < FileSystem.offsetLimit)
    (h : AtText device content handler items (c :: text) s) :
    Completes (moveRelative 1) s fun _ t => AtText device content handler items text t := by
  obtain ⟨cs, tail, hcs, h⟩ := h
  obtain ⟨cs', rfl, hcs', -⟩ := h.inRecord.of_plain hc hcs
  exact (h.move_completes hsize).mono (fun _ t ht => ⟨cs', tail, hcs', ht⟩) fun _ _ => id

theorem advance_completes (hend : RecordEnd text trail) (hne : trail ≠ [])
    (hsize : content.length < FileSystem.offsetLimit) (hstatus : handler.status = .ok)
    (h : AtText device content handler items text s) :
    Completes advance s fun ok t => ok = true ∧ AtText device content handler items trail t := by
  obtain ⟨cs, tail, rfl, h⟩ := h
  obtain rfl := h.inRecord.of_end hend
  exact h.advance_completes hsize hstatus hend hne

/-! ### The way to the next value -/

theorem seekValueIn_completes {spaces : List Char} {n : ℕ} (hspaces : Field.Spacing spaces)
    (htext : ∃ c cs, text = c :: cs ∧ Plain c ∧ ¬ Field.IsBlank c)
    (hsize : content.length < FileSystem.offsetLimit) (hstatus : handler.status = .ok)
    (hn : spaces.length < n) (h : AtText device content handler items (spaces ++ text) s) :
    Completes (seekValueIn n) s fun _ t => AtText device content handler items text t := by
  obtain ⟨c, cs, rfl, hc, hblank⟩ := htext
  -- By induction over the records that are passed; each takes a round.
  induction hspaces generalizing s n with
  | @blanks blanks hblanks =>
    obtain ⟨n, rfl⟩ := Nat.exists_eq_add_one_of_ne_zero (Nat.ne_of_gt (Nat.zero_lt_of_lt hn))
    apply Ends.bind (h.skipBlanks_completes hblanks (by simpa using hblank) hsize)
    intro _ t ht
    apply Ends.bind (ht.nextChar_of_plain hc hsize)
    rintro _ u ⟨rfl, hu⟩
    exact (ends_get _).mpr hu
  | @line blanks stop spaces hblanks hstop hspaces ih =>
    obtain ⟨n, rfl⟩ := Nat.exists_eq_add_one_of_ne_zero (Nat.ne_of_gt (Nat.zero_lt_of_lt hn))
    rw [List.append_assoc, List.append_assoc] at h
    have hend := Field.recordEnd_of_stop hstop (spaces ++ c :: cs)
    have hfirst : ∀ d ∈ (stop ++ (spaces ++ c :: cs)).head?, ¬ Field.IsBlank d := by
      rcases hstop with rfl | rfl <;> simp [Field.IsBlank]
    apply Ends.bind (h.skipBlanks_completes hblanks hfirst hsize)
    intro _ t ht
    apply Ends.bind (ht.nextChar_of_end hend hsize)
    rintro _ u ⟨rfl, hu⟩
    refine (ends_get _).mpr ?_
    have hok : u.handler.status = .ok := by
      obtain ⟨_, _, -, hfacing⟩ := hu
      rw [hfacing.handler_eq, hstatus]
    rw [if_pos (by simp [hok])]
    apply Ends.bind (hu.advance_completes hend (by simp) hsize hstatus)
    rintro _ v ⟨rfl, hv⟩
    have hless : spaces.length < n := by
      have hpos : 0 < stop.length := by rcases hstop with rfl | rfl <;> simp
      rw [List.length_append, List.length_append] at hn
      omega
    exact ih hless hv

theorem seek_completes {spaces : List Char} (hspaces : Field.Spacing spaces)
    (htext : ∃ c cs, text = c :: cs ∧ Plain c ∧ ¬ Field.IsBlank c)
    (hsize : content.length < FileSystem.offsetLimit) (hstatus : handler.status = .ok)
    (h : AtText device content handler items (spaces ++ text) s) :
    Completes (do seekValueIn ((← get).reach + 2)) s fun _ t =>
      AtText device content handler items text t := by
  refine (ends_get _).mpr (h.seekValueIn_completes hspaces htext hsize hstatus ?_)
  obtain ⟨cs, tail, hcs, h⟩ := h
  have hreach := h.length_le_reach
  rw [hcs, List.length_append] at hreach
  omega

theorem beginListItem_of_first {modes : Modes} {spaces : List Char} (hspaces : Field.Spacing spaces)
    (htext : ∃ c cs, text = c :: cs ∧ Plain c ∧ ¬ Field.IsBlank c)
    (hsize : content.length < FileSystem.offsetLimit) (hstatus : handler.status = .ok)
    (h : AtText device content handler 0 (spaces ++ text) s) :
    Completes (beginListItem modes) s fun _ t => AtText device content handler 0 text t := by
  refine (ends_get _).mpr ?_
  have hitems : ¬ 0 < s.items := by
    obtain ⟨_, _, -, hfacing⟩ := h
    rw [hfacing.items_eq]
    exact lt_irrefl 0
  rw [if_neg hitems]
  exact h.seek_completes hspaces htext hsize hstatus

/-- A later item is found behind what separates it from the one before. -/
theorem beginListItem_of_passed {modes : Modes} {passed : List Char}
    (hpassed : Field.Passed modes passed text)
    (htext : ∃ c cs, text = c :: cs ∧ Plain c ∧ ¬ Field.IsBlank c)
    (hsize : content.length < FileSystem.offsetLimit) (hstatus : handler.status = .ok)
    (h : AtText device content handler (items + 1) (passed ++ text) s) :
    Completes (beginListItem modes) s fun _ t =>
      AtText device content handler (items + 1) text t := by
  obtain ⟨c, cs, rfl, hc, hblank⟩ := htext
  have hnone : ∀ c ∈ ([] : List Char), Field.IsBlank c := nofun
  refine (ends_get _).mpr ?_
  have hitems : 0 < s.items := by
    obtain ⟨_, _, -, hfacing⟩ := h
    rw [hfacing.items_eq]
    exact Nat.succ_pos _
  rw [if_pos hitems]
  have hseparator : (if modes.decimalComma = true then ';' else ',') = Field.listComma modes := rfl
  dsimp only
  rw [hseparator]
  -- What stands behind the blanks of this record decides whether a comma is passed.
  cases hpassed with
  | spacing hspaces hcomma =>
    cases hspaces with
    | blanks hblanks =>
      apply Ends.bind (h.skipBlanks_completes hblanks (by simpa using hblank) hsize)
      intro _ t ht
      apply Ends.bind (ht.nextChar_of_plain hc hsize)
      rintro _ u ⟨rfl, hu⟩
      have hne : ¬ (some c = some (Field.listComma modes)) := fun heq =>
        Field.newline_notMem_blanks hblanks (hcomma heq)
      rw [if_neg hne]
      exact seek_completes (.blanks hnone) ⟨c, cs, rfl, hc, hblank⟩ hsize hstatus hu
    | @line blanks stop spaces hblanks hstop hspaces =>
      rw [List.append_assoc, List.append_assoc] at h
      have hfirst : ∀ d ∈ (stop ++ (spaces ++ c :: cs)).head?, ¬ Field.IsBlank d := by
        rcases hstop with rfl | rfl <;> simp [Field.IsBlank]
      apply Ends.bind (h.skipBlanks_completes hblanks hfirst hsize)
      intro _ t ht
      apply Ends.bind (ht.nextChar_of_end (Field.recordEnd_of_stop hstop _) hsize)
      rintro _ u ⟨rfl, hu⟩
      rw [if_neg (by simp)]
      rw [← List.append_assoc] at hu
      exact hu.seek_completes (.line hnone hstop hspaces) ⟨c, cs, rfl, hc, hblank⟩ hsize hstatus
  | @comma blanks spaces _ hblanks hspaces =>
    rw [List.append_assoc, List.cons_append] at h
    have hfirst : ∀ d ∈ (Field.listComma modes :: (spaces ++ c :: cs)).head?, ¬ Field.IsBlank d := by
      simpa using Field.listComma_not_blank modes
    apply Ends.bind (h.skipBlanks_completes hblanks hfirst hsize)
    intro _ t ht
    apply Ends.bind (ht.nextChar_of_plain (Field.listComma_plain modes) hsize)
    rintro _ u ⟨rfl, hu⟩
    rw [if_pos rfl]
    apply Ends.bind (hu.move_completes (Field.listComma_plain modes) hsize).discard
    rintro _ v ⟨_, hv⟩
    exact hv.seek_completes hspaces ⟨c, cs, rfl, hc, hblank⟩ hsize hstatus

/-! ### Items -/

variable {edit : DataEdit} {kind : IntegerKind} {field : List Char} {v : ℤ}

theorem editInteger_succeeds (kind : IntegerKind) (hedit : edit.kind = .listDirected)
    (hfield : Field.TakesField edit.modes field text v)
    (hsize : content.length < FileSystem.offsetLimit)
    (h : AtText device content handler items (field ++ text) s) :
    Succeeds (Field.editInteger edit kind.bytes) s fun w t =>
      w = kind.narrow (BitVec.ofInt 128 v) ∧ AtText device content handler items text t := by
  obtain ⟨cs, tail, hcs, h⟩ := h
  obtain ⟨cs', rfl, rfl, hrecord⟩ := h.inRecord.of_plains (fun c hc => hfield.plain hc) hcs
  obtain ⟨n, hresult, hpattern⟩ := hfield.onList_eq edit.modes.blankZero
  obtain ⟨c, rest, hhead, -, hblank⟩ := hfield.exists_cons
  rw [← hpattern]
  refine ((Facing.leaves hsize).editInteger_succeeds hedit kind (fun c hc => hfield.not_separator hc)
    (hrecord.isSeparator_of_fieldEnd hfield.fieldEnd) ?_ hresult h).mono ?_ fun _ _ => id
  · intro d hd
    rw [← List.append_assoc] at hhead
    cases hstart : field ++ cs' with
    | nil =>
      rw [hstart] at hd
      cases hd
    | cons e rest' =>
      rw [hstart] at hhead hd
      obtain rfl := Option.some.inj hd
      obtain ⟨rfl, -⟩ := List.cons.inj hhead
      exact hblank
  · rintro w t ⟨rfl, ht⟩
    exact ⟨rfl, cs', tail, rfl, ht⟩

theorem inputInteger_completes (hedit : edit.kind = .listDirected)
    (hfield : Field.TakesField edit.modes field text v)
    (hsize : content.length < FileSystem.offsetLimit) (hstatus : handler.status = .ok)
    (hbegin : Completes (beginListItem edit.modes) s fun _ t =>
      AtText device content handler items (field ++ text) t)
    (h : AtText device content handler items trail s) :
    Completes (inputInteger edit kind.bytes) s fun out t =>
      out = some (kind.narrow (BitVec.ofInt 128 v)) ∧
        AtText device content handler (items + 1) text t := by
  have hok {text : List Char} {k : ℕ} {t : Session} (ht : AtText device content handler k text t) :
      t.handler.status = .ok := by
    obtain ⟨_, _, -, hfacing⟩ := ht
    rw [hfacing.handler_eq, hstatus]
  obtain ⟨modes, hstatement⟩ : ∃ modes, s.unit.statement = .listDirected .input modes := by
    obtain ⟨_, _, -, hfacing⟩ := h
    exact hfacing.statement_eq
  refine (ends_get _).mpr ?_
  rw [if_neg (by simp [hstatement, StatementState.isInput, StatementState.direction?]),
    if_neg (by simp [hok h]), if_pos (by rw [hstatement]; rfl)]
  apply Ends.bind hbegin
  intro _ t ht
  refine (ends_get _).mpr ?_
  rw [if_neg (by simp [hok ht])]
  refine (ends_modify_bind _ _).mpr ?_
  have hcounted : AtText device content handler (items + 1) (field ++ text)
      { t with items := t.items + 1 } := by
    obtain ⟨cs, tail, hcs, hfacing⟩ := ht
    refine ⟨cs, tail, hcs, ?_, hfacing.handler_eq, congrArg (· + 1) hfacing.items_eq,
      hfacing.statement_eq⟩
    obtain ⟨before, rest, after, line, hcontent, hline, hrest⟩ := hfacing.onLine
    exact ⟨before, rest, after, line, hcontent, { hline with }, hrest⟩
  apply Ends.bind (hcounted.editInteger_succeeds kind hedit hfield hsize)
  intro r u hr
  cases r with
  | error f => exact hr.elim
  | ok w =>
    obtain ⟨rfl, hu⟩ := hr
    refine (ends_get _).mpr ?_
    rw [if_pos (hok hu)]
    exact ⟨rfl, hu⟩

theorem items_complete {values : List ℤ} (hedit : edit.kind = .listDirected)
    (hfields : Field.Fields edit.modes values text trail)
    (hsize : content.length < FileSystem.offsetLimit) (hstatus : handler.status = .ok)
    (h : AtText device content handler (items + 1) text s) :
    Completes ((List.replicate values.length edit).mapM (inputInteger · kind.bytes)) s fun outs t =>
      outs = values.map (fun v => some (kind.narrow (BitVec.ofInt 128 v))) ∧
        AtText device content handler (items + 1 + values.length) trail t := by
  induction hfields generalizing s items with
  | done text => exact ⟨rfl, h⟩
  | @next passed field text trail v values hpassed hfield _ ih =>
    rw [List.length_cons, List.replicate_succ, List.mapM_cons]
    apply Ends.bind (h.inputInteger_completes hedit hfield hsize hstatus
      (h.beginListItem_of_passed hpassed hfield.exists_cons hsize hstatus))
    rintro _ t ⟨rfl, ht⟩
    apply Ends.bind (ih ht)
    rintro _ u ⟨rfl, hu⟩
    rw [Nat.add_assoc, Nat.add_comm 1 values.length, ← Nat.add_assoc] at hu
    exact ⟨rfl, hu⟩

/-- A READ ends with the record that it has come to, wherever in it that is. -/
theorem finish_completes (hsize : content.length < FileSystem.offsetLimit)
    (h : AtText device content handler items text s) :
    Completes finish s fun status t => status = handler.status ∧
      ∃ before' after, before' ++ after = content ∧
        (∀ next, RecordEnd text next → chars after = next) ∧ Between device before' after t := by
  obtain ⟨cs, tail, rfl, h⟩ := h
  obtain ⟨modes, hstatement⟩ := h.statement_eq
  obtain ⟨before, rest, after, line, rfl, hline, -, -, htail⟩ := h.onLine
  refine (hline.finish_completes (by rw [hstatement]; rfl) hsize nofun).mono ?_ fun _ _ => id
  rintro status t ⟨rfl, before', hcontent, ht⟩
  refine ⟨congrArg Handler.status h.handler_eq, before', after, hcontent, ?_, ht⟩
  intro next hend
  obtain rfl := h.inRecord.of_end hend
  rw [List.nil_append, htail] at hend
  exact hline.firstLine.recordEnd.1.unique hend

end AtText

/-! ### Whole READs -/

theorem Between.list_read_completes {edit : DataEdit} {lead field : List Char} {v : ℤ}
    {values : List ℤ} (h : Between device before rest s) (kind : IntegerKind)
    (hedit : edit.kind = .listDirected) (hlead : Field.Spacing lead)
    (hfield : Field.TakesField edit.modes field text v)
    (hfields : Field.Fields edit.modes values text trail)
    (hrest : chars rest = lead ++ (field ++ text)) (source : SourceLine) (r : Receivers)
    (hsize : (before ++ rest).length < FileSystem.offsetLimit) :
    Completes (statement (.listDirected .input) source r
      ((List.replicate (v :: values).length edit).mapM (inputInteger · kind.bytes))) s fun out t =>
        out = ((v :: values).map (fun v => some (kind.narrow (BitVec.ofInt 128 v))), .ok) ∧
        ∃ before' after, before' ++ after = before ++ rest ∧
          (∀ next, RecordEnd trail next → chars after = next) ∧ Between device before' after t := by
  have hne : rest ≠ [] := by
    rintro rfl
    obtain ⟨c, cs, hcs, -⟩ := hfield.exists_cons
    rw [hcs] at hrest
    exact absurd (hrest.symm) (by simp [chars])
  obtain ⟨line, after, hline⟩ := FirstLine.exists_of_ne_nil hne
  refine statement_completes
    (B := fun t => t = s.beginning (.listDirected .input) source r)
    (begin_of_clean (fun _ => rfl) h.shows h.located_eq source r) ?_
  rintro _ rfl
  have hstart : AtText device (before ++ rest) (({ source } : Handler).declare r) 0
      (lead ++ (field ++ text)) (s.beginning (.listDirected .input) source r) := by
    rw [← hrest]
    exact (h.beginning _ _ _).facing hline rfl ⟨_, rfl⟩
  rw [List.length_cons, List.replicate_succ, List.mapM_cons]
  refine Ends.mono (P := fun outs t =>
    outs = (v :: values).map (fun v => some (kind.narrow (BitVec.ofInt 128 v))) ∧
      AtText device (before ++ rest) (({ source } : Handler).declare r) (0 + 1 + values.length)
        trail t) ?_ ?_ fun _ _ => id
  · apply Ends.bind (hstart.inputInteger_completes hedit hfield hsize rfl
      (hstart.beginListItem_of_first hlead hfield.exists_cons hsize rfl))
    rintro _ t ⟨rfl, ht⟩
    apply Ends.bind (ht.items_complete hedit hfields hsize rfl)
    rintro _ u ⟨rfl, hu⟩
    exact ⟨rfl, hu⟩
  · rintro _ t ⟨rfl, ht⟩
    refine (ht.finish_completes hsize).mono ?_ fun _ _ => id
    rintro _ u ⟨rfl, hu⟩
    exact ⟨rfl, hu⟩

end Session

end DataTransfer
