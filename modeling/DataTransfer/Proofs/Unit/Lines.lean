import DataTransfer.Proofs.Bytes
import DataTransfer.Unit.Record

/-!
The lines of a formatted file, told by its bytes alone, and the extent that the search for the end of
a record finds in them.
-/

namespace DataTransfer

open Session (newline carriageReturn extent?)

def stripReturn (line : Bytes) : Bytes :=
  if line.getLast? = some carriageReturn then line.dropLast else line

/-- The records of a formatted file: what stands before each newline, stripped of a carriage return,
and what stands behind the last newline, as it is and if there is any. -/
def lines (content : Bytes) : List Bytes :=
  let pieces := content.splitOn newline
  let tail := pieces.getLastD []
  pieces.dropLast.map stripReturn ++ if tail = [] then [] else [tail]

/-- The first line of a file that is not at its end, and what follows it. -/
inductive FirstLine : Bytes → Bytes → Bytes → Prop
  | terminated {line : Bytes} (h : newline ∉ line) (after : Bytes) :
    FirstLine (line ++ newline :: after) (stripReturn line) after
  | tail {line : Bytes} (h : newline ∉ line) (hne : line ≠ []) : FirstLine line line []

/-- The record that a READ finds at the start of `rest`, and what follows it: none at the end of the
file. -/
inductive NextRecord : Bytes → Option Bytes → Bytes → Prop
  | line {rest line after : Bytes} (h : FirstLine rest line after) : NextRecord rest (some line) after
  | atEnd : NextRecord [] none []

theorem stripReturn_prefix (line : Bytes) : stripReturn line <+: line := by
  unfold stripReturn
  split_ifs
  · exact List.dropLast_prefix _
  · exact List.prefix_refl _

theorem lines_append_newline (before after : Bytes) :
    lines (before ++ newline :: after) = (before.splitOn newline).map stripReturn ++ lines after := by
  have hsplit : (before ++ newline :: after).splitOn newline =
      before.splitOn newline ++ after.splitOn newline :=
    List.splitOnP_append_cons before after (beq_self_eq_true newline)
  have hne : after.splitOn newline ≠ [] := List.splitOnP_ne_nil _ _
  have hlast : (before.splitOn newline ++ after.splitOn newline).getLastD [] =
      (after.splitOn newline).getLastD [] := by
    obtain ⟨piece, hpiece⟩ := Option.ne_none_iff_exists'.mp (mt List.getLast?_eq_none_iff.mp hne)
    simp [List.getLastD_eq_getLast?, hpiece]
  simp only [lines, hsplit, hlast, List.dropLast_append_of_ne_nil hne, List.map_append,
    List.append_assoc]

theorem splitOn_of_notMem {line : Bytes} (h : newline ∉ line) : line.splitOn newline = [line] :=
  List.splitOnP_eq_singleton fun _ hb => beq_eq_false_iff_ne.mpr fun heq => h (heq ▸ hb)

theorem lines_terminated {line : Bytes} (h : newline ∉ line) (after : Bytes) :
    lines (line ++ newline :: after) = stripReturn line :: lines after := by
  rw [lines_append_newline, splitOn_of_notMem h]
  rfl

theorem lines_of_notMem {line : Bytes} (h : newline ∉ line) (hne : line ≠ []) :
    lines line = [line] := by
  simp [lines, splitOn_of_notMem h, hne]

@[simp] theorem lines_nil : lines [] = [] := rfl

/-- What is complete keeps its lines, whatever is put behind it. -/
theorem lines_append {before : Bytes} (h : before = [] ∨ before.getLast? = some newline)
    (after : Bytes) : lines (before ++ after) = lines before ++ lines after := by
  rcases h with rfl | hlast
  · rfl
  · obtain ⟨init, rfl⟩ := List.getLast?_eq_some_iff.mp hlast
    rw [List.append_assoc, lines_append_newline init [], lines_nil, List.append_nil]
    exact lines_append_newline init after

theorem lines_written {records : List Bytes}
    (h : ∀ record ∈ records, newline ∉ record ∧ record.getLast? ≠ some carriageReturn) :
    lines (records.map (· ++ [newline])).flatten = records := by
  induction records with
  | nil => rfl
  | cons record records ih =>
    obtain ⟨hnewline, hreturn⟩ := h record List.mem_cons_self
    have hstrip : stripReturn record = record := if_neg hreturn
    have hflat : ((record :: records).map (· ++ [newline])).flatten =
        record ++ newline :: (records.map (· ++ [newline])).flatten := by simp
    rw [hflat, lines_terminated hnewline, hstrip, ih fun r hr => h r (List.mem_cons_of_mem _ hr)]

namespace FirstLine

variable {rest line after : Bytes}

theorem lines_eq (h : FirstLine rest line after) : lines rest = line :: lines after := by
  cases h with
  | terminated h after => exact lines_terminated h after
  | tail h hne => rw [lines_of_notMem h hne, lines_nil]

theorem exists_of_ne_nil (h : rest ≠ []) : ∃ line after, FirstLine rest line after := by
  by_cases hmem : newline ∈ rest
  · obtain ⟨line, after, rfl, hline⟩ := List.eq_append_cons_of_mem hmem
    exact ⟨_, after, .terminated hline after⟩
  · exact ⟨rest, [], .tail hmem h⟩

theorem length_pos (h : FirstLine rest line after) : 0 < rest.length := by
  cases h with
  | terminated h after => simp only [List.length_append, List.length_cons]; omega
  | tail h hne => exact List.length_pos_iff.mpr hne

theorem exists_terminator (h : FirstLine rest line after) :
    ∃ terminator : Bytes, rest = line ++ (terminator ++ after) := by
  cases h with
  | @terminated whole h after =>
    obtain ⟨suffix, hsuffix⟩ := stripReturn_prefix whole
    refine ⟨suffix ++ [newline], ?_⟩
    conv_lhs => rw [← hsuffix]
    simp
  | tail h hne => exact ⟨[], by simp⟩

theorem length_le (h : FirstLine rest line after) : line.length ≤ rest.length := by
  obtain ⟨terminator, rfl⟩ := h.exists_terminator
  simp

theorem length_lt (h : FirstLine rest line after) : after.length < rest.length := by
  cases h with
  | terminated h after => simp only [List.length_append, List.length_cons]; omega
  | tail h hne => exact List.length_pos_iff.mpr hne

theorem head?_slice (h : FirstLine rest line after) {before : Bytes} {pos : ℕ}
    (hpos : pos < line.length) :
    ((before ++ rest).slice (before.length + pos) 1).head? = (line)[pos]? := by
  obtain ⟨terminator, rfl⟩ := h.exists_terminator
  rw [Bytes.slice_append_right, Bytes.slice, List.head?_take, if_neg Nat.one_ne_zero,
    List.head?_drop, List.getElem?_append_left hpos]

end FirstLine

theorem length_le_of_mem_lines {rest line : Bytes} (h : line ∈ lines rest) :
    line.length ≤ rest.length := by
  by_cases hne : rest = []
  · rw [hne, lines_nil] at h
    cases h
  obtain ⟨first, after, hfirst⟩ := FirstLine.exists_of_ne_nil hne
  rw [hfirst.lines_eq, List.mem_cons] at h
  have hshorter := hfirst.length_lt
  rcases h with rfl | h
  · exact hfirst.length_le
  · exact (length_le_of_mem_lines h).trans hshorter.le
termination_by rest.length

namespace NextRecord

variable {rest after : Bytes} {record : Option Bytes}

theorem exists_next (rest : Bytes) : ∃ record after, NextRecord rest record after := by
  by_cases h : rest = []
  · subst h
    exact ⟨none, [], .atEnd⟩
  · obtain ⟨line, after, hline⟩ := FirstLine.exists_of_ne_nil h
    exact ⟨some line, after, .line hline⟩

theorem head?_lines (h : NextRecord rest record after) : (lines rest)[0]? = record := by
  cases h with
  | line h => rw [h.lines_eq]; rfl
  | atEnd => rfl

theorem tail_lines (h : NextRecord rest record after) (k : ℕ) :
    (lines rest)[k + 1]? = (lines after)[k]? := by
  cases h with
  | line h => rw [h.lines_eq]; rfl
  | atEnd => rfl

end NextRecord

/-! ### The search for a newline -/

theorem findIdx?_of_notMem {bytes : Bytes} (h : newline ∉ bytes) :
    bytes.findIdx? (· = newline) = none := by
  simp only [List.findIdx?_eq_none_iff, decide_eq_false_iff_not]
  rintro _ hb rfl
  exact h hb

theorem extent?_of_notMem {bytes : Bytes} (h : newline ∉ bytes) : extent? bytes = none := by
  rw [extent?, findIdx?_of_notMem h]

theorem findIdx?_terminated {line : Bytes} (h : newline ∉ line) (after : Bytes) :
    (line ++ newline :: after).findIdx? (· = newline) = some line.length := by
  rw [List.findIdx?_append, findIdx?_of_notMem h]
  simp [List.findIdx?_cons]

theorem extent?_terminated {line : Bytes} (h : newline ∉ line) (after : Bytes) :
    extent? (line ++ newline :: after) =
      some ((stripReturn line).length, line.length + 1 - (stripReturn line).length) := by
  rw [extent?, findIdx?_terminated h]
  cases hlength : line.length with
  | zero =>
    obtain rfl := List.length_eq_zero_iff.mp hlength
    rfl
  | succ n =>
    have hlast : (line ++ newline :: after)[n]? = line.getLast? := by
      rw [List.getElem?_append_left (by omega), List.getLast?_eq_getElem?, hlength]
      rfl
    dsimp only
    rw [hlast, stripReturn]
    split_ifs
    · rw [List.length_dropLast, hlength, Nat.add_sub_cancel, Nat.add_assoc, Nat.add_sub_cancel_left]
    · rw [hlength, Nat.add_sub_cancel_left]

/-- What the search sees of a line in a window: its extent, or a part that goes on, or all of a line
that nothing ends. -/
theorem FirstLine.extent?_take {rest line after : Bytes} (h : FirstLine rest line after) (got : ℕ) :
    extent? (rest.take got) = some (line.length, rest.length - line.length - after.length) ∨
      extent? (rest.take got) = none ∧ (got < rest.length ∨ line = rest ∧ after = []) := by
  cases h with
  | @terminated whole h after =>
    rcases Nat.lt_or_ge whole.length got with hgot | hgot
    · left
      have htake : (whole ++ newline :: after).take got =
          whole ++ newline :: after.take (got - whole.length - 1) := by
        obtain ⟨k, rfl⟩ := Nat.exists_eq_add_of_lt hgot
        rw [List.take_append, List.take_of_length_le (by omega), Nat.add_assoc,
          Nat.add_sub_cancel_left, List.take_succ_cons, Nat.add_sub_cancel]
      rw [htake, extent?_terminated h, List.length_append, List.length_cons]
      congr 2
      omega
    · right
      rw [List.take_append_of_le_length hgot, List.length_append, List.length_cons]
      exact ⟨extent?_of_notMem fun hmem => h (List.mem_of_mem_take hmem), .inl (by omega)⟩
  | tail h _ =>
    exact .inr ⟨extent?_of_notMem fun hmem => h (List.mem_of_mem_take hmem), .inr ⟨rfl, rfl⟩⟩

end DataTransfer
