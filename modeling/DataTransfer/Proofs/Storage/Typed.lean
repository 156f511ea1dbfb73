import DataTransfer.Proofs.Storage.Clean
import DataTransfer.Proofs.Unit.Lines

/-!
Reading standard input through a window. What has been read cannot be read again: a window that moves
to a byte it has let go of holds nothing, and takes what comes next from the input.
-/

namespace DataTransfer

/-- A line as it is typed, with its newline, and what follows it. Input that ends without a newline
is a line that nothing follows. -/
inductive TypedLine : Bytes → Bytes → Prop
  | terminated {line : Bytes} (h : Session.newline ∉ line) (after : Bytes) :
    TypedLine (line ++ [Session.newline]) after
  | tail {line : Bytes} (h : Session.newline ∉ line) : TypedLine line []

namespace System

open Session (newline)

theorem splitLine_cons {b : UInt8} (h : b ≠ newline) (bs : Bytes) (count : ℕ) :
    splitLine (count + 1) (b :: bs) = (b :: (splitLine count bs).1, (splitLine count bs).2) :=
  if_neg h

theorem splitLine_of_notMem {line : Bytes} (h : newline ∉ line) (count : ℕ) :
    splitLine count line = (line.take count, line.drop count) := by
  induction line generalizing count with
  | nil => cases count <;> rfl
  | cons b line ih =>
    obtain ⟨hb, hline⟩ := List.ne_and_not_mem_of_not_mem_cons h
    cases count with
    | zero => rfl
    | succ count => rw [splitLine_cons hb.symm, ih hline, List.take_succ_cons, List.drop_succ_cons]

theorem splitLine_terminated {line : Bytes} (h : newline ∉ line) (after : Bytes) (count : ℕ) :
    splitLine count (line ++ newline :: after) =
      ((line ++ [newline]).take count, (line ++ [newline]).drop count ++ after) := by
  induction line generalizing count with
  | nil =>
    cases count with
    | zero => rfl
    | succ count =>
      rw [List.nil_append, List.nil_append, List.take_succ_cons, List.drop_succ_cons, List.take_nil,
        List.drop_nil]
      rfl
  | cons b line ih =>
    obtain ⟨hb, hline⟩ := List.ne_and_not_mem_of_not_mem_cons h
    cases count with
    | zero => simp [splitLine]
    | succ count =>
      rw [List.cons_append, splitLine_cons hb.symm, ih hline, List.cons_append, List.take_succ_cons,
        List.drop_succ_cons]

theorem splitLine_of_le_one {count : ℕ} (h : count ≤ 1) (input : Bytes) :
    splitLine count input = (input.take count, input.drop count) := by
  obtain rfl | rfl : count = 0 ∨ count = 1 := by omega
  · rfl
  · cases input with
    | nil => rfl
    | cons b input => exact ite_self _

end System

namespace TypedLine

variable {line after : Bytes}

theorem drop (h : TypedLine line after) {count : ℕ} (hcount : count < line.length ∨ after = []) :
    TypedLine (line.drop count) after := by
  cases h with
  | @terminated line h after =>
    rcases Nat.lt_or_ge line.length count with hover | hle
    · rw [List.length_append, List.length_singleton] at hcount
      obtain rfl := hcount.resolve_left (by omega)
      rw [List.drop_of_length_le (by rw [List.length_append, List.length_singleton]; exact hover)]
      exact .tail nofun
    · rw [List.drop_append_of_le_length hle]
      exact .terminated (fun hmem => h (List.mem_of_mem_drop hmem)) after
  | tail h => exact .tail fun hmem => h (List.mem_of_mem_drop hmem)

/-- Input is given line by line, and of a line as many bytes as are asked for. -/
theorem splitLine_eq (h : TypedLine line after) (count : ℕ) :
    System.splitLine count (line ++ after) = (line.take count, line.drop count ++ after) := by
  cases h with
  | terminated h after =>
    rw [List.append_assoc]
    exact System.splitLine_terminated h after count
  | tail h => rw [List.append_nil, List.append_nil, System.splitLine_of_notMem h]

theorem newline_notMem_take (h : TypedLine line after) {count : ℕ} (hcount : count < line.length) :
    Session.newline ∉ line.take count := by
  cases h with
  | terminated h after =>
    rw [List.length_append, List.length_singleton] at hcount
    rw [List.take_append_of_le_length (by omega)]
    exact fun hmem => h (List.mem_of_mem_take hmem)
  | tail h => exact fun hmem => h (List.mem_of_mem_take hmem)

end TypedLine

/-- A record is typed as a line of which it is the start. Where it is all of that, no newline ends it. -/
theorem FirstLine.exists_typed {rest line after : Bytes} (h : FirstLine rest line after) :
    ∃ typed, rest = typed ++ after ∧ TypedLine typed after ∧ FirstLine typed line [] ∧
      (line = typed → after = []) := by
  cases h with
  | @terminated whole h after =>
    refine ⟨whole ++ [Session.newline], by simp, .terminated h after, .terminated h [], ?_⟩
    intro hall
    have hprefix := stripReturn_prefix whole
    have hle := hprefix.length_le
    rw [hall, List.length_append, List.length_singleton] at hle
    omega
  | tail h hne => exact ⟨rest, (List.append_nil rest).symm, .tail h, .tail h hne, fun _ => rfl⟩

namespace Windowed

variable {w : Windowed Channel}

def heldFrom (w : Window) (offset : ℕ) : Bytes :=
  if w.offset ≤ offset then w.bytes.drop (offset - w.offset) else []

/-- The window where it starts at `offset` and holds these bytes, with this input left. -/
def typed (w : Windowed Channel) (offset : ℕ) (held input : Bytes) : Windowed Channel where
  device := { w.device with system := { w.device.system with input } }
  window := { offset, bytes := held }

theorem slide_typed (hclean : w.window.dirty = none) (offset : ℕ) :
    Completes (slide offset) w fun _ t =>
      t = { w with window := { offset, bytes := heldFrom w.window offset } } := by
  have hdirty : w.window.isDirty = false := by
    rw [Window.isDirty, hclean]
    rfl
  unfold Completes heldFrom
  rw [slide, ends_get]
  simp only [Bytes.reaches_eq, hdirty, Bool.false_and, Bool.false_eq_true, if_false]
  split_ifs with hout hle hlt hlt
  -- The window does not reach the offset: it starts anew there.
  · refine Ends.bind (P := fun _ t => t = w) ?_ ?_
    · unfold Ends
      rw [flush_of_clean hclean]
    · rintro _ _ rfl
      refine (ends_modify _).mpr ?_
      rw [List.drop_of_length_le]
      simp only [Bool.or_eq_true, decide_eq_true_eq, Bool.not_eq_true', decide_eq_false_iff_not] at hout
      omega
  · refine Ends.bind (P := fun _ t => t = w) ?_ ?_
    · unfold Ends
      rw [flush_of_clean hclean]
    · rintro _ _ rfl
      exact rfl
  · refine (ends_modify _).mpr ?_
    rw [hclean]
  · omega
  · obtain rfl : offset = w.window.offset := by omega
    obtain ⟨_, _, _, _⟩ := w
    obtain rfl := hclean
    rw [Nat.sub_self]
    exact rfl
  · simp only [Bool.or_eq_true, decide_eq_true_eq, not_or] at hout
    omega

theorem readAt_typed (hinput : w.device.attachment = .standard 0) (offset count : ℕ)
    {more input : Bytes}
    (hsplit : System.splitLine count w.device.system.input = (more, input)) :
    Completes (onDevice (ByteDevice.readAt offset count)) w fun data t => data = more ∧
      t = { w with device := { w.device with system := { w.device.system with input } } } := by
  have hread : ByteDevice.readAt offset count w.device =
      .ok more { w.device with system := { w.device.system with input } } := by
    have hbacking : w.device.attachment.backing = some .standardInput := by
      rw [hinput]
      rfl
    change Channel.readAt offset count w.device = _
    unfold Channel.readAt
    rw [hbacking]
    dsimp only
    rw [hsplit]
  unfold Completes Ends onDevice
  rw [hread]
  exact ⟨rfl, rfl⟩

/-- A read gives what the window still holds, and then at most one line of the input. -/
theorem read_typed (hinput : w.device.attachment = .standard 0) (hclean : w.window.dirty = none)
    (offset count : ℕ) {more input : Bytes}
    (hsplit : System.splitLine (count - (heldFrom w.window offset).length)
      w.device.system.input = (more, input)) :
    Completes (read offset count) w fun got t =>
      got = min count (heldFrom w.window offset ++ more).length ∧
        t = w.typed offset (heldFrom w.window offset ++ more) input := by
  rw [read_eq]
  refine Ends.bind (slide_typed hclean offset) ?_
  rintro _ _ rfl
  generalize heldFrom w.window offset = held at hsplit ⊢
  rw [fetch, ends_get]
  simp only [Bytes.reaches_eq, Nat.sub_self, Nat.zero_add]
  have hmay : ByteDevice.mayRead w.device = true := by
    change w.device.attachment.mayRead = true
    rw [hinput]
    rfl
  simp only [hmay, Bool.and_true, Bool.not_eq_true', decide_eq_false_iff_not]
  split_ifs with hheld
  -- The window holds all that is asked for, and no input is taken.
  · rw [Nat.sub_eq_zero_of_le hheld] at hsplit
    cases hsplit
    rw [ends_get, ends_pure, Bytes.length_slice, Nat.sub_zero, List.append_nil]
    exact ⟨rfl, rfl⟩
  · refine Ends.bind (readAt_typed (w := { w with window := { offset, bytes := held } }) hinput _ _
      hsplit) ?_
    rintro _ _ ⟨rfl, rfl⟩
    rw [ends_modify_bind, ends_get, ends_pure, Bytes.length_slice, Nat.sub_zero]
    exact ⟨rfl, rfl⟩

end Windowed

end DataTransfer
