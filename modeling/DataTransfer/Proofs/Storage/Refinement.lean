import DataTransfer.Proofs.Storage.OpenFile

/-!
Runs of window operations. Whatever the order, offsets and sizes, a file with a window on it answers
as one flat array does, and a run only stops at an offset that the file does not accept.
-/

namespace DataTransfer

inductive WindowOp where
  /-- Makes bytes available, and then looks at them. -/
  | read (offset count : ℕ)
  /-- Looks at what is held, without any access to the file. -/
  | peek (offset count : ℕ)
  | write (offset : ℕ) (data : Bytes)
  | fill (offset count : ℕ) (byte : UInt8)
  | flush

inductive WindowAnswer where
  | available (count : ℕ) (data : Bytes)
  | held (data : Bytes)
  | stored
  /-- What the file holds after a flush. -/
  | flushed (content : Bytes)
  deriving DecidableEq

namespace WindowOp

def perform {δ : Type} [ByteDevice δ] (content : δ → Bytes) : WindowOp → Windowed.Op δ WindowAnswer
  | read offset count => do
    let got ← Windowed.read offset count
    return .available got ((← get).window.bytesAt offset got)
  | peek offset count => do
    return .held ((← get).window.bytesAt offset count)
  | write offset data => do
    Windowed.write offset data
    return .stored
  | fill offset count byte => do
    Windowed.fill offset count byte
    return .stored
  | flush => do
    Windowed.flush
    return .flushed (content (← get).device)

/-- The operation on one flat array: its answer, and the array afterwards. What is held without a
read is the beginning of what a read would give. -/
inductive Step (c : Bytes) : WindowOp → WindowAnswer → Bytes → Prop
  | read (offset count : ℕ) :
    Step c (read offset count)
      (.available (min count (c.length - offset)) (c.slice offset (min count (c.length - offset)))) c
  | peek (offset : ℕ) {count got : ℕ} (h : got ≤ count) :
    Step c (peek offset count) (.held (c.slice offset got)) c
  | write (offset : ℕ) (data : Bytes) : Step c (write offset data) .stored (c.put offset data)
  | fill (offset count : ℕ) (byte : UInt8) :
    Step c (fill offset count byte) .stored (c.put offset (.fill count byte))
  | flush : Step c flush (.flushed c) c

inductive Run : Bytes → List WindowOp → List WindowAnswer → Bytes → Prop
  | nil (c : Bytes) : Run c [] [] c
  | cons {c c' c'' : Bytes} {op : WindowOp} {ops : List WindowOp} {answer : WindowAnswer}
    {answers : List WindowAnswer} (head : Step c op answer c') (tail : Run c' ops answers c'') :
    Run c (op :: ops) (answer :: answers) c''

def Within (accepts : ℕ → Prop) (op : WindowOp) : Prop :=
  match op with
  | read offset count => ∀ i, offset ≤ i → i < offset + count → accepts i
  | write offset data => accepts offset ∧ ∀ i, offset ≤ i → i < offset + data.length → accepts i
  | fill offset count _ => accepts offset ∧ ∀ i, offset ≤ i → i < offset + count → accepts i
  | peek _ _ | flush => True

end WindowOp

namespace Windowed

variable {δ : Type} [ByteDevice δ] {F : FlatDevice δ} {s : Windowed δ}

theorem bytesAt_eq_slice (h : s.Coherent F) (offset count : ℕ) :
    ∃ got ≤ count, s.window.bytesAt offset count = (s.flat F).slice offset got := by
  unfold Window.bytesAt
  split_ifs with hlt
  · exact ⟨0, Nat.zero_le _, rfl⟩
  · rw [h.bytes, Bytes.slice_slice, Nat.add_sub_cancel' (not_lt.mp hlt)]
    exact ⟨_, min_le_left _ _, rfl⟩

theorem not_accepts_of_refused {offset count : ℕ}
    (h : ¬ s.Flushable F ∨ RefusedRead F s offset count) (hf : s.Flushable F) :
    ¬ ∀ i, offset ≤ i → i < offset + count → F.Accepts i := by
  intro hall
  rcases h with h | ⟨i, hlo, hhi, -, hna⟩
  · exact h hf
  · exact hna (hall i hlo hhi)

/-- One operation through the window is one step of the flat array, or none if it fails. -/
theorem perform_ends (h : s.Coherent F) (op : WindowOp) :
    Ends (op.perform F.content) s
      (fun answer t => t.Coherent F ∧ op.Step (s.flat F) answer (t.flat F) ∧
        (s.Flushable F → op.Within F.Accepts → t.Flushable F))
      (fun _ t => t.Coherent F ∧ t.flat F = s.flat F ∧
        (s.Flushable F → ¬ op.Within F.Accepts)) := by
  cases op with
  | read offset count =>
    refine ((read_ends h offset count).mono (fun _ _ => id) ?_).bind ?_
    · rintro _ _ ⟨hc, hflat, hr⟩
      exact ⟨hc, hflat, not_accepts_of_refused hr⟩
    · intro got t hr
      rw [ends_get, ends_pure, hr.bytes_eq, hr.keeps.flat_eq, hr.count_eq]
      exact ⟨hr.keeps.coherent, .read offset count, fun hf _ => hr.keeps.flushable hf⟩
  | peek offset count =>
    obtain ⟨got, hgot, hbytes⟩ := bytesAt_eq_slice h offset count
    simp only [WindowOp.perform]
    rw [ends_get, ends_pure, hbytes]
    exact ⟨h, .peek offset hgot, fun hf _ => hf⟩
  | write offset data =>
    refine ((write_ends h offset data).mono (fun _ _ => id) ?_).bind ?_
    · rintro _ _ ⟨hc, hflat, hr⟩
      exact ⟨hc, hflat, fun hf hall => not_accepts_of_refused hr hf hall.2⟩
    · intro _ t hw
      rw [ends_pure, hw.flat_eq]
      exact ⟨hw.coherent, .write offset data, fun hf hall => hw.flushable hf hall.1⟩
  | fill offset count byte =>
    refine ((write_ends h offset (.fill count byte)).mono (fun _ _ => id) ?_).bind ?_
    · rintro _ _ ⟨hc, hflat, hr⟩
      rw [Bytes.length_fill] at hr
      exact ⟨hc, hflat, fun hf hall => not_accepts_of_refused hr hf hall.2⟩
    · intro _ t hw
      rw [ends_pure, hw.flat_eq]
      exact ⟨hw.coherent, .fill offset count byte, fun hf hall => hw.flushable hf hall.1⟩
  | flush =>
    refine ((flush_ends h).mono (fun _ _ => id) ?_).bind ?_
    · exact fun _ _ hn => ⟨hn.1, hn.2.1, fun hf _ => hn.2.2 hf⟩
    · rintro _ t ⟨hk, hc, -⟩
      rw [ends_get, ends_pure, hc, hk.flat_eq]
      exact ⟨hk.coherent, .flush, fun hf _ => hk.flushable hf⟩

theorem run_ends (h : s.Coherent F) (ops : List WindowOp) :
    Ends (ops.mapM (WindowOp.perform F.content)) s
      (fun answers t => t.Coherent F ∧ WindowOp.Run (s.flat F) ops answers (t.flat F))
      (fun _ _ => s.Flushable F → ∃ op ∈ ops, ¬ op.Within F.Accepts) := by
  induction ops generalizing s with
  | nil => exact ⟨h, .nil _⟩
  | cons op ops ih =>
    rw [List.mapM_cons]
    refine ((perform_ends h op).mono (fun _ _ => id) ?_).bind ?_
    · exact fun _ _ hna hf => ⟨op, List.mem_cons_self, hna.2.2 hf⟩
    · rintro answer t ⟨hc, hstep, hflush⟩
      refine ((ih hc).mono (fun _ _ => id) ?_).bind ?_
      · intro _ _ hrest hf
        by_cases hop : op.Within F.Accepts
        · obtain ⟨op', hmem, hna⟩ := hrest (hflush hf hop)
          exact ⟨op', List.mem_cons_of_mem _ hmem, hna⟩
        · exact ⟨op, List.mem_cons_self, hop⟩
      · rintro answers u ⟨hc', hrun⟩
        exact ⟨hc', .cons hstep hrun⟩

end Windowed

namespace Channel

end Channel

end DataTransfer
