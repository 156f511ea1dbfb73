import DataTransfer.Proofs.Storage.Failures

/-!
How much a window holds. Bytes before the target of an operation stay only while they are written and
fewer than `Window.flushBytes`; what an operation adds ends no further behind its target than it asks
for. So the size of single requests bounds the window, however many they are and whichever fail.
-/

namespace DataTransfer

/-- A device that gives no more bytes than it is asked for. -/
class LawfulByteDevice (δ : Type) [ByteDevice δ] : Prop where
  readAt_length_le (d : δ) (offset count : ℕ) : Ends (ByteDevice.readAt offset count) d
    (fun data _ => data.length ≤ count) fun _ _ => True

theorem System.length_splitLine_le (count : ℕ) (bs : Bytes) :
    (splitLine count bs).1.length ≤ count := by
  fun_induction splitLine count bs with
  | case1 | case2 => exact Nat.zero_le _
  | case3 => exact Nat.succ_le_succ (Nat.zero_le _)
  | case4 count b bs _ line rest hsplit ih =>
    rw [hsplit] at ih
    exact Nat.succ_le_succ ih

theorem FileSystem.length_read_le {fs : FileSystem} {ref : FileRef} {offset count : ℕ} {data : Bytes}
    (h : fs.read ref offset count = .ok data) : data.length ≤ count := by
  unfold read at h
  cases ref with
  | fullDevice =>
    cases h
    exact (Bytes.length_fill count 0).le
  | node number =>
    dsimp only at h
    split_ifs at h
    cases h
    cases fs.nodes[number]? with
    | none => exact Nat.zero_le _
    | some node => exact List.length_take_le _ _

instance : LawfulByteDevice Channel where
  readAt_length_le c offset count := by
    change Ends (Channel.readAt offset count) c _ _
    unfold Ends Channel.readAt
    cases c.attachment.backing with
    | none => exact True.intro
    | some backing =>
      cases backing with
      | file ref writable =>
        dsimp only
        cases hread : c.system.files.read ref offset count with
        | ok data => exact FileSystem.length_read_le hread
        | error e => exact True.intro
      | standardInput => exact System.length_splitLine_le count c.system.input
      | standardOutput | standardError => exact True.intro

/-- Fewer bytes than `Window.flushBytes` and a request of `request` more, and the written range among
them. -/
structure Window.Bounded (request : ℕ) (w : Window) : Prop where
  length_lt : w.bytes.length < Window.flushBytes + request
  dirty : ∀ low high, w.dirty = some (low, high) → low ≤ high ∧ high ≤ w.bytes.length

namespace Window.Bounded

variable {request : ℕ} {w : Window}

theorem of_clean (hd : w.dirty = none) (hlength : w.bytes.length < flushBytes + request) :
    w.Bounded request := by
  refine ⟨hlength, fun low high h => ?_⟩
  rw [hd] at h
  cases h

theorem append (h : w.Bounded request) {data : Bytes}
    (hlength : w.bytes.length + data.length < flushBytes + request) :
    ({ w with bytes := w.bytes ++ data } : Window).Bounded request := by
  refine ⟨by rwa [List.length_append], fun low high hd => ?_⟩
  have := h.dirty low high hd
  rw [List.length_append]
  omega

theorem overlay (h : w.Bounded request) {start : ℕ} {data : Bytes}
    (hlength : start + data.length < flushBytes + request) :
    ({ w with
        bytes := w.bytes.overlay start data
        dirty := markDirty w.dirty start (start + data.length) } : Window).Bounded request := by
  have hheld := h.length_lt
  obtain ⟨low, high, hmark, hlow, hhigh, -, -, hlast⟩ :=
    Windowed.markDirty_spec w.dirty start (start + data.length)
  refine ⟨?_, ?_⟩
  · rw [Bytes.length_overlay]
    omega
  · rintro a b hd
    rw [hmark] at hd
    cases hd
    rw [Bytes.length_overlay]
    refine ⟨by omega, ?_⟩
    rcases hlast with rfl | ⟨a, ha⟩
    · exact le_max_right _ _
    · exact (h.dirty a high ha).2.trans (le_max_left _ _)

end Window.Bounded

def WindowOp.request : WindowOp → ℕ
  | read _ count => count
  | peek _ _ => 0
  | write _ data => data.length
  | fill _ count _ => count
  | flush => 0

namespace Windowed

variable {δ : Type} [ByteDevice δ] {s : Windowed δ} {request : ℕ}

theorem flush_bounded (h : s.window.Bounded request) : Ends flush s
    (fun _ t => t.window = { s.window with dirty := none })
    (fun _ t => t.window.Bounded request) := by
  cases hd : s.window.dirty with
  | none =>
    simp only [flush, ends_get, hd, ends_pure]
    rw [← hd]
  | some range =>
    simp only [flush, ends_get, hd]
    refine Ends.bind ((ends_onDevice (Ends.trivial _ _)).mono (fun _ _ => id) ?_) ?_
    · rintro _ t ⟨-, ht⟩
      rwa [ht]
    · rintro _ t ⟨-, ht⟩
      rw [ends_modify, ht]

theorem slide_bounded (h : s.window.Bounded request) (offset : ℕ) : Ends (slide offset) s
    (fun _ t => t.window.Bounded request ∧ offset - t.window.offset < Window.flushBytes)
    (fun _ t => t.window.Bounded request) := by
  have hpos : 0 < Window.flushBytes := by decide
  rw [slide, ends_get]
  dsimp only
  -- The target is the first byte held, but for the second case: there bytes before it are written.
  split_ifs with hout hlt hkept hdirty
  · refine (flush_bounded h).bind fun _ t _ => ?_
    exact ⟨.of_clean rfl (Nat.add_pos_left hpos _), by rwa [Nat.sub_self]⟩
  · exact ⟨h, by simpa using (Bool.and_eq_true_iff.mp hkept).2⟩
  · refine (flush_bounded h).bind fun _ t ht => ?_
    rw [ends_modify, ht]
    refine ⟨.of_clean rfl ?_, by rwa [Nat.sub_self]⟩
    exact (List.drop_sublist _ _).length_le.trans_lt h.length_lt
  · have hclean : s.window.dirty = none := by simpa [Window.isDirty] using hdirty
    refine ⟨.of_clean hclean ?_, by rwa [Nat.sub_self]⟩
    exact (List.drop_sublist _ _).length_le.trans_lt h.length_lt
  · refine ⟨h, ?_⟩
    omega

section

variable [LawfulByteDevice δ]

theorem read_bounded (h : s.window.Bounded request) (offset : ℕ) {count : ℕ}
    (hcount : count ≤ request) : Ends (read offset count) s
      (fun _ t => t.window.Bounded request) (fun _ t => t.window.Bounded request) := by
  refine (slide_bounded h offset).bind fun _ t ht => ?_
  obtain ⟨ht, hnear⟩ := ht
  rw [ends_get]
  dsimp only
  split_ifs with hmissing
  · have hread := ends_onDevice (s := t) (LawfulByteDevice.readAt_length_le t.device
      (t.window.offset + t.window.bytes.length)
      (offset - t.window.offset + count - t.window.bytes.length))
    refine Ends.bind (hread.mono (fun _ _ => id) ?_) ?_
    · rintro _ u ⟨-, hw⟩
      rw [hw]
      exact ht
    · rintro data u ⟨hdata, hw⟩
      rw [ends_modify_bind, ends_get, ends_pure, hw]
      refine ht.append ?_
      simp only [Bytes.reaches_eq, Bool.and_eq_true, Bool.not_eq_true', decide_eq_false_iff_not,
        not_le] at hmissing
      omega
  · exact ht

theorem write_bounded (h : s.window.Bounded request) (offset : ℕ) {data : Bytes}
    (hdata : data.length ≤ request) : Ends (write offset data) s
      (fun _ t => t.window.Bounded request) (fun _ t => t.window.Bounded request) := by
  refine (slide_bounded h offset).bind fun _ t ht => ?_
  obtain ⟨ht, hnear⟩ := ht
  have hfits : offset - t.window.offset + data.length < Window.flushBytes + request := by omega
  rw [ends_get]
  dsimp only
  split_ifs
  · refine (read_bounded ht offset hdata).discard_state.bind fun _ u hu => ?_
    exact hu.overlay hfits
  · exact ht.overlay hfits

theorem perform_bounded (content : δ → Bytes) (h : s.window.Bounded request) {op : WindowOp}
    (hop : op.request ≤ request) : Ends (op.perform content) s
      (fun _ t => t.window.Bounded request) (fun _ t => t.window.Bounded request) := by
  cases op with
  | read offset count => exact (read_bounded h offset hop).bind fun _ _ => id
  | peek offset count => exact h
  | write offset data => exact (write_bounded h offset hop).bind fun _ _ => id
  | fill offset count byte =>
    have hfill : (Bytes.fill count byte).length ≤ request := by rwa [Bytes.length_fill]
    exact (write_bounded h offset hfill).bind fun _ _ => id
  | flush =>
    refine (flush_bounded h).bind fun _ t ht => ?_
    rw [ends_get, ends_pure, ht]
    exact .of_clean rfl h.length_lt

theorem tryAll_bounded (content : δ → Bytes) {ops : List WindowOp}
    (hops : ∀ op ∈ ops, op.request ≤ request) (h : s.window.Bounded request) :
    (WindowOp.tryAll content ops s).2.window.Bounded request := by
  induction ops generalizing s with
  | nil => exact h
  | cons op ops ih =>
    obtain ⟨hop, hops⟩ := List.forall_mem_cons.mp hops
    have hstep := perform_bounded content h hop
    unfold Ends at hstep
    rw [WindowOp.tryAll]
    cases hrun : op.perform content s with
    | ok answer t =>
      rw [hrun] at hstep
      exact ih hops hstep
    | error e t =>
      rw [hrun] at hstep
      exact ih hops hstep

/-- Operations of at most `request` bytes each, on any device and at any offsets, leave a window that
began empty with fewer than `Window.flushBytes + request` bytes, and with the written range among them.
This holds behind every operation, since those up to it are such operations too, and whether or not it
and those before it failed. -/
theorem window_stays_bounded (content : δ → Bytes) (device : δ) (start request : ℕ)
    (ops : List WindowOp) (hops : ∀ op ∈ ops, op.request ≤ request) :
    let w := (WindowOp.tryAll content ops ⟨device, { offset := start }⟩).2.window
    w.bytes.length < Window.flushBytes + request ∧
      ∀ low high, w.dirty = some (low, high) → low ≤ high ∧ high ≤ w.bytes.length := by
  intro w
  have hempty : ({ offset := start } : Window).Bounded request :=
    .of_clean rfl (Nat.add_pos_left (by decide) _)
  have hbounded : w.Bounded request := tryAll_bounded content hops hempty
  exact ⟨hbounded.length_lt, hbounded.dirty⟩

end

/-- The second operation fails at an offset that no file has, and the last one lands behind bytes that
are kept because they are written. -/
theorem window_stays_bounded_failed_call :
    let c : Channel :=
      { system := { files := { nodes := [{ content := [1, 2, 3] }] } }
        attachment :=
          { backing := some (.file (.node 0) true), mayRead := true, mayPosition := true } }
    let ops : List WindowOp :=
      [.write 5 [9], .read FileSystem.offsetLimit 3, .fill 1 2 7, .write 2 [8, 8, 8]]
    let reached := WindowOp.tryAll (·.system.files.contentAt 0) ops ⟨c, {}⟩
    (∀ op ∈ ops, op.request ≤ 3) ∧ reached.1.length = 3 ∧
      reached.2.window = { offset := 1, bytes := [7, 8, 8, 8], dirty := some (0, 4) } ∧
      reached.2.window.bytes.length < Window.flushBytes + 3 ∧
      ∀ low high, reached.2.window.dirty = some (low, high) →
        low ≤ high ∧ high ≤ reached.2.window.bytes.length := by
  intro c ops reached
  have hops : ∀ op ∈ ops, op.request ≤ 3 := by decide
  have hbounded := window_stays_bounded (·.system.files.contentAt 0) c 0 3 ops hops
  exact ⟨hops, rfl, rfl, hbounded⟩

end Windowed

end DataTransfer
