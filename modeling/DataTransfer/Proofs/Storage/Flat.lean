import DataTransfer.Proofs.Bytes
import DataTransfer.Proofs.Outcome
import DataTransfer.Storage.Window

/-!
A device with a window on it is one flat array of bytes: the content of the device, overlaid with
the bytes of the window that the device does not have yet. Every operation through the window is an
operation on that array, whether or not the window moves.
-/

namespace DataTransfer

/-- A device whose states stand for byte arrays. A write that fails may have changed bytes in the
range that it was asked to write, and no others. -/
structure FlatDevice (δ : Type) [ByteDevice δ] where
  Valid : δ → Prop
  content : δ → Bytes
  /-- The offsets at which no operation fails. -/
  Accepts : ℕ → Prop
  mayRead : ∀ d, Valid d → ByteDevice.mayRead d = true
  readAt : ∀ d offset count, Valid d → Ends (ByteDevice.readAt offset count) d
    (fun data d' => Valid d' ∧ content d' = content d ∧ data = (content d).slice offset count)
    (fun _ d' => Valid d' ∧ content d' = content d ∧ ¬ Accepts offset)
  writeAt : ∀ d offset data, Valid d → Ends (ByteDevice.writeAt offset data) d
    (fun _ d' => Valid d' ∧ content d' = (content d).put offset data)
    (fun _ d' => Valid d' ∧ (∃ part : Bytes, part.length ≤ data.length ∧
      content d' = (content d).put offset part) ∧ ¬ Accepts offset)

theorem Window.bytesAt_add (w : Window) {offset count a n : ℕ}
    (hfull : (w.bytesAt offset count).length = count) (h : a + n ≤ count) :
    w.bytesAt (offset + a) n = (w.bytesAt offset count).slice a n := by
  unfold Window.bytesAt at hfull ⊢
  by_cases hlt : offset < w.offset
  · rw [if_pos hlt, List.length_nil] at hfull
    obtain rfl : n = 0 := by omega
    rw [if_pos hlt]
    split_ifs <;> simp
  · have hstart : offset + a - w.offset = offset - w.offset + a := by omega
    rw [if_neg hlt, if_neg (by omega), Bytes.slice_slice, hstart, Nat.min_eq_left (by omega)]

namespace Windowed

variable {δ : Type} [ByteDevice δ] (F : FlatDevice δ)

/-- The array that device and window stand for. -/
def flat (s : Windowed δ) : Bytes :=
  match s.window.dirty with
  | none => F.content s.device
  | some (low, high) =>
    (F.content s.device).put (s.window.offset + low) (s.window.bytes.slice low (high - low))

/-- The window holds a stretch of the array, and within it the written range. -/
structure Coherent (s : Windowed δ) : Prop where
  valid : F.Valid s.device
  dirty : ∀ low high, s.window.dirty = some (low, high) →
    low ≤ high ∧ high ≤ s.window.bytes.length
  bytes : s.window.bytes = (s.flat F).slice s.window.offset s.window.bytes.length

def Flushable (s : Windowed δ) : Prop :=
  ∀ low high, s.window.dirty = some (low, high) → F.Accepts (s.window.offset + low)

/-- The window touches `offset`, and has no reason to move there. -/
structure Settled (s : Windowed δ) (offset : ℕ) : Prop where
  start_le : s.window.offset ≤ offset
  le_limit : offset ≤ s.window.limit
  kept : s.window.offset < offset →
    s.window.isDirty = true ∧ offset - s.window.offset < Window.flushBytes

/-- Nothing has changed but where bytes are held. -/
structure Keeps (s t : Windowed δ) : Prop where
  coherent : t.Coherent F
  flat_eq : t.flat F = s.flat F
  flushable : s.Flushable F → t.Flushable F

variable {F} {s t u : Windowed δ}

theorem Keeps.trans (h : s.Keeps F t) (h' : t.Keeps F u) : s.Keeps F u :=
  ⟨h'.coherent, h'.flat_eq.trans h.flat_eq, h'.flushable ∘ h.flushable⟩

theorem Coherent.keeps (h : s.Coherent F) : s.Keeps F s := ⟨h, rfl, id⟩

theorem flat_of_clean (h : s.window.dirty = none) : s.flat F = F.content s.device := by
  rw [flat, h]

theorem flushable_of_clean (h : s.window.dirty = none) : s.Flushable F := by
  intro low high hd
  rw [h] at hd
  cases hd

theorem coherent_of_clean (hv : F.Valid s.device) (hd : s.window.dirty = none)
    (hb : s.window.bytes =
      (F.content s.device).slice s.window.offset s.window.bytes.length) : s.Coherent F := by
  refine ⟨hv, fun low high h => ?_, ?_⟩
  · rw [hd] at h
    cases h
  · rw [flat_of_clean hd]
    exact hb

theorem Coherent.limit_le (h : s.Coherent F) :
    s.window.limit ≤ max s.window.offset (s.flat F).length := by
  have hlen := congrArg List.length h.bytes
  rw [Bytes.length_slice] at hlen
  unfold Window.limit
  omega

theorem Coherent.slice_limit (h : s.Coherent F) (count : ℕ) :
    (F.content s.device).slice s.window.limit count = (s.flat F).slice s.window.limit count := by
  cases hd : s.window.dirty with
  | none => rw [flat_of_clean hd]
  | some range =>
    obtain ⟨low, high⟩ := range
    have hrange := h.dirty low high hd
    refine Bytes.ext_byte ?_ fun i => ?_
    · simp only [flat, hd, Bytes.length_slice, Bytes.length_put, Window.limit]
      split_ifs <;> omega
    · simp only [flat, hd, Bytes.byte_slice, Bytes.byte_put, Bytes.length_slice, Window.limit]
      split_ifs <;> first | rfl | omega

/-- What a coherent window gives from an offset it has settled at is what the array holds there. -/
theorem Coherent.bytesAt (h : s.Coherent F) {offset : ℕ} (ht : s.Settled offset) (count : ℕ) :
    s.window.bytesAt offset count =
      (s.flat F).slice offset (min count (s.window.limit - offset)) := by
  have hstart := ht.start_le
  have hlimit : s.window.bytes.length - (offset - s.window.offset) = s.window.limit - offset := by
    unfold Window.limit
    omega
  rw [Window.bytesAt, if_neg (by omega), h.bytes, Bytes.slice_slice, hlimit,
    Nat.add_sub_cancel' hstart]

omit [ByteDevice δ] in
theorem ends_onDevice {α : Type} {act : EStateM OsError δ α} {P : α → δ → Prop}
    {R : OsError → δ → Prop} (h : Ends act s.device P R) :
    Ends (onDevice act) s (fun a t => P a t.device ∧ t.window = s.window)
      (fun e t => R e t.device ∧ t.window = s.window) := by
  unfold Ends onDevice at *
  cases hact : act s.device with
  | ok a d => simpa [hact] using h
  | error e d => simpa [hact] using h

/-! ### Flushing -/

/-- After a flush the device holds the whole array. A flush that fails may have changed the device,
but only where the window still holds what belongs there. -/
theorem flush_ends (h : s.Coherent F) : Ends flush s
    (fun _ t => s.Keeps F t ∧ F.content t.device = s.flat F ∧
      t.window = { s.window with dirty := none })
    (fun _ t => t.Coherent F ∧ t.flat F = s.flat F ∧ ¬ s.Flushable F) := by
  cases hd : s.window.dirty with
  | none =>
    simp only [flush, ends_get, hd, ends_pure]
    refine ⟨h.keeps, (flat_of_clean hd).symm, ?_⟩
    rw [← hd]
  | some range =>
    obtain ⟨low, high⟩ := range
    obtain ⟨hle, hhigh⟩ := h.dirty low high hd
    have hflat : s.flat F = (F.content s.device).put (s.window.offset + low)
        (s.window.bytes.slice low (high - low)) := by rw [flat, hd]
    simp only [flush, ends_get, hd]
    refine Ends.bind ((ends_onDevice (F.writeAt _ _ _ h.valid)).mono (fun _ _ => id) ?_) ?_
    · rintro _ t ⟨⟨hv, ⟨part, hpart, hc⟩, hna⟩, hw⟩
      have heq : t.flat F = s.flat F := by
        rw [hflat, ← Bytes.put_put _ _ hpart, ← hc, flat, hw, hd]
      refine ⟨⟨hv, by rw [hw]; exact h.dirty, ?_⟩, heq, fun hf => hna (hf low high hd)⟩
      rw [heq, hw]
      exact h.bytes
    · rintro _ t ⟨⟨hv, hc⟩, hw⟩
      rw [← hflat] at hc
      rw [ends_modify]
      refine ⟨⟨coherent_of_clean hv rfl ?_, ?_, fun _ => flushable_of_clean rfl⟩, hc, ?_⟩
      · rw [hc, hw]
        exact h.bytes
      · exact hc
      · rw [hw]

/-! ### Sliding -/

omit [ByteDevice δ] in
theorem settled_start (s : Windowed δ) : s.Settled s.window.offset :=
  ⟨le_rfl, Nat.le_add_right _ _, fun h => absurd h (lt_irrefl _)⟩

theorem Settled.slide_eq {offset : ℕ} (h : s.Settled offset) : slide offset s = .ok () s := by
  have hlimit := h.le_limit
  unfold Window.limit at hlimit
  rw [slide, get_bind_run]
  simp only [Bytes.reaches_eq]
  rw [if_neg (by simp [h.start_le]; omega)]
  rcases h.start_le.eq_or_lt with heq | hlt
  · rw [if_neg heq.not_lt]
    rfl
  · obtain ⟨hdirty, hsmall⟩ := h.kept hlt
    rw [if_pos hlt, if_pos (by simp [hdirty, hsmall])]
    rfl

theorem drop_keeps (h : s.Coherent F) (hclean : s.window.dirty = none) (offset : ℕ)
    (hlo : s.window.offset ≤ offset) :
    s.Keeps F { s with
      window := { s.window with offset, bytes := s.window.bytes.drop (offset - s.window.offset) } } := by
  refine ⟨coherent_of_clean h.valid hclean ?_, ?_, fun _ => flushable_of_clean hclean⟩
  · have hbytes := h.bytes
    rw [flat_of_clean hclean] at hbytes
    dsimp only
    rw [hbytes, Bytes.drop_slice, Nat.add_sub_cancel' hlo, Bytes.slice_length_slice]
  · rw [flat_of_clean hclean]
    exact flat_of_clean hclean

theorem slide_ends (h : s.Coherent F) (offset : ℕ) : Ends (slide offset) s
    (fun _ t => s.Keeps F t ∧ t.Settled offset)
    (fun _ t => t.Coherent F ∧ t.flat F = s.flat F ∧ ¬ s.Flushable F) := by
  rw [slide, ends_get]
  simp only [Bytes.reaches_eq]
  split_ifs with hout hlt hkept hdirty
  · refine (flush_ends h).bind ?_
    rintro _ t ⟨hk, hc, -⟩
    have hkeep : s.Keeps F { t with window := { offset } } :=
      ⟨coherent_of_clean hk.coherent.valid rfl rfl, hc, fun _ => flushable_of_clean rfl⟩
    exact ⟨hkeep, settled_start _⟩
  · refine ⟨h.keeps, hlt.le, ?_, fun _ => by simpa using hkept⟩
    simp only [Bool.or_eq_true, decide_eq_true_eq, Bool.not_eq_true', decide_eq_false_iff_not] at hout
    unfold Window.limit
    omega
  · refine (flush_ends h).bind ?_
    rintro _ t ⟨hk, -, hw⟩
    have hdrop := drop_keeps hk.coherent (by rw [hw]) offset (by rw [hw]; exact hlt.le)
    have hconsumed : offset - t.window.offset = offset - s.window.offset := by rw [hw]
    rw [hconsumed] at hdrop
    exact ⟨hk.trans hdrop, settled_start _⟩
  · have hclean : s.window.dirty = none := by simpa [Window.isDirty] using hdirty
    exact ⟨drop_keeps h hclean offset hlt.le, settled_start _⟩
  · have heq : s.window.offset = offset := by
      simp only [Bool.or_eq_true, decide_eq_true_eq] at hout
      omega
    exact ⟨h.keeps, heq ▸ settled_start s⟩

/-! ### Reading -/

def fetch (offset count : ℕ) : Op δ ℕ := do
  let s ← get
  let start := offset - s.window.offset
  if !s.window.bytes.reaches (start + count) && ByteDevice.mayRead s.device then
    let held := s.window.bytes.length
    let data ← onDevice (ByteDevice.readAt (s.window.offset + held) (start + count - held))
    modify fun s => { s with window := { s.window with bytes := s.window.bytes ++ data } }
  return ((← get).window.bytes.slice start count).length

theorem read_eq (offset count : ℕ) :
    (read offset count : Op δ ℕ) = (do slide offset; fetch offset count) := rfl

theorem append_keeps (h : s.Coherent F) {t : Windowed δ} (count : ℕ) (hv : F.Valid t.device)
    (hc : F.content t.device = F.content s.device) (hw : t.window =
      { s.window with
        bytes := s.window.bytes ++ (F.content s.device).slice s.window.limit count }) :
    s.Keeps F t := by
  have hflat : t.flat F = s.flat F := by
    cases hd : s.window.dirty with
    | none =>
      rw [flat_of_clean hd, flat_of_clean (by rw [hw]; exact hd), hc]
    | some range =>
      obtain ⟨low, high⟩ := range
      have hrange := h.dirty low high hd
      simp only [flat, hw, hd, hc]
      rw [Bytes.slice_append_left _ _ (by omega)]
  refine ⟨⟨hv, fun low high hd => ?_, ?_⟩, hflat, fun hf low high hd => ?_⟩
  · rw [hw] at hd ⊢
    have := h.dirty low high hd
    simp only [List.length_append]
    omega
  · rw [hflat, hw, h.slice_limit]
    simp only [List.length_append]
    rw [Bytes.slice_add, ← h.bytes]
    congr 1
    exact (Bytes.slice_length_slice _ _ _).symm
  · rw [hw] at hd ⊢
    exact hf low high hd

/-- What a read at `offset` leaves: nothing has changed, and the bytes that exist are held. -/
structure Reads (F : FlatDevice δ) (s : Windowed δ) (offset count got : ℕ) (t : Windowed δ) :
    Prop where
  keeps : s.Keeps F t
  settled : t.Settled offset
  count_eq : got = min count ((s.flat F).length - offset)
  bytes_eq : t.window.bytesAt offset got = (s.flat F).slice offset got

theorem Keeps.reads (hk : s.Keeps F t) {offset count got : ℕ} (h : t.Reads F offset count got u) :
    s.Reads F offset count got u := by
  refine ⟨hk.trans h.keeps, h.settled, ?_, ?_⟩
  · rw [← hk.flat_eq]
    exact h.count_eq
  · rw [← hk.flat_eq]
    exact h.bytes_eq

/-- Some offset of a read, no further than the end of the array, is not accepted. -/
def RefusedRead (F : FlatDevice δ) (s : Windowed δ) (offset count : ℕ) : Prop :=
  ∃ i, offset ≤ i ∧ i < offset + count ∧ i ≤ max offset (s.flat F).length ∧ ¬ F.Accepts i

theorem reads_of_reach (hk : s.Keeps F t) {offset count got : ℕ} (ht : t.Settled offset)
    (hreach : min count ((s.flat F).length - offset) ≤ t.window.limit - offset)
    (hgot : got = (t.window.bytesAt offset count).length) : s.Reads F offset count got t := by
  have hcount : got = min count ((s.flat F).length - offset) := by
    rw [hgot, hk.coherent.bytesAt ht, hk.flat_eq, Bytes.length_slice]
    omega
  refine ⟨hk, ht, hcount, ?_⟩
  rw [hk.coherent.bytesAt ht, hk.flat_eq, Nat.min_eq_left (hcount ▸ hreach)]

theorem reads_of_append (h : s.Coherent F) {offset count : ℕ} (hs : s.Settled offset)
    (hk : s.Keeps F t) (hw : t.window =
      { s.window with
        bytes := s.window.bytes ++ (F.content s.device).slice s.window.limit
          (offset + count - s.window.limit) }) :
    s.Reads F offset count (t.window.bytesAt offset count).length t := by
  have hlimit : t.window.limit = s.window.limit + min
      (offset + count - s.window.limit) ((s.flat F).length - s.window.limit) := by
    rw [hw, h.slice_limit]
    simp only [Window.limit, List.length_append, Bytes.length_slice]
    omega
  have ht : t.Settled offset := by
    refine ⟨by rw [hw]; exact hs.start_le, ?_, by rw [hw]; exact hs.kept⟩
    rw [hlimit]
    exact hs.le_limit.trans (Nat.le_add_right _ _)
  refine reads_of_reach hk ht ?_ rfl
  rw [hlimit]
  omega

theorem fetch_ends (h : s.Coherent F) {offset : ℕ} (hs : s.Settled offset) (count : ℕ) :
    Ends (fetch offset count) s
      (fun got t => s.Reads F offset count got t ∧ t.window.offset = s.window.offset)
      (fun _ t => t.Coherent F ∧ t.flat F = s.flat F ∧ RefusedRead F s offset count) := by
  have hstart := hs.start_le
  have hlimit := hs.le_limit
  unfold Window.limit at hlimit
  have hheld (w : Window) (hw : w.offset = s.window.offset) :
      w.bytes.slice (offset - s.window.offset) count = w.bytesAt offset count := by
    rw [Window.bytesAt, if_neg (by omega), hw]
  rw [fetch, ends_get]
  simp only [Bytes.reaches_eq, F.mayRead _ h.valid, Bool.and_true]
  split_ifs with hshort
  · simp only [Bool.not_eq_true', decide_eq_false_iff_not, not_le] at hshort
    refine Ends.bind ((ends_onDevice (F.readAt _ _ _ h.valid)).mono (fun _ _ => id) ?_) ?_
    · rintro _ t ⟨⟨hv, hc, hna⟩, hw⟩
      have hk := append_keeps h 0 hv hc (by simp [hw])
      have hend := h.limit_le
      unfold Window.limit at hend
      exact ⟨hk.coherent, hk.flat_eq, _, by omega, by omega, by omega, hna⟩
    · rintro data t ⟨⟨hv, hc, rfl⟩, hw⟩
      rw [ends_modify_bind, ends_get, ends_pure, hheld _ (by rw [hw])]
      have hcount : offset - s.window.offset + count - s.window.bytes.length =
          offset + count - s.window.limit := by
        unfold Window.limit
        omega
      rw [hw, hcount]
      refine ⟨reads_of_append h hs (append_keeps h _ hv hc rfl) rfl, rfl⟩
  · simp only [Bool.not_eq_true', decide_eq_false_iff_not, not_not] at hshort
    refine ⟨reads_of_reach h.keeps hs ?_ ?_, rfl⟩
    · unfold Window.limit
      omega
    · rw [hheld _ rfl]

theorem read_ends (h : s.Coherent F) (offset count : ℕ) :
    Ends (read offset count) s
      (fun got t => s.Reads F offset count got t)
      (fun _ t => t.Coherent F ∧ t.flat F = s.flat F ∧
        (¬ s.Flushable F ∨ RefusedRead F s offset count)) := by
  rw [read_eq]
  refine ((slide_ends h offset).mono (fun _ _ => id) ?_).bind ?_
  · rintro _ t ⟨hc, hf, hn⟩
    exact ⟨hc, hf, .inl hn⟩
  · rintro _ t ⟨hk, ht⟩
    refine (fetch_ends hk.coherent ht count).mono ?_ ?_
    · rintro got u ⟨hr, -⟩
      exact hk.reads hr
    · rintro _ u ⟨hc, hf, hr⟩
      unfold RefusedRead at hr
      rw [hk.flat_eq] at hf hr
      exact ⟨hc, hf, .inr hr⟩

/-! ### Writing -/

theorem markDirty_spec (dirty : Option (ℕ × ℕ)) (start stop : ℕ) :
    ∃ low high, Window.markDirty dirty start stop = some (low, high) ∧ low ≤ start ∧ stop ≤ high ∧
      (∀ a b, dirty = some (a, b) → low ≤ a ∧ b ≤ high) ∧
      (low = start ∨ ∃ b, dirty = some (low, b)) ∧ (high = stop ∨ ∃ a, dirty = some (a, high)) := by
  cases dirty with
  | none => exact ⟨start, stop, rfl, le_rfl, le_rfl, by simp, .inl rfl, .inl rfl⟩
  | some range =>
    obtain ⟨a, b⟩ := range
    refine ⟨min a start, max b stop, rfl, min_le_right _ _, le_max_right _ _, ?_, ?_, ?_⟩
    · rintro _ _ ⟨⟩
      exact ⟨min_le_left _ _, le_max_left _ _⟩
    · rcases min_choice a start with h | h
      · exact .inr ⟨b, by rw [h]⟩
      · exact .inl h
    · rcases max_choice b stop with h | h
      · exact .inr ⟨a, by rw [h]⟩
      · exact .inl h

/-- Outside a range that covers the written one the array is that of the device. -/
theorem Coherent.eq_outside (h : s.Coherent F) {low high : ℕ}
    (hcover : ∀ a b, s.window.dirty = some (a, b) → low ≤ a ∧ b ≤ high) :
    (F.content s.device).length ≤ (s.flat F).length ∧
    ((F.content s.device).length < (s.flat F).length →
      (s.flat F).length ≤ s.window.offset + high ∧ low < high) ∧
    ∀ i, i < s.window.offset + low ∨ s.window.offset + high ≤ i →
      (s.flat F).byte i = (F.content s.device).byte i := by
  cases hd : s.window.dirty with
  | none =>
    rw [flat_of_clean hd]
    exact ⟨le_rfl, fun hlt => absurd hlt (lt_irrefl _), fun _ _ => rfl⟩
  | some range =>
    obtain ⟨a, b⟩ := range
    obtain ⟨hlow, hhigh⟩ := hcover a b hd
    obtain ⟨hle, hb⟩ := h.dirty a b hd
    simp only [flat, hd, Bytes.length_put, Bytes.byte_put, Bytes.length_slice]
    refine ⟨?_, ?_, fun i hi => if_neg (by omega)⟩
    · split_ifs <;> omega
    · split_ifs <;> omega

structure Writes (F : FlatDevice δ) (s : Windowed δ) (offset : ℕ) (data : Bytes) (t : Windowed δ) :
    Prop where
  coherent : t.Coherent F
  flat_eq : t.flat F = (s.flat F).put offset data
  flushable : s.Flushable F → F.Accepts offset → t.Flushable F

theorem Keeps.writes (hk : s.Keeps F t) {offset : ℕ} {data : Bytes}
    (h : t.Writes F offset data u) : s.Writes F offset data u :=
  ⟨h.coherent, by rw [h.flat_eq, hk.flat_eq], fun hf => h.flushable (hk.flushable hf)⟩

theorem writes_of_overlay (h : s.Coherent F) {offset : ℕ} (hs : s.Settled offset) (data : Bytes) :
    s.Writes F offset data { s with
      window := { s.window with
        bytes := s.window.bytes.overlay (offset - s.window.offset) data
        dirty := Window.markDirty s.window.dirty (offset - s.window.offset)
          (offset - s.window.offset + data.length) } } := by
  have hstart := hs.start_le
  have hlimit := hs.le_limit
  have hend := h.limit_le
  unfold Window.limit at hlimit hend
  obtain ⟨low, high, hmark, hlow, hhigh, hcover, hlow', hhigh'⟩ :=
    markDirty_spec s.window.dirty (offset - s.window.offset) (offset - s.window.offset + data.length)
  obtain ⟨hle, hgrow, hout⟩ := h.eq_outside hcover
  have hhigh_le : high ≤ max s.window.bytes.length (offset - s.window.offset + data.length) := by
    rcases hhigh' with rfl | ⟨a, ha⟩
    · exact le_max_right _ _
    · exact (h.dirty a high ha).2.trans (le_max_left _ _)
  have hbytes : s.window.bytes.overlay (offset - s.window.offset) data =
      ((s.flat F).put offset data).slice s.window.offset
        (max s.window.bytes.length (offset - s.window.offset + data.length)) := by
    have := Bytes.overlay_slice (s.flat F) (offset - s.window.offset) data (by omega) hend
    rwa [← h.bytes, Nat.add_sub_cancel' hstart] at this
  rw [hmark]
  have hflat : (⟨s.device, { s.window with
      bytes := s.window.bytes.overlay (offset - s.window.offset) data
      dirty := some (low, high) }⟩ : Windowed δ).flat F = (s.flat F).put offset data := by
    simp only [flat]
    rw [hbytes, Bytes.slice_slice, Nat.min_eq_left (by omega)]
    refine Bytes.put_slice_of_eq_outside ?_ ?_ fun i hi => ?_
    · rw [Bytes.length_put]
      split_ifs <;> omega
    · rw [Bytes.length_put]
      split_ifs <;> omega
    · rw [Bytes.byte_put, if_neg (by omega)]
      exact hout i (by omega)
  refine ⟨⟨h.valid, ?_, ?_⟩, hflat, ?_⟩
  · rintro _ _ ⟨⟩
    rw [Bytes.length_overlay]
    omega
  · rw [hflat]
    dsimp only
    rw [Bytes.length_overlay]
    exact hbytes
  · rintro hf ha _ _ ⟨⟩
    rcases hlow' with rfl | ⟨b, hb⟩
    · rwa [Nat.add_sub_cancel' hstart]
    · exact hf low b hb

/-- A read where the window has settled does not move it. -/
theorem read_ends_of_settled (h : s.Coherent F) {offset : ℕ} (hs : s.Settled offset) (count : ℕ) :
    Ends (read offset count) s
      (fun got t => s.Reads F offset count got t ∧ t.window.offset = s.window.offset)
      (fun _ t => t.Coherent F ∧ t.flat F = s.flat F ∧ RefusedRead F s offset count) := by
  have hrun : read offset count s = fetch offset count s := by
    change EStateM.bind (slide offset) (fun _ => fetch offset count) s = _
    rw [EStateM.bind, hs.slide_eq]
  unfold Ends
  rw [hrun]
  exact fetch_ends h hs count

theorem write_ends (h : s.Coherent F) (offset : ℕ) (data : Bytes) :
    Ends (write offset data) s
      (fun _ t => s.Writes F offset data t)
      (fun _ t => t.Coherent F ∧ t.flat F = s.flat F ∧
        (¬ s.Flushable F ∨ RefusedRead F s offset data.length)) := by
  refine ((slide_ends h offset).mono (fun _ _ => id) ?_).bind ?_
  · rintro _ t ⟨hc, hf, hn⟩
    exact ⟨hc, hf, .inl hn⟩
  · rintro _ t ⟨hk, ht⟩
    rw [ends_get]
    dsimp only
    split_ifs with hshort
    · have hread := (read_ends_of_settled hk.coherent ht data.length).discard
      refine (hread.mono (fun _ _ => id) ?_).bind ?_
      · rintro _ u ⟨hc, hf, hr⟩
        unfold RefusedRead at hr
        rw [hk.flat_eq] at hf hr
        exact ⟨hc, hf, .inr hr⟩
      · rintro _ u ⟨got, hr, hoffset⟩
        have hw := writes_of_overlay hr.keeps.coherent hr.settled data
        rw [hoffset] at hw
        exact (hk.trans hr.keeps).writes hw
    · exact hk.writes (writes_of_overlay hk.coherent ht data)

/-! ### Operations that are accepted -/

/-- Device and window stand for `content`, and can be written back. -/
structure Holds (F : FlatDevice δ) (s : Windowed δ) (content : Bytes) : Prop where
  coherent : s.Coherent F
  flat_eq : s.flat F = content
  flushable : s.Flushable F

namespace Holds

variable {content : Bytes}

theorem read_completes (h : s.Holds F content) {offset count : ℕ}
    (hin : ∀ i, offset ≤ i → i ≤ max offset content.length → F.Accepts i) :
    Completes (read offset count) s fun got t => t.Holds F content ∧
      got = min count (content.length - offset) ∧
      t.window.bytesAt offset got = content.slice offset got := by
  obtain ⟨hc, rfl, hf⟩ := h
  refine (read_ends hc offset count).mono ?_ ?_
  · intro got t hr
    exact ⟨⟨hr.keeps.coherent, hr.keeps.flat_eq, hr.keeps.flushable hf⟩, hr.count_eq, hr.bytes_eq⟩
  · rintro _ _ ⟨-, -, hn | ⟨i, hlo, -, hhi, hna⟩⟩
    · exact hn hf
    · exact hna (hin i hlo hhi)

theorem write_completes (h : s.Holds F content) {offset : ℕ} {data : Bytes}
    (hat : F.Accepts offset) (hin : ∀ i, offset ≤ i → i < offset + data.length → F.Accepts i) :
    Completes (write offset data) s fun _ t => t.Holds F (content.put offset data) := by
  obtain ⟨hc, rfl, hf⟩ := h
  refine (write_ends hc offset data).mono ?_ ?_
  · intro _ t hw
    exact ⟨hw.coherent, hw.flat_eq, hw.flushable hf hat⟩
  · rintro _ _ ⟨-, -, hn | ⟨i, hlo, hhi, -, hna⟩⟩
    · exact hn hf
    · exact hna (hin i hlo hhi)

theorem flush_completes (h : s.Holds F content) :
    Completes flush s fun _ t => t.Holds F content ∧ F.content t.device = content := by
  obtain ⟨hc, rfl, hf⟩ := h
  refine (flush_ends hc).mono ?_ ?_
  · intro _ t ht
    exact ⟨⟨ht.1.coherent, ht.1.flat_eq, ht.1.flushable hf⟩, ht.2.1⟩
  · intro _ _ hn
    exact hn.2.2 hf

end Holds

end Windowed

end DataTransfer
