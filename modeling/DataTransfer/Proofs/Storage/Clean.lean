import DataTransfer.Proofs.Storage.OpenFile

/-!
Reading a file while nothing waits to be written. Whether or not the file may be written, a read
gives what stands in it and changes nothing but where the window lies.
-/

namespace DataTransfer.Windowed

theorem flush_of_clean {δ : Type} [ByteDevice δ] {s : Windowed δ} (h : s.window.dirty = none) :
    flush s = .ok () s := by
  rw [flush, get_bind_run, h]
  rfl

/-- A file that can be read, and a window that holds nothing but bytes of it. -/
structure Shows (s : Windowed Channel) (content : Bytes) : Prop where
  mayRead : s.device.attachment.mayRead = true
  attached : ∃ n writable, s.device.attachment.backing = some (.file (.node n) writable) ∧
    s.device.system.files.contentAt n = content
  clean : s.window.dirty = none
  bytes : s.window.bytes = content.slice s.window.offset s.window.bytes.length

namespace Shows

variable {s : Windowed Channel} {content : Bytes} (h : s.Shows content)
include h

theorem length_bytes_le : s.window.bytes.length ≤ content.length - s.window.offset := by
  have hlen := congrArg List.length h.bytes
  rw [Bytes.length_slice] at hlen
  omega

theorem withWindow {w : Window} (hclean : w.dirty = none)
    (hbytes : w.bytes = content.slice w.offset w.bytes.length) :
    Shows { s with window := w } content :=
  ⟨h.mayRead, h.attached, hclean, hbytes⟩

theorem slide_completes (offset : ℕ) : Completes (slide offset) s fun _ t =>
    t.Shows content ∧ t.device = s.device ∧ t.window.offset = offset := by
  unfold Completes
  rw [slide, ends_get]
  simp only [Bytes.reaches_eq]
  split_ifs with hout hlt hkept hdirty
  · refine Ends.bind (P := fun _ t => t = s) ?_ ?_
    · unfold Ends
      rw [flush_of_clean h.clean]
    · rintro _ _ rfl
      exact ⟨h.withWindow rfl rfl, rfl, rfl⟩
  · simp [Window.isDirty, h.clean] at hkept
  · simp [Window.isDirty, h.clean] at hdirty
  · refine ⟨h.withWindow h.clean ?_, rfl, rfl⟩
    dsimp only
    rw [h.bytes, Bytes.drop_slice, Nat.add_sub_cancel' hlt.le, Bytes.slice_length_slice]
  · have heq : s.window.offset = offset := by
      simp only [Bool.or_eq_true, decide_eq_true_eq] at hout
      omega
    exact ⟨h, rfl, heq⟩

theorem readAt_eq {offset : ℕ} (count : ℕ) (hoffset : offset < FileSystem.offsetLimit) :
    ByteDevice.readAt offset count s.device = .ok (content.slice offset count) s.device := by
  obtain ⟨n, writable, hbacking, rfl⟩ := h.attached
  change Channel.readAt offset count s.device = _
  unfold Channel.readAt
  rw [hbacking]
  simp only [FileSystem.read_node, if_neg (not_le.mpr hoffset)]

theorem fetch_completes {count : ℕ} (hoffset : s.window.offset < FileSystem.offsetLimit)
    (hsize : content.length < FileSystem.offsetLimit) :
    Completes (fetch s.window.offset count) s fun got t =>
      t.Shows content ∧ t.device = s.device ∧ got = min count (content.length - s.window.offset) ∧
        t.window.bytesAt s.window.offset got = content.slice s.window.offset got := by
  have hheld := h.length_bytes_le
  unfold Completes
  rw [fetch, ends_get]
  simp only [Bytes.reaches_eq, Nat.sub_self, Nat.zero_add]
  split_ifs with hshort
  · simp only [Bool.and_eq_true, Bool.not_eq_true', decide_eq_false_iff_not, not_le] at hshort
    have hread : onDevice (ByteDevice.readAt (s.window.offset + s.window.bytes.length)
        (count - s.window.bytes.length)) s =
          .ok (content.slice (s.window.offset + s.window.bytes.length)
            (count - s.window.bytes.length)) s := by
      unfold onDevice
      rw [h.readAt_eq _ (by omega)]
    have hbytes : s.window.bytes ++ content.slice (s.window.offset + s.window.bytes.length)
        (count - s.window.bytes.length) = content.slice s.window.offset count := by
      conv_lhs => rw [h.bytes]
      rw [Bytes.length_slice, Nat.min_eq_left hheld, ← Bytes.slice_add,
        Nat.add_sub_cancel' hshort.1.le]
    refine Ends.bind (P := fun data t => data = content.slice
      (s.window.offset + s.window.bytes.length) (count - s.window.bytes.length) ∧ t = s) ?_ ?_
    · unfold Ends
      rw [hread]
      exact ⟨rfl, rfl⟩
    rintro _ _ ⟨rfl, rfl⟩
    rw [ends_modify_bind, ends_get, ends_pure, hbytes]
    refine ⟨h.withWindow h.clean (by simp [Bytes.slice_min]), rfl, ?_, ?_⟩
    · simp [Bytes.slice_slice]
    · simp [Window.bytesAt, Bytes.slice_slice, Bytes.slice_min]
  · have hreach : count ≤ s.window.bytes.length := by
      have hmay : ByteDevice.mayRead s.device = true := h.mayRead
      simpa [hmay] using hshort
    have hgot : (s.window.bytes.slice 0 count).length = count := by
      rw [Bytes.length_slice]
      omega
    rw [ends_get, ends_pure, hgot]
    refine ⟨h, rfl, by omega, ?_⟩
    rw [Window.bytesAt, if_neg (lt_irrefl _), Nat.sub_self]
    conv_lhs => rw [h.bytes]
    rw [Bytes.slice_slice, Nat.add_zero, Nat.min_eq_left (by omega)]

theorem read_accepted {offset : ℕ} (count : ℕ) (hoffset : offset < FileSystem.offsetLimit)
    (hsize : content.length < FileSystem.offsetLimit) :
    Completes (read offset count) s fun got t =>
      t.Shows content ∧ t.device = s.device ∧ got = min count (content.length - offset) ∧
        t.window.bytesAt offset got = content.slice offset got := by
  rw [read_eq]
  apply Ends.bind (h.slide_completes offset)
  rintro _ t ⟨ht, hdevice, rfl⟩
  refine (ht.fetch_completes hoffset hsize).mono ?_ fun _ _ => id
  rintro got u ⟨hu, hsame, hgot, hbytes⟩
  exact ⟨hu, hsame.trans hdevice, hgot, hbytes⟩

theorem read_completes {offset : ℕ} (count : ℕ) (hoffset : offset ≤ content.length)
    (hsize : content.length < FileSystem.offsetLimit) :
    Completes (read offset count) s fun got t =>
      t.Shows content ∧ t.device = s.device ∧ got = min count (content.length - offset) ∧
        t.window.bytesAt offset got = content.slice offset got :=
  h.read_accepted count (hoffset.trans_lt hsize) hsize

theorem append (count : ℕ) :
    Shows { s with
      window := { s.window with
        bytes := s.window.bytes ++
          content.slice (s.window.offset + s.window.bytes.length) count } } content := by
  refine h.withWindow h.clean ?_
  have hbytes : s.window.bytes ++ content.slice (s.window.offset + s.window.bytes.length) count =
      content.slice s.window.offset (s.window.bytes.length + count) := by
    rw [Bytes.slice_add, ← h.bytes]
  dsimp only
  rw [hbytes, Bytes.slice_length_slice]

theorem readAt_ends (offset count : ℕ) : Ends (ByteDevice.readAt offset count) s.device
    (fun data d => data = content.slice offset count ∧ d = s.device) fun _ d => d = s.device := by
  obtain ⟨n, writable, hbacking, rfl⟩ := h.attached
  change Ends (Channel.readAt offset count) s.device _ _
  unfold Ends Channel.readAt
  rw [hbacking]
  simp only [FileSystem.read_node]
  split_ifs
  · rfl
  · exact ⟨rfl, rfl⟩

/-- Whether or not the file system accepts the read, it gives no more than there is and changes nothing
but the window. -/
theorem read_ends (offset count : ℕ) :
    Ends (read offset count) s
      (fun got t => got ≤ content.length - offset ∧ t.Shows content ∧ t.device = s.device)
      fun _ t => t.Shows content ∧ t.device = s.device := by
  rw [read_eq]
  refine Ends.bind ((h.slide_completes offset).mono (fun _ _ => id) fun _ _ => False.elim) ?_
  rintro _ t ⟨ht, hdevice, rfl⟩
  have hgot {u : Windowed Channel} (hu : u.Shows content) (hoffset : u.window.offset = t.window.offset)
      (start : ℕ) : (u.window.bytes.slice start count).length ≤ content.length - t.window.offset := by
    have hlength := hu.length_bytes_le
    rw [hoffset] at hlength
    rw [Bytes.length_slice]
    omega
  rw [fetch, ends_get]
  dsimp only
  split_ifs
  · refine Ends.bind (P := fun data u => data = content.slice
        (t.window.offset + t.window.bytes.length)
        (t.window.offset - t.window.offset + count - t.window.bytes.length) ∧ u = t)
      ((ends_onDevice (ht.readAt_ends _ _)).mono ?_ ?_) ?_
    · rintro _ ⟨device, window⟩ ⟨⟨hdata, rfl⟩, rfl⟩
      exact ⟨hdata, rfl⟩
    · rintro _ ⟨device, window⟩ ⟨rfl, rfl⟩
      exact ⟨ht, hdevice⟩
    · rintro _ _ ⟨rfl, rfl⟩
      exact ⟨hgot (ht.append _) rfl _, ht.append _, hdevice⟩
  · exact ⟨hgot ht rfl _, ht, hdevice⟩

end Shows

end DataTransfer.Windowed
