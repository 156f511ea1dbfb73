import DataTransfer.Proofs.Storage.Flat

/-!
The file that a channel is attached to, as a flat device. Reads and writes through the channel touch
nothing of the system but the content of this one file.
-/

namespace DataTransfer

namespace FileSystem

variable (fs : FileSystem) {n : ℕ}

def contentAt (n : ℕ) : Bytes := (fs.nodes[n]?.map (·.content)).getD []

@[simp] theorem contentAt_setContent (h : n < fs.nodes.length) (content : Bytes) :
    (fs.setContent (.node n) content).contentAt n = content := by
  simp [contentAt, setContent, h]

@[simp] theorem setContent_setContent (a b : Bytes) :
    (fs.setContent (.node n) a).setContent (.node n) b = fs.setContent (.node n) b := by
  simp only [setContent, List.modify_modify_eq]
  rfl

@[simp] theorem setContent_contentAt : fs.setContent (.node n) (fs.contentAt n) = fs := by
  have hnodes : fs.nodes.modify n (fun node => { node with content := fs.contentAt n }) = fs.nodes := by
    refine List.ext_getElem? fun i => ?_
    rw [List.getElem?_modify]
    split_ifs with hi
    · subst hi
      cases h : fs.nodes[n]? <;> simp [contentAt, h]
    · simp
  rw [setContent, hnodes]

theorem size_node : fs.size (.node n) = (fs.contentAt n).length := by
  rw [size, contentAt]
  cases fs.nodes[n]? <;> rfl

theorem read_node (offset count : ℕ) :
    fs.read (.node n) offset count =
      if offsetLimit ≤ offset then .error (.errno Errno.invalidArgument)
      else .ok ((fs.contentAt n).slice offset count) := by
  rw [read, contentAt]
  cases fs.nodes[n]? <;> simp [Bytes.slice]

theorem write_node (offset : ℕ) (data : Bytes) :
    fs.write (.node n) true offset data =
      if offsetLimit ≤ offset then .error (.errno Errno.invalidArgument)
      else .ok (fs.setContent (.node n) ((fs.contentAt n).put offset data)) := by
  cases data with
  | nil => simp [write]
  | cons b bs =>
    have hnodes : fs.nodes.modify n (fun node =>
        { node with content := node.content.overlay offset (b :: bs) }) =
        fs.nodes.modify n (fun node =>
          { node with content := (fs.contentAt n).overlay offset (b :: bs) }) := by
      refine List.ext_getElem? fun i => ?_
      rw [List.getElem?_modify, List.getElem?_modify]
      split_ifs with hi
      · subst hi
        cases h : fs.nodes[n]? <;> simp [contentAt, h]
      · rfl
    simp [write, setContent, Bytes.put, hnodes]

end FileSystem

namespace Channel

/-- The channel is attached to the file of a number, for reading and writing. -/
structure AttachedTo (c : Channel) (n : ℕ) : Prop where
  backing : c.attachment.backing = some (.file (.node n) true)
  mayRead : c.attachment.mayRead = true
  lt_length : n < c.system.files.nodes.length

def withContent (c : Channel) (n : ℕ) (content : Bytes) : Channel :=
  { c with system := { c.system with files := c.system.files.setContent (.node n) content } }

variable {c : Channel} {n : ℕ}

theorem AttachedTo.withContent (h : c.AttachedTo n) (content : Bytes) :
    (c.withContent n content).AttachedTo n := by
  refine ⟨h.backing, h.mayRead, ?_⟩
  simpa [Channel.withContent, FileSystem.setContent] using h.lt_length

@[simp] theorem contentAt_withContent (h : c.AttachedTo n) (content : Bytes) :
    (c.withContent n content).system.files.contentAt n = content :=
  FileSystem.contentAt_setContent _ h.lt_length content

@[simp] theorem withContent_contentAt : c.withContent n (c.system.files.contentAt n) = c := by
  rw [withContent, FileSystem.setContent_contentAt]

theorem AttachedTo.readAt_ends (h : c.AttachedTo n) (offset count : ℕ) :
    Ends (Channel.readAt offset count) c
      (fun data d => d = c ∧ data = (c.system.files.contentAt n).slice offset count)
      (fun _ d => d = c ∧ FileSystem.offsetLimit ≤ offset) := by
  unfold Ends Channel.readAt
  rw [h.backing]
  simp only [FileSystem.read_node]
  split_ifs with ho
  · exact ⟨rfl, ho⟩
  · exact ⟨rfl, rfl⟩

theorem AttachedTo.writeAt_ends (h : c.AttachedTo n) (offset : ℕ) (data : Bytes) :
    Ends (Channel.writeAt offset data) c
      (fun _ d => d = c.withContent n ((c.system.files.contentAt n).put offset data))
      (fun _ d => d = c ∧ FileSystem.offsetLimit ≤ offset) := by
  unfold Ends Channel.writeAt
  rw [h.backing]
  simp only [FileSystem.write_node]
  split_ifs with ho
  · exact ⟨rfl, ho⟩
  · rfl

/-- The attached file as a flat device: its states differ from the channel in the file's content. -/
def AttachedTo.device (h : c.AttachedTo n) : FlatDevice Channel where
  Valid d := ∃ content, d = c.withContent n content
  content d := d.system.files.contentAt n
  Accepts offset := offset < FileSystem.offsetLimit
  mayRead := by
    rintro _ ⟨content, rfl⟩
    exact h.mayRead
  readAt := by
    rintro _ offset count ⟨content, rfl⟩
    refine ((h.withContent content).readAt_ends offset count).mono ?_ ?_
    · rintro _ _ ⟨rfl, rfl⟩
      exact ⟨⟨content, rfl⟩, rfl, rfl⟩
    · rintro _ _ ⟨rfl, ho⟩
      exact ⟨⟨content, rfl⟩, rfl, not_lt.mpr ho⟩
  writeAt := by
    rintro _ offset data ⟨content, rfl⟩
    have hagain (b : Bytes) : (c.withContent n content).withContent n b = c.withContent n b := by
      simp [Channel.withContent]
    refine ((h.withContent content).writeAt_ends offset data).mono ?_ ?_
    · rintro _ _ rfl
      rw [contentAt_withContent h, hagain, contentAt_withContent h]
      exact ⟨⟨_, rfl⟩, rfl⟩
    · rintro _ _ ⟨rfl, ho⟩
      exact ⟨⟨content, rfl⟩, ⟨[], Nat.zero_le _, rfl⟩, not_lt.mpr ho⟩

/-- The channel is attached to a file as an OPEN attaches one that may be read and written. -/
structure OpenTo (c : Channel) (n : ℕ) : Prop extends c.AttachedTo n where
  mayWrite : c.attachment.mayWrite = true
  mayPosition : c.attachment.mayPosition = true
  isTerminal : c.attachment.isTerminal = false

namespace AttachedTo

variable (h : c.AttachedTo n) {w : Windowed Channel} {content : Bytes}
include h

omit w content in
theorem backing_ne : c.attachment.backing ≠ some .standardOutput := by simp [h.backing]

theorem eq_of_valid {d : Channel} (hd : h.device.Valid d) : d = c.withContent n (h.device.content d) := by
  obtain ⟨content, rfl⟩ := hd
  exact congrArg (c.withContent n) (contentAt_withContent h content).symm

theorem attachment_eq (hw : w.Holds h.device content) : w.device.attachment = c.attachment :=
  (congrArg Channel.attachment (h.eq_of_valid hw.coherent.valid)).trans rfl

theorem holds_opened (start : ℕ) :
    Windowed.Holds h.device ⟨c, { offset := start }⟩ (c.system.files.contentAt n) := by
  have hvalid : h.device.Valid c := ⟨_, withContent_contentAt.symm⟩
  exact ⟨Windowed.coherent_of_clean hvalid rfl rfl, rfl, Windowed.flushable_of_clean rfl⟩

theorem write_completes (hw : w.Holds h.device content) {offset : ℕ} (data : Bytes)
    (hsize : offset + data.length < FileSystem.offsetLimit) :
    Completes (Windowed.write offset data) w fun _ t =>
      t.Holds h.device (content.put offset data) := by
  refine hw.write_completes ?_ fun i _ hi => ?_
  · exact (Nat.le_add_right _ _).trans_lt hsize
  · exact hi.trans hsize

end AttachedTo

end Channel

end DataTransfer
