import DataTransfer.Proofs.Storage.Typed
import DataTransfer.Proofs.Unit.Preservation

/-!
Windows on what can only be read: a file that is open for reading, or standard input. Whatever is done
through such a window, nothing outside it is changed but how much of the input is left; and unless
something waits there to be written, it shows what the file holds, or what has come from the input.
-/

namespace DataTransfer

namespace Windowed

variable {δ : Type} [ByteDevice δ]

theorem stable_coherent (F : FlatDevice δ) : Stable fun w : Windowed δ => w.Coherent F where
  read offset count _ hw := (read_ends hw offset count).mono (fun _ _ ht => ht.keeps.coherent)
    fun _ _ => And.left
  write offset data _ hw := (write_ends hw offset data).mono (fun _ _ ht => ht.coherent)
    fun _ _ => And.left
  flush _ hw := (flush_ends hw).mono (fun _ _ ht => ht.1.coherent) fun _ _ => And.left

theorem flush_cleans (w : Windowed δ) :
    Ends flush w (fun _ t => t.window.dirty = none) fun _ _ => True := by
  rw [flush, ends_get]
  dsimp only
  split
  · assumption
  · exact (Ends.trivial _ w).bind fun _ _ _ => (ends_modify _).mpr rfl

theorem flush_of_refused {w : Windowed δ} {low high : ℕ} {e : OsError}
    (hdirty : w.window.dirty = some (low, high))
    (hwrite : ByteDevice.writeAt (w.window.offset + low) (w.window.bytes.slice low (high - low))
      w.device = .error e w.device) : flush w = .error e w := by
  rw [flush, get_bind_run, hdirty]
  refine bind_run_error ?_
  unfold onDevice
  rw [hwrite]

theorem read_leaves_clean (offset count : ℕ) :
    Preserves (fun w : Windowed δ => w.window.dirty = none) (Windowed.read offset count) := by
  have hflush : Preserves (fun w : Windowed δ => w.window.dirty = none) Windowed.flush := by
    intro w hw
    unfold Ends
    rw [flush_of_clean hw]
    exact hw
  have hslide : Preserves (fun w : Windowed δ => w.window.dirty = none) (slide offset) := by
    unfold slide
    refine .get_bind fun w _ => ?_
    dsimp only
    split_ifs
    · exact hflush.bind fun _ => .modify fun _ _ => rfl
    · exact .pure _
    · exact hflush.bind fun _ => .modify fun _ h => h
    · exact .modify fun _ h => h
    · exact .pure _
  rw [read_eq]
  refine hslide.bind fun _ => .get_bind fun w _ => ?_
  dsimp only
  split_ifs
  · refine Preserves.bind ?_ fun _ => .bind (.modify fun _ h => h) fun _ =>
      .get_bind fun _ _ => .pure _
    intro t ht
    exact (ends_onDevice (Ends.trivial _ _)).mono
      (fun _ _ hu => (congrArg Window.dirty hu.2).trans ht)
      fun _ _ hu => (congrArg Window.dirty hu.2).trans ht
  · exact .get_bind fun _ _ => .pure _

end Windowed

/-- A file that is open for reading takes nothing that is written, unless it is nothing. -/
theorem FileSystem.write_readOnly (fs : FileSystem) (n offset : ℕ) (data : Bytes) :
    (data = [] ∧ fs.write (.node n) false offset data = .ok fs) ∨
      ∃ e, fs.write (.node n) false offset data = .error e := by
  by_cases hlimit : offsetLimit ≤ offset
  · exact .inr ⟨_, if_pos hlimit⟩
  · cases data with
    | nil => exact .inl ⟨rfl, if_neg hlimit⟩
    | cons b data => exact .inr ⟨.errno Errno.badDescriptor, if_neg hlimit⟩

/-! ### Clean windows on files -/

namespace Windowed.Shows

variable {s : Windowed Channel} {content : Bytes} {offset : ℕ}

theorem write_completes (h : s.Shows content) (hoffset : offset < FileSystem.offsetLimit)
    (hsize : content.length < FileSystem.offsetLimit) (data : Bytes) :
    Completes (write offset data) s fun _ t => t.device = s.device ∧
      t.window.dirty = some (0, data.length) ∧ t.window.bytes.slice 0 data.length = data := by
  unfold write
  refine Ends.bind (h.slide_completes offset) ?_
  rintro _ t ⟨ht, hdevice, rfl⟩
  refine (ends_get _).mpr ?_
  dsimp only
  rw [Nat.sub_self, Nat.zero_add]
  have hput (u : Windowed Channel) (hu : u.Shows content) (hsame : u.device = s.device) :
      Completes (modify fun v : Windowed Channel => { v with
          window := { v.window with
            bytes := v.window.bytes.overlay 0 data
            dirty := Window.markDirty v.window.dirty 0 data.length } } : Op Channel Unit) u
        fun _ v => v.device = s.device ∧ v.window.dirty = some (0, data.length) ∧
          v.window.bytes.slice 0 data.length = data := by
    refine (ends_modify _).mpr ⟨hsame, ?_, ?_⟩
    · dsimp only
      rw [hu.clean]
      rfl
    · simp [Bytes.overlay, Bytes.slice]
  split_ifs
  · refine (Ends.discard (ht.read_accepted _ hoffset hsize)).bind ?_
    rintro _ u ⟨_, hu, hsame, -⟩
    exact hput u hu (hsame.trans hdevice)
  · exact hput t ht hdevice

end Windowed.Shows
namespace Channel

variable {c : Channel} {n : ℕ}

def withInput (c : Channel) (input : Bytes) : Channel :=
  { c with system := { c.system with input } }

/-! ### Files -/

structure ReadsFile (c : Channel) (n : ℕ) : Prop where
  backing : c.attachment.backing = some (.file (.node n) false)
  mayRead : c.attachment.mayRead = true
  mayPosition : c.attachment.mayPosition = true
  isTerminal : c.attachment.isTerminal = false

/-- The file as a flat device. It has one state, since it accepts nothing that is written. -/
def ReadsFile.device (h : c.ReadsFile n) : FlatDevice Channel where
  Valid d := d = c
  content _ := c.system.files.contentAt n
  Accepts _ := False
  mayRead := by
    rintro _ rfl
    exact h.mayRead
  readAt := by
    rintro _ offset count rfl
    change Ends (Channel.readAt offset count) _ _ _
    unfold Ends Channel.readAt
    rw [h.backing]
    dsimp only
    rw [FileSystem.read_node]
    split_ifs
    · exact ⟨rfl, rfl, id⟩
    · exact ⟨rfl, rfl, rfl⟩
  writeAt := by
    rintro _ offset data rfl
    change Ends (Channel.writeAt offset data) _ _ _
    unfold Ends Channel.writeAt
    rw [h.backing]
    dsimp only
    rcases FileSystem.write_readOnly _ n offset data with ⟨rfl, hwrite⟩ | ⟨e, hwrite⟩
    · rw [hwrite]
      exact ⟨rfl, rfl⟩
    · rw [hwrite]
      exact ⟨rfl, ⟨[], Nat.zero_le _, rfl⟩, id⟩

theorem ReadsFile.flush_error {w : Windowed Channel} (h : w.device.ReadsFile n) {low high : ℕ}
    (hdirty : w.window.dirty = some (low, high))
    (hdata : w.window.bytes.slice low (high - low) ≠ []) : ∃ e, Windowed.flush w = .error e w := by
  obtain ⟨hnone, -⟩ | ⟨e, hwrite⟩ := FileSystem.write_readOnly w.device.system.files n
    (w.window.offset + low) (w.window.bytes.slice low (high - low))
  · exact absurd hnone hdata
  · refine ⟨e, Windowed.flush_of_refused hdirty ?_⟩
    change Channel.writeAt _ _ w.device = _
    unfold Channel.writeAt
    rw [h.backing]
    dsimp only
    rw [hwrite]

end Channel

/-! ### Standard input -/

namespace Windowed

variable {stream : Bytes} {c : Channel} {w : Windowed Channel}

/-- A window on standard input, of which only some has been taken. The window holds what was taken
last, unless something waits to be written. -/
structure Trails (stream : Bytes) (c : Channel) (w : Windowed Channel) : Prop where
  device_eq : w.device = c.withInput w.device.system.input
  left : w.device.system.input <:+ stream
  bytes : w.window.dirty = none → w.window.bytes ++ w.device.system.input <:+ stream

namespace Trails

variable (h : Trails stream c w)
include h

theorem reset (offset : ℕ) : Trails stream c { w with window := { offset } } :=
  ⟨h.device_eq, h.left, fun _ => h.left⟩

theorem drop (offset count : ℕ) : Trails stream c
    { w with window := { w.window with offset, bytes := w.window.bytes.drop count } } := by
  refine ⟨h.device_eq, h.left, fun hclean => List.IsSuffix.trans ?_ (h.bytes hclean)⟩
  refine ⟨w.window.bytes.take count, ?_⟩
  rw [← List.append_assoc, List.take_append_drop]

theorem append {more input : Bytes} (hinput : w.device.system.input = more ++ input) :
    Trails stream c { device := w.device.withInput input
                      window := { w.window with bytes := w.window.bytes ++ more } } := by
  refine ⟨?_, ?_, fun hclean => ?_⟩
  · change w.device.withInput input = c.withInput input
    rw [h.device_eq]
    rfl
  · exact (List.suffix_append more input).trans (hinput ▸ h.left)
  · have hbytes := h.bytes hclean
    rw [hinput, ← List.append_assoc] at hbytes
    exact hbytes

theorem attachment_eq : w.device.attachment = c.attachment := by
  rw [h.device_eq]
  rfl

omit h in
theorem flush_preserves (hc : c.attachment = .standard 0) :
    Preserves (Trails stream c) (Windowed.flush : Op Channel Unit) := by
  intro w hw
  cases hdirty : w.window.dirty with
  | none =>
    unfold Ends
    rw [flush_of_clean hdirty]
    exact hw
  | some range =>
    -- Standard input takes nothing, so that the range stays.
    have hwrite : ByteDevice.writeAt (w.window.offset + range.1)
        (w.window.bytes.slice range.1 (range.2 - range.1)) w.device = .error .writeToInput w.device := by
      change Channel.writeAt _ _ w.device = _
      unfold Channel.writeAt
      rw [hw.attachment_eq, hc]
      rfl
    unfold Ends
    rw [flush_of_refused hdirty hwrite]
    exact hw

omit h in
theorem stable (hc : c.attachment = .standard 0) : Stable (Trails stream c) := by
  have hflush : Preserves (Trails stream c) (Windowed.flush : Op Channel Unit) := flush_preserves hc
  have hslide (offset : ℕ) : Preserves (Trails stream c) (slide offset) := by
    unfold slide
    refine .get_bind fun w hw => ?_
    dsimp only
    split_ifs
    · exact hflush.bind fun _ => .modify fun _ ht => ht.reset offset
    · exact .pure _
    · exact hflush.bind fun _ => .modify fun _ ht => ht.drop offset _
    · exact .modify fun _ ht => ht.drop offset _
    · exact .pure _
  have hread (offset count : ℕ) : Preserves (Trails stream c) (Windowed.read offset count) := by
    rw [read_eq]
    refine (hslide offset).bind fun _ => .get_bind fun w hw => ?_
    dsimp only
    split_ifs
    · intro t ht
      refine ((readAt_typed (ht.attachment_eq.trans hc) _ _ rfl).mono (fun _ _ => id)
        fun _ _ => False.elim).bind ?_
      rintro _ _ ⟨rfl, rfl⟩
      exact ht.append (System.splitLine_append _ _).symm
    · exact .get_bind fun _ _ => .pure _
  refine ⟨hread, fun offset data => ?_, hflush⟩
  have hput (start stop : ℕ) (t : Windowed Channel) (ht : Trails stream c t) : Trails stream c { t with
      window := { t.window with
        bytes := t.window.bytes.overlay start data
        dirty := Window.markDirty t.window.dirty start stop } } := by
    refine ⟨ht.device_eq, ht.left, fun hclean => ?_⟩
    obtain ⟨low, high, hmark, -⟩ := markDirty_spec t.window.dirty start stop
    cases hclean.symm.trans hmark
  unfold Windowed.write
  refine (hslide offset).bind fun _ => .get_bind fun w hw => ?_
  dsimp only
  split_ifs
  · exact (hread _ _).discard.bind fun _ => .modify (hput _ _)
  · exact .modify (hput _ _)

end Trails

/-! ### Either of them -/

/-- A window on `c`, which can only be read. If that is standard input, `stream` has come from there. -/
inductive Sealed (stream : Bytes) (c : Channel) (w : Windowed Channel) : Prop
  | file {n : ℕ} (h : c.ReadsFile n) (coherent : w.Coherent h.device)
  | input (h : c.attachment = .standard 0) (trails : Trails stream c w)

namespace Sealed

variable (h : Sealed stream c w)
include h

theorem device_eq : w.device = c.withInput w.device.system.input := by
  cases h with
  | file h coherent =>
    have hvalid : w.device = c := coherent.valid
    rw [hvalid]
    rfl
  | input h trails => exact trails.device_eq

theorem backing_ne : w.device.attachment.backing ≠ some .standardOutput := by
  rw [h.device_eq]
  cases h with
  | file h _ => exact fun heq => nomatch h.backing.symm.trans heq
  | input h _ => exact fun heq => nomatch (congrArg Attachment.backing h).symm.trans heq

omit h in
theorem stable (stream : Bytes) (c : Channel) : Channel.Stable (Sealed stream c) := by
  have hpreserves {α : Type} {act : Op Channel α}
      (hact : ∀ C : Windowed Channel → Prop, Stable C → Preserves C act) :
      Preserves (Sealed stream c) act := by
    intro w hw
    cases hw with
    | file h coherent =>
      exact (hact _ (stable_coherent h.device) w coherent).mono (fun _ _ => .file h)
        fun _ _ => .file h
    | input h trails =>
      exact (hact _ (Trails.stable h) w trails).mono (fun _ _ => .input h) fun _ _ => .input h
  refine ⟨⟨fun _ _ => hpreserves fun _ hC => hC.read _ _, fun _ _ => hpreserves fun _ hC => hC.write _ _,
    hpreserves fun _ hC => hC.flush⟩, fun w hw => ?_⟩
  rwa [Channel.flushed_of_ne hw.backing_ne]

theorem again : Sealed stream w.device w := by
  have hdevice := h.device_eq
  cases h with
  | file h coherent =>
    obtain rfl : w.device = c := coherent.valid
    exact .file h coherent
  | input h trails =>
    refine .input (trails.attachment_eq.trans h) ⟨?_, trails.left, trails.bytes⟩
    rw [trails.device_eq]
    rfl

end Sealed

/-- A clean window on a file that is open for reading shows the file. -/
theorem Coherent.shows {n : ℕ} {h : c.ReadsFile n} (coherent : w.Coherent h.device)
    (hclean : w.window.dirty = none) : w.Shows (w.device.system.files.contentAt n) := by
  obtain rfl : w.device = c := coherent.valid
  refine ⟨h.mayRead, ⟨n, false, h.backing, rfl⟩, hclean, ?_⟩
  have hbytes := coherent.bytes
  rwa [flat_of_clean hclean] at hbytes

theorem Sealed.of_file {n : ℕ} (h : Sealed stream w.device w)
    (hbacking : w.device.attachment.backing = some (.file (.node n) false))
    (hclean : w.window.dirty = none) :
    w.device.ReadsFile n ∧ w.Shows (w.device.system.files.contentAt n) := by
  cases h with
  | @file m h coherent =>
    obtain rfl : m = n := by
      have hsame := h.backing.symm.trans hbacking
      cases hsame
      rfl
    exact ⟨h, coherent.shows hclean⟩
  | input h _ =>
    rw [h] at hbacking
    cases hbacking

/-- Nothing waits to be written, and the window shows what its file holds, or what has come from standard
input. -/
def Faithful (stream : Bytes) (w : Windowed Channel) : Prop :=
  w.window.dirty = none ∧
    ((∃ n, w.device.attachment.backing = some (.file (.node n) false) ∧
        w.Shows (w.device.system.files.contentAt n)) ∨
      w.device.attachment = .standard 0 ∧ w.window.bytes ++ w.device.system.input <:+ stream)

theorem Sealed.faithful (h : Sealed stream c w) (hclean : w.window.dirty = none) :
    w.Faithful stream := by
  refine ⟨hclean, ?_⟩
  cases h with
  | @file n h coherent =>
    have hdevice : w.device = c := coherent.valid
    exact .inl ⟨n, by rw [hdevice]; exact h.backing, coherent.shows hclean⟩
  | input h trails => exact .inr ⟨trails.attachment_eq.trans h, trails.bytes hclean⟩

end Windowed

end DataTransfer
