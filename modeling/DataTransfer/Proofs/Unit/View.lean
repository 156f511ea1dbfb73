import DataTransfer.Proofs.Unit.Clean

/-!
A file as a READ sees it. Whether the file may be written as well, and whether bytes of the window wait
for that, makes no difference to what is read.
-/

namespace DataTransfer

/-- Windows through which a READ sees these bytes, and goes on to see them. -/
structure View (content : Bytes) where
  shown : Windowed Channel → Prop
  mayRead : ∀ {w}, shown w → w.device.attachment.mayRead = true
  isTerminal : ∀ {w}, shown w → w.device.attachment.isTerminal = false
  read_completes : ∀ {w}, shown w → ∀ {offset} count, offset ≤ content.length →
    Completes (Windowed.read offset count) w fun got t => shown t ∧
      got = min count (content.length - offset) ∧
      t.window.bytesAt offset got = content.slice offset got

namespace View

variable {content : Bytes}

def ofHolds {system : System} {n : ℕ} (hn : n < system.files.nodes.length) (path : String)
    (hsize : content.length < FileSystem.offsetLimit) : View content where
  shown w := w.Holds (system.device hn path) content
  mayRead h := by
    rw [h.attachment_eq]
    rfl
  isTerminal h := by
    rw [h.attachment_eq]
    rfl
  read_completes h _ count hoffset := h.read_file count hoffset hsize

def ofShows {device : Channel} (hterminal : device.attachment.isTerminal = false)
    (hsize : content.length < FileSystem.offsetLimit) : View content where
  shown w := w.Shows content ∧ w.device = device
  mayRead h := h.1.mayRead
  isTerminal h := by
    rw [h.2]
    exact hterminal
  read_completes h _ count hoffset := by
    refine (h.1.read_completes count hoffset hsize).mono ?_ fun _ _ => id
    rintro got t ⟨ht, hdevice, hgot, hbytes⟩
    exact ⟨⟨ht, hdevice.trans h.2⟩, hgot, hbytes⟩

variable {V : View content} {s : Session} (h : V.shown s.channel)
include h

theorem read_succeeds {offset : ℕ} (count : ℕ) (hoffset : offset ≤ content.length) :
    Succeeds (Session.windowed (Windowed.read offset count)) s fun got t => ∃ w,
      (V.shown w ∧ got = min count (content.length - offset) ∧
        w.window.bytesAt offset got = content.slice offset got) ∧ t = s.withChannel w :=
  Session.windowed_succeeds (V.read_completes h count hoffset)

end View

end DataTransfer
