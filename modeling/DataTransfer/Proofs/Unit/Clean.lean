import DataTransfer.Proofs.Storage.Clean
import DataTransfer.Proofs.Unit.Session

/-!
A unit on a file of which nothing waits to be written: it reads without changing more than its window,
and a transfer that begins on it has nothing to write out.
-/

namespace DataTransfer.Session

variable {s : Session}

def withWindow (s : Session) (window : Window) : Session :=
  { s with unit := { s.unit with window } }

theorem windowed_read_accepted {content : Bytes} (h : s.channel.Shows content) {offset : ℕ}
    (count : ℕ) (hoffset : offset < FileSystem.offsetLimit)
    (hsize : content.length < FileSystem.offsetLimit) :
    Succeeds (windowed (Windowed.read offset count)) s fun got t => ∃ w,
      t = s.withWindow w ∧ t.channel.Shows content ∧ got = min count (content.length - offset) ∧
        w.bytesAt offset got = content.slice offset got := by
  refine (windowed_succeeds (h.read_accepted count hoffset hsize)).mono ?_ fun _ _ => id
  rintro got _ ⟨w, ⟨hw, hdevice, hgot, hbytes⟩, rfl⟩
  have hsame : s.withChannel w = s.withWindow w.window := by
    rw [withChannel, hdevice]
    rfl
  refine ⟨w.window, hsame, ?_, hgot, hbytes⟩
  have hchannel : (s.withChannel w).channel = w := rfl
  rwa [hchannel]

theorem windowed_read_succeeds {content : Bytes} (h : s.channel.Shows content) {offset : ℕ}
    (count : ℕ) (hoffset : offset ≤ content.length) (hsize : content.length < FileSystem.offsetLimit) :
    Succeeds (windowed (Windowed.read offset count)) s fun got t => ∃ w,
      t = s.withWindow w ∧ t.channel.Shows content ∧ got = min count (content.length - offset) ∧
        w.bytesAt offset got = content.slice offset got :=
  windowed_read_accepted h count (hoffset.trans_lt hsize) hsize

theorem isOpen_of_shows {content : Bytes} (h : s.channel.Shows content) : s.unit.isOpen = true := by
  obtain ⟨n, writable, hbacking, -⟩ := h.attached
  change s.unit.attachment.backing = _ at hbacking
  rw [ExternalUnit.isOpen, Attachment.isOpen, hbacking]
  rfl

theorem synced_of_shows {content : Bytes} (h : s.channel.Shows content) : s.synced = s := by
  obtain ⟨n, writable, hbacking, -⟩ := h.attached
  exact synced_of_ne fun heq => nomatch hbacking.symm.trans heq

theorem shows_of_connected {n : ℕ} {writable : Bool} (hread : s.unit.attachment.mayRead = true)
    (hbacking : s.unit.attachment.backing = some (.file (.node n) writable)) (offset : ℕ)
    (hwindow : s.unit.window = { offset }) : s.channel.Shows (s.system.files.contentAt n) := by
  refine ⟨hread, ⟨n, writable, hbacking, rfl⟩, congrArg Window.dirty hwindow, ?_⟩
  change s.unit.window.bytes = Bytes.slice _ s.unit.window.offset s.unit.window.bytes.length
  rw [hwindow]
  rfl

theorem requireReadable_of_mayRead (h : s.unit.attachment.mayRead = true) :
    Succeeds requireReadable s fun _ t => t = s := by
  simp only [requireReadable, attempts_get, h]
  rfl

/-! ### The beginning of a transfer -/

theorem prepare_of_nothing_dirty {kind : StatementKind} {direction : Direction}
    (hopen : s.unit.isOpen = true) (hclean : s.unit.window.dirty = none) :
    Completes (prepare kind direction) s fun _ t =>
      ∃ located, (located = true → s.unit.located = true) ∧ t = { s with
        unit := { s.unit with reading := decide (direction = .input), located } } := by
  have hflush : Completes (noting (windowed Windowed.flush)) s fun _ t => t = s := by
    refine Ends.discard_state (report_completes ?_)
    refine (windowed_succeeds (P := fun _ w => w = s.channel) ?_).mono ?_ fun _ _ => False.elim
    · unfold Completes Ends
      rw [Windowed.flush_of_clean hclean]
    · rintro _ _ ⟨_, rfl, rfl⟩
      rfl
  by_cases hreading : decide (direction = .input) = s.unit.reading
  · refine (prepare_of_same hopen hreading).mono ?_ fun _ _ => id
    rintro _ _ rfl
    rw [hreading]
    exact ⟨_, id, rfl⟩
  · unfold prepare
    refine (ends_get _).mpr ?_
    dsimp only
    rw [if_neg (by rw [hopen]; exact Bool.false_ne_true)]
    refine (ends_get _).mpr ?_
    rw [if_pos hreading]
    apply Ends.bind hflush
    rintro _ _ rfl
    exact ⟨false, nofun, rfl⟩

theorem prepare_of_clean {kind : StatementKind} {direction : Direction}
    (hopen : s.unit.isOpen = true) (hclean : s.unit.window.dirty = none)
    (hlocated : s.unit.located = false) :
    Completes (prepare kind direction) s fun _ t =>
      t = { s with unit := { s.unit with reading := decide (direction = .input) } } := by
  refine (prepare_of_nothing_dirty hopen hclean).mono ?_ fun _ _ => id
  rintro _ _ ⟨located, hkept, rfl⟩
  have hsame : located = s.unit.located := by
    rw [hlocated, Bool.eq_false_iff]
    exact fun htrue => Bool.false_ne_true (hlocated.symm.trans (hkept htrue))
  rw [hsame]

def beginning (s : Session) (kind : StatementKind) (source : SourceLine) (r : Receivers) : Session :=
  { s with
    unit := { s.unit with
      held := true
      statement := .begin_ kind s.unit.connection.modes
      reading := true }
    handler := ({ source } : Handler).declare r
    items := 0 }

theorem begin_of_clean {kind : StatementKind} {content : Bytes}
    (hkind : ∀ modes, (StatementState.begin_ kind modes).direction? = some .input)
    (hshows : s.channel.Shows content) (hlocated : s.unit.located = false) (source : SourceLine)
    (r : Receivers) :
    Completes (begin_ kind source) s fun _ t =>
      { t with handler := t.handler.declare r } = s.beginning kind source r := by
  refine Ends.bind (P := fun _ (t : Session) => t = { s with
    unit := { s.unit with held := true, statement := .begin_ kind s.unit.connection.modes }
    handler := { source }
    items := 0 }) ?_ ?_
  · exact rfl
  intro _ t ht
  have hstatement : t.unit.statement.direction? = some .input := by
    rw [ht]
    exact hkind _
  refine (ends_get _).mpr ?_
  rw [hstatement]
  have hheld : t.channel.Shows content := by
    rw [ht]
    exact hshows
  refine (prepare_of_clean (isOpen_of_shows hheld) hheld.clean (by rw [ht]; exact hlocated)).mono ?_
    fun _ _ => id
  rintro _ _ rfl
  rw [ht]
  rfl

end DataTransfer.Session
