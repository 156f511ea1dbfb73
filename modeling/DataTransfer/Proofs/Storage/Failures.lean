import DataTransfer.Proofs.Storage.Refinement

/-!
Calls of the device that fail. An operation through a window fails when one of its calls does, and
with the error of that call; device and window then stand for the same array as before, so the
operation may be tried again, or forgotten.
-/

namespace DataTransfer

/-- A device that holds bytes at offsets, and any call of which may fail. A write that fails may
have changed bytes in the range that it was asked to write, and no others. -/
structure Disk (δ : Type) [ByteDevice δ] where
  Valid : δ → Prop
  content : δ → Bytes
  readAt : ∀ d offset count, Valid d → Ends (ByteDevice.readAt offset count) d
    (fun _ d' => Valid d' ∧ content d' = content d)
    (fun _ d' => Valid d' ∧ content d' = content d)
  writeAt : ∀ d offset data, Valid d → Ends (ByteDevice.writeAt offset data) d
    (fun _ d' => Valid d' ∧ content d' = (content d).put offset data)
    (fun _ d' => Valid d' ∧ ∃ part : Bytes, part.length ≤ data.length ∧
      content d' = (content d).put offset part)

def FlatDevice.disk {δ : Type} [ByteDevice δ] (F : FlatDevice δ) : Disk δ where
  Valid := F.Valid
  content := F.content
  readAt d offset count h :=
    (F.readAt d offset count h).mono (fun _ _ hd => ⟨hd.1, hd.2.1⟩) fun _ _ hd => ⟨hd.1, hd.2.1⟩
  writeAt d offset data h :=
    (F.writeAt d offset data h).mono (fun _ _ => id) fun _ _ hd => ⟨hd.1, hd.2.1⟩

theorem Window.bytesAt_drop (w : Window) {start : ℕ} (h : w.offset ≤ start) (offset count : ℕ) :
    ({ w with offset := start, bytes := w.bytes.drop (start - w.offset) } : Window).bytesAt
      offset count <+: w.bytesAt offset count := by
  unfold Window.bytesAt
  by_cases hlt : offset < start
  · rw [if_pos hlt]
    exact List.nil_prefix
  · have hstart : start - w.offset + (offset - start) = offset - w.offset := by omega
    rw [if_neg hlt, if_neg (by omega)]
    simp only [Bytes.slice, List.drop_drop, hstart, List.prefix_rfl]

/-! ### Calls that are watched -/

/-- A device together with the errors that its calls have come to. -/
structure Watched (δ : Type) where
  device : δ
  errors : List OsError := []

namespace Watched

variable {δ α : Type}

def call (act : EStateM OsError δ α) : EStateM OsError (Watched δ) α := fun d =>
  match act d.device with
  | .ok a device => .ok a { d with device }
  | .error e device => .error e { device, errors := d.errors ++ [e] }

instance [ByteDevice δ] : ByteDevice (Watched δ) where
  mayRead d := ByteDevice.mayRead d.device
  mayPosition d := ByteDevice.mayPosition d.device
  readAt offset count := call (ByteDevice.readAt offset count)
  writeAt offset data := call (ByteDevice.writeAt offset data)

end Watched

namespace Windowed

variable {δ α β : Type}

def unwatched (s : Windowed (Watched δ)) : Windowed δ := ⟨s.device.device, s.window⟩

def watched (s : Windowed δ) : Windowed (Watched δ) := ⟨{ device := s.device }, s.window⟩

/-- From here the one does, while it is watched, what the other does. It fails when a call fails, and
no call is made after that. -/
def Watches (act : Op (Watched δ) α) (act' : Op δ α) (s : Windowed (Watched δ)) : Prop :=
  Ends act s
    (fun a t => act' s.unwatched = .ok a t.unwatched ∧ t.device.errors = s.device.errors)
    (fun e t => act' s.unwatched = .error e t.unwatched ∧ t.device.errors = s.device.errors ++ [e])

namespace Watches

theorem pure (a : α) (s : Windowed (Watched δ)) : Watches (Pure.pure a) (Pure.pure a) s :=
  ⟨rfl, rfl⟩

theorem bind {act : Op (Watched δ) α} {act' : Op δ α} {next : α → Op (Watched δ) β}
    {next' : α → Op δ β} {s : Windowed (Watched δ)} (h : Watches act act' s)
    (hnext : ∀ a t, Watches (next a) (next' a) t) :
    Watches (act >>= next) (act' >>= next') s := by
  unfold Watches at hnext
  refine (Ends.mono h (fun _ _ => id) ?_).bind ?_
  · rintro e t ⟨he, herrors⟩
    exact ⟨bind_run_error he, herrors⟩
  · rintro a t ⟨ha, herrors⟩
    rw [bind_run_eq ha, ← herrors]
    exact hnext a t

theorem get_bind {next : Windowed (Watched δ) → Op (Watched δ) α} {next' : Windowed δ → Op δ α}
    {s : Windowed (Watched δ)} (h : Watches (next s) (next' s.unwatched) s) :
    Watches (get >>= next) (get >>= next') s := h

theorem modify (f : Window → Window) (s : Windowed (Watched δ)) :
    Watches (modify fun s => { s with window := f s.window })
      (modify fun s => { s with window := f s.window }) s := ⟨rfl, rfl⟩

theorem ite {c : Prop} [Decidable c] {act next : Op (Watched δ) α} {act' next' : Op δ α}
    {s : Windowed (Watched δ)} (h : Watches act act' s) (hnext : Watches next next' s) :
    Watches (if c then act else next) (if c then act' else next') s := by
  split_ifs
  · exact h
  · exact hnext

theorem call (act : EStateM OsError δ α) (s : Windowed (Watched δ)) :
    Watches (onDevice (Watched.call act)) (onDevice act) s := by
  unfold Watches Ends onDevice Watched.call unwatched
  cases act s.device.device <;> exact ⟨rfl, rfl⟩

variable [ByteDevice δ] (s : Windowed (Watched δ))

theorem flush : Watches flush flush s := by
  refine .get_bind ?_
  dsimp only [unwatched]
  cases s.window.dirty with
  | none => exact .pure () s
  | some range => exact (call _ s).bind fun _ => .modify fun w => { w with dirty := none }

theorem slide (offset : ℕ) : Watches (slide offset) (slide offset) s := by
  refine .get_bind (.ite ?_ (.ite (.ite ?_ (.ite ?_ ?_)) ?_))
  · exact (flush s).bind fun _ => .modify fun _ => { offset }
  · exact .pure () s
  · exact (flush s).bind fun _ => .modify fun w => { w with offset, bytes := w.bytes.drop _ }
  · exact .modify (fun w => { w with offset, bytes := w.bytes.drop _ }) s
  · exact .pure () s

theorem read (offset count : ℕ) : Watches (read offset count) (read offset count) s := by
  refine (slide s offset).bind fun _ t => .get_bind (.ite ?_ ?_)
  · refine (call _ t).bind fun data u => ?_
    refine (Watches.modify (fun w => { w with bytes := w.bytes ++ data }) u).bind fun _ v => ?_
    exact .get_bind (.pure _ v)
  · exact .get_bind (.pure _ t)

theorem write (offset : ℕ) (data : Bytes) : Watches (write offset data) (write offset data) s := by
  refine (slide s offset).bind fun _ t => .get_bind (.ite ?_ ?_)
  · have hread := (read t offset data.length).bind fun _ u => .pure () u
    exact hread.bind fun _ => .modify fun w =>
      { w with bytes := w.bytes.overlay _ data, dirty := Window.markDirty w.dirty _ _ }
  · exact .modify (fun w =>
      { w with bytes := w.bytes.overlay _ data, dirty := Window.markDirty w.dirty _ _ }) t

theorem perform (content : δ → Bytes) (op : WindowOp) :
    Watches (op.perform fun d => content d.device) (op.perform content) s := by
  cases op with
  | read offset count => exact (read s offset count).bind fun got t => .get_bind (.pure _ t)
  | peek offset count => exact .get_bind (.pure _ s)
  | write offset data => exact (write s offset data).bind fun _ => .pure _
  | fill offset count byte => exact (write s offset _).bind fun _ => .pure _
  | flush => exact (flush s).bind fun _ t => .get_bind (.pure _ t)

end Watches

end Windowed

def WindowOp.failures {δ : Type} [ByteDevice δ] (content : δ → Bytes) (op : WindowOp)
    (s : Windowed δ) : List OsError :=
  match op.perform (fun d => content d.device) s.watched with
  | .ok _ t => t.device.errors
  | .error _ t => t.device.errors

namespace Windowed

variable {δ : Type} [ByteDevice δ]

/-- An operation fails exactly when one of its calls does, and with the error of that call. -/
theorem failures_ends (content : δ → Bytes) (op : WindowOp) (s : Windowed δ) :
    Ends (op.perform content) s (fun _ _ => op.failures content s = [])
      (fun e _ => op.failures content s = [e]) := by
  have h := Watches.perform s.watched content op
  have hself : s.watched.unwatched = s := rfl
  unfold Watches Ends at h
  unfold Ends WindowOp.failures
  rw [hself] at h
  cases hrun : op.perform (fun d => content d.device) s.watched with
  | ok a t =>
    rw [hrun] at h
    rw [h.1]
    exact h.2
  | error e t =>
    rw [hrun] at h
    rw [h.1]
    exact h.2

/-! ### What a failure leaves -/

/-- The array that device and window stand for: what the device holds, overlaid with the written
range of the window. -/
def overlaid (D : Disk δ) (s : Windowed δ) : Bytes :=
  match s.window.dirty with
  | none => D.content s.device
  | some (low, high) =>
    (D.content s.device).put (s.window.offset + low) (s.window.bytes.slice low (high - low))

theorem overlaid_disk (F : FlatDevice δ) (s : Windowed δ) : s.overlaid F.disk = s.flat F := rfl

/-- The array has not changed, and no bytes have come into the window. -/
structure Retains (D : Disk δ) (s t : Windowed δ) : Prop where
  valid : D.Valid t.device
  overlaid_eq : t.overlaid D = s.overlaid D
  held : ∀ offset count, t.window.bytesAt offset count <+: s.window.bytesAt offset count

variable {D : Disk δ} {s t u : Windowed δ}

theorem Retains.refl (h : D.Valid s.device) : s.Retains D s :=
  ⟨h, rfl, fun _ _ => List.prefix_rfl⟩

theorem Retains.trans (h : s.Retains D t) (h' : t.Retains D u) : s.Retains D u :=
  ⟨h'.valid, h'.overlaid_eq.trans h.overlaid_eq, fun offset count =>
    (h'.held offset count).trans (h.held offset count)⟩

/-- A flush puts the whole array on the device. If it fails, the window still holds what the device
may have lost. -/
theorem flush_retains (h : D.Valid s.device) : Ends flush s
    (fun _ t => s.Retains D t ∧ D.content t.device = s.overlaid D ∧
      t.window = { s.window with dirty := none })
    (fun _ t => s.Retains D t) := by
  cases hd : s.window.dirty with
  | none =>
    simp only [flush, ends_get, hd, ends_pure]
    refine ⟨.refl h, by rw [overlaid, hd], ?_⟩
    rw [← hd]
  | some range =>
    obtain ⟨low, high⟩ := range
    have harray : s.overlaid D = (D.content s.device).put (s.window.offset + low)
        (s.window.bytes.slice low (high - low)) := by rw [overlaid, hd]
    simp only [flush, ends_get, hd]
    refine Ends.bind ((ends_onDevice (D.writeAt _ _ _ h)).mono (fun _ _ => id) ?_) ?_
    · rintro _ t ⟨⟨hv, part, hpart, hc⟩, hw⟩
      refine ⟨hv, ?_, fun _ _ => by simp only [hw, List.prefix_rfl]⟩
      rw [harray, ← Bytes.put_put _ _ hpart, ← hc, overlaid, hw, hd]
    · rintro _ t ⟨⟨hv, hc⟩, hw⟩
      rw [← harray] at hc
      rw [ends_modify]
      refine ⟨⟨hv, hc, fun _ _ => ?_⟩, hc, by rw [hw]⟩
      rw [hw]
      exact List.prefix_rfl

theorem Retains.of_clean (h : D.Valid s.device) (hd : s.window.dirty = none) {w : Window}
    (hwd : w.dirty = none)
    (hw : ∀ offset count, w.bytesAt offset count <+: s.window.bytesAt offset count) :
    s.Retains D { s with window := w } :=
  ⟨h, by simp only [overlaid, hd, hwd], hw⟩

theorem slide_retains (h : D.Valid s.device) (offset : ℕ) :
    Ends (slide offset) s (fun _ t => s.Retains D t) (fun _ t => s.Retains D t) := by
  rw [slide, ends_get]
  dsimp only
  split_ifs with hout hlt hkept hdirty
  · refine (flush_retains h).bind ?_
    rintro _ t ⟨hr, hc, -⟩
    exact ⟨hr.valid, hc, fun _ _ => by simp [Window.bytesAt, Bytes.slice]⟩
  · exact .refl h
  · refine (flush_retains h).bind ?_
    rintro _ t ⟨hr, -, hw⟩
    have hdrop := t.window.bytesAt_drop (by rw [hw]; exact hlt.le : t.window.offset ≤ offset)
    have hoffset : t.window.offset = s.window.offset := by rw [hw]
    rw [hoffset] at hdrop
    exact hr.trans (.of_clean hr.valid (by rw [hw]) (by rw [hw]) hdrop)
  · have hclean : s.window.dirty = none := by simpa [Window.isDirty] using hdirty
    exact .of_clean h hclean hclean (s.window.bytesAt_drop hlt.le)
  · exact .refl h

theorem read_retains (h : D.Valid s.device) (offset count : ℕ) :
    Ends (read offset count) s (fun _ t => D.Valid t.device) (fun _ t => s.Retains D t) := by
  refine (slide_retains h offset).bind ?_
  intro _ t ht
  rw [ends_get]
  dsimp only
  split_ifs
  · refine Ends.bind ((ends_onDevice (D.readAt _ _ _ ht.valid)).mono (fun _ _ => id) ?_) ?_
    · rintro _ u ⟨⟨hv, hc⟩, hw⟩
      refine ht.trans ⟨hv, ?_, fun _ _ => by simp only [hw, List.prefix_rfl]⟩
      simp only [overlaid, hw, hc]
    · rintro data u ⟨⟨hv, -⟩, -⟩
      exact hv
  · exact ht.valid

/-- Where a write fails, it fails before any of its data is stored. -/
theorem write_retains (h : D.Valid s.device) (offset : ℕ) (data : Bytes) :
    Ends (write offset data) s (fun _ _ => True) (fun _ t => s.Retains D t) := by
  refine (slide_retains h offset).bind ?_
  intro _ t ht
  rw [ends_get]
  dsimp only
  split_ifs
  · refine ((read_retains ht.valid offset data.length).discard.mono (fun _ _ => id) ?_).bind ?_
    · exact fun _ _ hr => ht.trans hr
    · exact fun _ _ _ => True.intro
  · exact True.intro

theorem perform_retains (h : D.Valid s.device) (op : WindowOp) :
    Ends (op.perform D.content) s (fun _ _ => True) (fun _ t => s.Retains D t) := by
  cases op with
  | read offset count => exact (read_retains h offset count).bind fun _ _ _ => True.intro
  | peek offset count => exact True.intro
  | write offset data => exact (write_retains h offset data).bind fun _ _ _ => True.intro
  | fill offset count byte =>
    exact (write_retains h offset (.fill count byte)).bind fun _ _ _ => True.intro
  | flush =>
    exact ((flush_retains h).mono (fun _ _ => id) fun _ _ => id).bind fun _ _ _ => True.intro

end Windowed

/-! ### After a failure -/

/-- A file some calls of which fail. The schedule has an entry for each call to come: a call with a
number fails, and if it is a write then after so many bytes. Behind the schedule no call fails. -/
structure FailingFile where
  content : Bytes
  schedule : List (Option ℕ) := []

namespace FailingFile

def readAt (offset count : ℕ) : EStateM OsError FailingFile Bytes := fun d =>
  match d.schedule with
  | some _ :: schedule => .error (.errno 5) { d with schedule }
  | schedule => .ok (d.content.slice offset count) { d with schedule := schedule.tail }

def writeAt (offset : ℕ) (data : Bytes) : EStateM OsError FailingFile Unit := fun d =>
  match d.schedule with
  | some count :: schedule =>
    .error (.errno 5) { content := d.content.put offset (data.take count), schedule }
  | schedule => .ok () { content := d.content.put offset data, schedule := schedule.tail }

instance : ByteDevice FailingFile where
  mayRead _ := true
  mayPosition _ := true
  readAt := readAt
  writeAt := writeAt

def device : FlatDevice FailingFile where
  Valid _ := True
  content := content
  Accepts _ := False
  mayRead _ _ := rfl
  readAt := by
    rintro ⟨content, _ | ⟨_ | count, schedule⟩⟩ offset n -
    · exact ⟨trivial, rfl, rfl⟩
    · exact ⟨trivial, rfl, rfl⟩
    · exact ⟨trivial, rfl, not_false⟩
  writeAt := by
    rintro ⟨content, _ | ⟨_ | count, schedule⟩⟩ offset data -
    · exact ⟨trivial, rfl⟩
    · exact ⟨trivial, rfl⟩
    · exact ⟨trivial, ⟨data.take count, data.length_take_le' count, rfl⟩, not_false⟩

end FailingFile

/-- The operations one after the other, whether or not those before have failed: the ones that
succeed, with their answers, and what is reached. -/
def WindowOp.tryAll {δ : Type} [ByteDevice δ] (content : δ → Bytes) :
    List WindowOp → Windowed δ → List (WindowOp × WindowAnswer) × Windowed δ
  | [], s => ([], s)
  | op :: ops, s =>
    match op.perform content s with
    | .ok answer t =>
      let (done, u) := tryAll content ops t
      ((op, answer) :: done, u)
    | .error _ t => tryAll content ops t

namespace Windowed

variable {δ : Type} [ByteDevice δ]

/-- Operations that fail leave no trace: those that succeed are a run of the flat array. -/
theorem tryAll_run {F : FlatDevice δ} {s : Windowed δ} (h : s.Coherent F) (ops : List WindowOp) :
    (WindowOp.tryAll F.content ops s).2.Coherent F ∧
      WindowOp.Run (s.flat F) ((WindowOp.tryAll F.content ops s).1.map Prod.fst)
        ((WindowOp.tryAll F.content ops s).1.map Prod.snd)
        ((WindowOp.tryAll F.content ops s).2.flat F) := by
  induction ops generalizing s with
  | nil => exact ⟨h, .nil _⟩
  | cons op ops ih =>
    have hop := perform_ends h op
    unfold Ends at hop
    rw [WindowOp.tryAll]
    cases hrun : op.perform F.content s with
    | ok answer t =>
      rw [hrun] at hop
      obtain ⟨hc, hstep, -⟩ := hop
      exact ⟨(ih hc).1, .cons hstep (ih hc).2⟩
    | error e t =>
      rw [hrun] at hop
      obtain ⟨hc, hflat, -⟩ := hop
      rw [← hflat]
      exact ih hc

/-- An operation fails exactly when a call of the device fails, with the error of that call. It then
has changed nothing: the array is the same, nothing of what was to be written is held, and a flush
that succeeds puts the array as it was before on the device. From a coherent window, so does a flush
after any further operations, as if only those that succeed had been asked for. -/
theorem failure_loses_nothing (D : Disk δ) (op : WindowOp) (s : Windowed δ)
    (h : D.Valid s.device) :
    Ends (op.perform D.content) s
      (fun _ _ => op.failures D.content s = [])
      (fun e t => op.failures D.content s = [e] ∧
        t.overlaid D = s.overlaid D ∧
        (∀ offset count, t.window.bytesAt offset count <+: s.window.bytesAt offset count) ∧
        Ends flush t (fun _ u => D.content u.device = s.overlaid D)
          (fun _ u => u.overlaid D = s.overlaid D) ∧
        ∀ F : FlatDevice δ, F.disk = D → s.Coherent F → ∀ later,
          WindowOp.Run (s.overlaid D) ((WindowOp.tryAll D.content later t).1.map Prod.fst)
            ((WindowOp.tryAll D.content later t).1.map Prod.snd)
            ((WindowOp.tryAll D.content later t).2.overlaid D)) := by
  have hcoherent (F : FlatDevice δ) (hF : F.disk = D) (hc : s.Coherent F) :
      Ends (op.perform D.content) s (fun _ _ => True) fun _ t => t.Coherent F := by
    subst hF
    exact (perform_ends hc op).mono (fun _ _ _ => True.intro) fun _ _ he => he.1
  have hends := (failures_ends D.content op s).and (perform_retains h op)
  unfold Ends at hends hcoherent ⊢
  cases hrun : op.perform D.content s with
  | ok answer t =>
    rw [hrun] at hends
    exact hends.1
  | error e t =>
    rw [hrun] at hends
    obtain ⟨hfail, hr⟩ := hends
    refine ⟨hfail, hr.overlaid_eq, hr.held, ?_, ?_⟩
    · refine (flush_retains hr.valid).mono ?_ ?_
      · rintro _ u ⟨-, hc, -⟩
        exact hc.trans hr.overlaid_eq
      · exact fun _ _ hu => hu.overlaid_eq.trans hr.overlaid_eq
    · intro F hF hc later
      have ht := hcoherent F hF hc
      rw [hrun] at ht
      subst hF
      rw [← hr.overlaid_eq, overlaid_disk, overlaid_disk]
      exact (tryAll_run ht later).2

/-- Three bytes wait in a window that has to move; the file takes two of them and fails. The flush
that is tried next puts all three in their place, and so does one after a further write. -/
theorem failure_loses_nothing_torn :
    let s : Windowed FailingFile :=
      { device := { content := [1, 2, 3, 4], schedule := [some 2] }
        window := { bytes := [9, 8, 7], dirty := some (0, 3) } }
    FailingFile.device.disk.Valid s.device ∧
    Ends ((WindowOp.write 100 [5]).perform FailingFile.content) s (fun _ _ => False)
      (fun e t => (WindowOp.write 100 [5]).failures FailingFile.content s = [e] ∧
        t.device.content = [9, 8, 3, 4] ∧ t.overlaid FailingFile.device.disk = [9, 8, 7, 4] ∧
        Completes flush t (fun _ u => u.device.content = [9, 8, 7, 4]) ∧
        WindowOp.Run [9, 8, 7, 4] [.write 1 [6], .flush]
          ((WindowOp.tryAll FailingFile.content [.write 1 [6], .flush] t).1.map Prod.snd)
          [9, 6, 7, 4]) := by
  intro s
  have hcoherent : s.Coherent FailingFile.device := by
    refine ⟨trivial, ?_, rfl⟩
    rintro _ _ ⟨⟩
    decide
  have h := failure_loses_nothing FailingFile.device.disk (.write 100 [5]) s trivial
  obtain ⟨hfail, harray, -, hflush, hlater⟩ := h
  exact ⟨trivial, hfail, rfl, harray, hflush, hlater _ rfl hcoherent [.write 1 [6], .flush]⟩

end Windowed

end DataTransfer
