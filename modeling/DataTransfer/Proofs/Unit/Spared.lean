import DataTransfer.Proofs.Unit.Preservation

/-!
Writes behind an offset. Whatever is written there through a window, and whether or not it fails, all that
lies before the offset stays as it is: the bytes of a file, and what goes to an output stream.
-/

namespace DataTransfer

namespace Channel

def given (c : Channel) : Bytes :=
  match c.attachment.backing with
  | some .standardOutput => c.system.output
  | some .standardError => c.system.errors
  | _ => []

theorem writeAt_gives {c : Channel} {descriptor : ℤ} (hd : descriptor ≠ 0)
    (hc : c.attachment = .standard descriptor) (offset : ℕ) (data : Bytes) :
    Completes (writeAt offset data) c fun _ c' =>
      c'.attachment = c.attachment ∧ c'.given = c.given ++ data := by
  have hbacking : c.attachment.backing = some .standardError ∨
      c.attachment.backing = some .standardOutput := by
    rw [hc, Attachment.standard, if_neg hd]
    dsimp only
    split_ifs
    · exact .inl rfl
    · exact .inr rfl
  unfold Completes Ends writeAt given
  rcases hbacking with hbacking | hbacking <;> rw [hbacking] <;> exact ⟨rfl, by simp [hbacking]⟩

@[simp] theorem given_flushed (c : Channel) : c.flushed.given = c.given := by
  unfold given
  rw [attachment_flushed, output_flushed, errors_flushed]

end Channel

/-- No byte array stands for standard output, where all offsets are the same. -/
theorem FlatDevice.backing_ne (F : FlatDevice Channel) {c : Channel} (hc : F.Valid c) :
    c.attachment.backing ≠ some .standardOutput := by
  intro hbacking
  have hput (offset : ℕ) : F.content { c with system := c.system.print [0] } =
      (F.content c).put offset [0] := by
    have hwrite : Ends (Channel.writeAt offset [0]) c _ _ := F.writeAt c offset [0] hc
    unfold Ends Channel.writeAt at hwrite
    rw [hbacking] at hwrite
    exact hwrite.2
  have hlength := congrArg List.length ((hput 0).symm.trans (hput ((F.content c).length + 1)))
  simp only [Bytes.length_put, List.length_singleton] at hlength
  split_ifs at hlength <;> omega

namespace Windowed

/-- What an output stream has been given, and what waits for it, as far as that lies before `stop`. -/
def sentBefore (stop : ℕ) (w : Windowed Channel) : Bytes :=
  match w.window.dirty with
  | none => w.device.given
  | some (low, high) =>
    w.device.given ++ w.window.bytes.slice low (min high (stop - w.window.offset) - low)

/-- Nothing that lies before `stop` has changed: not in a file, nor in what goes to an output stream. -/
structure Spares (stop : ℕ) (v w : Windowed Channel) : Prop where
  attachment_eq : w.device.attachment = v.device.attachment
  file : ∀ F : FlatDevice Channel, v.Coherent F → w.Coherent F ∧
    (v.flat F).length ≤ (w.flat F).length ∧ ∀ i < stop, (w.flat F).byte i = (v.flat F).byte i
  stream : ∀ descriptor ≠ 0, v.device.attachment = .standard descriptor →
    v.sentBefore stop <+: w.sentBefore stop

variable {stop offset : ℕ} {u v w : Windowed Channel} {descriptor : ℤ}

theorem Spares.refl (stop : ℕ) (w : Windowed Channel) : w.Spares stop w :=
  ⟨rfl, fun _ hw => ⟨hw, le_rfl, fun _ _ => rfl⟩, fun _ _ _ => List.prefix_rfl⟩

theorem Spares.trans (h : u.Spares stop v) (h' : v.Spares stop w) : u.Spares stop w where
  attachment_eq := h'.attachment_eq.trans h.attachment_eq
  file F hu := by
    obtain ⟨hv, hle, heq⟩ := h.file F hu
    obtain ⟨hw, hle', heq'⟩ := h'.file F hv
    exact ⟨hw, hle.trans hle', fun i hi => (heq' i hi).trans (heq i hi)⟩
  stream descriptor hd hu :=
    (h.stream descriptor hd hu).trans (h'.stream descriptor hd (h.attachment_eq.trans hu))

theorem spares_ends {α : Type} {act : Op Channel α}
    (hattachment : Ends act w (fun _ t => t.device.attachment = w.device.attachment)
      fun _ t => t.device.attachment = w.device.attachment)
    (hfile : ∀ F : FlatDevice Channel, w.Coherent F → Ends act w
      (fun _ t => t.Coherent F ∧ (w.flat F).length ≤ (t.flat F).length ∧
        ∀ i < stop, (t.flat F).byte i = (w.flat F).byte i)
      fun _ t => t.Coherent F ∧ t.flat F = w.flat F)
    (hstream : ∀ descriptor ≠ 0, w.device.attachment = .standard descriptor →
      Completes act w fun _ t => w.sentBefore stop <+: t.sentBefore stop) :
    Ends act w (fun _ t => w.Spares stop t) fun _ t => w.Spares stop t := by
  unfold Completes at hstream
  unfold Ends at hattachment hfile hstream ⊢
  cases hact : act w with
  | ok a t =>
    rw [hact] at hattachment hfile hstream
    exact ⟨hattachment, hfile, hstream⟩
  | error e t =>
    rw [hact] at hattachment hfile hstream
    refine ⟨hattachment, fun F hF => ?_, fun descriptor hd hw => (hstream descriptor hd hw).elim⟩
    obtain ⟨ht, heq⟩ := hfile F hF
    exact ⟨ht, by rw [heq], fun _ _ => by rw [heq]⟩

/-! ### Output streams -/

theorem sentBefore_extends (stop : ℕ) (device : Channel) (window : Window) :
    device.given <+: Windowed.sentBefore stop ⟨device, window⟩ := by
  unfold sentBefore
  split
  · exact List.prefix_rfl
  · exact List.prefix_append _ _

theorem overlay_sends (hstop : stop ≤ offset) (hoffset : w.window.offset ≤ offset)
    (hheld : offset - w.window.offset ≤ w.window.bytes.length) (data : Bytes) :
    w.sentBefore stop <+: Windowed.sentBefore stop { w with
      window := { w.window with
        bytes := w.window.bytes.overlay (offset - w.window.offset) data
        dirty := Window.markDirty w.window.dirty (offset - w.window.offset)
          (offset - w.window.offset + data.length) } } := by
  unfold sentBefore
  cases hdirty : w.window.dirty with
  | none => exact List.prefix_append _ _
  | some range =>
    obtain ⟨low, high⟩ := range
    refine (List.prefix_append_right_inj _).mpr ?_
    dsimp only
    rcases le_or_gt low (offset - w.window.offset) with hlow | hlow
    · rw [min_eq_left hlow, Bytes.overlay_eq_put hheld,
        Bytes.slice_put_of_disjoint (by omega) (.inl (by omega))]
      exact List.take_prefix_take_left (by omega)
    -- Behind `stop` there is nothing to compare.
    · rw [show min high (stop - w.window.offset) - low = 0 by omega]
      exact List.nil_prefix

section

variable (hd : descriptor ≠ 0) (hw : w.device.attachment = .standard descriptor)
include hd hw

theorem flush_sends (stop : ℕ) : Completes flush w fun _ t =>
    t.device.attachment = w.device.attachment ∧ w.sentBefore stop <+: t.device.given ∧
      t.window = { w.window with dirty := none } := by
  unfold sentBefore
  cases hdirty : w.window.dirty with
  | none =>
    simp only [flush, ends_get, hdirty]
    refine (ends_pure _).mpr ⟨rfl, List.prefix_rfl, ?_⟩
    rw [← hdirty]
  | some range =>
    obtain ⟨low, high⟩ := range
    simp only [flush, ends_get, hdirty]
    refine Ends.bind ((ends_onDevice (Channel.writeAt_gives hd hw _ _)).mono (fun _ _ => id)
      fun _ _ => And.left) ?_
    rintro _ t ⟨⟨hattachment, hgiven⟩, hwindow⟩
    refine (ends_modify _).mpr ⟨hattachment, ?_, by rw [hwindow]⟩
    rw [hgiven]
    exact (List.prefix_append_right_inj _).mpr (List.take_prefix_take_left (by omega))

theorem slide_sends (stop offset : ℕ) : Completes (slide offset) w fun _ t =>
    t.device.attachment = w.device.attachment ∧ w.sentBefore stop <+: t.sentBefore stop ∧
      t.window.offset ≤ offset ∧ offset - t.window.offset ≤ t.window.bytes.length := by
  have hflush := flush_sends hd hw stop
  rw [slide]
  refine (ends_get _).mpr ?_
  simp only [Bytes.reaches_eq]
  split_ifs with hout hlt hkept hdirty
  · refine Ends.bind hflush ?_
    rintro _ t ⟨hattachment, hsent, -⟩
    exact (ends_modify _).mpr ⟨hattachment, hsent.trans (sentBefore_extends _ _ _), le_rfl, by simp⟩
  · simp only [Bool.or_eq_true, decide_eq_true_eq, Bool.not_eq_true', decide_eq_false_iff_not,
      not_or, not_not] at hout
    exact ⟨rfl, List.prefix_rfl, hlt.le, hout.2⟩
  · refine Ends.bind hflush ?_
    rintro _ t ⟨hattachment, hsent, -⟩
    exact (ends_modify _).mpr ⟨hattachment, hsent.trans (sentBefore_extends _ _ _), le_rfl, by simp⟩
  · have hclean : w.window.dirty = none := by simpa [Window.isDirty] using hdirty
    refine (ends_modify _).mpr ⟨rfl, ?_, le_rfl, by simp⟩
    rw [sentBefore.eq_def _ w, hclean]
    exact sentBefore_extends stop _ _
  · simp only [Bool.or_eq_true, decide_eq_true_eq, not_or] at hout
    exact ⟨rfl, List.prefix_rfl, by omega, by omega⟩

theorem write_sends (hstop : stop ≤ offset) (data : Bytes) :
    Completes (write offset data) w fun _ t => w.sentBefore stop <+: t.sentBefore stop := by
  refine Ends.bind (slide_sends hd hw stop offset) ?_
  rintro _ t ⟨hattachment, hsent, hoffset, hheld⟩
  have hread : ByteDevice.mayRead t.device = false := by
    change t.device.attachment.mayRead = false
    rw [hattachment, hw]
    exact decide_eq_false hd
  refine (ends_get _).mpr ?_
  dsimp only
  rw [hread, Bool.false_and, Bool.false_and, if_neg Bool.false_ne_true]
  exact (ends_modify _).mpr (hsent.trans (overlay_sends hstop hoffset hheld data))

end

/-! ### Writes and flushes -/

theorem flush_spares (stop : ℕ) (w : Windowed Channel) :
    Ends flush w (fun _ t => w.Spares stop t) fun _ t => w.Spares stop t := by
  refine spares_ends ((Channel.stable_attachment _).flush w rfl) (fun F hF => ?_) ?_
  · refine (flush_ends hF).mono ?_ fun _ _ ht => ⟨ht.1, ht.2.1⟩
    rintro _ t ⟨hkeeps, -, -⟩
    exact ⟨hkeeps.coherent, by rw [hkeeps.flat_eq], fun _ _ => by rw [hkeeps.flat_eq]⟩
  · intro descriptor hd hw
    refine (flush_sends hd hw stop).mono ?_ fun _ _ => id
    rintro _ t ⟨-, hsent, hwindow⟩
    rwa [sentBefore.eq_def _ t, hwindow]

theorem flushed_spares (stop : ℕ) (w : Windowed Channel) :
    w.Spares stop { w with device := w.device.flushed } := by
  refine ⟨w.device.attachment_flushed, fun F hF => ?_, fun descriptor hd hw => ?_⟩
  · rw [Channel.flushed_of_ne (F.backing_ne hF.valid)]
    exact (Spares.refl stop w).file F hF
  · have hsame : sentBefore stop { w with device := w.device.flushed } = w.sentBefore stop := by
      rw [sentBefore, Channel.given_flushed, sentBefore]
    exact hsame ▸ List.prefix_rfl

/-- A write at `stop` or behind it, whether or not it fails. -/
theorem write_spares (hstop : stop ≤ offset) (data : Bytes) (w : Windowed Channel) :
    Ends (write offset data) w (fun _ t => w.Spares stop t) fun _ t => w.Spares stop t := by
  refine spares_ends ((Channel.stable_attachment _).write offset data w rfl) (fun F hF => ?_)
    fun descriptor hd hw => write_sends hd hw hstop data
  refine (write_ends hF offset data).mono ?_ fun _ _ ht => ⟨ht.1, ht.2.1⟩
  intro _ t ht
  rw [ht.flat_eq]
  refine ⟨ht.coherent, ?_, fun i hi => ?_⟩
  · rw [Bytes.length_put]
    split_ifs <;> omega
  · rw [Bytes.byte_put, if_neg (by omega)]

end Windowed

end DataTransfer
