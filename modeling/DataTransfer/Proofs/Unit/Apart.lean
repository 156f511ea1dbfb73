import DataTransfer.Proofs.Unit.Opening
import DataTransfer.Proofs.Unit.Steps

/-!
What no statement does to the channel of its unit. A property that reads and writes preserve, and that
OPEN and CLOSE leave as well, outlives every statement. One is that a unit is apart from standard output:
it is not connected there and does not come to be, and nothing that is done with it gets there.
-/

namespace DataTransfer

namespace Channel

/-- Whatever is done with the channel, `D` holds of it. -/
structure Lasting (D : Channel → Prop) : Prop where
  read : ∀ offset count, Preserves D (readAt offset count)
  write : ∀ offset data, Preserves D (writeAt offset data)
  attach : ∀ status position path, Preserves D (attach status position path)
  detach : ∀ status, Preserves D (detach status)
  flushed : ∀ c, D c → D c.flushed

theorem Lasting.stable {D : Channel → Prop} (h : Lasting D) :
    Stable fun w : Windowed Channel => D w.device where
  toStable := .ofDevice h.read h.write
  flushed w hw := h.flushed w.device hw

/-- The channel does not lead to standard output, to which these bytes have come. -/
def Apart (output : Bytes) (c : Channel) : Prop :=
  c.attachment.backing ≠ some .standardOutput ∧ c.system.output = output

variable {output : Bytes}

theorem readAt_apart (offset count : ℕ) : Preserves (Apart output) (readAt offset count) := by
  intro c hc
  unfold Ends readAt
  rcases c.attachment.backing with _ | ⟨ref, writable⟩ | _ | _ | _
  · exact hc
  · dsimp only
    cases c.system.files.read ref offset count <;> exact hc
  · exact hc
  · exact hc
  · exact hc

theorem writeAt_apart (offset : ℕ) (data : Bytes) : Preserves (Apart output) (writeAt offset data) := by
  intro c hc
  unfold Ends writeAt
  rcases hbacking : c.attachment.backing with _ | ⟨ref, writable⟩ | _ | _ | _
  · exact hc
  · dsimp only
    cases c.system.files.write ref writable offset data <;> exact hc
  · exact hc
  · exact absurd hbacking hc.1
  · exact hc

theorem openNamed_apart (status : OpenStatus) (path : String) :
    Preserves (Apart output) (openNamed status path) := by
  intro c hc
  unfold Ends openNamed
  cases c.system.files.open_ path (request status) with
  | ok opened => exact hc
  | error e =>
    dsimp only
    split_ifs
    · cases c.system.files.open_ path { write := false } <;> exact hc
    · exact hc

theorem attach_apart (status : OpenStatus) (position : Position) (path : Option String) :
    Preserves (Apart output) (attach status position path) := by
  by_cases hstatus : status = .scratch
  · subst hstatus
    exact fun c hc => ⟨nofun, hc.2⟩
  cases path with
  | none => cases status <;> first | exact fun c hc => hc | exact absurd rfl hstatus
  | some path =>
    rw [attach_named hstatus]
    refine Preserves.bind (.modify fun c hc => hc) fun _ => .bind (.modify fun c hc => hc) fun _ => ?_
    refine (openNamed_apart status path).bind fun opened => ?_
    refine Preserves.bind (.modify fun c hc => ?_) fun _ => .get_bind fun _ _ => .pure _
    exact ⟨nofun, hc.2⟩

theorem Apart.flushed {c : Channel} (hc : Apart output c) : Apart output c.flushed := by
  rwa [flushed_of_ne hc.1]

theorem detach_apart (status : CloseStatus) : Preserves (Apart output) (detach status) := by
  have hnone : Preserves (Apart output) (setAttachment fun a => { a with backing := none }) :=
    .modify fun c hc => ⟨nofun, hc.2⟩
  have hlast : Preserves (Apart output) (setAttachment fun a => { a with isScratch := false }) :=
    .modify fun c hc => hc
  refine Preserves.bind (.modify fun _ => .flushed) fun _ => hnone.bind fun _ => .get_bind fun c hc => ?_
  dsimp only
  split
  · split
    · exact Preserves.bind (.set hc) fun _ => hlast
    · exact fun _ ht => ht
  · exact hlast

theorem lasting_apart : Lasting (Apart output) where
  read := readAt_apart
  write := writeAt_apart
  attach := attach_apart
  detach := detach_apart
  flushed _ := .flushed

end Channel

namespace Session

variable {D : Channel → Prop}

theorem attached_carries {α : Type} {act : Channel.Op Fault α} (hact : Preserves D act) :
    Attempt.Carries True (fun s => D s.channel.device) (attached act) := by
  intro s hs
  have hends := hact s.channel.device hs
  unfold Ends at hends ⊢
  simp only [ExceptT.run, attached]
  cases hrun : act s.channel.device with
  | ok a d =>
    rw [hrun] at hends
    exact hends
  | error f d =>
    rw [hrun] at hends
    exact hends

variable (h : Channel.Lasting D)
include h

theorem connect_carries (status : OpenStatus) (position : Position) (path : Option String)
    (form : Form) :
    Attempt.Carries True (fun s => D s.channel.device) (connect status position path form) := by
  refine connect_of_parts (recordSteps h.stable).flush (attached_carries (h.detach _)) (fun name => ?_) path
  refine .bind (fun _ hs => hs) fun _ => (attached_carries (h.attach _ _ _)).bind fun start => ?_
  exact fun _ hs => hs

theorem disconnect_carries (status : CloseStatus) :
    Attempt.Carries True (fun s => D s.channel.device) (disconnect status) :=
  disconnect_of_parts (recordSteps h.stable).flush (attached_carries (h.detach _)) fun _ hs => hs

/-! ### Statements -/

theorem closeUnit_lasts (status : CloseStatus) :
    Preserves (fun s : Session => D s.channel.device) (closeUnit status) :=
  report_preserves (C := fun w => D w.device) (disconnect_carries h status)

theorem begin_lasts (kind : StatementKind) (source : SourceLine) :
    Preserves (fun s : Session => D s.channel.device) (begin_ kind source) := by
  refine .bind (modify_preserves (C := fun w => D w.device) fun _ => rfl) fun _ => ?_
  refine .get_bind fun t _ => ?_
  cases t.unit.statement.direction? with
  | none => exact .pure _
  | some direction =>
    refine .get_bind fun t _ => .when_bind ?_ fun _ => turn_preserves h.stable _
    exact noting_preserves (C := fun w => D w.device) (connect_carries h _ _ _ _)

theorem item_lasts (item : Item) :
    Preserves (fun s : Session => D s.channel.device) item.perform := by
  by_cases hopen : ∃ spec, item = .specifiers spec
  · obtain ⟨spec, rfl⟩ := hopen
    exact (report_preserves (C := fun w => D w.device) (connect_carries h _ _ _ _)).discard
  · exact item.perform_preserves h.stable fun spec hspec => hopen ⟨spec, hspec⟩

theorem operation_lasts {op : Operation} (hown : (TransferStep.operation op).isOwn = true) :
    Preserves (fun s : Session => D s.channel.device) op.perform := by
  have hsteps : OperationSteps True (Kept (fun w => D w.device) fun _ _ _ => True) :=
    operationSteps_of_stable (fun _ _ _ _ _ _ => trivial) h.stable
  intro s hs
  refine (hsteps.operation hown (fun _ => trivial) (fun yes _ t ht => hsteps.nonAdvancing t yes ht) s
    ⟨hs, trivial⟩).mono (fun _ _ ht => ht.1) fun _ _ ht => ht.1

end Session

end DataTransfer
