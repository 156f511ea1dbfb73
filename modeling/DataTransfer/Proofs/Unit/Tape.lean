import DataTransfer.Proofs.Storage.Typed
import DataTransfer.Proofs.Unit.Card

/-!
A line of standard input under the looks of a READ. A look lets go of what lies before the cursor, and
where the cursor comes back to that, the next byte of the input is taken in its place. READs that never
look to the left of where they have looked see their lines as they are.
-/

namespace DataTransfer

/-- A formatted READ that only looks at the characters of its record and moves the cursor. -/
structure GlancingRead where
  source : SourceLine := {}
  receivers : Receivers := { iostat := true }
  glances : List Glance

namespace GlancingRead

def read (r : GlancingRead) : FormattedRead where
  source := r.source
  receivers := r.receivers
  looks := r.glances.map .call

def columns : List Glance → ℕ → List ℕ
  | [], _ => []
  | .char :: glances, position => position :: columns glances position
  | .move m :: glances, position => columns glances (m.column position)

/-- No look within the record is to the left of an earlier one. -/
def KeepsRight (r : GlancingRead) (record : Bytes) : Prop :=
  ((columns r.glances 0).filter (· < record.length)).Pairwise (· ≤ ·)

end GlancingRead

def typedLine (input : Bytes) : Bytes := (System.splitLine input.length input).1

def behindLine (input : Bytes) : Bytes := (System.splitLine input.length input).2

/-- A line of standard input: what is held of it from a column on, and the input that is not read
yet. -/
structure Tape where
  record : Option Bytes
  position : ℕ := 0
  column : ℕ := 0
  held : Bytes
  unread : Bytes

namespace Tape

def first (input : Bytes) : Tape where
  record := (lines input)[0]?
  held := typedLine input
  unread := behindLine input

def within (t : Tape) : Bool := t.record.any (t.position < ·.length)

def kept (t : Tape) : Bytes := if t.column ≤ t.position then t.held.drop (t.position - t.column) else []

/-- The tape where it holds something at the cursor: what it has kept, or else the next byte of the
input. -/
def reached (t : Tape) : Tape :=
  let wanted := 1 - t.kept.length
  { t with
    column := t.position
    held := t.kept ++ t.unread.take wanted
    unread := t.unread.drop wanted }

def glance (t : Tape) : Glance → RecordCall.Answer × Tape
  | .char =>
    if t.within then (.char (t.reached.held.head?.map fun b => Char.ofNat b.toNat), t.reached)
    else (.char none, t)
  | .move m => (.ok true, { t with position := m.column t.position })

def glances (t : Tape) : List Glance → List RecordCall.Answer × Tape
  | [] => ([], t)
  | g :: gs =>
    let (answer, t) := t.glance g
    let (answers, t) := t.glances gs
    (answer :: answers, t)

def status (t : Tape) : Iostat := if t.record.isSome then .ok else .endOfFile

def reads : List GlancingRead → Bytes → List (List Answer × Iostat) × Bytes
  | [], input => ([], input)
  | r :: rs, input =>
    let (answers, t) := (first input).glances r.glances
    let (outs, input) := reads rs t.unread
    ((answers.map .call, t.status) :: outs, input)

variable {t : Tape} {typed : Bytes} {card : Card}

theorem within_eq (t : Tape) : t.within = decide (t.position < (t.record.getD []).length) := by
  unfold within
  cases t.record <;> rfl

/-- The tape never holds a byte of more than the line is long. -/
theorem reached_le {limit : ℕ} (h : t.column + t.held.length ≤ limit) (hpos : t.position < limit) :
    t.reached.column + t.reached.held.length ≤ limit := by
  have hkept : t.position + t.kept.length ≤ limit := by
    unfold kept
    split_ifs
    · rw [List.length_drop]
      omega
    · exact hpos.le
  change t.position + (t.kept ++ t.unread.take (1 - t.kept.length)).length ≤ limit
  rw [List.length_append, List.length_take]
  omega

/-! ### READs that keep to the right -/

/-- Nothing of the line from the column on has been let go of. -/
structure Whole (t : Tape) (typed : Bytes) : Prop where
  held_eq : t.held = typed.drop t.column
  line_prefix : ∀ line, t.record = some line → line <+: typed

structure Beside (card : Card) (t : Tape) : Prop where
  record_eq : card.record = t.record
  position_eq : card.position = t.position
  receives : card.handler.declared.receivesError = true
  status : card.handler.status = .ok ∨ t.record = none ∧ card.handler.status = .endOfFile

theorem Whole.reached_eq (h : t.Whole typed) (hwithin : t.within = true) (hcol : t.column ≤ t.position) :
    t.reached = { t with column := t.position, held := typed.drop t.position } := by
  obtain ⟨line, hrecord, hpos⟩ := (Option.any_eq_true _ _).mp hwithin
  have hlt : t.position < typed.length :=
    (of_decide_eq_true hpos).trans_le (h.line_prefix line hrecord).length_le
  have hkept : t.kept = typed.drop t.position := by
    rw [kept, if_pos hcol, h.held_eq, List.drop_drop, Nat.add_sub_cancel' hcol]
  have hwanted : 1 - t.kept.length = 0 := by
    rw [hkept, List.length_drop]
    omega
  rw [reached, hwanted, hkept, List.take_zero, List.append_nil, List.drop_zero]

namespace Beside

theorem atEnd (h : Beside card t) (hnone : t.record = none) : card.AtEnd := by
  exact ⟨h.record_eq.trans hnone, Receivers.admits_of_receivesError h.receives _,
    h.status.imp_right And.right⟩

theorem noted (h : Beside card t) : Beside card.noted t := by
  cases hrecord : t.record with
  | none =>
    obtain ⟨-, hstatus, hend⟩ := (h.atEnd hrecord).endOfFile
    rw [Card.noted_of_none (h.record_eq.trans hrecord)]
    refine ⟨h.record_eq, h.position_eq, ?_, .inr ⟨hrecord, hstatus⟩⟩
    change (card.handler.record .endOfFile).declared.receivesError = true
    rw [Handler.record_declared]
    exact h.receives
  | some line =>
    rw [Card.noted_of_some (h.record_eq.trans hrecord)]
    exact h

theorem char_onCard (h : Beside card t) (hw : t.Whole typed)
    (hcol : t.within = true → t.column ≤ t.position) :
    Card.call .char card = .ok (t.glance .char).1 card.noted := by
  have hrun : Card.call .char card =
      .ok (.char ((t.record.bind (·[t.position]?)).map fun b => Char.ofNat b.toNat)) card.noted := by
    rw [← h.record_eq, ← h.position_eq]
    exact bind_run_eq (Card.current_eq h.receives)
  rw [hrun, glance]
  cases hwithin : t.within with
  | true =>
    obtain ⟨line, hrecord, hpos⟩ := (Option.any_eq_true _ _).mp hwithin
    obtain ⟨suffix, hsuffix⟩ := hw.line_prefix line hrecord
    rw [if_pos rfl, hw.reached_eq hwithin (hcol hwithin), hrecord, Option.bind_some, List.head?_drop,
      ← hsuffix, List.getElem?_append_left (of_decide_eq_true hpos)]
  | false =>
    have hnone : t.record.bind (·[t.position]?) = none := by
      cases hrecord : t.record with
      | none => rfl
      | some line =>
        refine List.getElem?_eq_none ?_
        simpa [Tape.within, hrecord] using hwithin
    rw [if_neg Bool.false_ne_true, hnone]
    rfl

theorem inError_eq (h : Beside card t) : card.handler.inError = false := by
  rw [Handler.inError]
  rcases h.status with hstatus | ⟨-, hstatus⟩ <;> rw [hstatus] <;> rfl

theorem glance (h : Beside card t) (hw : t.Whole typed) (g : Glance)
    (hcol : g = .char → t.within = true → t.column ≤ t.position) :
    ∃ card', Card.call g card = .ok (t.glance g).1 card' ∧ Beside card' (t.glance g).2 ∧
      (t.glance g).2.Whole typed ∧ (t.glance g).2.record = t.record ∧
      (t.glance g).2.unread = t.unread := by
  cases g with
  | char =>
    refine ⟨card.noted, h.char_onCard hw (hcol rfl), ?_⟩
    unfold Tape.glance
    dsimp only
    split_ifs with hwithin
    · rw [hw.reached_eq hwithin (hcol rfl hwithin)]
      exact ⟨{ h.noted with }, ⟨rfl, hw.line_prefix⟩, rfl, rfl⟩
    · exact ⟨h.noted, hw, rfl, rfl⟩
  | move m =>
    refine ⟨card.moved m, ?_, { h with position_eq := ?_ }, { hw with }, rfl, rfl⟩
    · exact congrArg (fun e => EStateM.Result.ok (RecordCall.Answer.ok !e) (card.moved m)) h.inError_eq
    · exact congrArg m.column h.position_eq

open GlancingRead in
/-- A READ that keeps to the right is on the tape what it is on the record. -/
theorem glances (gs : List Glance) (h : Beside card t) (hw : t.Whole typed)
    (hright : (t.column :: (columns gs t.position).filter (· < (t.record.getD []).length)).Pairwise
      (· ≤ ·)) :
    ∃ card', (gs.map .call).mapM Look.onCard card = .ok ((t.glances gs).1.map .call) card' ∧
      Beside card' (t.glances gs).2 ∧ (t.glances gs).2.record = t.record ∧
      (t.glances gs).2.unread = t.unread := by
  induction gs generalizing card t with
  | nil => exact ⟨card, rfl, h, rfl, rfl⟩
  | cons g gs ih =>
    have hcol : g = .char → t.within = true → t.column ≤ t.position := by
      rintro rfl hwithin
      rw [columns, List.filter_cons, ← t.within_eq, if_pos hwithin] at hright
      exact (List.pairwise_cons.mp hright).1 _ List.mem_cons_self
    obtain ⟨card', hrun, hbeside, hwhole, hrecord, hunread⟩ := h.glance hw g hcol
    have hright' : ((t.glance g).2.column :: (columns gs (t.glance g).2.position).filter
        (· < ((t.glance g).2.record.getD []).length)).Pairwise (· ≤ ·) := by
      rw [hrecord]
      cases g with
      | char =>
        rw [columns, List.filter_cons, ← t.within_eq] at hright
        unfold Tape.glance
        dsimp only
        split_ifs at hright ⊢ with hwithin
        · rw [hw.reached_eq hwithin (hcol rfl hwithin)]
          exact (List.pairwise_cons.mp hright).2
        · exact hright
      | move m => exact hright
    obtain ⟨card'', hruns, hbeside', hrecord', hunread'⟩ := ih hbeside hwhole hright'
    refine ⟨card'', ?_, hbeside', hrecord'.trans hrecord, hunread'.trans hunread⟩
    have hlook : (Look.call g).onCard card = .ok (.call (t.glance g).1) card' := bind_run_eq hrun
    rw [List.map_cons, List.mapM_cons, bind_run_eq hlook, bind_run_eq hruns]
    rfl

theorem finish (h : Beside card t) : Card.finish card = .ok t.status card.noted := by
  have hstatus : card.noted.handler.status = t.status := by
    unfold Tape.status
    cases hrecord : t.record with
    | none =>
      rw [Card.noted_of_none (h.record_eq.trans hrecord)]
      exact (h.atEnd hrecord).endOfFile.2.1
    | some line =>
      rw [Card.noted_of_some (h.record_eq.trans hrecord)]
      exact h.status.resolve_right (by simp [hrecord])
  rw [Card.finish_eq h.receives, hstatus]

end Beside

end Tape

theorem TypedLine.typedLine_eq {typed after : Bytes} (h : TypedLine typed after) :
    typedLine (typed ++ after) = typed ∧ behindLine (typed ++ after) = after := by
  have hle : typed.length ≤ (typed ++ after).length := by simp
  rw [typedLine, behindLine, h.splitLine_eq, List.take_of_length_le hle, List.drop_of_length_le hle]
  exact ⟨rfl, rfl⟩

theorem NextRecord.behindLine_eq {rest after : Bytes} {record : Option Bytes}
    (h : NextRecord rest record after) : behindLine rest = after := by
  cases h with
  | line h =>
    obtain ⟨typed, rfl, htyped, -⟩ := h.exists_typed
    exact htyped.typedLine_eq.2
  | atEnd => rfl

theorem Tape.first_whole (input : Bytes) : (first input).Whole (typedLine input) := by
  refine ⟨rfl, fun line hline => ?_⟩
  obtain ⟨record, after, hnext⟩ := NextRecord.exists_next input
  rw [show (first input).record = record from hnext.head?_lines] at hline
  subst hline
  cases hnext with
  | line h =>
    obtain ⟨typed, rfl, htyped, hfirst, -⟩ := h.exists_typed
    obtain ⟨terminator, hterminator⟩ := hfirst.exists_terminator
    rw [htyped.typedLine_eq.1]
    exact ⟨terminator ++ [], hterminator.symm⟩

namespace Tape

theorem sees_of_keepsRight {r : GlancingRead} {input : Bytes}
    (hr : r.receivers.receivesError = true) (hright : r.KeepsRight ((lines input)[0]?.getD [])) :
    r.read.Sees (lines input)[0]?
        (((first input).glances r.glances).1.map .call, ((first input).glances r.glances).2.status) ∧
      ((first input).glances r.glances).2.unread = behindLine input := by
  have hstart : Beside (r.read.start (lines input)[0]?) (first input) := ⟨rfl, rfl, hr, .inl rfl⟩
  have hcolumns : ((first input).column :: (GlancingRead.columns r.glances (first input).position).filter
      (· < ((first input).record.getD []).length)).Pairwise (· ≤ ·) :=
    List.pairwise_cons.mpr ⟨fun _ _ => Nat.zero_le _, hright⟩
  obtain ⟨card, hrun, hbeside, -, hunread⟩ := hstart.glances r.glances (first_whole input) hcolumns
  have hlooks : r.read.looks.mapM Look.onCard (r.read.start (lines input)[0]?) = _ := hrun
  refine ⟨⟨card.noted, ?_⟩, hunread⟩
  rw [FormattedRead.onCard, bind_run_eq hlooks, bind_run_eq hbeside.finish]
  rfl

/-- READs that keep to the right see one line each, and leave what is behind those lines. -/
theorem reads_of_keepsRight (rs : List GlancingRead) (input : Bytes)
    (hreceives : ∀ r ∈ rs, r.receivers.receivesError = true)
    (hright : ∀ (k : ℕ) (r : GlancingRead), rs[k]? = some r →
      r.KeepsRight ((lines input)[k]?.getD [])) :
    (∀ (k : ℕ) (r : GlancingRead) out, rs[k]? = some r → (reads rs input).1[k]? = some out →
      r.read.Sees (lines input)[k]? out) ∧ (reads rs input).2 = behindLine^[rs.length] input := by
  induction rs generalizing input with
  | nil => exact ⟨nofun, rfl⟩
  | cons r rs ih =>
    obtain ⟨hsees, hunread⟩ :=
      sees_of_keepsRight (hreceives r List.mem_cons_self) (hright 0 r rfl)
    obtain ⟨record, after, hnext⟩ := NextRecord.exists_next input
    have htail := hnext.tail_lines
    rw [← hnext.behindLine_eq] at htail
    obtain ⟨hrest, hleft⟩ := ih (behindLine input)
      (fun r hr => hreceives r (List.mem_cons_of_mem _ hr))
      fun k r hr => by rw [← htail]; exact hright (k + 1) r hr
    rw [← hunread] at hleft hrest
    refine ⟨?_, hleft.trans ?_⟩
    · rintro (_ | k) r' out hr hout
      · obtain rfl := Option.some.inj hr
        obtain rfl := Option.some.inj hout
        exact hsees
      · rw [htail, ← hunread]
        exact hrest k r' out hr hout
    · rw [hunread, List.length_cons, Function.iterate_succ_apply]

end Tape

end DataTransfer
