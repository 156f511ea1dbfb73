import DataTransfer.Proofs.RecordCall
import DataTransfer.Proofs.Field.Simulation
import DataTransfer.Proofs.Unit.Session
import DataTransfer.Statement

/-!
A formatted READ on a record that stands by itself, away from any file: what the READ answers is told
by the bytes of the record, and at the end of the file by there being none.
-/

namespace DataTransfer

/-- A record on its own with the cursor in it and the status of the READ; none at the end of the
file. -/
structure Card where
  record : Option Bytes
  position : ℕ := 0
  handler : Handler

namespace Card

/-- The byte at the cursor. The end of the file is signalled whenever it is looked at. -/
def current : Act Card (Option Char) := fun c =>
  match c.record with
  | some bytes => .ok (bytes[c.position]?.map fun b => Char.ofNat b.toNat) c
  | none =>
    match c.handler.endOfFile with
    | .ok handler => .ok none { c with handler }
    | .error crash => .error crash c

def moved (m : Move) (c : Card) : Card := { c with position := m.column c.position }

theorem moved_one {c : Card} (h : c.position + 1 < 2 ^ 63) :
    c.moved (.relative 1) = { c with position := c.position + 1 } := by
  rw [moved, Move.column, Connection.shifted_of_lt (by omega) (by omega)]
  rfl

instance : FieldSource Card where
  connection c := { position := c.position }
  handler := handler
  withHandler c h := { c with handler := h }
  current := current
  moveBy n := modify (moved (.relative n))
  reach c := (c.record.getD []).length

def noted (card : Card) : Card :=
  if card.record.isSome then card else { card with handler := card.handler.record .endOfFile }

theorem noted_of_none {card : Card} (h : card.record = none) :
    noted card = { card with handler := card.handler.record .endOfFile } := by
  rw [noted, h]
  rfl

theorem noted_of_some {card : Card} {line : Bytes} (h : card.record = some line) :
    noted card = card := by
  rw [noted, h]
  rfl

theorem current_eq {card : Card} (h : card.handler.declared.receivesError = true) :
    current card = .ok ((card.record.bind (·[card.position]?)).map fun b => Char.ofNat b.toNat)
      card.noted := by
  have hend := card.handler.endOfFile_eq (Receivers.admits_of_receivesError h _)
  unfold current noted
  cases card.record with
  | none =>
    dsimp only
    rw [hend]
    rfl
  | some line => rfl

@[simp] theorem noted_position (card : Card) : (noted card).position = card.position := by
  unfold noted
  split_ifs <;> rfl

/-- A move of the cursor tells whether the READ is free of errors. -/
def move (m : Move) : Act Card Bool := do
  modify (moved m)
  return !(← get).handler.inError

def call : Glance → Act Card RecordCall.Answer
  | .char => return .char (← current)
  | .move m => return .ok (← move m)

/-- An input item. A READ that has met a condition transfers nothing more. -/
def item {α : Type} (act : Attempt Card α) : Act Card (Option α) := do
  if (← get).handler.status ≠ .ok then return none
  match ← act.run with
  | .ok a => return if (← get).handler.status = .ok then some a else none
  | .error f =>
    FieldSource.signalFault f
    return none

def finish : Act Card Iostat := do
  if (← get).record.isNone then FieldSource.signalEndOfFile
  return (← get).handler.status

theorem finish_eq {card : Card} (h : card.handler.declared.receivesError = true) :
    finish card = .ok card.noted.handler.status card.noted := by
  have hend := card.handler.endOfFile_eq (Receivers.admits_of_receivesError h _)
  rw [finish, get_bind_run]
  cases hrecord : card.record with
  | none =>
    rw [noted_of_none hrecord]
    exact bind_run_eq (FieldSource.signal_eq hend)
  | some line =>
    rw [noted_of_some hrecord]
    rfl

end Card

abbrev RealKind := { kind : ℕ // (Precision.ofKind? kind).isSome = true }

inductive Look where
  | call (c : Glance)
  | chars (limit : Option ℕ)
  | integer (edit : DataEdit) (kind : IntegerKind)
  | real (edit : DataEdit) (kind : RealKind)
  /-- A fault that is found outside the record. -/
  | fault (f : Fault)

inductive Answer where
  | call (a : RecordCall.Answer)
  | chars (cs : List Char)
  | integer (value : Option ℤ)
  | real (value : Option ((p : Precision) × Conversion p))
  | noted

namespace Look

def perform : Look → Act Session Answer
  | .call c => return .call (← Session.call c)
  | .chars limit => return .chars (← Field.takeChars limit)
  | .integer edit kind => return .integer (← Session.inputInteger edit kind.bytes)
  | .real edit kind => return .real (← Session.inputReal edit kind)
  | .fault f => do
    FieldSource.signalFault f
    return .noted

def onCard : Look → Act Card Answer
  | .call c => return .call (← Card.call c)
  | .chars limit => return .chars (← Field.takeChars limit)
  | .integer edit kind => return .integer (← Card.item (Field.editInteger edit kind.bytes))
  | .real edit kind => return .real (← Card.item (Field.editRealKind edit kind))
  | .fault f => do
    FieldSource.signalFault f
    return .noted

/-- No fault comes with it, unless the record holds one. -/
def suits : Look → Bool
  | .integer edit _ => edit.kind.integerBase?.isSome
  | .real edit _ => edit.kind.isBitPattern || edit.kind.editsDecimal
  | .fault _ => false
  | _ => true

end Look

structure FormattedRead where
  source : SourceLine := {}
  receivers : Receivers := { iostat := true }
  looks : List Look

namespace FormattedRead

def perform (read : FormattedRead) : Act Session (List Answer × Iostat) :=
  Session.statement (.formatted .input) read.source read.receivers (read.looks.mapM Look.perform)

def onCard (read : FormattedRead) : Act Card (List Answer × Iostat) := do
  let answers ← read.looks.mapM Look.onCard
  return (answers, ← Card.finish)

def start (read : FormattedRead) (record : Option Bytes) : Card :=
  { record, handler := ({ source := read.source } : Handler).declare read.receivers }

/-- What a READ has answered is what it answers on this record. -/
def Sees (read : FormattedRead) (record : Option Bytes) (out : List Answer × Iostat) : Prop :=
  ∃ card, read.onCard (read.start record) = .ok out card

end FormattedRead

/-! ### At the end of the file -/

namespace Card

structure AtEnd (c : Card) : Prop where
  record_eq : c.record = none
  admits : c.handler.declared.admits .endOfFile = true
  status : c.handler.status = .ok ∨ c.handler.status = .endOfFile

namespace AtEnd

variable {c : Card} (h : c.AtEnd)
include h

theorem endOfFile :
    c.handler.endOfFile = .ok (c.handler.record .endOfFile) ∧
      (c.handler.record .endOfFile).status = .endOfFile ∧
      AtEnd { c with handler := c.handler.record .endOfFile } := by
  have hstatus := Handler.status_record_endOfFile h.status
  refine ⟨Handler.endOfFile_eq h.admits, hstatus, h.record_eq, ?_, .inr hstatus⟩
  rw [Handler.record_declared]
  exact h.admits

theorem current_completes :
    Completes (FieldSource.current : Act Card _) c fun ch d => ch = none ∧ d.AtEnd := by
  change Completes Card.current c _
  unfold Completes Ends Card.current
  simp only [h.record_eq, h.endOfFile.1]
  exact ⟨trivial, rfl, h.endOfFile.2.2.admits, h.endOfFile.2.2.status⟩

theorem next_succeeds (budget : Option ℕ) (modes : Modes) :
    Succeeds (Field.next budget modes) c fun out d => out.1 = none ∧ d.AtEnd := by
  cases budget with
  | none =>
    apply Attempts.bind (Succeeds.lift h.current_completes)
    rintro _ d ⟨rfl, hd⟩
    exact ⟨rfl, hd⟩
  | some width =>
    cases width with
    | zero => exact ⟨rfl, h⟩
    | succ left =>
      apply Attempts.bind (Succeeds.lift h.current_completes)
      rintro _ d ⟨rfl, hd⟩
      exact ⟨rfl, hd⟩

theorem skipBlanks_succeeds :
    Succeeds (liftM (Field.skipBlanks : Act Card Unit)) c fun _ d => d.AtEnd := by
  have hskip : Completes (Field.skipBlanksIn 1 : Act Card Unit) c fun _ d => d.AtEnd := by
    apply Ends.bind h.current_completes
    rintro _ d ⟨rfl, hd⟩
    exact hd
  have hrounds : Field.rounds none c = 1 := by
    change (c.record.getD []).length + 1 = 1
    rw [h.record_eq]
    rfl
  refine .lift ?_
  change Completes (Field.skipBlanksIn (Field.rounds none c)) c _
  rw [hrounds]
  exact hskip

theorem takeChars_completes (limit : Option ℕ) :
    Completes (Field.takeChars limit : Act Card _) c fun _ d => d.AtEnd := by
  refine (ends_get _).mpr ?_
  generalize limit.getD (Field.rounds none c) = fuel
  cases fuel with
  | zero => exact h
  | succ fuel =>
    apply Ends.bind h.current_completes
    rintro _ d ⟨rfl, hd⟩
    exact hd

theorem run_succeeds {φ ρ : Type} (r : Recognizer φ ρ) (edit : DataEdit) :
    Succeeds (r.run edit) c fun out d => out.1 = r.empty false ∧ d.AtEnd := by
  have hrunIn {d : Card} (hd : d.AtEnd) (fuel : ℕ) (budget : Option ℕ) :
      Succeeds (r.runIn edit.modes fuel .leading budget) d fun out e =>
        out.1 = r.empty false ∧ e.AtEnd := by
    cases fuel with
    | zero => exact ⟨rfl, hd⟩
    | succ fuel =>
      apply Attempts.bind (hd.next_succeeds budget edit.modes)
      rintro ⟨_, left⟩ e ⟨rfl, he⟩
      exact ⟨rfl, he⟩
  unfold Recognizer.run
  split_ifs
  · apply Attempts.bind h.skipBlanks_succeeds
    intro _ d hd
    exact (attempts_get _).mpr (hrunIn hd _ _)
  · exact (attempts_get _).mpr (hrunIn h _ _)

theorem checkRecordEnd_succeeds (budget : Option ℕ) :
    Succeeds (liftM (Field.checkRecordEnd budget : Act Card Unit)) c fun _ d => d.AtEnd := by
  refine .lift ?_
  change Completes (if budget.any (0 < ·) && false then _ else pure ()) c _
  rw [Bool.and_false]
  exact h

theorem scanInteger_succeeds (edit : DataEdit) (base : ℕ) :
    Succeeds (Field.scanInteger edit base) c fun _ d => d.AtEnd := by
  apply Attempts.bind (h.run_succeeds _ edit)
  rintro ⟨_, left⟩ d ⟨rfl, hd⟩
  apply Attempts.bind (hd.checkRecordEnd_succeeds left)
  intro _ e he
  exact he

theorem editInteger_succeeds {edit : DataEdit} (kind : IntegerKind)
    (hedit : edit.kind.integerBase?.isSome = true) :
    Succeeds (Field.editInteger edit kind.bytes) c fun _ d => d.AtEnd := by
  obtain ⟨base, hbase⟩ := Option.isSome_iff_exists.mp hedit
  simp only [Field.editInteger, IntegerKind.ofBytes?_bytes, hbase]
  apply Attempts.bind (h.scanInteger_succeeds edit base)
  intro _ d hd
  exact hd

theorem scanReal_succeeds (edit : DataEdit) (maxDigits : ℕ) :
    Succeeds (Field.scanReal edit maxDigits) c fun _ d => d.AtEnd := by
  apply Attempts.bind (h.run_succeeds _ edit)
  rintro ⟨_, left⟩ d ⟨rfl, hd⟩
  apply Attempts.bind (hd.checkRecordEnd_succeeds left)
  intro _ e he
  exact he

theorem editReal_succeeds {edit : DataEdit} (kind : RealKind)
    (hedit : (edit.kind.isBitPattern || edit.kind.editsDecimal) = true) :
    Succeeds (Field.editRealKind edit kind) c fun _ d => d.AtEnd := by
  obtain ⟨p, hp⟩ := Option.isSome_iff_exists.mp kind.2
  simp only [Field.editRealKind, hp]
  refine Attempts.bind (P := fun _ d => d.AtEnd) ?_ fun _ _ => id
  unfold Field.editReal
  split_ifs with hbits hdecimal
  · apply Attempts.bind (h.scanInteger_succeeds edit _)
    intro _ d hd
    exact hd
  · apply Attempts.bind (h.scanReal_succeeds edit _)
    intro _ d hd
    exact hd
  · simp [hbits, hdecimal] at hedit

theorem item_completes {α : Type} {act : Attempt Card α}
    (hact : Succeeds act c fun _ d => d.AtEnd) :
    Completes (Card.item act) c fun _ d => d.AtEnd := by
  unfold Card.item
  refine (ends_get _).mpr ?_
  split_ifs
  · exact h
  apply Ends.bind hact
  intro r d hd
  cases r with
  | ok a => exact hd
  | error f => exact hd.elim

theorem call_completes (glance : Glance) : Completes (Card.call glance) c fun _ d => d.AtEnd := by
  cases glance with
  | char => exact h.current_completes.bind fun _ _ hd => hd.2
  | move m => exact { h with }

theorem look_completes {look : Look} (hlook : look.suits = true) :
    Completes look.onCard c fun _ d => d.AtEnd := by
  cases look with
  | call glance => exact (h.call_completes glance).bind fun _ _ => id
  | chars limit => exact (h.takeChars_completes limit).bind fun _ _ => id
  | integer edit kind => exact (h.item_completes (h.editInteger_succeeds kind hlook)).bind fun _ _ => id
  | real edit kind => exact (h.item_completes (h.editReal_succeeds kind hlook)).bind fun _ _ => id
  | fault f => cases hlook

theorem looks_completes {looks : List Look} (hlooks : ∀ look ∈ looks, look.suits = true) :
    Completes (looks.mapM Look.onCard) c fun _ d => d.AtEnd := by
  exact Ends.mapM_invariant (fun look hlook _ hd => hd.look_completes (hlooks look hlook)) h

theorem finish_completes : Completes finish c fun status _ => status = .endOfFile := by
  have hnone : c.record.isNone = true := by
    rw [h.record_eq]
    rfl
  have hsignal : Completes FieldSource.signalEndOfFile c fun _ d =>
      d.handler.status = .endOfFile := by
    unfold Completes Ends FieldSource.signalEndOfFile
    rw [FieldSource.signal_eq h.endOfFile.1]
    exact h.endOfFile.2.1
  simp only [finish, ends_get, hnone, if_true]
  exact hsignal.bind fun _ _ hd => hd

end AtEnd

end Card

/-- Where there is no record a READ that brings no fault of its own meets the end of the file. -/
theorem FormattedRead.status_of_sees_none {read : FormattedRead} {out : List Answer × Iostat}
    (hreceivers : read.receivers.admits .endOfFile = true)
    (hlooks : ∀ look ∈ read.looks, look.suits = true) (h : read.Sees none out) :
    out.2 = .endOfFile := by
  obtain ⟨card, hrun⟩ := h
  have hstart : Card.AtEnd (start read none) := ⟨rfl, hreceivers, .inl rfl⟩
  have hends : Ends read.onCard (start read none) (fun out _ => out.2 = .endOfFile)
      fun _ _ => False := by
    apply Ends.bind (hstart.looks_completes hlooks)
    intro answers c hc
    apply Ends.bind (hc.finish_completes)
    rintro status d rfl
    rfl
  exact hends.of_run hrun

end DataTransfer
