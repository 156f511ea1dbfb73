import DataTransfer.Proofs.Field.ShortRecord
import DataTransfer.Proofs.Unit.Card

/-!
Numeric items of a formatted READ, whichever unit it reads from. An item is transferred when the field
of its edit descriptor has a value; the end of the record and faults become the status of the READ, and
from then on nothing is transferred.
-/

namespace DataTransfer

open FieldSource DataTransfer.Field

def RealKind.precision (kind : RealKind) : Precision := (Precision.ofKind? kind.1).get kind.2

theorem RealKind.ofKind?_eq (kind : RealKind) :
    Precision.ofKind? kind.1 = some kind.precision := (Option.some_get kind.2).symm

inductive NumericValue where
  | integer (value : ℤ)
  | real (value : (p : Precision) × Conversion p)

/-- A numeric item of an input list, with the edit descriptor of its field. -/
inductive NumericItem where
  | integer (edit : DataEdit) (kind : IntegerKind)
  | real (edit : DataEdit) (kind : RealKind)

namespace NumericItem

def edit : NumericItem → DataEdit
  | .integer edit _ => edit
  | .real edit _ => edit

def suits : NumericItem → Bool
  | .integer edit _ => edit.kind.integerBase?.isSome
  | .real edit _ => edit.kind.isBitPattern || edit.kind.editsDecimal

def input : NumericItem → Act Session (Option NumericValue)
  | .integer edit kind => return (← Session.inputInteger edit kind.bytes).map .integer
  | .real edit kind => return (← Session.inputReal edit kind).map .real

/-- What a text spells for the item, and what is left of it behind a character that it does not allow.
No text is looked at where the edit descriptor does not suit. -/
def reading : NumericItem → List Char → Except Fault NumericValue × Option (List Char)
  | .integer edit kind, text =>
    match edit.kind.integerBase? with
    | none => (.error (.badEditDescriptor edit.kind.name .integer), some text)
    | some base =>
      let read := (integerRecognizer base edit.modes.blankZero).reading .leading text
      (read.1.map fun n => .integer (kind.narrow n.pattern), read.2)
  | .real edit kind, text =>
    let p := kind.precision
    if edit.kind.isBitPattern then
      let base := edit.kind.integerBase?.getD 16
      let read := (integerRecognizer base edit.modes.blankZero).reading .leading text
      (read.1.map fun n => .real ⟨p, { value := .ofBits p n.pattern.toNat }⟩, read.2)
    else if edit.kind.editsDecimal then
      let read := (RealRules.recognizer ⟨edit, p.maxDecimalDigits⟩).reading .leading text
      (read.1.map fun scanned => .real ⟨p, scanned.convert p edit.modes.round⟩, read.2)
    else (.error (.badEditDescriptor edit.kind.name .real), some text)

def finds (item : NumericItem) (width : ℕ) (e : RecordBoundary) (cs : List Char) :
    Except Fault (Option NumericValue) :=
  found item.reading width item.edit.modes.pad e cs

/-- No more characters than these are left by a fault of the field: it has looked at one. -/
def room (item : NumericItem) (width : ℕ) (cs : List Char) : ℕ :=
  cs.length - if item.suits then min 1 width else 0

theorem room_of_suits {item : NumericItem} (h : item.suits = true) (width : ℕ) (cs : List Char) :
    item.room width cs = cs.length - min 1 width := by
  rw [room, if_pos h]

theorem room_of_refused {item : NumericItem} (h : item.suits = false) (width : ℕ) (cs : List Char) :
    item.room width cs = cs.length := by
  rw [room, h]
  rfl

end NumericItem

namespace Field

variable {σ : Type} {At : Handler → List Char → σ → Prop} {e : RecordBoundary} {h : Handler} {s : σ}
variable {cs rest : List Char} {room : ℕ} {α β : Type}

theorem Settled.map {finds : Except Fault (Option α)} {act : Attempt σ α}
    (hact : Settled At h rest room finds act s) (f : α → β) :
    Settled At h rest room (finds.map (Option.map f)) (do return f (← act)) s := by
  refine Attempts.bind (hact.mono (fun _ _ => id) ?_) ?_
  · rintro fault t ⟨rfl, ht⟩
    exact ⟨rfl, ht⟩
  · rintro a t (⟨rfl, ht⟩ | ⟨rfl, ht⟩)
    · exact .inl ⟨rfl, ht⟩
    · exact .inr ⟨rfl, ht⟩

theorem found_of_refused (f : Fault) (width : ℕ) (pad : Bool) (e : RecordBoundary) (cs : List Char) :
    found (fun text => ((.error f, some text) : Except Fault α × _)) width pad e cs = .error f := by
  have hnone : (e.fixed && !e.nonAdvancing && (some cs).isNone) = false := by
    rw [Option.isNone_some, Bool.and_false]
  unfold found
  dsimp only
  rw [hnone, if_neg Bool.false_ne_true]
  split_ifs <;> rfl

theorem map_option_map {γ : Type} (f : β → γ) (g : α → β) (r : Except Fault (Option α)) :
    (r.map (Option.map g)).map (Option.map f) = r.map (Option.map fun a => f (g a)) := by
  rcases r with f | _ | a <;> rfl

variable [FieldSource σ] (hAt : FieldSource.Faces At e) {edit : DataEdit} {width : ℕ}
variable (hbudget : edit.budget = some width)
variable (hreceives : e.nonAdvancing = true → h.declared.receivesError = true ∨ width ≤ cs.length)
include hAt hbudget hreceives

theorem editInteger_settled (kind : IntegerKind) : ∃ finds,
    finds.map (Option.map NumericValue.integer) = (NumericItem.integer edit kind).finds width e cs ∧
      ∀ s, At h cs s → Settled At h (cs.drop width) ((NumericItem.integer edit kind).room width cs)
        finds (editInteger edit kind.bytes) s := by
  unfold NumericItem.finds NumericItem.reading editInteger
  rw [IntegerKind.ofBytes?_bytes]
  dsimp only [NumericItem.edit]
  cases hbase : edit.kind.integerBase? with
  | none =>
    refine ⟨.error (.badEditDescriptor edit.kind.name .integer), ?_,
      fun s hs => ⟨rfl, h, cs, .inl rfl, ?_, hs⟩⟩
    · dsimp only
      rw [found_of_refused]
      rfl
    · rw [NumericItem.room_of_refused (by rw [NumericItem.suits, hbase]; rfl)]
  | some base =>
    rw [NumericItem.room_of_suits (by rw [NumericItem.suits, hbase]; rfl)]
    refine ⟨_, ?_, fun s hs => (scanInteger_settled hAt hbudget hreceives hs base).map _⟩
    dsimp only
    rw [map_option_map, found_map fun n : ScannedInteger => NumericValue.integer (kind.narrow n.pattern)]

theorem editReal_settled (kind : RealKind) : ∃ finds,
    finds.map (Option.map NumericValue.real) = (NumericItem.real edit kind).finds width e cs ∧
      ∀ s, At h cs s → Settled At h (cs.drop width) ((NumericItem.real edit kind).room width cs)
        finds (editRealKind edit kind) s := by
  have hsuits : (NumericItem.real edit kind).suits =
      (edit.kind.isBitPattern || edit.kind.editsDecimal) := rfl
  unfold NumericItem.finds NumericItem.reading editRealKind editReal
  dsimp only [NumericItem.edit]
  rw [kind.ofKind?_eq]
  generalize kind.precision = p
  dsimp only
  split_ifs with hbits hdecimal
  · rw [NumericItem.room_of_suits (by rw [hsuits, hbits, Bool.true_or])]
    refine ⟨_, ?_, fun s hs => ((scanInteger_settled hAt hbudget hreceives hs _).map _).map _⟩
    rw [map_option_map, map_option_map, found_map fun n : ScannedInteger =>
      NumericValue.real ⟨p, { value := .ofBits p n.pattern.toNat }⟩]
  · rw [NumericItem.room_of_suits (by rw [hsuits, hdecimal, Bool.or_true])]
    refine ⟨_, ?_, fun s hs => ((scanReal_settled hAt hbudget hreceives hs _).map _).map _⟩
    rw [map_option_map, map_option_map, found_map fun scanned : ScannedReal =>
      NumericValue.real ⟨p, scanned.convert p edit.modes.round⟩]
  · rw [NumericItem.room_of_refused (by simp [hsuits, hbits, hdecimal])]
    refine ⟨.error (.badEditDescriptor edit.kind.name .real), ?_,
      fun s hs => ⟨rfl, h, cs, .inl rfl, le_rfl, hs⟩⟩
    rw [found_of_refused]
    rfl

end Field

namespace Session

variable {At : Handler → List Char → Session → Prop} {e : RecordBoundary} {h : Handler} {s : Session}
variable {cs rest : List Char} {room : ℕ} {α β : Type}

/-- What it means that these characters are left of the record of a formatted READ in progress. -/
structure ReadFaces (At : Handler → List Char → Session → Prop) (e : RecordBoundary) : Prop
    extends FieldSource.Faces At e where
  formatted : ∀ {h cs s}, At h cs s → ∃ modes, s.unit.statement = .formatted .input modes
  items : ∀ {h cs s}, At h cs s → ∀ items, At h cs { s with items }

/-- What an item leaves that finds this: its value, or none and the status. -/
def Left (At : Handler → List Char → Session → Prop) (h : Handler) (rest : List Char) (room : ℕ)
    (finds : Except Fault (Option α)) (a : Option α) (t : Session) : Prop :=
  match finds with
  | .ok (some b) => a = some b ∧ At h rest t
  | .ok none => a = none ∧ At (h.record .endOfRecord) [] t
  | .error f => a = none ∧ ∃ h' cs, h.fault f = .ok h' ∧ cs.length ≤ room ∧ At h' cs t

theorem Left.map {finds : Except Fault (Option α)} {a : Option α} {t : Session}
    (ht : Left At h rest room finds a t) (f : α → β) :
    Left At h rest room (finds.map (Option.map f)) (a.map f) t := by
  rcases finds with g | _ | b <;> exact ⟨congrArg (Option.map f) ht.1, ht.2⟩

theorem fault_of_endOfRecord (hstatus : h.status = .ok) {h' : Handler}
    (hh : h' = h ∨ h' = h.record .endOfRecord) (f : Fault) : h'.fault f = h.fault f := by
  rcases hh with rfl | rfl
  · rfl
  have hrank : f.iostat.rank = 3 := f.rank_iostat
  have hrecord : h.record .endOfRecord = { h with status := .endOfRecord } :=
    Handler.record_of_ok hstatus (by decide)
  have hok : h.status.rank < f.iostat.rank := by rw [hstatus, hrank]; decide
  have hend : Iostat.endOfRecord.rank < f.iostat.rank := by rw [hrank]; decide
  rw [hrecord]
  simp only [Handler.fault, Handler.record, hok, hend, if_true, decide_true, Bool.true_and]

variable (hAt : ReadFaces At e)
include hAt

theorem signalFault_ends {f : Fault} (hs : At h cs s) : Ends (signalFault f : Act Session Unit) s
    (fun _ t => ∃ h', h.fault f = .ok h' ∧ At h' cs t) fun c _ => h.fault f = .error c := by
  have hhandler : FieldSource.handler s = h := hAt.handler_eq hs
  unfold Ends signalFault signal
  rw [hhandler]
  dsimp only
  cases hfault : h.fault f with
  | error c => rfl
  | ok h' =>
    refine ⟨h', rfl, hAt.signalled hs ?_⟩
    obtain ⟨_, hsame, hdeclared, -⟩ := h.fault_received f (h.receivesError_of_fault hfault)
    obtain rfl := Except.ok.inj (hfault.symm.trans hsame)
    exact hdeclared

theorem inputItem_of_condition {edit : DataEdit} {act : Attempt Session α} (hs : At h cs s)
    (hstatus : h.status ≠ .ok) : Completes (inputItem edit act) s fun a t => a = none ∧ t = s := by
  obtain ⟨modes, hstatement⟩ := hAt.formatted hs
  have hhandler : s.handler = h := hAt.handler_eq hs
  refine (ends_get _).mpr ?_
  rw [hstatement, hhandler, if_neg (by rw [show StatementState.isInput _ = true from rfl]; simp),
    if_pos hstatus]
  exact ⟨rfl, rfl⟩

/-- What the edit of a field comes to is what its item leaves; a fault that nothing receives ends the
program. -/
theorem inputItem_ends {edit : DataEdit} {act : Attempt Session α}
    {finds : Except Fault (Option α)} (hs : At h cs s) (hstatus : h.status = .ok)
    (hact : ∀ t, At h cs t → Settled At h rest room finds act t) :
    Ends (inputItem edit act) s (Left At h rest room finds)
      fun c _ => ∃ f, finds = .error f ∧ h.fault f = .error c := by
  obtain ⟨modes, hstatement⟩ := hAt.formatted hs
  have hhandler : s.handler = h := hAt.handler_eq hs
  refine (ends_get _).mpr ?_
  rw [hstatement, hhandler, if_neg (by rw [show StatementState.isInput _ = true from rfl]; simp),
    if_neg (not_not_intro hstatus), if_neg (by simp [StatementState.isListDirected])]
  refine Ends.bind (P := fun _ t => At h cs t) (hAt.items hs (s.items + 1)) fun _ t ht => ?_
  refine Ends.bind (Ends.mono (hact t ht) (fun _ _ => id) fun _ _ => False.elim) ?_
  rintro (f | a) t ht
  · obtain ⟨rfl, h', cs', hh, hroom, ht⟩ := ht
    have hsame := fault_of_endOfRecord hstatus hh f
    refine Ends.bind ((signalFault_ends hAt ht).mono (fun _ _ => id) ?_) ?_
    · rintro c _ hc
      exact ⟨f, rfl, hsame.symm.trans hc⟩
    · rintro _ u ⟨h'', hfault, hu⟩
      exact ⟨rfl, h'', cs', hsame.symm.trans hfault, hroom, hu⟩
  · refine (ends_get _).mpr ?_
    rcases ht with ⟨rfl, ht⟩ | ⟨rfl, ht⟩
    · rw [show t.handler = _ from hAt.handler_eq ht, if_pos hstatus]
      exact ⟨rfl, ht⟩
    · rw [show t.handler = _ from hAt.handler_eq ht, Handler.status_record_of_ok hstatus (by decide),
        if_neg (by decide)]
      exact ⟨rfl, ht⟩

end Session

namespace NumericItem

variable {At : Handler → List Char → Session → Prop} {e : RecordBoundary} {h : Handler} {s : Session}
variable {cs : List Char} {width : ℕ} (hAt : Session.ReadFaces At e) (item : NumericItem)
include hAt

theorem input_of_condition (hs : At h cs s) (hstatus : h.status ≠ .ok) :
    Completes item.input s fun a t => a = none ∧ t = s := by
  cases item with
  | integer edit kind =>
    refine Ends.bind (Session.inputItem_of_condition hAt hs hstatus) ?_
    rintro _ t ⟨rfl, rfl⟩
    exact ⟨rfl, rfl⟩
  | real edit kind =>
    refine Ends.bind (Session.inputItem_of_condition hAt hs hstatus) ?_
    rintro _ t ⟨rfl, rfl⟩
    exact ⟨rfl, rfl⟩

/-- An item of a READ without a condition leaves what its field finds. -/
theorem input_ends (hwidth : item.edit.budget = some width) (hs : At h cs s) (hstatus : h.status = .ok)
    (hreceives : e.nonAdvancing = true → h.declared.receivesError = true ∨ width ≤ cs.length) :
    Ends item.input s
      (Session.Left At h (cs.drop width) (item.room width cs) (item.finds width e cs))
      fun c _ => ∃ f, item.finds width e cs = .error f ∧ h.fault f = .error c := by
  cases item with
  | integer edit kind =>
    have hbudget : edit.budget = some width := hwidth
    obtain ⟨finds, hfinds, hedit⟩ := editInteger_settled hAt.toFaces hbudget hreceives kind
    rw [← hfinds]
    refine Ends.bind ((Session.inputItem_ends hAt hs hstatus hedit).mono (fun _ _ => id) ?_) ?_
    · rintro c _ ⟨f, rfl, hc⟩
      exact ⟨f, rfl, hc⟩
    · exact fun a t ht => ht.map NumericValue.integer
  | real edit kind =>
    have hbudget : edit.budget = some width := hwidth
    obtain ⟨finds, hfinds, hedit⟩ := editReal_settled hAt.toFaces hbudget hreceives kind
    rw [← hfinds]
    refine Ends.bind ((Session.inputItem_ends hAt hs hstatus hedit).mono (fun _ _ => id) ?_) ?_
    · rintro c _ ⟨f, rfl, hc⟩
      exact ⟨f, rfl, hc⟩
    · exact fun a t ht => ht.map NumericValue.real

theorem input_completes (hwidth : item.edit.budget = some width) (hs : At h cs s)
    (hstatus : h.status = .ok) (hreceives : h.declared.receivesError = true ∨
      width ≤ cs.length ∧ ∃ value, (item.reading (cs.take width)).1 = .ok value) :
    Completes item.input s
      (Session.Left At h (cs.drop width) (item.room width cs) (item.finds width e cs)) := by
  refine (item.input_ends hAt hwidth hs hstatus fun _ => hreceives.imp_right And.left).mono
    (fun _ _ => id) ?_
  rintro c _ ⟨f, hfinds, hc⟩
  rcases hreceives with hreceives | ⟨hfits, value, hvalue⟩
  · obtain ⟨h', hfault, -⟩ := h.fault_received f hreceives
    cases hfault.symm.trans hc
  · rw [finds, found, if_pos hfits, hvalue] at hfinds
    cases hfinds

end NumericItem

end DataTransfer
