import Mathlib
import DataTransfer.Proofs.Unit.Card
import DataTransfer.Proofs.Unit.LineCursor

/-!
Formatted READs of a file that are free to look at their records as they like. Each sees one line of
the file and nothing else, whichever windows the search for its end has used.
-/

namespace DataTransfer

namespace Card

theorem noted_record (card : Card) : (noted card).record = card.record := by
  unfold noted
  split_ifs <;> rfl

theorem noted_handler (card : Card) :
    (noted card).handler = card.handler.looking card.record := by
  unfold noted Handler.looking
  split_ifs <;> rfl

end Card

namespace Session

open FieldSource (signal_eq)

variable {s : Session} {before rest after : Bytes} {record : Option Bytes}
variable {device : Channel} {card : Card}

/-! ### A READ in progress -/

/-- A READ that sees this record and nothing else. -/
structure OnCard (device : Channel) (before rest after : Bytes) (record : Option Bytes) (s : Session)
    (card : Card) : Prop extends OnLine device before rest after record s where
  record_eq : card.record = record
  position_eq : rest ≠ [] → s.unit.connection.position = card.position
  statement_eq : ∃ modes, s.unit.statement = .formatted .input modes
  handler_eq : s.handler = card.handler
  receivesError : card.handler.declared.receivesError = true

namespace OnCard

variable (h : OnCard device before rest after record s card)
include h

theorem admits : s.handler.declared.admits .endOfFile = true := by
  rw [h.handler_eq]
  exact Receivers.admits_of_receivesError h.receivesError _

/-- A look at the record leaves the READ on it, and leaves it where it was. -/
theorem looked {t : Session} (ht : OnLine device before rest after record t)
    (hlooked : Looked record s t) : OnCard device before rest after record t card.noted := by
  refine { ht with
    record_eq := by rw [Card.noted_record, h.record_eq]
    position_eq := ?_
    statement_eq := by rw [hlooked.statement_eq]; exact h.statement_eq
    handler_eq := by rw [hlooked.handler_eq, h.handler_eq, Card.noted_handler, h.record_eq]
    receivesError := ?_ }
  · rw [hlooked.position_eq, Card.noted_position]
    exact h.position_eq
  · rw [Card.noted_handler, Handler.looking_declared]
    exact h.receivesError

theorem current_eq : Card.current card =
    .ok ((record.bind (·[card.position]?)).map fun b => Char.ofNat b.toNat) card.noted := by
  rw [Card.current_eq h.receivesError, h.record_eq]

theorem peek_succeeds (hsize : (before ++ rest).length < FileSystem.offsetLimit) :
    Succeeds peek s fun ch t =>
      ch = ((record.bind (·[card.position]?)).map fun b => Char.ofNat b.toNat) ∧
        OnCard device before rest after record t card.noted := by
  refine (h.toOnLine.peek_succeeds hsize fun _ => h.admits).mono ?_ fun _ _ => id
  rintro _ t ⟨rfl, ht, hlooked⟩
  refine ⟨?_, h.looked ht hlooked⟩
  cases record with
  | none => rfl
  | some line => rw [h.position_eq (h.rest_ne_nil rfl)]

theorem nextChar_completes (hsize : (before ++ rest).length < FileSystem.offsetLimit) :
    Completes nextChar s fun ch t => ∃ card', Card.current card = .ok ch card' ∧
      OnCard device before rest after record t card' := by
  refine (nextChar_of_peek (h.peek_succeeds hsize)).mono ?_ fun _ _ => id
  rintro _ t ⟨rfl, ht⟩
  exact ⟨_, h.current_eq, ht⟩

theorem moveTo_succeeds {column position : ℕ}
    (hcolumn : rest ≠ [] → column = position) :
    Succeeds (moveTo column) s fun _ t =>
      OnCard device before rest after record t { card with position } := by
  refine (h.toOnLine.moveTo_succeeds column).mono ?_ fun _ _ => id
  rintro _ t ⟨ht, hhandler, -, hstatement, rfl⟩
  exact { ht with
    record_eq := h.record_eq
    position_eq := hcolumn
    statement_eq := by rw [hstatement]; exact h.statement_eq
    handler_eq := hhandler.trans h.handler_eq
    receivesError := h.receivesError }

theorem withHandler {handler : Handler} (hdeclared : handler.declared.receivesError = true) :
    OnCard device before rest after record { s with handler } { card with handler } :=
  { h with handler_eq := rfl, receivesError := hdeclared }

theorem withItems (items : ℕ) :
    OnCard device before rest after record { s with items } card :=
  { h with }

end OnCard

/-! ### The READ beside its record -/

section

open FieldSource

theorem signal_simulates {change : Handler → Except Crash Handler}
    (hchange : ∀ handler : Handler, handler.declared.receivesError = true →
      ∃ handler', change handler = .ok handler' ∧ handler'.declared = handler.declared) :
    Simulates (OnCard device before rest after record) False (signal change) (signal change) := by
  intro s card h
  obtain ⟨handler, hhandler, hdeclared⟩ := hchange card.handler h.receivesError
  have hs : change (FieldSource.handler s) = .ok handler :=
    (congrArg change h.handler_eq).trans hhandler
  have hcard : change (FieldSource.handler card) = .ok handler := hhandler
  rw [signal_eq hs, signal_eq hcard]
  exact .ok () (h.withHandler (by rw [hdeclared]; exact h.receivesError))

theorem signalFault_simulates (f : Fault) :
    Simulates (OnCard device before rest after record) False (signalFault f) (signalFault f) := by
  refine signal_simulates fun handler hr => ?_
  obtain ⟨handler', hfault, hdeclared, -⟩ := Handler.fault_received f hr
  exact ⟨handler', hfault, hdeclared⟩

theorem move_simulates (m : Move) :
    Simulates (OnCard device before rest after record) False (move m) (Card.move m) := by
  refine .of_completes fun s card h => ?_
  have hcolumn : rest ≠ [] → s.unit.connection.target m = m.column card.position := by
    intro hne
    rw [Connection.target_of_noLimit h.form.leftTabLimit, h.position_eq hne]
  refine (ends_get _).mpr (report_completes ?_)
  refine (h.moveTo_succeeds hcolumn).mono ?_ fun _ _ => False.elim
  intro _ t ht
  refine ⟨card.moved m, ?_, ht⟩
  change EStateM.Result.ok (!(card.moved m).handler.inError) (card.moved m) = _
  rw [ht.handler_eq]
  rfl

theorem OnCard.measure (hsize : (before ++ rest).length < FileSystem.offsetLimit) :
    FieldSource.Measure (OnCard device before rest after record)
      fun card => (card.record.getD []).length - card.position := by
  refine ⟨?_, ?_⟩
  · intro s card h
    refine ⟨?_, Nat.sub_le _ _⟩
    have hreach := h.length_le_reach
    have hlength : (card.record.getD []).length ≤ rest.length := by
      rw [h.record_eq]
      cases h.next with
      | line hline => exact hline.length_le
      | atEnd => exact le_rfl
    rw [List.length_append] at hreach
    change _ ≤ s.reach
    omega
  -- A character was found, so the cursor is inside the record and moves towards its end.
  · intro s card h ch card' card'' hcurrent hmove
    change Card.current card = _ at hcurrent
    rw [h.current_eq] at hcurrent
    obtain ⟨hch, rfl⟩ := (EStateM.Result.ok.injEq _ _ _ _).mp hcurrent
    cases hmove
    obtain ⟨b, hb, -⟩ := Option.map_eq_some_iff.mp hch
    obtain ⟨line, rfl, hbyte⟩ := Option.bind_eq_some_iff.mp hb
    obtain ⟨hpos, -⟩ := List.getElem?_eq_some_iff.mp hbyte
    rw [Card.noted_of_some h.record_eq]
    have hline : line.length ≤ (before ++ rest).length := by
      cases h.next with
      | line hline => exact hline.length_le.trans (List.length_append ▸ Nat.le_add_left _ _)
    have hroom : (before ++ rest).length < 2 ^ 63 := hsize
    rw [Card.moved_one (by omega)]
    change (card.record.getD []).length - (card.position + 1) <
      (card.record.getD []).length - card.position
    rw [h.record_eq, Option.getD_some]
    omega

theorem OnCard.alike (hsize : (before ++ rest).length < FileSystem.offsetLimit) :
    FieldSource.Alike (OnCard device before rest after record) False where
  current := .of_completes fun _ _ h => h.nextChar_completes hsize
  moveBy n := (move_simulates (.relative n)).discard
  endOfRecord := by
    refine signal_simulates fun handler hr => ⟨handler.record .endOfRecord, ?_, ?_⟩
    · exact Handler.endOfRecord_eq (Receivers.admits_of_receivesError hr _)
    · exact handler.record_declared _
  crash _ := False.elim
  pastFixedRecord s card h := h.form.pastFixedRecord
  nonAdvancing s card h := h.form.nonAdvancing
  measured := .inr ⟨_, OnCard.measure hsize⟩

theorem inputItem_simulates {α : Type} (edit : DataEdit) {act : Attempt Session α}
    {act' : Attempt Card α}
    (h : Attempt.Simulates (OnCard device before rest after record) False act act') :
    Simulates (OnCard device before rest after record) False (inputItem edit act)
      (Card.item act') := by
  refine Simulates.get_bind ?_
  intro s card hst
  obtain ⟨modes, hstatement⟩ := hst.statement_eq
  have hinput : s.unit.statement.isInput = true := by rw [hstatement]; rfl
  have hlist : s.unit.statement.isListDirected = false := by rw [hstatement]; rfl
  simp only [hinput, hlist, Bool.not_true, Bool.false_eq_true, if_false, hst.handler_eq]
  split_ifs
  · exact .ok none hst
  · refine (h _ _ (hst.withItems (s.items + 1))).bind ?_
    intro r t card' _ ht
    cases r with
    | ok a =>
      refine Simulates.get_bind (fun u c hu => ?_) t card' ht
      rw [hu.handler_eq]
      exact .ok _ hu
    | error f => exact ((signalFault_simulates f).bind fun _ => .pure none) t card' ht

theorem call_simulates (hsize : (before ++ rest).length < FileSystem.offsetLimit) (c : Glance) :
    Simulates (OnCard device before rest after record) False (Session.call c) (Card.call c) := by
  cases c with
  | char => exact (OnCard.alike hsize).current.bind fun ch => .pure _
  | move m => exact (move_simulates m).bind fun ok => .pure _

theorem look_simulates (hsize : (before ++ rest).length < FileSystem.offsetLimit) (look : Look) :
    Simulates (OnCard device before rest after record) False look.perform look.onCard := by
  have hsource : FieldSource.Alike (OnCard device before rest after record) False :=
    OnCard.alike hsize
  cases look with
  | call c => exact (call_simulates hsize c).bind fun answer => .pure _
  | chars limit => exact (hsource.takeChars limit).bind fun cs => .pure _
  | integer edit kind =>
    exact (inputItem_simulates edit (hsource.editInteger edit (.inl (by simp)))).bind fun v => .pure _
  | real edit kind =>
    exact (inputItem_simulates edit (hsource.editRealKind edit (.inl kind.2))).bind fun v => .pure _
  | fault f => exact (signalFault_simulates f).bind fun _ => .pure _

end

/-! ### READ statements -/

theorem Between.begin_completes (h : Between device before rest s) (read : FormattedRead)
    (hread : read.receivers.receivesError = true) (hnext : NextRecord rest record after) :
    Completes (begin_ (.formatted .input) read.source) s fun _ t =>
      OnCard device before rest after record { t with handler := t.handler.declare read.receivers }
        (read.start record) := by
  refine (begin_of_clean (fun _ => rfl) h.shows h.located_eq read.source read.receivers).mono ?_
    fun _ _ => id
  rintro _ t ht
  rw [ht]
  exact { (h.beginning _ _ _).onLine hnext rfl with
    record_eq := rfl
    position_eq := h.position_eq
    statement_eq := ⟨_, rfl⟩
    handler_eq := rfl
    receivesError := hread }

theorem OnCard.finish_completes (h : OnCard device before rest after record s card)
    (hsize : (before ++ rest).length < FileSystem.offsetLimit) :
    Completes finish s fun status t => (∃ card', Card.finish card = .ok status card') ∧
      ∃ before', before' ++ after = before ++ rest ∧ Between device before' after t := by
  obtain ⟨modes, hstatement⟩ := h.statement_eq
  refine (h.toOnLine.finish_completes (by rw [hstatement]; rfl) hsize fun _ => h.admits).mono ?_
    fun _ _ => id
  rintro _ t ⟨rfl, ht⟩
  refine ⟨⟨card.noted, ?_⟩, ht⟩
  rw [Card.finish_eq h.receivesError, h.handler_eq, Card.noted_handler, h.record_eq]

/-- One READ sees one line. -/
theorem Between.read_completes (h : Between device before rest s) (read : FormattedRead)
    (hread : read.receivers.receivesError = true) (hnext : NextRecord rest record after)
    (hsize : (before ++ rest).length < FileSystem.offsetLimit) :
    Completes read.perform s fun out t => read.Sees record out ∧
      ∃ before', before' ++ after = before ++ rest ∧ Between device before' after t := by
  refine statement_completes
    (B := fun t => OnCard device before rest after record t (read.start record))
    (h.begin_completes read hread hnext) ?_
  intro t ht
  have hlooks : Simulates (OnCard device before rest after record) False
      (read.looks.mapM Look.perform) (read.looks.mapM Look.onCard) :=
    Simulates.mapM (look_simulates hsize) read.looks
  refine (hlooks.completes ht).mono ?_ fun _ _ => id
  rintro answers u ⟨card, hcard, hu⟩
  refine (hu.finish_completes hsize).mono ?_ fun _ _ => id
  rintro status v ⟨⟨card', hfinish⟩, hv⟩
  refine ⟨⟨card', ?_⟩, hv⟩
  rw [FormattedRead.onCard, bind_run_eq hcard, bind_run_eq hfinish]
  rfl

theorem Between.reads_complete (reads : List FormattedRead) (h : Between device before rest s)
    (hreads : ∀ read ∈ reads, read.receivers.receivesError = true)
    (hsize : (before ++ rest).length < FileSystem.offsetLimit) :
    Completes (reads.mapM FormattedRead.perform) s fun outs t => outs.length = reads.length ∧
      (∀ (k : ℕ) (read : FormattedRead) out, reads[k]? = some read → outs[k]? = some out →
        read.Sees (lines rest)[k]? out) ∧ t.channel.device = device := by
  -- Each READ leaves the unit before what follows its record.
  refine (Ends.mapM (I := fun k t => ∃ passed left, passed ++ left = before ++ rest ∧
    (∀ j, (lines left)[j]? = (lines rest)[k + j]?) ∧ Between device passed left t)
    (P := fun k read out => read.Sees (lines rest)[k]? out) ?_
    ⟨before, rest, rfl, fun j => by rw [Nat.zero_add], h⟩).mono ?_ fun _ _ => id
  · rintro k read hread t ⟨passed, left, hcontent, hlines, ht⟩
    obtain ⟨record, after, hnext⟩ := NextRecord.exists_next left
    refine (ht.read_completes read (hreads read (List.mem_of_getElem? hread)) hnext
      (hcontent ▸ hsize)).mono ?_ fun _ _ => id
    rintro out u ⟨hout, passed', hcontent', hu⟩
    refine ⟨?_, passed', after, hcontent'.trans hcontent, fun j => ?_, hu⟩
    · rwa [← (hlines 0).symm.trans hnext.head?_lines] at hout
    · rw [← hnext.tail_lines, hlines, Nat.add_right_comm k 1 j]
      rfl
  · rintro outs t ⟨hlength, houts, _, _, -, -, ht⟩
    exact ⟨hlength, houts, ht.device_eq⟩

/-- READs of a file that has been opened for formatted sequential access, without RECL= and at its
start, see its lines one after the other, whatever window the unit reads them through. What a READ
answers is what it answers on the line by itself: the bytes at its cursor and the fields made of them,
wherever the cursor is moved, in signed 64-bit arithmetic. The next READ is on the next line whatever
this one has read, and whatever faults it has met. Behind the last line each READ meets the end of the
file, which only a fault that the READ itself brings outranks. -/
theorem reads_see_lines {status : OpenStatus} {position : Position} {path : Option String}
    {source : SourceLine} {w : Receivers} {iostat : Iostat} {t : Session} {n : ℕ} {writable : Bool}
    (hchunk : 0 < s.unit.readChunk) (hfresh : s.unit.reaffirms status path = false)
    (hopen : statement .connect source w (openUnit status position path {}) s =
      .ok (true, iostat) t)
    (hfile : t.unit.attachment.backing = some (.file (.node n) writable))
    (hstart : t.unit.offset = 0)
    (hsize : (t.system.files.contentAt n).length < FileSystem.offsetLimit)
    (reads : List FormattedRead)
    (hreads : ∀ read ∈ reads, read.receivers.receivesError = true) :
    Completes (reads.mapM FormattedRead.perform) t fun outs u =>
      outs.length = reads.length ∧ u.system = t.system ∧
      ∀ (k : ℕ) (read : FormattedRead) out, reads[k]? = some read → outs[k]? = some out →
        read.Sees (lines (t.system.files.contentAt n))[k]? out ∧
        ((lines (t.system.files.contentAt n)).length ≤ k →
          (∀ look ∈ read.looks, look.suits = true) → out.2 = .endOfFile) := by
  have hbetween := between_of_open hchunk hfresh hopen hfile hstart
  refine (hbetween.reads_complete reads hreads hsize).mono ?_ fun _ _ => id
  rintro outs u ⟨hlength, houts, hdevice⟩
  refine ⟨hlength, congrArg Channel.system hdevice, ?_⟩
  intro k read out hread hout
  have hsees := houts k read out hread hout
  refine ⟨hsees, ?_⟩
  intro hbehind hsuits
  rw [List.getElem?_eq_none hbehind] at hsees
  have hreceives := hreads read (List.mem_of_getElem? hread)
  exact FormattedRead.status_of_sees_none (Receivers.admits_of_receivesError hreceives _) hsuits hsees

/-- `ab\rc` and `-7`, the second line without a newline, through windows of one byte at first; then
the end of the file. -/
theorem reads_see_lines_two :
    Completes (do
        discard (statement .connect {} {} (openUnit .old .asIs (some "a") {}))
        [{ looks := [.call (.absolute 2), .call .char, .call (.relative (-5)), .call .char,
            .call (.relative 9), .call .char] },
          { looks := [.integer { kind := .i, width := some 2 } .k4, .call .char] },
          { looks := [.call .char] }].mapM FormattedRead.perform)
      { system := { files := { nodes := [{ content := [97, 98, 13, 99, 13, 10, 45, 55] }]
                               names := [(["a"], 0)] } }
        unit := .new 10 1 } fun outs _ =>
      outs = [([.call (.ok true), .call (.char (some '\r')), .call (.ok true), .call (.char (some 'a')),
          .call (.ok true), .call (.char none)], .ok),
        ([.integer (some (-7)), .call (.char none)], .ok), ([.call (.char none)], .endOfFile)] := by
  have hopen : ({ nodes := [{ content := [97, 98, 13, 99, 13, 10, 45, 55] }]
                  names := [(["a"], 0)] } : FileSystem).open_ "a" (Channel.request .old) =
      .ok (.node 0, { nodes := [{ content := [97, 98, 13, 99, 13, 10, 45, 55] }]
                      names := [(["a"], 0)] }) := by cbv
  obtain ⟨_, t, hrun, rfl, hsystem, hunit⟩ := (open_completes
    (s := { system := { files := _ }, unit := .new 10 1 }) {} {} {} rfl (by decide) hopen).exists_run
  have hfile : t.unit.attachment.backing = some (.file (.node 0) true) := by
    rw [hunit]
    rfl
  have hcontent : t.system.files.contentAt 0 = [97, 98, 13, 99, 13, 10, 45, 55] := by
    rw [hsystem]
    rfl
  have hlines : lines (t.system.files.contentAt 0) = [[97, 98, 13, 99], [45, 55]] := by
    rw [hcontent]
    decide
  apply Ends.bind (Completes.of_run hrun).discard
  rintro _ _ ⟨_, -, rfl⟩
  refine (reads_see_lines (by decide) rfl hrun hfile (by rw [hunit]; rfl) (by rw [hcontent]; decide)
    [{ looks := [.call (.absolute 2), .call .char, .call (.relative (-5)), .call .char,
        .call (.relative 9), .call .char] },
      { looks := [.integer { kind := .i, width := some 2 } .k4, .call .char] },
      { looks := [.call .char] }] (by decide)).mono ?_ fun _ _ => id
  rintro outs u ⟨hlength, -, hsees⟩
  rw [hlines] at hsees
  obtain ⟨a, b, c, rfl⟩ := List.length_eq_three.mp hlength
  obtain ⟨⟨_, ha⟩, -⟩ := hsees 0 _ a rfl rfl
  obtain ⟨⟨_, hb⟩, -⟩ := hsees 1 _ b rfl rfl
  obtain ⟨⟨_, hc⟩, -⟩ := hsees 2 _ c rfl rfl
  cases ha
  cases hb
  cases hc
  rfl

/-- A READ of an empty file that asks for an integer under an edit descriptor for reals ends with that
fault, and not with the end of the file. -/
theorem unsuited_item_outranks_end :
    Completes (do
        discard (statement .connect {} {} (openUnit .old .asIs (some "a") {}))
        FormattedRead.perform { looks := [.integer { kind := .f, width := some 1 } .k4] })
      { system := { files := { nodes := [{ content := [] }], names := [(["a"], 0)] } }
        unit := .new 10 256 } fun out _ =>
      out = ([.integer none], .format) ∧ lines [] = [] ∧ out.2 ≠ .endOfFile := by
  have hopen : statement .connect {} {} (openUnit .old .asIs (some "a") {})
      { system := { files := { nodes := [{ content := [] }], names := [(["a"], 0)] } }
        unit := .new 10 256 } = .ok (true, .ok)
      { system := { files := { nodes := [{ content := [] }], names := [(["a"], 0)] } }
        unit := { number := 10, readChunk := 256, attachment := .ofFile "a" 0 } } := by
    cbv
  refine Ends.bind (Completes.of_run hopen).discard ?_
  rintro _ _ ⟨_, -, rfl⟩
  exact ⟨rfl, rfl, by decide⟩

end Session

end DataTransfer
