import DataTransfer.Proofs.Field.TrailingBlanks
import DataTransfer.Proofs.Unit.RecordReads

/-!
Fields of a READ that advances where their record ends in them. A record of fixed length goes on as
blanks, or the READ has run over its end; a line ends the field, whatever PAD= says.
-/

namespace DataTransfer

inductive Fault.OfField : Fault → Prop
  | badDigit (c : Char) : OfField (.badDigit c)
  | badEditDescriptor (descriptor : String) (item : ItemType) :
    OfField (.badEditDescriptor descriptor item)
  | trailingCharacters (c : Char) (item : ItemType) : OfField (.trailingCharacters c item)
  | badRealInput : OfField .badRealInput

namespace Recognizer

variable {τ ρ : Type} (r : Recognizer τ ρ)

theorem reading_result {P : ρ → Prop}
    (hstart : ∀ {negative c out}, r.start negative c = .done out → P out)
    (hstep : ∀ {t c out}, r.step t c = .done out → P out) (hempty : ∀ negative, P (r.empty negative))
    (hfinish : ∀ t, P (r.finish t)) (state : State τ) (text : List Char) :
    P (r.reading state text).1 := by
  have hbody {next : Step τ ρ} {out : ρ} (hout : ∀ result, next = .done result → P result)
      (h : inBody next = .done out) : P out := by
    cases next with
    | more t => cases h
    | done result =>
      cases h
      exact hout _ rfl
  induction text generalizing state with
  | nil =>
    cases state with
    | leading => exact hempty false
    | signed negative => exact hempty negative
    | body t => exact hfinish t
  | cons c text ih =>
    rw [reading]
    cases hfeed : r.feed state c with
    | more next => exact ih next
    | done out =>
      cases state with
      | leading =>
        rw [feed] at hfeed
        split_ifs at hfeed
        exact hbody (fun _ => hstart) hfeed
      | signed negative => exact hbody (fun _ => hstart) hfeed
      | body t => exact hbody (fun _ => hstep) hfeed

end Recognizer

namespace Field

theorem reading_integer_error {base : ℕ} {blankZero : Bool} {text : List Char} {f : Fault}
    (h : ((integerRecognizer base blankZero).reading .leading text).1 = .error f) :
    f.OfField := by
  have hpush {n : ScannedInteger} {c : Char} {out : Except Fault ScannedInteger}
      (hout : ScannedInteger.push base blankZero n c = .done out) :
      ∀ f, out = .error f → f.OfField := by
    rintro f rfl
    grind [ScannedInteger.push, Fault.OfField]
  refine (integerRecognizer base blankZero).reading_result
    (P := fun out => ∀ f, out = .error f → f.OfField) hpush hpush ?_ ?_ _ text f h
  · rintro negative f ⟨⟩
  · rintro n f ⟨⟩

theorem RealRules.reading_error {rules : RealRules} {text : List Char} {f : Fault}
    (h : (rules.recognizer.reading .leading text).1 = .error f) : f.OfField := by
  refine rules.recognizer.reading_result (P := fun out => ∀ f, out = .error f → f.OfField)
    ?_ ?_ nofun ?_ _ text f h
  · rintro negative c _ hstart f rfl
    replace hstart : rules.start negative c = .done (.error f) := hstart
    grind [start, pushMantissa, beginExponent, pushExponent, trail, Fault.OfField]
  · rintro phase c _ hstep f rfl
    replace hstep : rules.step phase c = .done (.error f) := hstep
    cases phase <;>
      grind [step, pushMantissa, beginExponent, pushExponent, trail, pushWord, Fault.OfField]
  · intro phase f hfinish
    replace hfinish : rules.finish phase = .error f := hfinish
    cases phase <;> grind [finish, Fault.OfField]

end Field

namespace NumericItem

open DataTransfer.Field

variable (item : NumericItem) {cs : List Char} {width : ℕ} {closes : Bool}

def decimal : NumericItem → Bool
  | .integer _ _ => false
  | .real edit _ => !edit.kind.isBitPattern

theorem reading_error {f : Fault} (h : (item.reading cs).1 = .error f) : f.OfField := by
  cases item with
  | integer edit kind =>
    rw [reading] at h
    split at h
    · cases h
      exact .badEditDescriptor _ _
    · exact reading_integer_error (map_eq_error.mp h)
  | real edit kind =>
    rw [reading] at h
    dsimp only at h
    split_ifs at h
    · exact reading_integer_error (map_eq_error.mp h)
    · exact RealRules.reading_error (map_eq_error.mp h)
    · cases h
      exact .badEditDescriptor _ _

/-- Only characters at fault keep a field from being looked at to its end. -/
theorem exists_error_of_stopped {unread : List Char} (h : (item.reading cs).2 = some unread) :
    ∃ f, (item.reading cs).1 = .error f := by
  have herror {τ α β : Type} {r : Recognizer τ (Except Fault α)} (hr : r.ReadsOn) (g : α → β)
      (hstop : (r.reading .leading cs).2 = some unread) :
      ∃ f, (r.reading .leading cs).1.map g = .error f := by
    cases hreading : r.reading .leading cs with
    | mk result left =>
      cases result with
      | error f => exact ⟨f, rfl⟩
      | ok a =>
        rw [hreading, hr.left_eq_none hreading] at hstop
        cases hstop
  cases item with
  | integer edit kind =>
    rw [reading] at h ⊢
    cases hbase : edit.kind.integerBase? with
    | none => exact ⟨_, rfl⟩
    | some base =>
      rw [hbase] at h
      exact herror integerRecognizer_readsOn _ h
  | real edit kind =>
    rw [reading] at h ⊢
    dsimp only at h ⊢
    split_ifs at h ⊢
    · exact herror integerRecognizer_readsOn _ h
    · exact herror RealRules.readsOn _ h
    · exact ⟨_, rfl⟩

theorem reading_blanks (hsign : item.decimal = true → endsBehindSign cs = false) (n : ℕ) :
    Padded item.edit.modes.blankZero (item.reading cs).1
      (item.reading (cs ++ List.replicate n '0')).1 (item.reading (cs ++ List.replicate n ' ')).1 := by
  cases item with
  | integer edit kind =>
    rw [reading, reading, reading]
    cases hbase : edit.kind.integerBase? with
    | none => exact .inl rfl
    | some base => exact (integer_padded (integerBase?_pos hbase) _ n).map _
  | real edit kind =>
    rw [reading, reading, reading]
    dsimp only
    split_ifs with hbits
    · have hbase : 0 < edit.kind.integerBase?.getD 16 := by
        cases edit.kind <;> decide
      exact (integer_padded hbase _ n).map _
    · have hdecimal : (NumericItem.real edit kind).decimal = true := by
        simp [decimal, hbits]
      exact (RealRules.padded _ (hsign hdecimal) n).map _
    · exact .inl rfl

end NumericItem

namespace Session

variable {R : InputRecord} {h : Handler} {position width : ℕ} {s : Session}

/-- An item is given this value, or none and this fault as the status of its statement, which ends the
program where nothing receives it. -/
def Tells (h : Handler) (found : Except Fault NumericValue)
    (act : Act Session (Option NumericValue)) (s : Session) : Prop :=
  match found with
  | .ok value => Completes act s fun out t => out = some value ∧ t.handler = h
  | .error f =>
    if h.declared.receivesError then
      Completes act s fun out t => out = none ∧ t.handler.status = f.iostat
    else Ends act s (fun _ _ => False) fun c _ => c = h.source.crash f.message

theorem tells_of_left {At : Handler → List Char → Session → Prop}
    (hhandler : ∀ {h cs t}, At h cs t → t.handler = h) (hstatus : h.status = .ok)
    {rest : List Char} {room : ℕ} {found : Except Fault NumericValue}
    {act : Act Session (Option NumericValue)}
    (hact : Ends act s (Left At h rest room (found.map some))
      fun c _ => ∃ f, found.map some = .error f ∧ h.fault f = .error c) : Tells h found act s := by
  cases found with
  | ok value =>
    refine hact.mono ?_ ?_
    · rintro _ t ⟨rfl, ht⟩
      exact ⟨rfl, hhandler ht⟩
    · rintro c _ ⟨f, hfound, -⟩
      cases hfound
  | error f =>
    unfold Tells
    dsimp only
    split_ifs with hreceives
    · refine hact.mono ?_ ?_
      · rintro _ t ⟨rfl, _, _, hfault, -, ht⟩
        exact ⟨rfl, by rw [hhandler ht, Handler.status_of_fault_of_ok hstatus hfault]⟩
      · rintro c _ ⟨f', hfound, hcrash⟩
        obtain ⟨_, hfault, -⟩ := h.fault_received f hreceives
        cases hfound
        cases hfault.symm.trans hcrash
    · have hcrash : h.fault f = .error (h.source.crash f.message) := if_neg hreceives
      refine hact.mono ?_ ?_
      · rintro _ t ⟨-, _, _, hfault, -⟩
        cases hfault.symm.trans hcrash
      · rintro c _ ⟨f', hfound, hcrash'⟩
        cases hfound
        exact Except.error.inj (hcrash'.symm.trans hcrash)

end Session

namespace NumericItem

/-- What an item finds in a READ that advances, where `cs` is left of its record. -/
def told (item : NumericItem) (width : ℕ) (closes : Bool) (cs : List Char) :
    Except Fault NumericValue :=
  if width ≤ cs.length then (item.reading (cs.take width)).1
  else if closes && item.edit.modes.pad then
    (item.reading (cs ++ List.replicate (width - cs.length) ' ')).1
  else if closes && (item.reading cs).2.isNone then .error .recordReadOverrun
  else (item.reading cs).1

theorem finds_advancing (item : NumericItem) (width : ℕ) (closes : Bool) (cs : List Char) :
    item.finds width ⟨closes, false⟩ cs = (item.told width closes cs).map some := by
  unfold finds Field.found told
  simp only [Bool.not_false, Bool.and_true, Bool.false_eq_true, if_false]
  split_ifs <;> rfl

end NumericItem

namespace Session

variable {R : InputRecord} {h : Handler} {position width : ℕ} {s : Session}

theorem Reads.input_tells (hs : Reads R false h position s) (hstatus : h.status = .ok)
    (item : NumericItem) (hwidth : item.edit.budget = some width) :
    Tells h (item.told width (R.closes position) (R.charsFrom position)) item.input s := by
  have hends := item.input_ends (Remains.readFaces R position false) hwidth hs.remains hstatus nofun
  rw [InputRecord.endFrom, item.finds_advancing] at hends
  exact tells_of_left (fun ⟨_, _, ht⟩ => ht.handler_eq) hstatus hends

/-- A field that goes on behind its record. At the end of a record of fixed length without padding the
READ has run over it, unless the characters that are there are at fault; with padding they are followed
by blanks. Where a line ends, or the file before the length of the record, the field ends, padded or
not. -/
theorem Reads.short_field_tells (hs : Reads R false h position s) (hstatus : h.status = .ok)
    (item : NumericItem) (hwidth : item.edit.budget = some width)
    (hshort : (R.charsFrom position).length < width) :
    (R.closes position = true → item.edit.modes.pad = false →
      if (item.reading (R.charsFrom position)).2 = none then
        Tells h (.error .recordReadOverrun) item.input s
      else ∃ f, f.OfField ∧ (item.reading (R.charsFrom position)).1 = .error f ∧
        Tells h (.error f) item.input s) ∧
    (item.edit.modes.pad = true ∨ R.closes position = false →
      ∃ found, (∀ f, found = .error f → f.OfField) ∧
        found = (item.reading (if R.closes position then
            R.charsFrom position ++ List.replicate (width - (R.charsFrom position).length) ' '
          else R.charsFrom position)).1 ∧
        Tells h found item.input s) := by
  have htells := hs.input_tells hstatus item hwidth
  rw [NumericItem.told, if_neg hshort.not_ge] at htells
  constructor
  · intro hcloses hpad
    rw [hcloses, hpad, Bool.and_false, Bool.true_and, if_neg Bool.false_ne_true] at htells
    split_ifs with hstopped
    · rwa [hstopped, Option.isNone_none, if_pos rfl] at htells
    · obtain ⟨unread, hunread⟩ := Option.ne_none_iff_exists'.mp hstopped
      obtain ⟨f, hf⟩ := item.exists_error_of_stopped hunread
      rw [hunread, Option.isNone_some, if_neg Bool.false_ne_true, hf] at htells
      exact ⟨f, item.reading_error hf, hf, htells⟩
  · intro hplain
    refine ⟨_, fun f hf => item.reading_error hf, rfl, ?_⟩
    cases hcloses : R.closes position with
    | false => simpa [hcloses] using htells
    | true =>
      have hpad : item.edit.modes.pad = true := hplain.resolve_right (by simp [hcloses])
      simpa [hcloses, hpad] using htells

theorem exists_reads (hsource : R.source = .file ⟨onlyFile R.content, .ofFile "a" 0⟩)
    (hbefore : R.before = []) (hnumber : R.number = 1) (hend : R.endRecord = none) (r : Receivers) :
    ∃ s, Reads R false (.starting {} r) 0 s := by
  obtain ⟨-, t, -, ht⟩ :=
    ((onOnlyFile_inRecord hsource hbefore hnumber hend).begin_completes {} r).exists_run
  exact ⟨_, ht⟩

theorem short_field_tells_two_columns : ∃ s,
    Reads twoColumns false (.starting {} { iostat := true }) 0 s ∧
    Tells (.starting {} { iostat := true }) (.error .recordReadOverrun)
      (columns 4 { pad := false }).input s ∧
    Tells (.starting {} { iostat := true }) (.ok (.integer 12)) (columns 4 {}).input s := by
  obtain ⟨s, hs⟩ := exists_reads (R := twoColumns) rfl rfl rfl rfl { iostat := true }
  have hshort : (twoColumns.charsFrom 0).length < 4 := by decide
  refine ⟨s, hs, (hs.short_field_tells rfl (columns 4 { pad := false }) rfl hshort).1 rfl rfl, ?_⟩
  obtain ⟨_, -, rfl, htells⟩ := (hs.short_field_tells rfl (columns 4 {}) rfl hshort).2 (.inl rfl)
  exact htells

/-- A line of two columns is no less than the field of four columns wants, and neither is a record of
three columns of which the file holds two, padded or not. -/
theorem short_record_without_padding :
    Completes (do
        discard (openOnlyFile {})
        readItems {} { iostat := true } false [columns 4 { pad := false }])
      { system := onlyFile [49, 50, 10], unit := .new 10 256 }
      (fun out _ => out = ([some (.integer 12)], .ok)) ∧
    Completes (do
        discard (openOnlyFile { recordLength := some 3 })
        readItems {} { iostat := true } false [columns 4 { pad := false }])
      { system := onlyFile [49, 50], unit := .new 10 256 }
      (fun out _ => out = ([some (.integer 12)], .ok)) :=
  ⟨openOnlyFile_bind rfl, openOnlyFile_bind rfl⟩

/-- A padded field of a record of fixed length and the same field of a line with the same text. What the
one tells the other does, except that blanks behind the record may be zeros; these make no error. -/
theorem Reads.padded_field_alike {R' : InputRecord} {h' : Handler} {s' : Session}
    (hs : Reads R false h position s) (hs' : Reads R' false h' position s')
    (hfixed : R.form.recordLength = some R.text.length) (hlines : R'.form.recordLength = none)
    (htext : R'.text = R.text) (hstatus : h.status = .ok) (hstatus' : h'.status = .ok)
    (item : NumericItem) (hwidth : item.edit.budget = some width)
    (hpad : item.edit.modes.pad = true)
    (hsign : item.decimal = true → (R.charsFrom position).length < width →
      Field.endsBehindSign (R.charsFrom position) = false) :
    ∃ found found', Tells h found item.input s ∧ Tells h' found' item.input s' ∧
      (found = found' ∨ item.edit.modes.blankZero = true ∧ (R.charsFrom position).length < width ∧
        found = (item.reading (R.charsFrom position ++
          List.replicate (width - (R.charsFrom position).length) '0')).1 ∧
        ∀ f, found = .error f ↔ found' = .error f) := by
  have hcloses : R.closes position = true := by
    simp [InputRecord.closes, hfixed]
  have hcloses' : R'.closes position = false := by
    simp [InputRecord.closes, hlines]
  have hchars : R'.charsFrom position = R.charsFrom position := by
    rw [InputRecord.charsFrom, InputRecord.charsFrom, htext]
  refine ⟨_, _, hs.input_tells hstatus item hwidth, hs'.input_tells hstatus' item hwidth, ?_⟩
  rw [hcloses, hcloses', hchars, NumericItem.told, NumericItem.told, hpad]
  rcases Nat.lt_or_ge (R.charsFrom position).length width with hshort | hfits
  · simp only [if_neg hshort.not_ge, Bool.true_and, Bool.false_and, if_true, Bool.false_eq_true,
      if_false]
    rcases item.reading_blanks (hsign · hshort) _ with hsame | ⟨hzero, hzeros, herror⟩
    · exact .inl hsame
    · exact .inr ⟨hzero, hshort, hzeros, herror⟩
  · exact .inl (by rw [if_pos hfits, if_pos hfits])

theorem padded_field_alike_zeros : ∃ s s',
    Reads twoColumns false (.starting {} { iostat := true }) 0 s ∧
    Reads twoColumnLine false (.starting {} { iostat := true }) 0 s' ∧
    ∃ found found',
      Tells (.starting {} { iostat := true }) found (columns 4 { blankZero := true }).input s ∧
      Tells (.starting {} { iostat := true }) found' (columns 4 { blankZero := true }).input s' ∧
      (found = found' ∨ found = .ok (.integer 1200) ∧ ∀ f, found = .error f ↔ found' = .error f) := by
  obtain ⟨s, hs⟩ := exists_reads (R := twoColumns) rfl rfl rfl rfl { iostat := true }
  obtain ⟨s', hs'⟩ := exists_reads (R := twoColumnLine) rfl rfl rfl rfl { iostat := true }
  obtain ⟨found, found', htells, htells', hsame⟩ := hs.padded_field_alike hs' rfl rfl rfl rfl rfl
    (columns 4 { blankZero := true }) rfl rfl nofun
  refine ⟨s, s', hs, hs', found, found', htells, htells', hsame.imp_right ?_⟩
  rintro ⟨-, -, rfl, herror⟩
  exact ⟨rfl, herror⟩

/-- Blanks that are zeros are supplied behind a record of fixed length alone, and blanks behind a sign
are no number. -/
theorem padded_field_differs :
    (Completes (do
          discard (openOnlyFile { recordLength := some 2 })
          readItems {} { iostat := true } false [columns 4 { blankZero := true }])
        { system := onlyFile [49, 50], unit := .new 10 256 }
        (fun out _ => out = ([some (.integer 1200)], .ok)) ∧
      Completes (do
          discard (openOnlyFile {})
          readItems {} { iostat := true } false [columns 4 { blankZero := true }])
        { system := onlyFile [49, 50, 10], unit := .new 10 256 }
        (fun out _ => out = ([some (.integer 12)], .ok))) ∧
    (Completes (do
          discard (openOnlyFile { recordLength := some 1 })
          readItems {} { iostat := true } false
            [.real { kind := .f, width := some 2, digits := some 0 } ⟨4, rfl⟩])
        { system := onlyFile [43], unit := .new 10 256 }
        (fun out _ => out.2 = .badRealInput) ∧
      Completes (do
          discard (openOnlyFile {})
          readItems {} { iostat := true } false
            [.real { kind := .f, width := some 2, digits := some 0 } ⟨4, rfl⟩])
        { system := onlyFile [43, 10], unit := .new 10 256 }
        (fun out _ => out.2 = .ok)) :=
  ⟨⟨openOnlyFile_bind rfl, openOnlyFile_bind rfl⟩, openOnlyFile_bind rfl, openOnlyFile_bind rfl⟩

end Session

end DataTransfer
