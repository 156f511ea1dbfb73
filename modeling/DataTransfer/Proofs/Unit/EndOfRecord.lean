import DataTransfer.Proofs.Unit.PaddedFields

/-!
READs that do not advance, at the end of their record. A field that wants more characters than the record
has left ends its READ with the end of the record, and the READ that follows starts in the next record.
Only blanks that are supplied behind a record of fixed length keep a unit there.
-/

namespace DataTransfer

namespace NumericItem

variable {item : NumericItem} {cs : List Char} {width : ℕ} {closes : Bool}

/-- The field has this width, and no blanks are supplied for it at an end of this kind. -/
structure Unpadded (item : NumericItem) (closes : Bool) (width : ℕ) : Prop where
  budget_eq : item.edit.budget = some width
  plain : (closes && item.edit.modes.pad) = false

/-- Behind the last character of the record, a READ that does not advance finds nothing but its end. -/
theorem Unpadded.finds_eq (h : item.Unpadded closes width) (hshort : cs.length < width) :
    item.finds width ⟨closes, true⟩ cs = (item.reading cs).1.map fun _ => none := by
  unfold finds Field.found
  dsimp only
  rw [if_neg hshort.not_ge, h.plain, if_neg Bool.false_ne_true, Bool.not_true, Bool.and_false,
    Bool.false_and, if_neg Bool.false_ne_true]
  rfl

theorem reading_nil (h : item.suits = true) : ∃ value, (item.reading []).1 = .ok value := by
  cases item with
  | integer edit kind =>
    rw [reading]
    cases hbase : edit.kind.integerBase? with
    | none =>
      rw [suits, hbase] at h
      cases h
    | some base => exact ⟨_, rfl⟩
  | real edit kind =>
    rw [reading]
    dsimp only
    split_ifs with hbits hdecimal
    · exact ⟨_, rfl⟩
    · exact ⟨_, rfl⟩
    · rw [suits, Bool.eq_false_iff.mpr hbits, Bool.eq_false_iff.mpr hdecimal] at h
      cases h

/-- The status of a READ that does not advance, where such a field goes on behind these characters. -/
def endStatus (item : NumericItem) (cs : List Char) : Iostat :=
  match (item.reading cs).1 with
  | .ok _ => .endOfRecord
  | .error f => f.iostat

theorem endStatus_ne_ok (item : NumericItem) (cs : List Char) : item.endStatus cs ≠ .ok := by
  unfold endStatus
  cases (item.reading cs).1 with
  | ok value => nofun
  | error f => exact f.iostat_ne_ok

end NumericItem

namespace Session

variable {R : InputRecord} {nonAdvancing : Bool} {h : Handler} {position column width : ℕ}
variable {s : Session} {item : NumericItem}

theorem Reads.items_of_condition (hs : Reads R nonAdvancing h position s) (hstatus : h.status ≠ .ok)
    (items : List NumericItem) : Completes (items.mapM NumericItem.input) s fun found t =>
      found = items.map (fun _ => none) ∧ t = s := by
  refine Ends.mapM_map (I := fun _ t => t = s) (fun _ item _ t ht => ?_) rfl
  rw [ht]
  exact item.input_of_condition (Remains.readFaces R position nonAdvancing) hs.remains hstatus

theorem Reads.input_past_end (hs : Reads R true h column s) (hstatus : h.status = .ok)
    (hreceives : h.declared.receivesError = true) (hitem : item.Unpadded (R.closes column) width)
    (hshort : (R.charsFrom column).length < width) :
    Completes item.input s fun out t => out = none ∧ ∃ h' column',
      h'.status = item.endStatus (R.charsFrom column) ∧ Reads R true h' column' t := by
  refine (item.input_completes (Remains.readFaces R column true) hitem.budget_eq hs.remains hstatus
    (.inl hreceives)).mono ?_ fun _ _ => id
  intro out t ht
  rw [InputRecord.endFrom, hitem.finds_eq hshort] at ht
  unfold NumericItem.endStatus
  cases hreading : (item.reading (R.charsFrom column)).1 with
  | ok value =>
    rw [hreading] at ht
    obtain ⟨rfl, taken, -, ht⟩ := ht
    exact ⟨rfl, _, _, Handler.status_record_of_ok (s := .endOfRecord) hstatus (by decide), ht⟩
  | error f =>
    rw [hreading] at ht
    obtain ⟨rfl, h', cs, hfault, -, taken, -, ht⟩ := ht
    exact ⟨rfl, _, _, Handler.status_of_fault_of_ok hstatus hfault, ht⟩

theorem InRecord.reads_past_end (hs : InRecord R position s) {source : SourceLine} {r : Receivers}
    (hr : r.receivesError = true) {earlier later : List NumericItem} {values : List NumericValue}
    (hearlier : R.Yields position earlier values column)
    (hitem : item.Unpadded (R.closes column) width) (hshort : (R.charsFrom column).length < width) :
    Completes (readItems source r true (earlier ++ item :: later)) s fun out t =>
      out = (values.map some ++ none :: later.map (fun _ => none),
          item.endStatus (R.charsFrom column)) ∧ ∃ column', EndsIn R true column' out.2 t := by
  refine hs.readItems_completes fun t ht => ?_
  rw [List.mapM_append]
  refine Ends.bind (ht.items_complete rfl hearlier) ?_
  rintro _ u ⟨rfl, hu⟩
  have hitems : Completes ((item :: later).mapM NumericItem.input) u fun found v =>
      found = none :: later.map (fun _ => none) ∧ ∃ h column',
        h.status = item.endStatus (R.charsFrom column) ∧ Reads R true h column' v := by
    rw [List.mapM_cons]
    refine Ends.bind (hu.input_past_end rfl hr hitem hshort) ?_
    rintro _ v ⟨rfl, h, column', hstatus, hv⟩
    refine Ends.bind (hv.items_of_condition (hstatus ▸ item.endStatus_ne_ok _) later) ?_
    rintro _ _ ⟨rfl, rfl⟩
    exact ⟨rfl, h, column', hstatus, hv⟩
  refine Ends.bind hitems ?_
  rintro _ v ⟨rfl, h, column', hstatus, hv⟩
  refine hv.finish_completes.mono ?_ fun _ _ => id
  rintro _ w ⟨rfl, hw⟩
  exact ⟨congrArg (Prod.mk _) hstatus, column', hw⟩

theorem InRecord.reads_padded (hs : InRecord R position s) {source : SourceLine} {r : Receivers}
    (hr : r.receivesError = true) {earlier : List NumericItem} {values : List NumericValue}
    (hearlier : R.Yields position earlier values column) (hwidth : item.edit.budget = some width)
    (hcloses : R.closes column = true) (hpad : item.edit.modes.pad = true)
    (hshort : (R.charsFrom column).length < width) {value : NumericValue}
    (hvalue : (item.reading (R.charsFrom column ++
      List.replicate (width - (R.charsFrom column).length) ' ')).1 = .ok value) :
    Completes (readItems source r true (earlier ++ [item])) s fun out t =>
      out = (values.map some ++ [some value], .ok) ∧
        ∃ column', R.charsFrom column' = [] ∧ InRecord R column' t := by
  refine hs.readItems_completes fun t ht => ?_
  rw [List.mapM_append]
  refine Ends.bind (ht.items_complete rfl hearlier) ?_
  rintro _ u ⟨rfl, hu⟩
  have hitem : Completes item.input u fun found v => found = some value ∧
      ∃ column', R.charsFrom column' = [] ∧ Reads R true (.starting source r) column' v := by
    refine (item.input_completes (Remains.readFaces R column true) hwidth hu.remains rfl
      (.inl hr)).mono ?_ fun _ _ => id
    intro found v hv
    rw [InputRecord.endFrom, NumericItem.finds, Field.found, if_neg hshort.not_ge, hcloses, hpad,
      if_pos (by rfl), hvalue, List.drop_of_length_le hshort.le] at hv
    obtain ⟨rfl, taken, htaken, hv⟩ := hv
    refine ⟨rfl, _, ?_, hv⟩
    rw [R.charsFrom_add, htaken, List.append_nil, List.drop_length]
  have hitems : Completes ([item].mapM NumericItem.input) u fun found v => found = [some value] ∧
      ∃ column', R.charsFrom column' = [] ∧ Reads R true (.starting source r) column' v := by
    rw [List.mapM_cons]
    refine Ends.bind hitem ?_
    rintro _ v ⟨rfl, hv⟩
    exact ⟨rfl, hv⟩
  refine Ends.bind hitems ?_
  rintro _ v ⟨rfl, column', hend, hv⟩
  refine hv.finish_completes.mono ?_ fun _ _ => id
  rintro _ w ⟨rfl, hw⟩
  exact ⟨rfl, column', hend, hw⟩

/-! ### READs on end -/

end Session

namespace NumericItem

/-- The field suits the item, has columns, and gets no blanks at an end of this kind. -/
structure Proceeds (item : NumericItem) (closes : Bool) : Prop where
  suits : item.suits = true
  unpadded : ∃ width, 0 < width ∧ item.Unpadded closes width

end NumericItem

namespace Session

def Proceeded (R : InputRecord) (closes : Bool) (left : ℕ) (s : Session) : Prop :=
  ∃ h position, Reads R true h position s ∧ h.declared.receivesError = true ∧
    R.closes position = closes ∧
      (h.status = .endOfRecord ∨ (R.charsFrom position).length < left)

theorem Remains.proceeded {R : InputRecord} {h : Handler} {position left : ℕ} {cs : List Char}
    {s : Session} (hs : Remains R position true h cs s) (hreceives : h.declared.receivesError = true)
    (hleft : h.status = .endOfRecord ∨ cs.length < left) :
    Proceeded R (R.closes position) left s := by
  obtain ⟨taken, hcs, hs⟩ := hs
  have hchars : R.charsFrom (position + taken.length) = cs := by
    rw [R.charsFrom_add, hcs, List.drop_left]
  have hlength := congrArg List.length hcs
  rw [R.length_charsFrom, List.length_append] at hlength
  refine ⟨h, _, hs, hreceives, ?_, by rwa [hchars]⟩
  have hmax : max (position + taken.length) R.text.length = max position R.text.length := by omega
  rw [InputRecord.closes, InputRecord.closes, hmax]

variable {R : InputRecord} {h : Handler} {position left : ℕ} {s : Session} {closes : Bool}

theorem Reads.item_proceeds (hs : Reads R true h position s) (hstatus : h.status = .ok)
    (hreceives : h.declared.receivesError = true) {item : NumericItem}
    (hitem : item.Proceeds (R.closes position)) :
    Completes item.input s fun _ t =>
      Proceeded R (R.closes position) (R.charsFrom position).length t := by
  obtain ⟨width, hwidth, hunpadded⟩ := hitem.unpadded
  refine (item.input_completes (Remains.readFaces R position true) hunpadded.budget_eq hs.remains
    hstatus (.inl hreceives)).mono ?_ fun _ _ => id
  intro out t ht
  rw [item.room_of_suits hitem.suits] at ht
  have hfault {f : Fault} (hlength : 0 < (R.charsFrom position).length)
      (ht : Left (Remains R position true) h ((R.charsFrom position).drop width)
        ((R.charsFrom position).length - min 1 width) (.error f) out t) :
      Proceeded R (R.closes position) (R.charsFrom position).length t := by
    obtain ⟨-, h', cs, hfault, hroom, ht⟩ := ht
    obtain ⟨_, hsame, hdeclared, -⟩ := h.fault_received f hreceives
    obtain rfl := Except.ok.inj (hfault.symm.trans hsame)
    exact ht.proceeded (by rwa [hdeclared]) (.inr (by omega))
  rcases Nat.lt_or_ge (R.charsFrom position).length width with hshort | hfits
  · rw [InputRecord.endFrom, hunpadded.finds_eq hshort] at ht
    cases hreading : (item.reading (R.charsFrom position)).1 with
    | ok value =>
      rw [hreading] at ht
      exact ht.2.proceeded (by rwa [Handler.record_declared])
        (.inl (Handler.status_record_of_ok hstatus (by decide)))
    | error f =>
      rw [hreading] at ht
      refine hfault (List.length_pos_iff.mpr fun hnil => ?_) ht
      obtain ⟨value, hvalue⟩ := item.reading_nil hitem.suits
      rw [hnil, hvalue] at hreading
      cases hreading
  · rw [NumericItem.finds, Field.found, if_pos hfits] at ht
    cases hreading : (item.reading ((R.charsFrom position).take width)).1 with
    | error f =>
      rw [hreading] at ht
      exact hfault (by omega) ht
    | ok value =>
      rw [hreading] at ht
      exact ht.2.proceeded hreceives (.inr (by rw [List.length_drop]; omega))

theorem Proceeded.items_proceed (hs : Proceeded R closes left s) {items : List NumericItem}
    (hitems : ∀ item ∈ items, item.Proceeds closes) :
    Completes (items.mapM NumericItem.input) s fun _ t => Proceeded R closes left t := by
  refine Ends.mapM_invariant (fun item hmem t ht => ?_) hs
  obtain ⟨h, position, hreads, hreceives, rfl, hleft⟩ := ht
  by_cases hstatus : h.status = .ok
  · have hfewer : (R.charsFrom position).length < left := by
      refine hleft.resolve_left ?_
      rw [hstatus]
      nofun
    refine (hreads.item_proceeds hstatus hreceives (hitems item hmem)).mono ?_ fun _ _ => id
    rintro _ u ⟨h', column, hu, hreceives', hcloses, hleft'⟩
    exact ⟨h', column, hu, hreceives', hcloses, hleft'.imp_right (·.trans hfewer)⟩
  · refine (item.input_of_condition (Remains.readFaces R position true) hreads.remains
      hstatus).mono ?_ fun _ _ => id
    rintro _ _ ⟨-, rfl⟩
    exact ⟨h, position, hreads, hreceives, rfl, hleft⟩

/-- A READ leaves its record, or leaves fewer characters of it. -/
theorem InRecord.read_proceeds (hs : InRecord R position s) (source : SourceLine) {r : Receivers}
    (hr : r.receivesError = true) {items : List NumericItem} (hne : items ≠ [])
    (hitems : ∀ item ∈ items, item.Proceeds (R.closes position)) :
    Completes (readItems source r true items) s fun _ t => BehindRecord R t ∨
      ∃ column, R.closes column = R.closes position ∧
        (R.charsFrom column).length < (R.charsFrom position).length ∧ InRecord R column t := by
  refine hs.readItems_completes fun t ht => ?_
  obtain ⟨item, items, rfl⟩ := List.exists_cons_of_ne_nil hne
  have hproceeds : Completes ((item :: items).mapM NumericItem.input) t fun _ u =>
      Proceeded R (R.closes position) (R.charsFrom position).length u := by
    rw [List.mapM_cons]
    refine Ends.bind (ht.item_proceeds rfl hr (hitems item List.mem_cons_self)) fun _ u hu => ?_
    refine Ends.bind (hu.items_proceed fun item hmem => hitems item (List.mem_cons_of_mem _ hmem)) ?_
    exact fun _ v hv => hv
  refine hproceeds.mono ?_ fun _ _ => id
  rintro _ u ⟨h, column, hu, -, hcloses, hleft⟩
  refine hu.finish_completes.mono ?_ fun _ _ => id
  rintro _ v ⟨-, hv⟩
  unfold EndsIn at hv
  split_ifs at hv with hstays
  · exact .inr ⟨column, hcloses, hleft.resolve_left hstays.2, hv⟩
  · exact .inl hv

/-- No more READs stay in the record than it has characters left. -/
theorem InRecord.reads_leave (hs : InRecord R position s) {source : SourceLine} {r : Receivers}
    (hr : r.receivesError = true) {reads : List (List NumericItem)}
    (hreads : ∀ items ∈ reads, items ≠ [] ∧ ∀ item ∈ items, item.Proceeds (R.closes position))
    (hlength : (R.charsFrom position).length < reads.length) :
    ∃ count ≤ (R.charsFrom position).length + 1,
      Completes ((reads.take count).mapM (readItems source r true)) s fun _ t => BehindRecord R t := by
  induction reads generalizing s position with
  | nil => cases hlength
  | cons items reads ih =>
    obtain ⟨hne, hitems⟩ := hreads items List.mem_cons_self
    obtain ⟨out, t, hrun, ht⟩ := (hs.read_proceeds source hr hne hitems).exists_run
    rcases ht with ht | ⟨column, hcloses, hfewer, ht⟩
    · refine ⟨1, by omega, ?_⟩
      rw [List.take_succ_cons, List.take_zero, List.mapM_cons]
      refine Ends.bind (Completes.of_run hrun) ?_
      rintro _ _ ⟨-, rfl⟩
      exact ht
    · obtain ⟨count, hcount, hbehind⟩ := ih ht (by
          rw [hcloses]
          exact fun items hmem => hreads items (List.mem_cons_of_mem _ hmem)) (by
          rw [List.length_cons] at hlength
          omega)
      refine ⟨count + 1, by omega, ?_⟩
      rw [List.take_succ_cons, List.mapM_cons]
      refine Ends.bind (Completes.of_run hrun) ?_
      rintro _ _ ⟨-, rfl⟩
      refine Ends.bind hbehind ?_
      exact fun _ u hu => hu

/-- READs that do not advance, with fields that go on behind their record. Unless its characters are at
fault, such a READ has the end of the record as its status and leaves the unit at the first column of the
record that follows; so READs come to the end of the record, whatever fields they are made of. Behind a
record of fixed length a padded field is filled with blanks instead. -/
theorem InRecord.fields_past_end (hs : InRecord R position s) (source : SourceLine) {r : Receivers}
    (hr : r.receivesError = true) :
    (∀ (earlier later : List NumericItem) (item : NumericItem) (values : List NumericValue)
        (column width : ℕ), R.Yields position earlier values column →
        item.edit.budget = some width → (R.charsFrom column).length < width →
      ((R.closes column && item.edit.modes.pad) = false →
        Completes (readItems source r true (earlier ++ item :: later)) s fun out t =>
          out.1 = values.map some ++ none :: later.map (fun _ => none) ∧
          match (item.reading (R.charsFrom column)).1 with
          | .error f => out.2 = f.iostat
          | .ok _ => out.2 = .endOfRecord ∧ BehindRecord R t ∧
            ∀ R', R.Precedes R' → InRecord R' 0 t) ∧
      ((R.closes column && item.edit.modes.pad) = true →
        ∀ value, (item.reading (R.charsFrom column ++
            List.replicate (width - (R.charsFrom column).length) ' ')).1 = .ok value →
          Completes (readItems source r true (earlier ++ [item])) s fun out t =>
            out = (values.map some ++ [some value], .ok) ∧
              ∃ column', R.charsFrom column' = [] ∧ InRecord R column' t)) ∧
    ∀ reads : List (List NumericItem),
      (∀ items ∈ reads, items ≠ [] ∧ ∀ item ∈ items, item.Proceeds (R.closes position)) →
      (R.charsFrom position).length < reads.length →
        ∃ count ≤ (R.charsFrom position).length + 1,
          Completes ((reads.take count).mapM (readItems source r true)) s
            fun _ t => BehindRecord R t := by
  refine ⟨?_, fun reads hreads hlength => hs.reads_leave hr hreads hlength⟩
  intro earlier later item values column width hearlier hwidth hshort
  refine ⟨fun hplain => ?_, fun hpadded value hvalue => ?_⟩
  · refine (hs.reads_past_end hr hearlier ⟨hwidth, hplain⟩ hshort).mono ?_ fun _ _ => id
    rintro _ t ⟨rfl, column', ht⟩
    refine ⟨rfl, ?_⟩
    unfold NumericItem.endStatus at ht ⊢
    cases hreading : (item.reading (R.charsFrom column)).1 with
    | error f => rfl
    | ok value =>
      rw [hreading] at ht
      have hbehind : BehindRecord R t := (if_neg (by simp)).mp ht
      exact ⟨rfl, hbehind, fun R' hnext => hbehind.inRecord hnext⟩
  · obtain ⟨hcloses, hpad⟩ := Bool.and_eq_true_iff.mp hpadded
    exact hs.reads_padded hr hearlier hwidth hcloses hpad hshort hvalue

theorem fields_past_end_line : InRecord twoColumnLine 0 (onOnlyFile [49, 50, 10] {}) ∧
    Completes (readItems {} { iostat := true } true [columns 1 {}, columns 4 {}, columns 1 {}])
      (onOnlyFile [49, 50, 10] {}) (fun out t =>
        out = ([some (.integer 1), none, none], .endOfRecord) ∧ BehindRecord twoColumnLine t) ∧
    ∃ count ≤ 3, Completes
      (([[columns 1 {}], [columns 1 {}], [columns 1 {}]].take count).mapM
        (readItems {} { iostat := true } true))
      (onOnlyFile [49, 50, 10] {}) fun _ t => BehindRecord twoColumnLine t := by
  have hs : InRecord twoColumnLine 0 (onOnlyFile [49, 50, 10] {}) :=
    onOnlyFile_inRecord (R := twoColumnLine) rfl rfl rfl rfl
  have hyields : twoColumnLine.Yields 0 [columns 1 {}] [.integer 1] 1 :=
    .cons rfl (by decide) rfl .nil
  have hfields := hs.fields_past_end {} (r := { iostat := true }) rfl
  refine ⟨hs, ?_, hfields.2 _ ?_ (by decide)⟩
  · refine ((hfields.1 _ [columns 1 {}] (columns 4 {}) _ 1 4 hyields rfl (by decide)).1 rfl).mono ?_
      fun _ _ => id
    rintro _ t ⟨hout, hstatus, ht, -⟩
    exact ⟨Prod.ext hout hstatus, ht⟩
  · have hproceeds : (columns 1 {}).Proceeds (twoColumnLine.closes 0) := ⟨rfl, 1, by decide, rfl, rfl⟩
    simpa using hproceeds

/-- Two READs find a value behind a record of two columns, and no end of it. -/
theorem padded_fields_stay : Completes (do
      discard (openOnlyFile { recordLength := some 2 })
      let first ← readItems {} { iostat := true } true [columns 4 {}]
      return (first, ← readItems {} { iostat := true } true [columns 4 {}]))
    { system := onlyFile [49, 50], unit := .new 10 256 } fun out t =>
      out = (([some (.integer 12)], .ok), ([some (.integer 0)], .ok)) ∧
        t.unit.connection.record = 1 ∧ t.unit.connection.position = 2 :=
  openOnlyFile_bind ⟨rfl, rfl, rfl⟩

end Session

end DataTransfer
