import DataTransfer.Proofs.Unit.RecordReads
import DataTransfer.Proofs.Unit.SplitOutput

/-!
Input split over statements. READs that do not advance find what one READ finds of which they are the
items, and the READ behind them leaves the record as that one does. With the WRITEs: statements may be
split where the cursor is at the furthest column of its record.
-/

namespace DataTransfer

variable {R : InputRecord} {position column : ℕ}
variable {items later : List NumericItem} {values : List NumericValue}

theorem InputRecord.Yields.split (h : R.Yields position (items ++ later) values column) :
    ∃ found rest middle, values = found ++ rest ∧ R.Yields position items found middle ∧
      R.Yields middle later rest column := by
  induction items generalizing position values with
  | nil => exact ⟨[], values, position, rfl, .nil, h⟩
  | cons item items ih =>
    obtain _ | ⟨hwidth, hfits, hvalue, hrest⟩ := h
    obtain ⟨found, rest, middle, rfl, hfound, hlater⟩ := ih hrest
    exact ⟨_ :: found, rest, middle, rfl, .cons hwidth hfits hvalue hfound, hlater⟩

namespace Session

variable {nonAdvancing : Bool} {h : Handler} {s : Session} {source : SourceLine} {r : Receivers}

/-- Items that all come to a value within the record have found it there. -/
theorem Reads.yields (hs : Reads R nonAdvancing h position s) (hstatus : h.status = .ok)
    {widths : List ℕ} (hwidths : items.map (·.edit.budget) = widths.map some)
    (hfits : position + widths.sum ≤ R.text.length)
    (hfound : Completes (items.mapM NumericItem.input) s fun found _ => found = values.map some) :
    R.Yields position items values (position + widths.sum) := by
  induction items generalizing position s values widths with
  | nil =>
    obtain rfl : widths = [] := List.map_eq_nil_iff.mp hwidths.symm
    obtain rfl : values = [] := List.map_eq_nil_iff.mp (hfound : [] = values.map some).symm
    exact .nil
  | cons item items ih =>
    obtain _ | ⟨width, widths⟩ := widths
    · cases hwidths
    obtain ⟨hwidth, hrests⟩ := List.cons_eq_cons.mp hwidths
    rw [List.sum_cons, ← Nat.add_assoc] at hfits ⊢
    have hlength : width ≤ (R.charsFrom position).length := by
      rw [R.length_charsFrom]
      omega
    have hends := item.input_ends (Remains.readFaces R position nonAdvancing) hwidth hs.remains hstatus
      fun _ => .inr hlength
    rw [List.mapM_cons] at hfound
    obtain ⟨a, t, -, hrest, hleft⟩ := (hfound.of_bind.and hends).exists_run
    obtain ⟨others, u, hothers, hvalues⟩ := hrest.of_bind.exists_run
    have hcons : a :: others = values.map some := hvalues
    obtain _ | ⟨value, values⟩ := values
    · cases hcons
    obtain ⟨rfl, rfl⟩ := List.cons_eq_cons.mp hcons
    rw [NumericItem.finds, Field.found, if_pos hlength] at hleft
    cases hvalue : (item.reading ((R.charsFrom position).take width)).1 with
    | error f =>
      rw [hvalue] at hleft
      cases hleft.1
    | ok found =>
      rw [hvalue] at hleft
      obtain ⟨hsome, taken, htaken, ht⟩ := hleft
      obtain rfl := Option.some.inj hsome
      have hcount := congrArg List.length htaken
      rw [List.length_append, List.length_drop] at hcount
      obtain rfl : taken.length = width := by omega
      refine .cons hwidth (by omega) hvalue (ih ht hrests hfits ?_)
      exact (Completes.of_run hothers).mono (fun _ _ => And.left) fun _ _ => id

theorem InRecord.yields (hs : InRecord R position s) {widths : List ℕ}
    (hwidths : items.map (·.edit.budget) = widths.map some)
    (hfits : position + widths.sum ≤ R.text.length)
    (hread : Completes (readItems source r false items) s fun out _ => out.1 = values.map some) :
    R.Yields position items values (position + widths.sum) := by
  obtain ⟨_, t, -, hwork, ht⟩ :=
    ((statement_completes_inv hread).and (hs.begin_completes source r)).exists_run
  refine ht.yields rfl hwidths hfits (hwork.mono ?_ fun _ _ => id)
  intro found u hend
  obtain ⟨_, _, -, hfound⟩ := hend.exists_run
  exact hfound

/-- READs that do not advance, and one behind them that does. -/
def readPieces (source : SourceLine) (r : Receivers) (pieces : List (List NumericItem))
    (last : List NumericItem) : Act Session (List (List (Option NumericValue) × Iostat)) := do
  let early ← pieces.mapM (readItems source r true)
  return early ++ [← readItems source r false last]

theorem readPieces_nil (last : List NumericItem) :
    readPieces source r [] last = do return [← readItems source r false last] := rfl

theorem readPieces_cons (piece : List NumericItem) (pieces : List (List NumericItem))
    (last : List NumericItem) : readPieces source r (piece :: pieces) last = do
      let out ← readItems source r true piece
      return out :: (← readPieces source r pieces last) := by
  unfold readPieces
  simp only [List.mapM_cons, bind_assoc, pure_bind, List.cons_append]

theorem InRecord.split_completes (hs : InRecord R position s) (source : SourceLine) (r : Receivers)
    {pieces : List (List NumericItem)} {last : List NumericItem}
    (hyields : R.Yields position (pieces.flatten ++ last) values column) :
    Completes (readPieces source r pieces last) s fun out t =>
      (out.map Prod.fst).flatten = values.map some ∧ (∀ read ∈ out, read.2 = .ok) ∧
        BehindRecord R t := by
  induction pieces generalizing s position values with
  | nil =>
    rw [readPieces_nil]
    refine Ends.bind (hs.reads_values source r false hyields) ?_
    rintro _ t ⟨rfl, ht⟩
    exact ⟨List.append_nil _, by simp, (if_neg (by simp)).mp ht⟩
  | cons piece pieces ih =>
    rw [List.flatten_cons, List.append_assoc] at hyields
    obtain ⟨found, rest, middle, rfl, hfound, hrest⟩ := hyields.split
    rw [readPieces_cons]
    refine Ends.bind (hs.reads_values source r true hfound) ?_
    rintro _ t ⟨rfl, ht⟩
    refine Ends.bind (ih ((if_pos (by simp)).mp ht) hrest) ?_
    rintro out u ⟨hvalues, hstatus, hu⟩
    refine ⟨?_, ?_, hu⟩
    · rw [List.map_cons, List.flatten_cons, hvalues, List.map_append]
    · exact List.forall_mem_cons.mpr ⟨rfl, hstatus⟩

/-- Statements may be split. Where the cursor is at the furthest column of its record, WRITEs that do
not advance and one behind them leave the files and the unit where one WRITE of all the data leaves them,
or end the program as it does. Where one READ comes to values within its record, READs that do not
advance and one behind them come to the same values, and to the record that follows. -/
theorem split_statements (source : SourceLine) (r : Receivers) :
    (∀ (s : Session) (kind : StatementKind) (pieces : List (List Bytes)) (last : List Bytes),
      s.Level → kind.isWrite = true →
        Agree SamePlace True (writePieces kind source r pieces last s)
          ((discard (writeData kind source r false (pieces.flatten ++ last)) : Act Session PUnit) s)) ∧
    ∀ (R : InputRecord) (position : ℕ) (s : Session) (pieces : List (List NumericItem))
      (last : List NumericItem) (widths : List ℕ) (values : List NumericValue), InRecord R position s →
      (pieces.flatten ++ last).map (·.edit.budget) = widths.map some →
      position + widths.sum ≤ R.text.length →
      Completes (readItems source r false (pieces.flatten ++ last)) s
        (fun out _ => out.1 = values.map some) →
      Completes (readItems source r false (pieces.flatten ++ last)) s
        (fun out t => out.2 = .ok ∧ BehindRecord R t) ∧
      Completes (readPieces source r pieces last) s fun out t =>
        (out.map Prod.fst).flatten = values.map some ∧ (∀ read ∈ out, read.2 = .ok) ∧
          BehindRecord R t := by
  refine ⟨fun s kind pieces last hlevel hkind => hlevel.split_agree hkind source r pieces last, ?_⟩
  intro R position s pieces last widths values hs hwidths hfits hread
  have hyields := hs.yields hwidths hfits hread
  refine ⟨(hs.reads_values source r false hyields).mono ?_ fun _ _ => id,
    hs.split_completes source r hyields⟩
  rintro _ t ⟨rfl, ht⟩
  exact ⟨rfl, (if_neg (by simp)).mp ht⟩

theorem split_statements_columns : (onOnlyFile [49, 50, 10] {}).Level ∧
    Completes (writePieces (.formatted .output) {} {} [[[97], [98]], []] [[99]])
      (onOnlyFile [49, 50, 10] {}) (fun _ t => t.unit.offset = 4) ∧
    Agree SamePlace True
      (writePieces (.formatted .output) {} {} [[[97], [98]], []] [[99]] (onOnlyFile [49, 50, 10] {}))
      ((discard (writeData (.formatted .output) {} {} false [[97], [98], [99]]) : Act Session PUnit)
        (onOnlyFile [49, 50, 10] {})) ∧
    InRecord twoColumnLine 0 (onOnlyFile [49, 50, 10] {}) ∧
    Completes (readItems {} {} false [columns 1 {}, columns 1 {}]) (onOnlyFile [49, 50, 10] {})
      (fun out _ => out.1 = [some (.integer 1), some (.integer 2)]) ∧
    Completes (readPieces {} {} [[columns 1 {}], []] [columns 1 {}]) (onOnlyFile [49, 50, 10] {})
      fun out t => (out.map Prod.fst).flatten = [some (.integer 1), some (.integer 2)] ∧
        (∀ read ∈ out, read.2 = .ok) ∧ BehindRecord twoColumnLine t := by
  obtain ⟨hopened, -⟩ := opened_on_file (by decide) rfl (openOnlyFile_run [49, 50, 10] {}) rfl
  have hlevel := hopened.level
  have hs : InRecord twoColumnLine 0 (onOnlyFile [49, 50, 10] {}) :=
    onOnlyFile_inRecord (R := twoColumnLine) rfl rfl rfl rfl
  have hyields : twoColumnLine.Yields 0 [columns 1 {}, columns 1 {}] [.integer 1, .integer 2] 2 :=
    .cons rfl (by decide) rfl (.cons rfl (by decide) rfl .nil)
  have hread : Completes (readItems {} {} false [columns 1 {}, columns 1 {}])
      (onOnlyFile [49, 50, 10] {}) fun out _ => out.1 = [some (.integer 1), some (.integer 2)] := by
    refine (hs.reads_values {} {} false hyields).mono ?_ fun _ _ => id
    rintro _ t ⟨rfl, -⟩
    rfl
  have hsplit := split_statements {} {}
  have hagree := hsplit.1 _ (.formatted .output) [[[97], [98]], []] [[99]] hlevel rfl
  refine ⟨hlevel, ?_, hagree, hs, hread, ?_⟩
  · exact rfl
  exact (hsplit.2 twoColumnLine 0 _ [[columns 1 {}], []] [columns 1 {}] [1, 1]
    [.integer 1, .integer 2] hs rfl (by decide) hread).2

def behindColumns : Session :=
  { system := onlyFile [49, 50, 51, 52, 53, 54, 10]
    unit := { number := 10, attachment := .ofFile "a" 0
              connection := { recordLength := some 6, position := 3 }
              window := { offset := 2, bytes := [51, 52, 53, 54, 10] }
              located := true, terminator := 1, reading := true }
    handler := { declared := { iostat := true } }
    items := 1 }

def behindLine (bytes : Bytes) : Session :=
  { system := onlyFile [49, 50, 51, 52, 53, 54, 10]
    unit := { number := 10, attachment := .ofFile "a" 0
              connection := { recordLength := some 6, record := 2 }
              window := { bytes, dirty := some (0, bytes.length) }
              offset := bytes.length, terminator := 1 }
    handler := { declared := { iostat := true } } }

/-- Behind a READ that does not advance, the columns that are left of the cursor count as if nothing
stood there. A WRITE of nothing that does not advance goes back to the first of them, and one WRITE makes
them blank. -/
theorem split_after_read_differs :
    Completes (do
        discard (openOnlyFile {})
        readItems {} { iostat := true } true [columns 3 {}])
      { system := onlyFile [49, 50, 51, 52, 53, 54, 10], unit := .new 10 256 }
      (fun out t => out = ([some (.integer 123)], .ok) ∧ t = behindColumns) ∧
    Completes (do
        writePieces (.formatted .output) {} { iostat := true } [[]] [[88, 89]]
        statement .disconnect {} {} (closeUnit .keep)) behindColumns
      (fun _ t => t.system.files.contentOf? "a" = some [88, 89, 10, 52, 53, 54, 10]) ∧
    Completes (do
        discard (writeData (.formatted .output) {} { iostat := true } false [[88, 89]])
        statement .disconnect {} {} (closeUnit .keep)) behindColumns
      (fun _ t => t.system.files.contentOf? "a" = some [32, 32, 32, 88, 89, 10, 10]) := by
  have hread : readItems {} { iostat := true } true [columns 3 {}]
      (onOnlyFile [49, 50, 51, 52, 53, 54, 10] {}) = .ok ([some (.integer 123)], .ok) behindColumns := by
    rfl
  have hsplit : writePieces (.formatted .output) {} { iostat := true } [[]] [[88, 89]] behindColumns =
      .ok ⟨⟩ (behindLine [88, 89, 10]) := by rfl
  have hwhole : (discard (writeData (.formatted .output) {} { iostat := true } false [[88, 89]]) :
      Act Session PUnit) behindColumns = .ok ⟨⟩ (behindLine [32, 32, 32, 88, 89, 10]) := by rfl
  refine ⟨openOnlyFile_bind (Completes.of_run hread), ?_, ?_⟩
  · unfold Completes Ends
    rw [bind_run_eq hsplit]
    cbv
  · unfold Completes Ends
    rw [bind_run_eq hwhole]
    cbv

end Session

end DataTransfer
