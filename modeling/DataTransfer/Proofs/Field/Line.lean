import Mathlib.Data.List.TakeWhile
import DataTransfer.Field.Line
import DataTransfer.Proofs.Field.ListField

/-!
Fields of a record in memory. A recognizer is told the characters of one field, which the record and the
edit descriptor determine; where it ends in the record, the cursor stands. Only a record of fixed length
that ends within the field is not read like that.
-/

namespace DataTransfer.Line

open DataTransfer.Field FieldSource

/-- The cursor has moved from that of `start`, and these characters are left. -/
def Faces (start : Line) (cs : List Char) (line : Line) : Prop :=
  ∃ taken : List Char, start.rest = taken ++ cs ∧ line = start.moveBy taken.length

variable (edit : DataEdit) (line : Line)

/-- What stands between the cursor and the field: blanks and tabs if it is list-directed. -/
def margin : List Char :=
  if edit.budget.isNone then line.rest.takeWhile fun c => IsBlank c else []

/-- The characters of the field: as many as its width, or fewer if the record ends. A list-directed field
is the longest run without separators. -/
def field : List Char :=
  match edit.budget with
  | some width => line.rest.take width
  | none => (line.rest.dropWhile fun c => IsBlank c).takeWhile fun c =>
      !isSeparator c edit.modes.decimalComma

def behind (count : ℕ) : Line := line.moveBy ((line.margin edit).length + count : ℕ)

def cutsField : Bool :=
  edit.budget.any ((line.field edit).length < ·) &&
    (line.behind edit (line.field edit).length).connection.pastFixedRecord

variable {edit line}

theorem Faces.refl (line : Line) : line.Faces line.rest line :=
  ⟨[], rfl, (moveBy_zero).symm⟩

theorem Faces.rest_eq {start : Line} {cs : List Char} (h : start.Faces cs line) : line.rest = cs := by
  obtain ⟨taken, hrest, rfl⟩ := h
  rw [rest_moveBy, hrest, List.drop_left]

theorem leaves (start : Line) : Leaves start.Faces where
  current {cs s} h := by
    have hhead : s.text[s.connection.position]? = cs.head? := by rw [← head?_rest, h.rest_eq]
    exact ⟨hhead, h⟩
  move {c cs s} h := by
    obtain ⟨taken, hrest, rfl⟩ := h
    refine ⟨taken ++ [c], by rw [hrest, List.append_assoc]; rfl, ?_⟩
    rw [List.length_append, List.length_singleton]
    exact moveBy_moveBy taken.length 1
  length_le_reach {cs s} h := by
    rw [← h.rest_eq, rest, List.length_drop, Array.length_toList]
    exact Nat.sub_le _ _

theorem rest_eq_append (edit : DataEdit) (line : Line) :
    ∃ after, line.rest = line.margin edit ++ (line.field edit ++ after) ∧
      ∀ c ∈ after.head?,
        if edit.budget.isNone then isSeparator c edit.modes.decimalComma = true
        else edit.budget = some (line.field edit).length := by
  unfold margin field
  cases hbudget : edit.budget with
  | some width =>
    refine ⟨line.rest.drop width, by simp, fun c hc => ?_⟩
    have hlong : width < line.rest.length := by
      by_contra hle
      rw [List.drop_eq_nil_of_le (not_lt.mp hle)] at hc
      cases hc
    simp [hlong.le]
  | none =>
    refine ⟨(line.rest.dropWhile fun c => IsBlank c).dropWhile fun c =>
      !isSeparator c edit.modes.decimalComma, ?_, fun c hc => ?_⟩
    · rw [List.takeWhile_append_dropWhile]
      exact (List.takeWhile_append_dropWhile).symm
    · simpa using head?_dropWhile_eq_false c hc

theorem field_within (edit : DataEdit) (line : Line) :
    Within edit.modes edit.budget (line.field edit) := by
  unfold field Within
  cases edit.budget with
  | some width => exact List.length_take_le _ _
  | none =>
    intro c hc
    simpa using List.mem_takeWhile_imp hc

theorem Faces.eq_behind {after left : List Char} {s : Line}
    (hrest : line.rest = line.margin edit ++ (line.field edit ++ after))
    (hleft : left.length ≤ (line.field edit).length) (h : line.Faces (left ++ after) s) :
    s = line.behind edit ((line.field edit).length - left.length) := by
  obtain ⟨taken, htaken, rfl⟩ := h
  have hlength := congrArg List.length (hrest.symm.trans htaken)
  simp only [List.length_append] at hlength
  rw [behind]
  congr 2
  omega

variable {τ ρ : Type} {r : Recognizer τ ρ} {result : ρ}

theorem run_attempts {after : List Char} {Q : ρ × Option ℕ → Line → Prop} {R : Fault → Line → Prop}
    (hrest : line.rest = line.margin edit ++ (line.field edit ++ after))
    (h : ∀ n s, (line.field edit).length < n → line.Faces (line.field edit ++ after) s →
      Attempts (r.runIn edit.modes n .leading edit.budget) s Q R) :
    Attempts (r.run edit) line Q R := by
  have hfaces : line.Faces (line.margin edit ++ (line.field edit ++ after)) line :=
    hrest ▸ Faces.refl line
  unfold Recognizer.run
  by_cases hnone : edit.budget.isNone = true
  · rw [if_pos hnone]
    have hmargin : line.margin edit = line.rest.takeWhile fun c => IsBlank c := if_pos hnone
    have hblanks : ∀ c ∈ line.margin edit, IsBlank c := fun c hc => by
      rw [hmargin] at hc
      simpa using List.mem_takeWhile_imp hc
    have hdrop : line.field edit ++ after = line.rest.dropWhile fun c => IsBlank c := by
      have hsplit := List.takeWhile_append_dropWhile (p := fun c => decide (IsBlank c)) (l := line.rest)
      rw [← hmargin] at hsplit
      exact List.append_cancel_left (hrest.symm.trans hsplit.symm)
    have hhead : ∀ c ∈ (line.field edit ++ after).head?, ¬ IsBlank c := by
      rw [hdrop]
      exact fun c hc => of_decide_eq_false (head?_dropWhile_eq_false c hc)
    apply Attempts.bind
      (Succeeds.lift ((leaves line).skipBlanks_completes hblanks hhead hfaces)).attempts
    intro _ s hs
    have hreach := (leaves line).length_le_reach hs
    rw [List.length_append] at hreach
    refine (attempts_get _).mpr (h _ s ?_ hs)
    rw [Option.isNone_iff_eq_none.mp hnone]
    exact Nat.lt_succ_of_le (by omega)
  · rw [if_neg hnone]
    have hmargin : line.margin edit = [] := if_neg hnone
    rw [hmargin, List.nil_append] at hfaces
    refine (attempts_get _).mpr (h _ line ?_ hfaces)
    have hwithin := field_within edit line
    cases hbudget : edit.budget with
    | none => exact absurd (by rw [hbudget]; rfl) hnone
    | some width =>
      rw [hbudget] at hwithin
      exact Nat.lt_succ_of_le hwithin

theorem run_of_left {left : List Char}
    (hreading : r.reading .leading (line.field edit) = (result, some left)) :
    r.run edit line =
      .ok (.ok (result, edit.budget.map (· - ((line.field edit).length - left.length))))
        (line.behind edit ((line.field edit).length - left.length)) := by
  obtain ⟨after, hrest, -⟩ := rest_eq_append edit line
  refine (attempts_iff_run _).mp (run_attempts hrest fun n s hn hs => ?_)
  refine ((leaves line).runIn_of_left (field_within edit line) hreading hn.le hs).mono ?_
    fun _ _ => False.elim
  rintro _ t ⟨rfl, ht⟩
  refine ⟨rfl, ht.eq_behind hrest ?_⟩
  obtain ⟨taken, c, hsplit⟩ := Recognizer.reading_left hreading
  rw [hsplit, List.length_append, List.length_cons]
  omega

theorem next_at_end {modes : Modes} {width : ℕ} (hend : line.rest = [])
    (hadvancing : line.connection.nonAdvancing = false)
    (hpad : line.connection.fixedLength = true → modes.pad = false) :
    next (some (width + 1)) modes line =
      .ok (if line.connection.pastFixedRecord then .error .recordReadOverrun
        else .ok (none, some (width + 1))) line := by
  have hcurrent : (FieldSource.current : Act Line _) line = .ok none line := by
    change EStateM.Result.ok line.text[line.connection.position]? line = _
    rw [← head?_rest, hend, List.head?_nil]
  refine (attempt_bind_eq (attempt_lift_eq hcurrent)).trans ?_
  change (if !line.connection.pastFixedRecord then _ else _ : Attempt Line _) line = _
  cases hpast : line.connection.pastFixedRecord with
  | false => rfl
  | true =>
    have hfixed : line.connection.fixedLength = true := by
      simp only [Connection.pastFixedRecord, Bool.and_eq_true] at hpast
      exact hpast.1.2
    have hconnection : FieldSource.connection line = line.connection := rfl
    simp only [hconnection, hpad hfixed, hadvancing, Bool.not_true, Bool.false_eq_true, if_false,
      if_true]
    rfl

theorem next_behind {after : List Char} {s : Line}
    (hadvancing : line.connection.nonAdvancing = false)
    (hpad : line.connection.fixedLength = true → edit.modes.pad = false)
    (hrest : line.rest = line.margin edit ++ (line.field edit ++ after))
    (hafter : ∀ c ∈ after.head?,
      if edit.budget.isNone then isSeparator c edit.modes.decimalComma = true
      else edit.budget = some (line.field edit).length)
    (hs : line.Faces after s) :
    next (edit.budget.map (· - (line.field edit).length)) edit.modes s =
      .ok (if line.cutsField edit then .error .recordReadOverrun
        else .ok (none, edit.budget.map (· - (line.field edit).length)))
        (line.behind edit (line.field edit).length) := by
  have hbehind {t : Line} (ht : line.Faces ([] ++ after) t) :
      t = line.behind edit (line.field edit).length :=
    ht.eq_behind hrest (Nat.zero_le _)
  unfold cutsField
  cases hbudget : edit.budget with
  | none =>
    simp only [hbudget, Option.isNone_none, if_true] at hafter
    refine (attempts_iff_run (.ok (none, none))).mp
      (((leaves line).next_of_separator hafter hs).mono ?_ fun _ _ => False.elim)
    rintro _ t ⟨rfl, ht⟩
    exact ⟨rfl, hbehind ht⟩
  | some width =>
    have hwithin := field_within edit line
    rw [hbudget] at hwithin
    rw [← hbehind hs]
    rcases Nat.eq_or_lt_of_le hwithin with heq | hlt
    · simp only [heq, Option.map_some, Nat.sub_self, Option.any_some, lt_irrefl, decide_false,
        Bool.false_and, Bool.false_eq_true, if_false]
      rfl
    · have hnil : after = [] := by
        rw [← List.head?_eq_none_iff, Option.eq_none_iff_forall_not_mem]
        intro c hc
        have hfull := hafter c hc
        simp only [hbudget, Option.isNone_some, Bool.false_eq_true, if_false, Option.some.injEq] at hfull
        omega
      obtain ⟨left, rfl⟩ : ∃ left, width = (line.field edit).length + (left + 1) :=
        ⟨width - (line.field edit).length - 1, by omega⟩
      simp only [Option.map_some, Nat.add_sub_cancel_left, Option.any_some, hlt, decide_true,
        Bool.true_and]
      rw [hnil] at hs
      have hconnection : s.connection.fixedLength = line.connection.fixedLength ∧
          s.connection.nonAdvancing = line.connection.nonAdvancing := by
        obtain ⟨_, -, rfl⟩ := hs
        exact ⟨rfl, rfl⟩
      exact next_at_end hs.rest_eq (hconnection.2.trans hadvancing) (hconnection.1 ▸ hpad)

/-- A recognizer that has not seen enough has its result at the end of the field, unless this is not all
of the field. -/
theorem run_of_end (hadvancing : line.connection.nonAdvancing = false)
    (hpad : line.connection.fixedLength = true → edit.modes.pad = false)
    (hreading : r.reading .leading (line.field edit) = (result, none)) :
    r.run edit line =
      .ok (if line.cutsField edit then .error .recordReadOverrun
        else .ok (result, edit.budget.map (· - (line.field edit).length)))
        (line.behind edit (line.field edit).length) := by
  obtain ⟨after, hrest, hafter⟩ := rest_eq_append edit line
  have hnext (t : Line) (ht : line.Faces after t) :=
    (attempts_iff_run _).mpr (next_behind hadvancing hpad hrest hafter ht)
  refine (attempts_iff_run _).mp (run_attempts hrest fun n s hn hs => ?_)
  -- Behind the field the source is asked once more, and what it says there is kept in `Q` and `R`.
  refine ((leaves line).runIn_of_end
    (Q := fun u => line.cutsField edit = false ∧ u = line.behind edit (line.field edit).length)
    (R := fun f u => line.cutsField edit = true ∧ f = .recordReadOverrun ∧
      u = line.behind edit (line.field edit).length)
    (field_within edit line) hreading hn (fun t ht => (hnext t ht).mono ?_ ?_) hs).mono ?_ ?_
  · rintro _ u ⟨hout, rfl⟩
    cases hcuts : line.cutsField edit with
    | false =>
      rw [hcuts] at hout
      exact ⟨Except.ok.inj hout, rfl, rfl⟩
    | true =>
      rw [hcuts] at hout
      cases hout
  · rintro _ u ⟨hout, rfl⟩
    cases hcuts : line.cutsField edit with
    | false =>
      rw [hcuts] at hout
      cases hout
    | true =>
      rw [hcuts] at hout
      exact ⟨rfl, Except.error.inj hout, rfl⟩
  · rintro _ u ⟨rfl, hcuts, rfl⟩
    rw [hcuts]
    exact ⟨rfl, rfl⟩
  · rintro _ u ⟨hcuts, rfl, rfl⟩
    rw [hcuts]
    exact ⟨rfl, rfl⟩

theorem checkRecordEnd_of_advancing (hadvancing : line.connection.nonAdvancing = false)
    (budget : Option ℕ) : (checkRecordEnd budget : Act Line Unit) line = .ok () line := by
  have hconnection : FieldSource.connection line = line.connection := rfl
  refine (get_bind_run _ line).trans ?_
  rw [if_neg]
  · rfl
  · rw [hconnection, hadvancing, Bool.and_false]
    exact Bool.false_ne_true

end DataTransfer.Line
