import DataTransfer.Proofs.Field.DecimalText
import DataTransfer.Proofs.Outcome

/-!
What a recognizer does on any source, told by the characters that are left of a record. Within a field it
sees one character after the other, until it has seen enough; behind the last one the source says whether
the field ends there.
-/

namespace DataTransfer

theorem head?_dropWhile_eq_false {p : Char → Bool} {cs : List Char} :
    ∀ c ∈ (cs.dropWhile p).head?, p c = false := by
  intro c hc
  have hhead := List.head?_dropWhile_not p cs
  rw [Option.mem_def.mp hc] at hhead
  exact hhead

open FieldSource

variable {σ : Type} [FieldSource σ]

/-- What it means that these characters are left of the current record, from the cursor on. -/
structure FieldSource.Leaves (At : List Char → σ → Prop) : Prop where
  current : ∀ {cs s}, At cs s → Completes (current : Act σ _) s fun ch t => ch = cs.head? ∧ At cs t
  move : ∀ {c cs s}, At (c :: cs) s → Completes (moveBy 1 : Act σ _) s fun _ t => At cs t
  length_le_reach : ∀ {cs s}, At cs s → cs.length ≤ reach s

/-- These characters belong to one field: a list-directed one has no separators, another one has a
width. -/
def Field.Within (modes : Modes) (budget : Option ℕ) (cs : List Char) : Prop :=
  match budget with
  | none => ∀ c ∈ cs, Field.isSeparator c modes.decimalComma = false
  | some width => cs.length ≤ width

theorem Field.Within.uncons {modes : Modes} {budget : Option ℕ} {c : Char} {cs : List Char}
    (h : Within modes budget (c :: cs)) :
    Within modes budget [c] ∧ Within modes (budget.map (· - 1)) cs := by
  cases budget with
  | none =>
    obtain ⟨hc, hcs⟩ := List.forall_mem_cons.mp h
    exact ⟨by simpa [Within] using hc, hcs⟩
  | some width =>
    have hlength : cs.length + 1 ≤ width := h
    exact ⟨(by omega : 1 ≤ width), (by omega : cs.length ≤ width - 1)⟩

namespace Recognizer

variable {τ ρ : Type} (r : Recognizer τ ρ)

def reading (state : State τ) : List Char → ρ × Option (List Char)
  | [] => (r.atEnd state, none)
  | ch :: rest =>
    match r.feed state ch with
    | .more state => reading state rest
    | .done result => (result, some rest)

theorem onList_eq_reading (state : State τ) (cs : List Char) :
    r.onList state cs = ((r.reading state cs).1, (r.reading state cs).2.getD []) := by
  induction cs generalizing state with
  | nil => rfl
  | cons c cs ih =>
    rw [onList, reading]
    cases r.feed state c with
    | more state => exact ih state
    | done result => rfl

variable {r}

theorem reading_left {state : State τ} {cs left : List Char} {result : ρ}
    (h : r.reading state cs = (result, some left)) : ∃ taken c, cs = taken ++ c :: left := by
  induction cs generalizing state with
  | nil => cases h
  | cons c cs ih =>
    rw [reading] at h
    cases hstep : r.feed state c with
    | more state' =>
      rw [hstep] at h
      obtain ⟨taken, d, rfl⟩ := ih h
      exact ⟨c :: taken, d, rfl⟩
    | done result' =>
      rw [hstep] at h
      obtain ⟨-, rfl⟩ := (Prod.mk.injEq _ _ _ _).mp h |>.imp id Option.some.inj
      exact ⟨[], c, rfl⟩

variable (r) in
theorem reading_leading (cs : List Char) :
    r.reading .leading cs =
      r.reading (.signed (Decimal.takeSign (cs.dropWhile (· = ' '))).1)
        (Decimal.takeSign (cs.dropWhile (· = ' '))).2 := by
  induction cs with
  | nil => rfl
  | cons c cs ih =>
    by_cases hblank : c = ' '
    · rw [List.dropWhile_cons_of_pos (by simpa using hblank), ← ih, reading, feed, if_pos hblank]
    rw [List.dropWhile_cons_of_neg (by simpa using hblank), reading, feed, if_neg hblank]
    by_cases hminus : c = '-'
    · subst hminus
      rfl
    by_cases hplus : c = '+'
    · subst hplus
      rfl
    have hsign : Decimal.takeSign (c :: cs) = (false, c :: cs) := by
      apply Decimal.takeSign_of_ne
      simpa using ⟨hminus, hplus⟩
    rw [if_neg hminus, if_neg hplus, hsign, reading, feed]

end Recognizer

namespace FieldSource.Leaves

variable {At : List Char → σ → Prop} (hAt : Leaves At) {s : σ} {n : ℕ} {cs : List Char}
variable {modes : Modes} {budget : Option ℕ}
include hAt

theorem next_of_char {c : Char} (hc : Field.Within modes budget [c]) (h : At (c :: cs) s) :
    Succeeds (Field.next budget modes) s fun out t => out = (some c, budget.map (· - 1)) ∧ At cs t := by
  cases budget with
  | none =>
    have hseparator : Field.isSeparator c modes.decimalComma = false := hc c List.mem_cons_self
    apply Attempts.bind (Succeeds.lift (hAt.current h))
    rintro _ t ⟨rfl, ht⟩
    dsimp only [List.head?_cons]
    rw [if_neg (by rw [hseparator]; exact Bool.false_ne_true)]
    apply Attempts.bind (Succeeds.lift (hAt.move ht))
    intro _ u hu
    exact ⟨rfl, hu⟩
  | some width =>
    have hwidth : 1 ≤ width := hc
    obtain ⟨left, rfl⟩ := Nat.exists_eq_add_of_le' hwidth
    apply Attempts.bind (Succeeds.lift (hAt.current h))
    rintro _ t ⟨rfl, ht⟩
    apply Attempts.bind (Succeeds.lift (hAt.move ht))
    intro _ u hu
    exact ⟨rfl, hu⟩

theorem next_of_separator (hcs : ∀ c ∈ cs.head?, Field.isSeparator c modes.decimalComma = true)
    (h : At cs s) :
    Succeeds (Field.next none modes) s fun out t => out = (none, none) ∧ At cs t := by
  apply Attempts.bind (Succeeds.lift (hAt.current h))
  rintro _ t ⟨rfl, ht⟩
  cases cs with
  | nil => exact ⟨rfl, ht⟩
  | cons c cs =>
    dsimp only [List.head?_cons]
    rw [if_pos (hcs c rfl)]
    exact ⟨rfl, ht⟩

variable {τ ρ : Type} {r : Recognizer τ ρ} {state : Recognizer.State τ} {result : ρ}
variable {field left : List Char}

theorem runIn_of_left (hfield : Field.Within modes budget field)
    (hreading : r.reading state field = (result, some left)) (hn : field.length ≤ n)
    (h : At (field ++ cs) s) :
    Succeeds (r.runIn modes n state budget) s fun out t =>
      out = (result, budget.map (· - (field.length - left.length))) ∧ At (left ++ cs) t := by
  induction n generalizing s state field budget with
  | zero =>
    obtain ⟨taken, c, rfl⟩ := Recognizer.reading_left hreading
    rw [List.length_append, List.length_cons] at hn
    omega
  | succ n ih =>
    cases field with
    | nil => cases hreading
    | cons c field =>
      obtain ⟨hc, hrest⟩ := hfield.uncons
      apply Attempts.bind (hAt.next_of_char hc h)
      rintro _ t ⟨rfl, ht⟩
      rw [Recognizer.reading] at hreading
      dsimp only
      cases hstep : r.feed state c with
      | more state' =>
        rw [hstep] at hreading
        refine (ih hrest hreading (by simpa using hn) ht).mono ?_ fun _ _ => id
        rintro _ u ⟨rfl, hu⟩
        obtain ⟨taken, d, rfl⟩ := Recognizer.reading_left hreading
        refine ⟨?_, hu⟩
        rw [Option.map_map]
        congr 2
        funext width
        simp only [Function.comp_apply, List.length_append, List.length_cons]
        omega
      | done result' =>
        rw [hstep] at hreading
        obtain ⟨rfl, rfl⟩ := (Prod.mk.injEq _ _ _ _).mp hreading |>.imp id Option.some.inj
        refine ⟨?_, ht⟩
        rw [List.length_cons, Nat.add_sub_cancel_left]

theorem runIn_of_end {Q : σ → Prop} {R : Fault → σ → Prop} (hfield : Field.Within modes budget field)
    (hreading : r.reading state field = (result, none)) (hn : field.length < n)
    (hend : ∀ t, At cs t → Attempts (Field.next (budget.map (· - field.length)) modes) t
      (fun out u => out = (none, budget.map (· - field.length)) ∧ Q u) R)
    (h : At (field ++ cs) s) :
    Attempts (r.runIn modes n state budget) s
      (fun out u => out = (result, budget.map (· - field.length)) ∧ Q u) R := by
  induction n generalizing s state field budget with
  | zero => omega
  | succ n ih =>
    cases field with
    | nil =>
      obtain ⟨rfl, -⟩ := (Prod.mk.injEq _ _ _ _).mp hreading
      have hbudget : budget.map (· - ([] : List Char).length) = budget := by cases budget <;> rfl
      rw [hbudget] at hend ⊢
      refine Attempts.bind (hend s h) ?_
      rintro _ t ⟨rfl, ht⟩
      exact ⟨rfl, ht⟩
    | cons c field =>
      obtain ⟨hc, hrest⟩ := hfield.uncons
      have hbudget : (budget.map (· - 1)).map (· - field.length) =
          budget.map (· - (c :: field).length) := by
        rw [Option.map_map]
        congr 1
        funext width
        simp only [Function.comp_apply, List.length_cons]
        omega
      rw [Recognizer.reading] at hreading
      refine Attempts.bind (hAt.next_of_char hc h).attempts ?_
      rintro _ t ⟨rfl, ht⟩
      dsimp only
      cases hstep : r.feed state c with
      | more state' =>
        rw [hstep] at hreading
        rw [← hbudget] at hend ⊢
        exact ih hrest hreading (by simpa using hn) hend ht
      | done result' =>
        rw [hstep] at hreading
        cases hreading

/-- A field that has its width in the descriptor is all that a recognizer sees. -/
theorem run_of_width {edit : DataEdit} (hbudget : edit.budget = some field.length)
    (h : At (field ++ cs) s) :
    Succeeds (r.run edit) s fun out t => out.1 = (r.reading .leading field).1 ∧
      ((r.reading .leading field).2 = none → out.2 = some 0) ∧
      At ((r.reading .leading field).2.getD [] ++ cs) t := by
  have hwithin : Field.Within edit.modes (some field.length) field := le_refl field.length
  unfold Recognizer.run
  rw [hbudget, if_neg (by simp)]
  refine (attempts_get _).mpr ?_
  cases hreading : r.reading .leading field with
  | mk result left =>
    cases left with
    | some left =>
      refine (hAt.runIn_of_left hwithin hreading (Nat.le_succ _) h).mono ?_ fun _ _ => id
      rintro _ t ⟨rfl, ht⟩
      exact ⟨rfl, nofun, ht⟩
    | none =>
      refine (hAt.runIn_of_end (Q := At cs) (R := fun _ _ => False) hwithin hreading
        (Nat.lt_succ_self _) (fun t ht => ?_) h).mono ?_ fun _ _ => id
      · rw [Option.map_some, Nat.sub_self]
        exact ⟨rfl, ht⟩
      · rintro _ t ⟨rfl, ht⟩
        exact ⟨rfl, fun _ => by simp, ht⟩

end FieldSource.Leaves

end DataTransfer
