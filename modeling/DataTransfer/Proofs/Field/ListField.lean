import DataTransfer.Proofs.Field.IntegerText
import DataTransfer.Proofs.Field.Reading

/-!
List-directed fields on any source, told by the characters that are left of a record. A field ends with
the record or before a separator.
-/

namespace DataTransfer

open FieldSource

variable {σ : Type} [FieldSource σ]

def Field.IsBlank (c : Char) : Prop := c = ' ' ∨ c = '\t'

instance : DecidablePred Field.IsBlank := fun _ => inferInstanceAs (Decidable (_ ∨ _))

namespace FieldSource.Leaves

variable {At : List Char → σ → Prop} (hAt : Leaves At) {s : σ} {n : ℕ} {cs : List Char}
include hAt

theorem skipBlanksIn_completes {blanks : List Char} (hblanks : ∀ c ∈ blanks, Field.IsBlank c)
    (hcs : ∀ c ∈ cs.head?, ¬ Field.IsBlank c) (hn : blanks.length < n) (h : At (blanks ++ cs) s) :
    Completes (Field.skipBlanksIn n) s fun _ t => At cs t := by
  induction n generalizing s blanks with
  | zero => omega
  | succ n ih =>
    apply Ends.bind (hAt.current h)
    rintro _ t ⟨rfl, ht⟩
    cases blanks with
    | nil =>
      cases cs with
      | nil => exact ht
      | cons c cs =>
        have hc : ¬ (c = ' ' || c = '\t') = true := by
          simpa [Field.IsBlank] using hcs c rfl
        rw [List.nil_append] at ht ⊢
        dsimp only [List.head?_cons]
        rw [if_neg hc]
        exact ht
    | cons b blanks =>
      obtain ⟨hb, hblanks⟩ := List.forall_mem_cons.mp hblanks
      have hb' : (b = ' ' || b = '\t') = true := by simpa [Field.IsBlank] using hb
      dsimp only [List.cons_append, List.head?_cons]
      rw [if_pos hb']
      apply Ends.bind (hAt.move ht)
      intro _ u hu
      exact ih hblanks (by simpa using hn) hu

theorem skipBlanks_completes {blanks : List Char} (hblanks : ∀ c ∈ blanks, Field.IsBlank c)
    (hcs : ∀ c ∈ cs.head?, ¬ Field.IsBlank c) (h : At (blanks ++ cs) s) :
    Completes Field.skipBlanks s fun _ t => At cs t := by
  have hreach := hAt.length_le_reach h
  rw [List.length_append] at hreach
  exact hAt.skipBlanksIn_completes hblanks hcs (show _ < reach s + 1 by omega) h

/-- A recognizer that takes all of a field is told nothing else. -/
theorem runIn_succeeds {τ ρ : Type} (r : Recognizer τ ρ) {modes : Modes}
    {state : Recognizer.State τ} {result : ρ}
    {field : List Char} (hfield : ∀ c ∈ field, Field.isSeparator c modes.decimalComma = false)
    (hcs : ∀ c ∈ cs.head?, Field.isSeparator c modes.decimalComma = true)
    (hresult : r.onList state field = (result, [])) (hn : field.length < n) (h : At (field ++ cs) s) :
    Succeeds (r.runIn modes n state none) s fun out t => out = (result, none) ∧ At cs t := by
  have hwithin : Field.Within modes none field := hfield
  rw [Recognizer.onList_eq_reading] at hresult
  cases hreading : r.reading state field with
  | mk result' left =>
    rw [hreading] at hresult
    obtain ⟨rfl, hleft⟩ := (Prod.mk.injEq _ _ _ _).mp hresult
    cases left with
    | none =>
      have hend (t : σ) (ht : At cs t) := hAt.next_of_separator hcs ht
      exact hAt.runIn_of_end hwithin hreading hn hend h
    | some left =>
      obtain rfl : left = [] := hleft
      exact hAt.runIn_of_left hwithin hreading hn.le h

/-- A list-directed INTEGER item takes its field, which may be empty, and stops before what separates
it from the next one. -/
theorem editInteger_succeeds {edit : DataEdit} (hedit : edit.kind = .listDirected)
    (kind : IntegerKind) {field : List Char} {n : Field.ScannedInteger}
    (hfield : ∀ c ∈ field, Field.isSeparator c edit.modes.decimalComma = false)
    (hcs : ∀ c ∈ cs.head?, Field.isSeparator c edit.modes.decimalComma = true)
    (hhead : ∀ c ∈ (field ++ cs).head?, ¬ Field.IsBlank c)
    (hresult : (Field.integerRecognizer 10 edit.modes.blankZero).onList .leading field = (.ok n, []))
    (h : At (field ++ cs) s) :
    Succeeds (Field.editInteger edit kind.bytes) s fun v t => v = kind.narrow n.pattern ∧ At cs t := by
  have hbudget : edit.budget = none := by
    rw [DataEdit.budget, DataEdit.isListDirected, hedit]
    rfl
  have hrun : Succeeds ((Field.integerRecognizer 10 edit.modes.blankZero).run edit) s fun out t =>
      out = (.ok n, none) ∧ At cs t := by
    rw [Recognizer.run, hbudget]
    have hnone : ∀ c ∈ ([] : List Char), Field.IsBlank c := nofun
    refine Attempts.bind (Succeeds.lift (hAt.skipBlanks_completes hnone hhead h)) ?_
    intro _ t ht
    have hreach := hAt.length_le_reach ht
    rw [List.length_append] at hreach
    exact (attempts_get _).mpr
      (hAt.runIn_succeeds _ hfield hcs hresult (show _ < reach t + 1 by omega) ht)
  have hbase : edit.kind.integerBase? = some 10 := by rw [hedit]; rfl
  simp only [Field.editInteger, IntegerKind.ofBytes?_bytes, hbase]
  refine Attempts.bind (P := fun m t => m = n ∧ At cs t) ?_ ?_
  · apply Attempts.bind hrun
    rintro _ t ⟨rfl, ht⟩
    exact ⟨rfl, ht⟩
  · rintro _ t ⟨rfl, ht⟩
    exact ⟨rfl, ht⟩

end FieldSource.Leaves

end DataTransfer
