import Mathlib.Data.Nat.Notation
import Mathlib.Tactic.SplitIfs
import DataTransfer.Field.Real
import DataTransfer.Proofs.Simulation

/-!
Field editing on two sources side by side. It sees a source only through the character at the cursor,
so sources that agree in these give the same fields.
-/

namespace DataTransfer

open FieldSource

variable {σ τ : Type} [FieldSource σ] [FieldSource τ]

/-- A bound on the characters that are left, which a move over the one at the cursor lowers. -/
structure FieldSource.Measure (Rel : σ → τ → Prop) (left : τ → ℕ) : Prop where
  le_reach : ∀ s t, Rel s t → left t ≤ reach s ∧ left t ≤ reach t
  lt_of_move : ∀ s t, Rel s t → ∀ ch t' t'', (current : Act τ _) t = .ok (some ch) t' →
    (moveBy 1 : Act τ _) t' = .ok () t'' → left t'' < left t

/-- Two sources of the same characters. They know the same bound on these, or have one in common that
tells how many are left. -/
structure FieldSource.Alike (Rel : σ → τ → Prop) (mayEnd : Prop) : Prop where
  current : Simulates Rel mayEnd current current
  moveBy : ∀ n, Simulates Rel mayEnd (moveBy n) (moveBy n)
  endOfRecord : Simulates Rel mayEnd signalEndOfRecord signalEndOfRecord
  crash : ∀ {α : Type} (text : String), mayEnd → Simulates Rel mayEnd (crash text : Act σ α) (crash text)
  pastFixedRecord : ∀ s t, Rel s t →
    (connection s).pastFixedRecord = (connection t).pastFixedRecord
  nonAdvancing : ∀ s t, Rel s t → (connection s).nonAdvancing = (connection t).nonAdvancing
  measured : (∀ s t, Rel s t → reach s = reach t) ∨ ∃ left, Measure Rel left

/-- Rounds that are the same, or that are enough on either side. -/
def FieldSource.Rounds (Rel : σ → τ → Prop) (budget : Option ℕ) (m n : ℕ) (t : τ) : Prop :=
  m = n ∨ budget = none ∧ ∃ left, Measure Rel left ∧ left t < m ∧ left t < n

theorem Field.next_some {modes : Modes} {ch : Char} {budget : Option ℕ} {t t' : τ}
    (h : next none modes t = .ok (.ok (some ch, budget)) t') :
    budget = none ∧ ∃ u, (current : Act τ _) t = .ok (some ch) u ∧
      (moveBy 1 : Act τ _) u = .ok () t' := by
  unfold next at h
  obtain ⟨found, u, hcurrent, h⟩ := attempt_bind_inv h
  cases found with
  | none =>
    obtain ⟨h, -⟩ := attempt_pure_inv h
    cases h
  | some c =>
    dsimp only at h
    split_ifs at h
    · obtain ⟨h, -⟩ := attempt_pure_inv h
      cases h
    · obtain ⟨_, v, hmove, hpure⟩ := attempt_bind_inv h
      obtain ⟨hpair, rfl⟩ := attempt_pure_inv hpure
      cases hpair
      exact ⟨rfl, u, attempt_lift_inv hcurrent, attempt_lift_inv hmove⟩

namespace FieldSource

variable {Rel : σ → τ → Prop} {mayEnd : Prop} {budget : Option ℕ} {m n : ℕ}

theorem Rounds.zero_iff {t : τ} (h : Rounds Rel budget m n t) : m = 0 ↔ n = 0 := by
  obtain rfl | ⟨-, left, -, hm, hn⟩ := h
  · exact Iff.rfl
  · omega

theorem Rounds.exists_succ {t : τ} (h : Rounds Rel budget (m + 1) n t) : ∃ n', n = n' + 1 :=
  Nat.exists_eq_succ_of_ne_zero (mt h.zero_iff.mpr (Nat.succ_ne_zero m))

theorem Rounds.move {s : σ} {t t' t'' : τ} {ch : Char} (h : Rounds Rel none (m + 1) (n + 1) t)
    (hst : Rel s t) (hcurrent : (current : Act τ _) t = .ok (some ch) t')
    (hmove : (moveBy 1 : Act τ _) t' = .ok () t'') : Rounds Rel none m n t'' := by
  obtain hsame | ⟨-, left, hleft, hm, hn⟩ := h
  · exact .inl (Nat.succ.inj hsame)
  -- The two fuels differ; both stay above what is left of the characters.
  · have hlt := hleft.lt_of_move s t hst ch t' t'' hcurrent hmove
    exact .inr ⟨rfl, left, hleft, by omega, by omega⟩

theorem Rounds.next {modes : Modes} {s : σ} {t t' : τ} {ch : Char} {budget' : Option ℕ}
    (h : Rounds Rel budget (m + 1) (n + 1) t) (hst : Rel s t)
    (hnext : Field.next budget modes t = .ok (.ok (some ch, budget')) t') :
    Rounds Rel budget' m n t' := by
  cases budget with
  | none =>
    obtain ⟨rfl, u, hcurrent, hmove⟩ := Field.next_some hnext
    exact h.move hst hcurrent hmove
  | some width =>
    obtain hsame | ⟨hnone, -⟩ := h
    · exact .inl (Nat.succ.inj hsame)
    · cases hnone

namespace Alike

variable (h : Alike Rel mayEnd)
include h

theorem rounds (budget : Option ℕ) {s : σ} {t : τ} (hst : Rel s t) :
    Rounds Rel budget (Field.rounds budget s) (Field.rounds budget t) t := by
  cases budget with
  | some width => exact .inl rfl
  | none =>
    obtain hsame | ⟨left, hleft⟩ := h.measured
    · exact .inl (congrArg (· + 1) (hsame s t hst))
    · obtain ⟨hs, ht⟩ := hleft.le_reach s t hst
      exact .inr ⟨rfl, left, hleft, Nat.lt_succ_of_le hs, Nat.lt_succ_of_le ht⟩

theorem next (budget : Option ℕ) (modes : Modes) :
    Attempt.Simulates Rel mayEnd (Field.next budget modes) (Field.next budget modes) := by
  cases budget with
  | none =>
    refine (Attempt.Simulates.lift h.current).bind ?_
    rintro (_ | ch)
    · exact .pure _
    · dsimp only
      split_ifs
      · exact .pure _
      · exact (Attempt.Simulates.lift (h.moveBy 1)).bind fun _ => .pure _
  | some width =>
    cases width with
    | zero => exact .pure _
    | succ left =>
      refine (Attempt.Simulates.lift h.current).bind ?_
      rintro (_ | ch)
      · refine Attempt.Simulates.get_bind ?_
        intro s t hst
        dsimp only
        rw [h.pastFixedRecord s t hst, h.nonAdvancing s t hst]
        split_ifs
        · exact .ok _ hst
        · exact .ok _ hst
        · exact ((Attempt.Simulates.lift h.endOfRecord).bind fun _ => .pure _) s t hst
        · exact Attempt.Simulates.throw _ s t hst
      · exact (Attempt.Simulates.lift (h.moveBy 1)).bind fun _ => .pure _

theorem skipBlanksIn {s : σ} {t : τ} (hrounds : Rounds Rel none m n t) (hst : Rel s t) :
    Agree Rel mayEnd (Field.skipBlanksIn m s) (Field.skipBlanksIn n t) := by
  induction m generalizing n s t with
  | zero =>
    obtain rfl := hrounds.zero_iff.mp rfl
    exact .ok () hst
  | succ m ih =>
    obtain ⟨n, rfl⟩ := hrounds.exists_succ
    refine (h.current s t hst).bind ?_
    rintro (_ | ch) s' t' hcurrent hst'
    · exact .ok () hst'
    · dsimp only
      split_ifs
      · refine (h.moveBy 1 s' t' hst').bind ?_
        intro _ s'' t'' hmove hst''
        exact ih (hrounds.move hst hcurrent hmove) hst''
      · exact .ok () hst'

theorem skipBlanks : Simulates Rel mayEnd Field.skipBlanks Field.skipBlanks :=
  fun _ _ hst => h.skipBlanksIn (h.rounds none hst) hst

theorem takeCharsIn {s : σ} {t : τ} (hrounds : Rounds Rel none m n t) (hst : Rel s t) :
    Agree Rel mayEnd (Field.takeCharsIn m s) (Field.takeCharsIn n t) := by
  induction m generalizing n s t with
  | zero =>
    obtain rfl := hrounds.zero_iff.mp rfl
    exact .ok [] hst
  | succ m ih =>
    obtain ⟨n, rfl⟩ := hrounds.exists_succ
    refine (h.current s t hst).bind ?_
    rintro (_ | ch) s' t' hcurrent hst'
    · exact .ok [] hst'
    · refine (h.moveBy 1 s' t' hst').bind ?_
      intro _ s'' t'' hmove hst''
      refine (ih (hrounds.move hst hcurrent hmove) hst'').bind ?_
      intro rest _ _ _ hst
      exact .ok (ch :: rest) hst

theorem takeChars (limit : Option ℕ) :
    Simulates Rel mayEnd (Field.takeChars limit) (Field.takeChars limit) := by
  refine Simulates.get_bind ?_
  intro s t hst
  cases limit with
  | some count => exact h.takeCharsIn (.inl rfl) hst
  | none => exact h.takeCharsIn (h.rounds none hst) hst

theorem checkRecordEnd (budget : Option ℕ) :
    Simulates Rel mayEnd (Field.checkRecordEnd budget) (Field.checkRecordEnd budget) := by
  refine Simulates.get_bind ?_
  intro s t hst
  rw [h.nonAdvancing s t hst]
  split_ifs
  · exact h.endOfRecord s t hst
  · exact .ok () hst

section

variable {ρ φ : Type} (r : Recognizer φ ρ)

theorem runIn (modes : Modes) {state : Recognizer.State φ} {s : σ} {t : τ}
    (hrounds : Rounds Rel budget m n t) (hst : Rel s t) :
    Agree Rel mayEnd ((r.runIn modes m state budget).run s)
      ((r.runIn modes n state budget).run t) := by
  induction m generalizing n s t state budget with
  | zero =>
    obtain rfl := hrounds.zero_iff.mp rfl
    exact Attempt.Simulates.pure _ s t hst
  | succ m ih =>
    obtain ⟨n, rfl⟩ := hrounds.exists_succ
    refine Attempt.Simulates.agree_bind (h.next budget modes s t hst) ?_
    rintro ⟨_ | ch, budget'⟩ s' t' hnext hst'
    · exact Attempt.Simulates.pure _ s' t' hst'
    · dsimp only
      cases r.feed state ch with
      | more state' => exact ih (hrounds.next hst hnext) hst'
      | done result => exact Attempt.Simulates.pure _ s' t' hst'

theorem recognize (edit : DataEdit) :
    Attempt.Simulates Rel mayEnd (r.run edit) (r.run edit) := by
  have hrun : Attempt.Simulates Rel mayEnd
      (get >>= fun s => r.runIn edit.modes (Field.rounds edit.budget s) .leading edit.budget)
      (get >>= fun t => r.runIn edit.modes (Field.rounds edit.budget t) .leading edit.budget) :=
    Attempt.Simulates.get_bind fun _ _ hst => h.runIn r _ (h.rounds _ hst) hst
  unfold Recognizer.run
  split_ifs
  · exact (Attempt.Simulates.lift h.skipBlanks).bind fun _ => hrun
  · exact hrun

end

/-! ### Items -/

theorem scanInteger (edit : DataEdit) (base : ℕ) :
    Attempt.Simulates Rel mayEnd (Field.scanInteger edit base) (Field.scanInteger edit base) := by
  refine (h.recognize _ edit).bind ?_
  rintro ⟨result, left⟩
  refine (Attempt.Simulates.ofExcept result).bind fun n => ?_
  exact (Attempt.Simulates.lift (h.checkRecordEnd left)).bind fun _ => .pure n

theorem editInteger (edit : DataEdit) {kind : ℕ}
    (hkind : (IntegerKind.ofBytes? kind).isSome = true ∨ mayEnd) :
    Attempt.Simulates Rel mayEnd (Field.editInteger edit kind) (Field.editInteger edit kind) := by
  unfold Field.editInteger
  cases hk : IntegerKind.ofBytes? kind with
  | none =>
    rw [hk] at hkind
    exact .lift (h.crash _ (hkind.resolve_left Bool.false_ne_true))
  | some k =>
    cases edit.kind.integerBase? with
    | none => exact .throw _
    | some base => exact (h.scanInteger edit base).bind fun n => .pure _

theorem skipPayloadIn {s : σ} {t : τ} (hrounds : Rounds Rel none m n t) (hst : Rel s t) :
    Agree Rel mayEnd (Field.skipPayloadIn m s) (Field.skipPayloadIn n t) := by
  induction m generalizing n s t with
  | zero =>
    obtain rfl := hrounds.zero_iff.mp rfl
    exact .ok () hst
  | succ m ih =>
    obtain ⟨n, rfl⟩ := hrounds.exists_succ
    refine (h.current s t hst).bind ?_
    rintro (_ | ch) s' t' hcurrent hst'
    · exact .ok () hst'
    · refine (h.moveBy 1 s' t' hst').bind ?_
      intro _ s'' t'' hmove hst''
      split_ifs
      · exact .ok () hst''
      · exact ih (hrounds.move hst hcurrent hmove) hst''

theorem skipPayload : Simulates Rel mayEnd Field.skipPayload Field.skipPayload := by
  refine h.current.bind fun ch => ?_
  split_ifs
  · exact Simulates.get_bind fun _ _ hst => h.skipPayloadIn (h.rounds none hst) hst
  · exact .pure ()

theorem scanReal (edit : DataEdit) (maxDigits : ℕ) :
    Attempt.Simulates Rel mayEnd (Field.scanReal edit maxDigits) (Field.scanReal edit maxDigits) := by
  refine (h.recognize _ edit).bind ?_
  rintro ⟨result, left⟩
  refine (Attempt.Simulates.ofExcept result).bind fun scanned => ?_
  have hcheck : Attempt.Simulates Rel mayEnd
      (do (Field.checkRecordEnd left : Act σ _); pure scanned)
      (do (Field.checkRecordEnd left : Act τ _); pure scanned) :=
    (Attempt.Simulates.lift (h.checkRecordEnd left)).bind fun _ => .pure scanned
  dsimp only
  split
  · exact (Attempt.Simulates.lift h.skipPayload).bind fun _ => hcheck
  · exact hcheck

theorem editReal (p : Precision) (edit : DataEdit) :
    Attempt.Simulates Rel mayEnd (Field.editReal p edit) (Field.editReal p edit) := by
  unfold Field.editReal
  split_ifs
  · exact (h.scanInteger edit _).bind fun n => .pure _
  · exact (h.scanReal edit _).bind fun scanned => .pure _
  · exact .throw _

theorem editRealKind (edit : DataEdit) {kind : ℕ}
    (hkind : (Precision.ofKind? kind).isSome = true ∨ mayEnd) :
    Attempt.Simulates Rel mayEnd (Field.editRealKind edit kind) (Field.editRealKind edit kind) := by
  unfold Field.editRealKind
  cases hk : Precision.ofKind? kind with
  | none =>
    rw [hk] at hkind
    exact .lift (h.crash _ (hkind.resolve_left Bool.false_ne_true))
  | some p => exact (h.editReal p edit).bind fun c => .pure _

end Alike

end FieldSource

end DataTransfer
