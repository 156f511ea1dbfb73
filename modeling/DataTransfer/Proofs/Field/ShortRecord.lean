import DataTransfer.Field.Real
import DataTransfer.Proofs.Field.Scan
import DataTransfer.Proofs.Status.Handler

/-!
Fields that may want more characters than their record has left. What such a field finds is told by the
characters that are left and by the way the record ends: the field ends with them, or is filled with
blanks, or the READ has met the end of its record, or a fault.
-/

namespace DataTransfer

open FieldSource

theorem Field.integerRecognizer_readsOn {base : ℕ} {blankZero : Bool} :
    (integerRecognizer base blankZero).ReadsOn := by
  have hpush (n : ScannedInteger) (c : Char) (result : Except Fault ScannedInteger)
      (h : Recognizer.inBody (ScannedInteger.push base blankZero n c) = .done result) :
      ∃ f, result = .error f := by
    unfold ScannedInteger.push at h
    dsimp only at h
    split at h
    · cases h
    · split at h
      · cases h
      · cases h
        exact ⟨_, rfl⟩
  intro state c result h
  cases state with
  | leading =>
    rw [Recognizer.feed] at h
    split_ifs at h
    exact hpush _ _ _ h
  | signed negative => exact hpush _ _ _ h
  | body n => exact hpush _ _ _ h

/-- How a READ meets the end of its record. -/
structure RecordBoundary where
  /-- The record has its length from RECL=, and all of that length. -/
  fixed : Bool
  nonAdvancing : Bool
  deriving Repr, DecidableEq

namespace Field

variable {α β : Type}

/-- What a field of this width finds where `cs` is left of its record: a value, the end of the record,
or a fault. -/
def found (reading : List Char → Except Fault α × Option (List Char)) (width : ℕ) (pad : Bool)
    (e : RecordBoundary) (cs : List Char) : Except Fault (Option α) :=
  if width ≤ cs.length then (reading (cs.take width)).1.map some
  else if e.fixed && pad then
    (reading (cs ++ List.replicate (width - cs.length) ' ')).1.map some
  else if e.fixed && !e.nonAdvancing && (reading cs).2.isNone then .error .recordReadOverrun
  else (reading cs).1.map fun a => if e.nonAdvancing then none else some a

theorem found_map (f : α → β) (reading : List Char → Except Fault α × Option (List Char)) (width : ℕ)
    (pad : Bool) (e : RecordBoundary) (cs : List Char) :
    found (fun text => ((reading text).1.map f, (reading text).2)) width pad e cs =
      (found reading width pad e cs).map (Option.map f) := by
  unfold found
  dsimp only
  split_ifs
  · cases (reading (cs.take width)).1 <;> rfl
  · cases (reading (cs ++ List.replicate (width - cs.length) ' ')).1 <;> rfl
  · rfl
  · cases (reading cs).1 <;> rfl
  · cases (reading cs).1 <;> rfl

end Field

/-- What it means that these characters are left of a record with this end, for a statement with this
status. -/
structure FieldSource.Faces {σ : Type} [FieldSource σ] (At : Handler → List Char → σ → Prop)
    (e : RecordBoundary) : Prop where
  leaves : ∀ h, Leaves (At h)
  handler_eq : ∀ {h cs s}, At h cs s → handler s = h
  signalled : ∀ {h h' : Handler} {cs s}, At h cs s → h'.declared = h.declared →
    At h' cs (withHandler s h')
  pastFixedRecord : ∀ {h s}, At h [] s → (connection s).pastFixedRecord = e.fixed
  nonAdvancing : ∀ {h cs s}, At h cs s → (connection s).nonAdvancing = e.nonAdvancing

namespace FieldSource.Faces

variable {σ : Type} [FieldSource σ] {At : Handler → List Char → σ → Prop} {e : RecordBoundary}
variable (hAt : Faces At e) {h : Handler} {s : σ} {cs : List Char} {left : ℕ} {modes : Modes}
include hAt

theorem signalEndOfRecord_completes (hr : h.declared.receivesError = true) (hs : At h cs s) :
    Completes (signalEndOfRecord : Act σ Unit) s fun _ t => At (h.record .endOfRecord) cs t := by
  have hchange : (handler s).endOfRecord = .ok (h.record .endOfRecord) := by
    rw [hAt.handler_eq hs, Handler.endOfRecord_eq (Receivers.admits_of_receivesError hr _)]
  unfold Completes Ends signalEndOfRecord signal
  rw [hchange]
  exact hAt.signalled hs (h.record_declared _)

/-! ### Behind the last character -/

/-- There the end of the record decides. -/
theorem next_attempts {Q : Option Char × Option ℕ → σ → Prop} {R : Fault → σ → Prop}
    (hs : At h [] s) (hend : ∀ t, At h [] t → Attempts
      (if !e.fixed then pure (none, some (left + 1))
        else if modes.pad then pure (some ' ', some left)
        else if e.nonAdvancing then do
          (signalEndOfRecord : Act σ _)
          pure (none, some (left + 1))
        else throw .recordReadOverrun : Attempt σ (Option Char × Option ℕ)) t Q R) :
    Attempts (Field.next (some (left + 1)) modes) s Q R := by
  refine Attempts.bind (Succeeds.lift ((hAt.leaves h).current hs)).attempts ?_
  rintro _ t ⟨rfl, ht⟩
  refine (attempts_get _).mpr ?_
  dsimp only [List.head?_nil]
  rw [hAt.pastFixedRecord ht, hAt.nonAdvancing ht]
  exact hend t ht

theorem next_of_pad (hfixed : e.fixed = true) (hpad : modes.pad = true) (hs : At h [] s) :
    Succeeds (Field.next (some (left + 1)) modes) s fun out t =>
      out = (some ' ', some left) ∧ At h [] t := by
  refine hAt.next_attempts hs fun t ht => ?_
  rw [hfixed, hpad, if_neg (by simp), if_pos rfl]
  exact ⟨rfl, ht⟩

theorem next_of_stop (hfixed : e.fixed = false) (hs : At h [] s) :
    Succeeds (Field.next (some (left + 1)) modes) s fun out t =>
      out = (none, some (left + 1)) ∧ At h [] t := by
  refine hAt.next_attempts hs fun t ht => ?_
  rw [hfixed, if_pos (by rfl)]
  exact ⟨rfl, ht⟩

theorem next_of_nonAdvancing (hfixed : e.fixed = true) (hpad : modes.pad = false)
    (hadvance : e.nonAdvancing = true) (hr : h.declared.receivesError = true) (hs : At h [] s) :
    Succeeds (Field.next (some (left + 1)) modes) s fun out t =>
      out = (none, some (left + 1)) ∧ At (h.record .endOfRecord) [] t := by
  refine hAt.next_attempts hs fun t ht => ?_
  rw [hfixed, hpad, hadvance, if_neg (by simp), if_neg Bool.false_ne_true, if_pos rfl]
  apply Attempts.bind (Succeeds.lift (hAt.signalEndOfRecord_completes hr ht))
  intro _ u hu
  exact ⟨rfl, hu⟩

theorem next_of_advancing (hfixed : e.fixed = true) (hpad : modes.pad = false)
    (hadvance : e.nonAdvancing = false) (hs : At h [] s) :
    Attempts (Field.next (some (left + 1)) modes) s (fun _ _ => False) fun f t =>
      f = .recordReadOverrun ∧ At h [] t := by
  refine hAt.next_attempts hs fun t ht => ?_
  rw [hfixed, hpad, hadvance, if_neg (by simp), if_neg Bool.false_ne_true, if_neg Bool.false_ne_true]
  exact ⟨rfl, ht⟩

theorem next_of_plain (hplain : (e.fixed && modes.pad) = false)
    (hr : e.nonAdvancing = true → h.declared.receivesError = true) (hs : At h [] s) :
    Attempts (Field.next (some (left + 1)) modes) s
      (fun out t => out = (none, some (left + 1)) ∧ (e.fixed && !e.nonAdvancing) = false ∧
        ∃ h', (h' = h ∨ h' = h.record .endOfRecord) ∧ (e.nonAdvancing = false → h' = h) ∧ At h' [] t)
      (fun f t => (e.fixed && !e.nonAdvancing) = true ∧ f = .recordReadOverrun ∧ At h [] t) := by
  cases hfixed : e.fixed with
  | false =>
    refine (hAt.next_of_stop hfixed hs).attempts.mono ?_ fun _ _ => id
    rintro _ t ⟨rfl, ht⟩
    exact ⟨rfl, rfl, h, .inl rfl, fun _ => rfl, ht⟩
  | true =>
    have hpad : modes.pad = false := by simpa [hfixed] using hplain
    cases hadvance : e.nonAdvancing with
    | true =>
      refine (hAt.next_of_nonAdvancing hfixed hpad hadvance (hr hadvance) hs).attempts.mono ?_
        fun _ _ => id
      rintro _ t ⟨rfl, ht⟩
      exact ⟨rfl, rfl, _, .inr rfl, nofun, ht⟩
    | false =>
      refine (hAt.next_of_advancing hfixed hpad hadvance hs).mono (fun _ _ => False.elim) ?_
      rintro _ t ⟨rfl, ht⟩
      exact ⟨rfl, rfl, ht⟩

end FieldSource.Faces

/-! ### Recognizers -/

namespace Recognizer

variable {σ : Type} [FieldSource σ] {τ ρ : Type} {r : Recognizer τ ρ} {modes : Modes}

theorem length_lt_of_reading (r : Recognizer τ ρ) {state : State τ} {text unread : List Char} {out : ρ}
    (h : r.reading state text = (out, some unread)) : unread.length < text.length := by
  induction text generalizing state with
  | nil => cases h
  | cons c text ih =>
    rw [reading] at h
    cases hstep : r.feed state c with
    | more state =>
      rw [hstep] at h
      exact (ih h).trans (Nat.lt_succ_self _)
    | done result =>
      rw [hstep] at h
      cases h
      exact Nat.lt_succ_self _

/-- A recognizer that is told characters up to the width of its field sees nothing else. -/
theorem runIn_of_supply {P : List Char → σ → Prop}
    (hP : ∀ {c cs s left}, P (c :: cs) s → Succeeds (Field.next (some (left + 1)) modes) s
      fun out t => out = (some c, some left) ∧ P cs t)
    {text : List Char} {state : State τ} {n : ℕ} {s : σ} (hn : text.length < n) (hs : P text s) :
    Succeeds (r.runIn modes n state (some text.length)) s fun out t =>
      out.1 = (r.reading state text).1 ∧ ∃ left, out.2 = some left ∧
        P ((r.reading state text).2.getD []) t ∧ ((r.reading state text).2 = none → left = 0) := by
  induction n generalizing s state text with
  | zero => omega
  | succ n ih =>
    cases text with
    | nil => exact ⟨rfl, 0, rfl, hs, fun _ => rfl⟩
    | cons c text =>
      apply Attempts.bind (hP hs)
      rintro _ t ⟨rfl, ht⟩
      rw [reading]
      dsimp only
      cases hstep : r.feed state c with
      | more state => exact ih (by simpa using hn) ht
      | done result => exact ⟨rfl, _, rfl, ht, by simp⟩

end Recognizer

namespace Field

variable {σ : Type} [FieldSource σ] {τ α : Type} {r : Recognizer τ (Except Fault α)}
variable {At : Handler → List Char → σ → Prop} {e : RecordBoundary} {h : Handler} {s : σ}
variable {cs rest : List Char} {edit : DataEdit} {width room : ℕ} {finds : Except Fault (Option α)}

/-- A recognizer is through with its field, in which it has found a value, the end of the record, or a
fault, which leaves no more than so many characters. -/
inductive Recognized (At : Handler → List Char → σ → Prop) (e : RecordBoundary) (h : Handler)
    (rest : List Char) (room : ℕ) (t : σ) : Except Fault (Option α) → Except Fault α × Option ℕ → Prop
  | value {a : α} {left : ℕ} (hleft : left = 0 ∨ e.nonAdvancing = false) (ht : At h rest t) :
    Recognized At e h rest room t (.ok (some a)) (.ok a, some left)
  | endOfRecord {a : α} {left : ℕ} {h' : Handler} (hadvance : e.nonAdvancing = true)
    (hh : h' = h ∨ h' = h.record .endOfRecord) (ht : At h' [] t) :
    Recognized At e h rest room t (.ok none) (.ok a, some (left + 1))
  | fault {f : Fault} {left : Option ℕ} {h' : Handler} {cs : List Char}
    (hh : h' = h ∨ h' = h.record .endOfRecord) (hroom : cs.length ≤ room) (ht : At h' cs t) :
    Recognized At e h rest room t (.error f) (.error f, left)

omit [FieldSource σ] in
theorem Recognized.exists_left {t : σ} {a : α} {left : Option ℕ}
    (h : Recognized At e h rest room t finds (.ok a, left)) : ∃ n, left = some n := by
  cases h <;> exact ⟨_, rfl⟩

def settle (result : Except Fault α) (budget : Option ℕ) : Attempt σ α := do
  let a ← result
  (checkRecordEnd budget : Act σ _)
  pure a

theorem settle_ok (a : α) (budget : Option ℕ) : (settle (.ok a) budget : Attempt σ α) = (do
    (checkRecordEnd budget : Act σ _)
    pure a) := rfl

def Settled (At : Handler → List Char → σ → Prop) (h : Handler) (rest : List Char) (room : ℕ)
    (finds : Except Fault (Option α)) (act : Attempt σ α) (s : σ) : Prop :=
  Attempts act s
    (fun a t => finds = .ok (some a) ∧ At h rest t ∨
      finds = .ok none ∧ At (h.record .endOfRecord) [] t)
    (fun f t => finds = .error f ∧
      ∃ h' cs, (h' = h ∨ h' = h.record .endOfRecord) ∧ cs.length ≤ room ∧ At h' cs t)

section

variable (hAt : FieldSource.Faces At e)
include hAt

theorem checkRecordEnd_of_quiet {left : ℕ} (hleft : left = 0 ∨ e.nonAdvancing = false)
    (hs : At h cs s) : Completes (checkRecordEnd (some left) : Act σ Unit) s fun _ t => t = s := by
  refine (ends_get _).mpr ?_
  rw [hAt.nonAdvancing hs, if_neg]
  · rfl
  · rcases hleft with rfl | hadvance
    · simp
    · simp [hadvance]

theorem checkRecordEnd_of_nonAdvancing (hreceives : h.declared.receivesError = true)
    (hadvance : e.nonAdvancing = true) (left : ℕ) (hs : At h cs s) :
    Completes (checkRecordEnd (some (left + 1)) : Act σ Unit) s fun _ t =>
      At (h.record .endOfRecord) cs t := by
  refine (ends_get _).mpr ?_
  rw [hAt.nonAdvancing hs, hadvance, if_pos (by simp)]
  exact hAt.signalEndOfRecord_completes hreceives hs

theorem Recognized.settled {out : Except Fault α × Option ℕ}
    (hreceives : finds = .ok none → h.declared.receivesError = true)
    (hout : Recognized At e h rest room s finds out) :
    Settled At h rest room finds (settle out.1 out.2) s := by
  cases hout with
  | fault hh hroom ht => exact ⟨rfl, _, _, hh, hroom, ht⟩
  | value hleft ht =>
    rw [settle_ok]
    refine Attempts.bind (Succeeds.lift (checkRecordEnd_of_quiet hAt hleft ht)).attempts ?_
    rintro _ _ rfl
    exact .inl ⟨rfl, ht⟩
  | @endOfRecord _ left h' hadvance hh ht =>
    have hdeclared : h'.declared = h.declared := by
      rcases hh with rfl | rfl
      · rfl
      · exact h.record_declared _
    have hrecord : h'.record .endOfRecord = h.record .endOfRecord := by
      rcases hh with rfl | rfl
      · rfl
      · exact h.record_record _
    rw [settle_ok]
    refine Attempts.bind (Succeeds.lift
      (checkRecordEnd_of_nonAdvancing hAt (by rw [hdeclared, hreceives rfl]) hadvance left
        ht)).attempts ?_
    intro _ u hu
    rw [hrecord] at hu
    exact .inr ⟨rfl, hu⟩

end

/-! ### Scans -/

omit [FieldSource σ] in
theorem within_singleton {modes : Modes} {c : Char} (left : ℕ) : Within modes (some (left + 1)) [c] :=
  Nat.succ_le_succ (Nat.zero_le left)

theorem run_of_budget {Q : Except Fault α × Option ℕ → σ → Prop} {R : Fault → σ → Prop}
    (hbudget : edit.budget = some width)
    (hrun : Attempts (r.runIn edit.modes (width + 1) .leading (some width)) s Q R) :
    Attempts (r.run edit) s Q R := by
  unfold Recognizer.run
  rw [hbudget, if_neg (by simp)]
  exact (attempts_get _).mpr hrun

theorem run_of_supply (hr : r.ReadsOn) {P : List Char → σ → Prop}
    (hP : ∀ {c cs s left}, P (c :: cs) s → Succeeds (next (some (left + 1)) edit.modes) s
      fun out t => out = (some c, some left) ∧ P cs t)
    {text : List Char} (hbudget : edit.budget = some text.length)
    (hsome : ∀ unread t, unread.length < text.length → P unread t →
      ∃ cs, cs.length ≤ room ∧ At h cs t)
    (hrest : ∀ t, P [] t → At h rest t) (hroom : rest.length ≤ room) (hs : P text s) :
    Succeeds (r.run edit) s fun out t =>
      Recognized At e h rest room t ((r.reading .leading text).1.map some) out := by
  refine run_of_budget hbudget ((Recognizer.runIn_of_supply hP (Nat.lt_succ_self _) hs).mono ?_
    fun _ _ => id)
  rintro ⟨_, _⟩ t ⟨rfl, left, rfl, ht, hleft⟩
  cases hreading : r.reading .leading text with
  | mk result stopped =>
    rw [hreading] at ht hleft
    cases result with
    | error f =>
      cases stopped with
      | none => exact .fault (.inl rfl) hroom (hrest t ht)
      | some unread =>
        obtain ⟨cs, hroom, ht⟩ := hsome unread t (r.length_lt_of_reading hreading) ht
        exact .fault (.inl rfl) hroom ht
    | ok a =>
      -- It accepts a field only when it has seen all of it.
      obtain rfl := hr.left_eq_none hreading
      exact .value (.inl (hleft rfl)) (hrest t ht)

section

variable (hAt : FieldSource.Faces At e) (hr : r.ReadsOn) (hbudget : edit.budget = some width)
include hAt hr hbudget

theorem run_within (hfits : width ≤ cs.length) (hs : At h cs s) :
    Succeeds (r.run edit) s fun out t => Recognized At e h (cs.drop width) (cs.length - min 1 width) t
      ((r.reading .leading (cs.take width)).1.map some) out := by
  refine run_of_supply hr (P := fun text t => At h (text ++ cs.drop width) t) ?_ ?_ ?_
    (fun _ ht => ht) ?_ ?_
  · exact fun {_ _ _ left} ht => (hAt.leaves h).next_of_char (within_singleton left) ht
  · rw [hbudget, List.length_take_of_le hfits]
  · intro unread t hunread ht
    refine ⟨_, ?_, ht⟩
    rw [List.length_take_of_le hfits] at hunread
    rw [List.length_append, List.length_drop]
    omega
  · rw [List.length_drop]
    omega
  · rwa [List.take_append_drop]

theorem run_padded (hfixed : e.fixed = true) (hpad : edit.modes.pad = true)
    (hshort : cs.length < width) (hs : At h cs s) :
    Succeeds (r.run edit) s fun out t => Recognized At e h [] (cs.length - min 1 width) t
      ((r.reading .leading (cs ++ List.replicate (width - cs.length) ' ')).1.map some) out := by
  -- Until the characters are used up, all blanks are still to come.
  refine run_of_supply hr
    (P := fun text t => ∃ left missing, text = left ++ List.replicate missing ' ' ∧
      (left = [] ∨ missing = width - cs.length) ∧ At h left t) ?_ ?_ ?_ ?_ (Nat.zero_le _)
    ⟨cs, _, rfl, .inr rfl, hs⟩
  · rintro c text t left ⟨cs, missing, htext, hleft, ht⟩
    cases cs with
    | cons d cs =>
      obtain ⟨rfl, rfl⟩ := List.cons.inj htext
      refine ((hAt.leaves h).next_of_char (within_singleton left) ht).mono ?_ fun _ _ => id
      rintro _ u ⟨rfl, hu⟩
      exact ⟨rfl, cs, missing, rfl, .inr (hleft.resolve_left nofun), hu⟩
    | nil =>
      cases missing with
      | zero => cases htext
      | succ missing =>
        obtain ⟨rfl, rfl⟩ := List.cons.inj htext
        refine (hAt.next_of_pad hfixed hpad ht).mono ?_ fun _ _ => id
        rintro _ u ⟨rfl, hu⟩
        exact ⟨rfl, [], missing, rfl, .inl rfl, hu⟩
  · rw [hbudget, List.length_append, List.length_replicate, Nat.add_sub_cancel' hshort.le]
  · rintro unread t hunread ⟨left, missing, rfl, hleft, ht⟩
    refine ⟨left, ?_, ht⟩
    rcases hleft with rfl | rfl
    · exact Nat.zero_le _
    · rw [List.length_append, List.length_append] at hunread
      omega
  · rintro t ⟨left, missing, htext, -, ht⟩
    obtain ⟨rfl, -⟩ := List.append_eq_nil_iff.mp htext.symm
    exact ht

/-- A field that is longer than its record and gets no blanks is recognised to its end, if there is
one. -/
theorem run_short (hplain : (e.fixed && edit.modes.pad) = false) (hshort : cs.length < width)
    (hreceives : e.nonAdvancing = true → h.declared.receivesError = true) (hs : At h cs s) :
    Attempts (r.run edit) s
      (fun out t => Recognized At e h [] (cs.length - min 1 width) t
        (found (r.reading .leading) width edit.modes.pad e cs) out)
      (fun f t => found (r.reading .leading) width edit.modes.pad e cs = .error f ∧ At h [] t) := by
  have hfound : found (r.reading .leading) width edit.modes.pad e cs =
      if e.fixed && !e.nonAdvancing && (r.reading .leading cs).2.isNone then .error .recordReadOverrun
      else (r.reading .leading cs).1.map fun a => if e.nonAdvancing then none else some a := by
    rw [found, if_neg hshort.not_ge, hplain, if_neg Bool.false_ne_true]
  rw [hfound]
  refine run_of_budget hbudget ?_
  rw [← List.append_nil cs] at hs
  have hwithin : Within edit.modes (some width) cs := hshort.le
  cases hreading : r.reading .leading cs with
  | mk result stopped =>
    cases stopped with
    | some unread =>
      refine ((hAt.leaves h).runIn_of_left hwithin hreading (hshort.le.trans (Nat.le_succ _))
        hs).attempts.mono ?_ fun _ _ => id
      rintro _ t ⟨rfl, ht⟩
      cases result with
      | error f =>
        rw [Option.isNone_some, Bool.and_false, if_neg Bool.false_ne_true]
        have hunread := r.length_lt_of_reading hreading
        refine .fault (.inl rfl) ?_ ht
        rw [List.append_nil]
        omega
      | ok a => cases hr.left_eq_none hreading
    | none =>
      obtain ⟨left, hleft⟩ := Nat.exists_eq_add_of_lt hshort
      have hmissing : Option.map (· - cs.length) (some width) = some (left + 1) := by
        rw [Option.map_some]
        exact congrArg some (by omega)
      have hend := (hAt.leaves h).runIn_of_end hwithin hreading (hshort.trans (Nat.lt_succ_self _))
        (by rw [hmissing]; exact fun t ht => hAt.next_of_plain hplain hreceives ht) hs
      rw [hmissing] at hend
      refine hend.mono ?_ ?_
      · rintro _ t ⟨rfl, hover, h', hh, hsame, ht⟩
        rw [hover, Bool.false_and, if_neg Bool.false_ne_true]
        cases result with
        | error f => exact .fault hh (Nat.zero_le _) ht
        | ok a =>
          cases hadvance : e.nonAdvancing with
          | true => exact .endOfRecord hadvance hh ht
          | false =>
            obtain rfl := hsame hadvance
            exact .value (.inr hadvance) ht
      · rintro _ t ⟨hover, rfl, ht⟩
        rw [hover, Option.isNone_none, Bool.and_true, if_pos rfl]
        exact ⟨rfl, ht⟩

/-- The recognizer of a field comes to what the field finds in its record. -/
theorem run_recognizes (hreceives : e.nonAdvancing = true →
    h.declared.receivesError = true ∨ width ≤ cs.length) (hs : At h cs s) :
    Attempts (r.run edit) s
      (fun out t => Recognized At e h (cs.drop width) (cs.length - min 1 width) t
        (found (r.reading .leading) width edit.modes.pad e cs) out)
      (fun f t => found (r.reading .leading) width edit.modes.pad e cs = .error f ∧ At h [] t) := by
  rcases Nat.lt_or_ge cs.length width with hshort | hfits
  · rw [List.drop_of_length_le hshort.le]
    cases hpadded : e.fixed && edit.modes.pad with
    | false =>
      exact run_short hAt hr hbudget hpadded hshort
        (fun hadvance => (hreceives hadvance).resolve_right hshort.not_ge) hs
    | true =>
      obtain ⟨hfixed, hpad⟩ := Bool.and_eq_true_iff.mp hpadded
      rw [found, if_neg hshort.not_ge, if_pos hpadded]
      exact (run_padded hAt hr hbudget hfixed hpad hshort hs).attempts
  · rw [found, if_pos hfits]
    exact (run_within hAt hr hbudget hfits hs).attempts

end

section

variable (hAt : FieldSource.Faces At e) (hbudget : edit.budget = some width)
variable (hreceives : e.nonAdvancing = true → h.declared.receivesError = true ∨ width ≤ cs.length)
variable (hs : At h cs s)

omit [FieldSource σ] in
/-- Only a READ that does not advance finds the end of its record, and only in a field that is
longer. -/
theorem of_found_none {reading : List Char → Except Fault α × Option (List Char)} {pad : Bool}
    (hnone : found reading width pad e cs = .ok none) :
    e.nonAdvancing = true ∧ ¬width ≤ cs.length := by
  have hvalue {β : Type} (r : Except Fault β) (h : r.map some = .ok none) : False := by
    cases r <;> cases h
  unfold found at hnone
  split_ifs at hnone with hfits _ _ hadvance
  · exact (hvalue _ hnone).elim
  · exact (hvalue _ hnone).elim
  · exact ⟨hadvance, hfits⟩
  · exact (hvalue _ hnone).elim

include hreceives

theorem receives_of_found_none {reading : List Char → Except Fault α × Option (List Char)}
    {pad : Bool} (hnone : found reading width pad e cs = .ok none) :
    h.declared.receivesError = true :=
  (hreceives (of_found_none hnone).1).resolve_right (of_found_none hnone).2

include hAt hbudget hs

theorem scanInteger_settled (base : ℕ) : Settled At h (cs.drop width) (cs.length - min 1 width)
    (found ((integerRecognizer base edit.modes.blankZero).reading .leading) width edit.modes.pad e cs)
    (scanInteger edit base) s := by
  refine Attempts.bind ((run_recognizes hAt integerRecognizer_readsOn hbudget hreceives hs).mono
    (fun _ _ => id) ?_) ?_
  · exact fun f t ⟨hfound, ht⟩ => ⟨hfound, h, [], .inl rfl, Nat.zero_le _, ht⟩
  · exact fun out t hout => hout.settled hAt (receives_of_found_none hreceives)

theorem scanReal_settled (limit : ℕ) : Settled At h (cs.drop width) (cs.length - min 1 width)
    (found ((RealRules.recognizer ⟨edit, limit⟩).reading .leading) width edit.modes.pad e cs)
    (scanReal edit limit) s := by
  refine Attempts.bind ((run_recognizes hAt RealRules.readsOn hbudget hreceives hs).mono
    (fun _ _ => id) ?_) ?_
  · exact fun f t ⟨hfound, ht⟩ => ⟨hfound, h, [], .inl rfl, Nat.zero_le _, ht⟩
  rintro ⟨result, budget⟩ t hout
  have hsettled := hout.settled hAt (receives_of_found_none hreceives)
  cases result with
  | error f => exact hsettled
  | ok scanned =>
    obtain ⟨left, rfl⟩ := hout.exists_left
    cases scanned <;> exact hsettled

end

end Field

end DataTransfer
