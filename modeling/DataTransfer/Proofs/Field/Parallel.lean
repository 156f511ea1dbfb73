import Mathlib.Data.Int.Notation
import Mathlib.Data.Nat.Notation
import Mathlib.Tactic.SplitIfs
import DataTransfer.Field.Real
import DataTransfer.Proofs.Outcome

/-!
Two scans of one decimal field that keep different numbers of digits. They look at the same characters
and end alike: at the same place, with the same fault, or with values that differ in their digits only.
-/

namespace DataTransfer

section

variable {σ α β : Type}

/-- The same end of the program, the same fault, or values that `Q` relates; always in one state. -/
inductive Along (Q : α → β → Prop) :
    EStateM.Result Crash σ (Except Fault α) → EStateM.Result Crash σ (Except Fault β) → Prop
  | ok {a : α} {b : β} (h : Q a b) (s : σ) : Along Q (.ok (.ok a) s) (.ok (.ok b) s)
  | fault (f : Fault) (s : σ) : Along Q (.ok (.error f) s) (.ok (.error f) s)
  | crash (c : Crash) (s : σ) : Along Q (.error c s) (.error c s)

def Parallel (Q : α → β → Prop) (act : Attempt σ α) (act' : Attempt σ β) : Prop :=
  ∀ s, Along Q (act s) (act' s)

namespace Parallel

variable {Q : α → β → Prop}

theorem pure {a : α} {b : β} (h : Q a b) : Parallel (σ := σ) Q (pure a) (pure b) := .ok h

theorem throw (f : Fault) : Parallel (σ := σ) Q (throw f) (throw f) := .fault f

theorem refl (act : Attempt σ α) : Parallel (· = ·) act act := by
  intro s
  cases act s with
  | ok r t =>
    cases r with
    | ok a => exact .ok rfl t
    | error f => exact .fault f t
  | error c t => exact .crash c t

theorem bind_at {γ δ : Type} {R : γ → δ → Prop} {act : Attempt σ α} {act' : Attempt σ β}
    {next : α → Attempt σ γ} {next' : β → Attempt σ δ} {s : σ} (h : Parallel Q act act')
    (hnext : ∀ a b t, act s = .ok (.ok a) t → act' s = .ok (.ok b) t → Q a b →
      Along R (next a t) (next' b t)) :
    Along R ((act >>= next) s) ((act' >>= next') s) := by
  have hs := h s
  change Along R (EStateM.bind act (ExceptT.bindCont next) s)
    (EStateM.bind act' (ExceptT.bindCont next') s)
  unfold EStateM.bind
  generalize hact : act s = result at hs ⊢
  generalize hact' : act' s = result' at hs ⊢
  cases hs with
  | ok hab t => exact hnext _ _ t hact hact' hab
  | fault f t => exact .fault f t
  | crash c t => exact .crash c t

theorem bind {γ δ : Type} {R : γ → δ → Prop} {act : Attempt σ α} {act' : Attempt σ β}
    {next : α → Attempt σ γ} {next' : β → Attempt σ δ} (h : Parallel Q act act')
    (hnext : ∀ a b, Q a b → Parallel R (next a) (next' b)) :
    Parallel R (act >>= next) (act' >>= next') :=
  fun _ => h.bind_at fun a b t _ _ hab => hnext a b hab t

theorem same {γ δ : Type} {R : γ → δ → Prop} (act : Attempt σ α) {next : α → Attempt σ γ}
    {next' : α → Attempt σ δ} (h : ∀ a, Parallel R (next a) (next' a)) :
    Parallel R (act >>= next) (act >>= next') :=
  (refl act).bind fun a _ hab => hab ▸ h a

end Parallel

end

/-! ### Recognizers side by side -/

inductive Step.Along {τ ρ : Type} (Rel : τ → τ → Prop) (Out : ρ → ρ → Prop) :
    Step τ ρ → Step τ ρ → Prop
  | more {t t' : τ} (h : Rel t t') : Step.Along Rel Out (.more t) (.more t')
  | done {r r' : ρ} (h : Out r r') : Step.Along Rel Out (.done r) (.done r')

namespace Recognizer

variable {τ ρ : Type}

inductive State.Along (Rel : τ → τ → Prop) : State τ → State τ → Prop
  | leading : State.Along Rel .leading .leading
  | signed (negative : Bool) : State.Along Rel (.signed negative) (.signed negative)
  | body {t t' : τ} (h : Rel t t') : State.Along Rel (.body t) (.body t')

structure Parallel (r r' : Recognizer τ ρ) (Rel : τ → τ → Prop) (Out : ρ → ρ → Prop) : Prop where
  start : ∀ negative ch, Step.Along Rel Out (r.start negative ch) (r'.start negative ch)
  empty : ∀ negative, Out (r.empty negative) (r'.empty negative)
  step : ∀ t t' ch, Rel t t' → Step.Along Rel Out (r.step t ch) (r'.step t' ch)
  finish : ∀ t t', Rel t t' → Out (r.finish t) (r'.finish t')

namespace Parallel

variable {r r' : Recognizer τ ρ} {Rel : τ → τ → Prop} {Out : ρ → ρ → Prop}

theorem inBody {x y : Step τ ρ} (h : Step.Along Rel Out x y) :
    Step.Along (State.Along Rel) Out (Recognizer.inBody x) (Recognizer.inBody y) := by
  cases h with
  | more h => exact .more (.body h)
  | done h => exact .done h

variable (h : r.Parallel r' Rel Out)
include h

theorem feed {a b : State τ} (hab : State.Along Rel a b) (ch : Char) :
    Step.Along (State.Along Rel) Out (r.feed a ch) (r'.feed b ch) := by
  cases hab with
  | leading =>
    unfold Recognizer.feed
    dsimp only
    split_ifs
    · exact .more .leading
    · exact .more (.signed true)
    · exact .more (.signed false)
    · exact inBody (h.start false ch)
  | signed negative => exact inBody (h.start negative ch)
  | body hab => exact inBody (h.step _ _ ch hab)

theorem atEnd {a b : State τ} (hab : State.Along Rel a b) : Out (r.atEnd a) (r'.atEnd b) := by
  cases hab with
  | leading => exact h.empty false
  | signed negative => exact h.empty negative
  | body hab => exact h.finish _ _ hab

variable {σ : Type} [FieldSource σ]

theorem runIn (modes : Modes) (fuel : ℕ) {a b : State τ} (hab : State.Along Rel a b)
    (budget : Option ℕ) :
    DataTransfer.Parallel (σ := σ) (fun x y => Out x.1 y.1 ∧ x.2 = y.2)
      (r.runIn modes fuel a budget) (r'.runIn modes fuel b budget) := by
  induction fuel generalizing a b budget with
  | zero => exact .pure ⟨h.atEnd hab, rfl⟩
  | succ fuel ih =>
    refine .same (Field.next budget modes) ?_
    rintro ⟨_ | ch, left⟩
    · exact .pure ⟨h.atEnd hab, rfl⟩
    · have hstep := h.feed hab ch
      dsimp only
      generalize r.feed a ch = x at hstep ⊢
      generalize r'.feed b ch = y at hstep ⊢
      cases hstep with
      | more hab => exact ih hab left
      | done hout => exact .pure ⟨hout, rfl⟩

theorem run (edit : DataEdit) :
    DataTransfer.Parallel (σ := σ) (fun x y => Out x.1 y.1 ∧ x.2 = y.2) (r.run edit) (r'.run edit) := by
  have hrun (fuel : ℕ) := h.runIn (σ := σ) edit.modes fuel .leading edit.budget
  unfold Recognizer.run
  split_ifs
  · exact .same _ fun _ => .same _ fun s => hrun _
  · exact .same _ fun s => hrun _

end Parallel

end Recognizer

/-! ### Decimal fields -/

namespace Field

/-- Values that differ in their digits only. -/
inductive ScannedReal.Same : ScannedReal → ScannedReal → Prop
  | refl (scanned : ScannedReal) : Same scanned scanned
  | finite (negative : Bool) (digits digits' : List Char) (exponent : ℤ) (truncated truncated' : Bool) :
    Same (.finite negative digits exponent truncated) (.finite negative digits' exponent truncated')

def RealMantissa.Same (m m' : RealMantissa) : Prop :=
  ∃ kept count, m = { m' with kept, keptCount := count }

theorem RealMantissa.Same.refl (m : RealMantissa) : m.Same m := ⟨m.kept, m.keptCount, rfl⟩

inductive RealPhase.Same : RealPhase → RealPhase → Prop
  | mantissa {m m' : RealMantissa} (h : m.Same m') : Same (.mantissa m) (.mantissa m')
  | exponentLetter {m m' : RealMantissa} (h : m.Same m') :
    Same (.exponentLetter m) (.exponentLetter m')
  | exponent {m m' : RealMantissa} (h : m.Same m') (negative : Bool) (value : ℤ) :
    Same (.exponent m negative value) (.exponent m' negative value)
  | trailing {a b : ScannedReal} (h : a.Same b) : Same (.trailing a) (.trailing b)
  | word (negative : Bool) (letters : List Char) :
    Same (.word negative letters) (.word negative letters)
  | payload (negative : Bool) : Same (.payload negative) (.payload negative)

namespace RealRules

inductive SameResult : Result → Result → Prop
  | ok {a b : ScannedReal} (h : a.Same b) : SameResult (.ok a) (.ok b)
  | error (f : Fault) : SameResult (.error f) (.error f)

variable {edit : DataEdit} {k l : ℕ} {m m' : RealMantissa}

abbrev SameStep : Step RealPhase Result → Step RealPhase Result → Prop :=
  Step.Along RealPhase.Same SameResult

theorem value_same (h : m.Same m') (exponent : ℤ) :
    ((⟨edit, k⟩ : RealRules).value m exponent).Same ((⟨edit, l⟩ : RealRules).value m' exponent) := by
  obtain ⟨kept, count, rfl⟩ := h
  unfold value
  dsimp only
  split_ifs
  · exact .finite _ _ _ _ _ _
  · exact .finite _ _ _ _ _ _

theorem trail_same {a b : ScannedReal} (h : a.Same b) (ch : Char) :
    SameStep (trail a ch) (trail b ch) := by
  unfold trail
  split_ifs
  · exact .more (.trailing h)
  · exact .done (.error _)

theorem pushExponent_same (h : m.Same m') (negative : Bool) (value : ℤ) (ch : Char) :
    SameStep ((⟨edit, k⟩ : RealRules).pushExponent m negative value ch)
      ((⟨edit, l⟩ : RealRules).pushExponent m' negative value ch) := by
  unfold pushExponent
  dsimp only
  split_ifs
  all_goals first | exact .more (.exponent h _ _) | exact trail_same (value_same h _) ch

theorem beginExponent_same (h : m.Same m') (ch : Char) :
    SameStep ((⟨edit, k⟩ : RealRules).beginExponent m ch)
      ((⟨edit, l⟩ : RealRules).beginExponent m' ch) := by
  unfold beginExponent
  split_ifs
  · exact .more (.exponent h true 0)
  · exact .more (.exponent h false 0)
  · exact pushExponent_same h false 0 ch
  · exact trail_same (value_same h _) ch

theorem pushMantissa_same (h : m.Same m') (ch : Char) :
    SameStep ((⟨edit, k⟩ : RealRules).pushMantissa m ch)
      ((⟨edit, l⟩ : RealRules).pushMantissa m' ch) := by
  have hbegin (ch : Char) : SameStep ((⟨edit, k⟩ : RealRules).beginExponent m ch)
      ((⟨edit, l⟩ : RealRules).beginExponent m' ch) := beginExponent_same h ch
  obtain ⟨kept, count, rfl⟩ := h
  unfold pushMantissa
  dsimp only at hbegin ⊢
  -- Whether a digit is kept or not, it counts as a significant one.
  split_ifs
  all_goals first
    | exact hbegin _
    | exact .more (.exponentLetter ⟨_, _, rfl⟩)
    | exact .more (.mantissa ⟨_, _, rfl⟩)

theorem pushWord_same (negative : Bool) (letters : List Char) (ch : Char) :
    SameStep (pushWord negative letters ch) (pushWord negative letters ch) := by
  unfold pushWord
  split_ifs
  · exact .more (.word _ _)
  · cases wordValue? negative letters with
    | none => exact .done (.error _)
    | some result =>
      dsimp only
      split_ifs
      · exact .more (.payload negative)
      · exact trail_same (.refl result) ch

theorem recognizer_parallel (edit : DataEdit) (k l : ℕ) :
    (⟨edit, k⟩ : RealRules).recognizer.Parallel (⟨edit, l⟩ : RealRules).recognizer RealPhase.Same
      SameResult where
  start negative ch := by
    change SameStep (RealRules.start _ negative ch) (RealRules.start _ negative ch)
    unfold RealRules.start
    dsimp only
    split_ifs
    · exact .more (.word _ _)
    · exact pushMantissa_same (.refl _) ch
    · exact .done (.error _)
  empty _ := .ok (.refl _)
  step phase phase' ch h := by
    cases h with
    | mantissa h => exact pushMantissa_same h ch
    | exponentLetter h =>
      change SameStep (if ch = ' ' then _ else _) (if ch = ' ' then _ else _)
      split_ifs
      · exact .more (.exponentLetter h)
      · exact beginExponent_same h ch
    | exponent h negative value => exact pushExponent_same h negative value ch
    | trailing h => exact trail_same h ch
    | word negative letters => exact pushWord_same negative letters ch
    | payload negative =>
      change SameStep (.more (if ch = ')' then _ else _)) (.more (if ch = ')' then _ else _))
      split_ifs
      · exact .more (.trailing (.refl _))
      · exact .more (.payload negative)
  finish phase phase' h := by
    cases h with
    | mantissa h => exact .ok (value_same h _)
    | exponentLetter h => exact .ok (value_same h _)
    | exponent h negative value => exact .ok (value_same h _)
    | trailing h => exact .ok h
    | word negative letters =>
      change SameResult (RealRules.finish ⟨edit, k⟩ (.word negative letters))
        (RealRules.finish ⟨edit, l⟩ (.word negative letters))
      unfold RealRules.finish
      dsimp only
      cases wordValue? negative letters with
      | some result => exact .ok (.refl result)
      | none => exact .error _
    | payload negative => exact .ok (.refl _)

end RealRules

variable {σ : Type} [FieldSource σ]

/-- How many digits are kept counts for nothing but the digits. -/
theorem scanReal_parallel (edit : DataEdit) (k l : ℕ) :
    Parallel (σ := σ) ScannedReal.Same (scanReal edit k) (scanReal edit l) := by
  have hend (budget : Option ℕ) {a b : ScannedReal} (h : a.Same b) :
      Parallel (σ := σ) ScannedReal.Same
        (do (checkRecordEnd budget : Act σ _); Pure.pure a)
        (do (checkRecordEnd budget : Act σ _); Pure.pure b) :=
    .same _ fun _ => .pure h
  unfold scanReal
  refine ((RealRules.recognizer_parallel edit k l).run edit).bind ?_
  rintro ⟨result, budget⟩ ⟨result', _⟩ ⟨hresult, rfl⟩
  cases hresult with
  | error f => exact .throw f
  | ok h =>
    refine Parallel.bind (.pure h) ?_
    rintro a b (_ | _)
    · dsimp only
      split
      · exact .same _ fun _ => hend _ (.refl _)
      · exact hend budget (.refl _)
    · exact hend budget (.finite _ _ _ _ _ _)

end Field

end DataTransfer
