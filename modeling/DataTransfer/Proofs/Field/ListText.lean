import DataTransfer.Proofs.Field.ListField

/-!
Texts for list-directed input: values, and what separates them over the records of the text. The values
that are read are told by how the separators lie.
-/

namespace DataTransfer

/-! ### Records of a text -/

/-- What is left of a text where a record ends, and what follows the record. -/
inductive RecordEnd : List Char → List Char → Prop
  | newline (after : List Char) : RecordEnd ('\n' :: after) after
  | returned (after : List Char) : RecordEnd ('\r' :: '\n' :: after) after
  | file : RecordEnd [] []

/-- A record goes on with `cs`, and `tail` is left of the text where it ends. -/
structure InRecord (cs tail : List Char) : Prop where
  newline_notMem : '\n' ∉ cs
  ends : ∃ after, RecordEnd tail after
  last : tail.head? = some '\n' → cs.getLast? ≠ some '\r'

def Plain (c : Char) : Prop := c ≠ '\n' ∧ c ≠ '\r'

theorem Field.IsBlank.plain {c : Char} (h : Field.IsBlank c) : Plain c := by
  rcases h with rfl | rfl <;> exact ⟨by decide, by decide⟩

namespace InRecord

variable {cs tail text : List Char} (h : InRecord cs tail)
include h

theorem of_plain {c : Char} (hc : Plain c) (htext : cs ++ tail = c :: text) :
    ∃ cs', cs = c :: cs' ∧ cs' ++ tail = text ∧ InRecord cs' tail := by
  cases cs with
  | nil =>
    obtain ⟨after, hend⟩ := h.ends
    rw [List.nil_append] at htext
    subst htext
    cases hend with
    | newline => exact absurd rfl hc.1
    | returned => exact absurd rfl hc.2
  | cons d cs =>
    obtain ⟨rfl, hrest⟩ := List.cons.inj htext
    refine ⟨cs, rfl, hrest, fun hmem => h.newline_notMem (List.mem_cons_of_mem _ hmem), h.ends, ?_⟩
    intro htail hlast
    refine h.last htail ?_
    rw [List.getLast?_cons, hlast]
    rfl

theorem of_plains {field : List Char} (hfield : ∀ c ∈ field, Plain c)
    (htext : cs ++ tail = field ++ text) :
    ∃ cs', cs = field ++ cs' ∧ cs' ++ tail = text ∧ InRecord cs' tail := by
  induction field generalizing cs with
  | nil => exact ⟨cs, rfl, htext, h⟩
  | cons c field ih =>
    obtain ⟨hc, hfield⟩ := List.forall_mem_cons.mp hfield
    obtain ⟨cs', rfl, htext', h'⟩ := h.of_plain hc htext
    obtain ⟨cs'', rfl, htext'', h''⟩ := ih h' hfield htext'
    exact ⟨cs'', rfl, htext'', h''⟩

theorem of_end {after : List Char} (hend : RecordEnd (cs ++ tail) after) : cs = [] := by
  cases cs with
  | nil => rfl
  | cons c cs =>
    exfalso
    rw [List.cons_append] at hend
    generalize htext : cs ++ tail = text at hend
    cases hend with
    | newline => exact h.newline_notMem List.mem_cons_self
    | returned after =>
      cases cs with
      | nil =>
        rw [List.nil_append] at htext
        exact h.last (by rw [htext]; rfl) rfl
      | cons d cs =>
        obtain ⟨rfl, -⟩ := List.cons.inj htext
        exact h.newline_notMem (List.mem_cons_of_mem _ List.mem_cons_self)

end InRecord

/-! ### Separators -/

namespace Field

/-- The comma of list-directed input; a semicolon where the comma is the decimal symbol. -/
def listComma (modes : Modes) : Char := if modes.decimalComma then ';' else ','

theorem listComma_isSeparator (modes : Modes) :
    isSeparator (listComma modes) modes.decimalComma = true := by
  unfold listComma
  cases modes.decimalComma <;> decide

theorem listComma_plain (modes : Modes) : Plain (listComma modes) := by
  unfold listComma Plain
  split_ifs <;> decide

theorem listComma_not_blank (modes : Modes) : ¬ IsBlank (listComma modes) := by
  unfold listComma
  split_ifs <;> decide

theorem IsBlank.isSeparator {c : Char} (h : IsBlank c) (decimalComma : Bool) :
    isSeparator c decimalComma = true := by
  rcases h with rfl | rfl <;> rfl

theorem isBlank_of_isSeparator {c : Char} {decimalComma : Bool}
    (h : isSeparator c decimalComma = false) : ¬ IsBlank c := by
  intro hblank
  rw [hblank.isSeparator] at h
  cases h

/-- A field ends here: the record does, or a separator follows. -/
def FieldEnd (modes : Modes) (text : List Char) : Prop :=
  (∃ after, RecordEnd text after) ∨ ∃ c ∈ text.head?, isSeparator c modes.decimalComma = true

inductive Spacing : List Char → Prop
  | blanks {blanks : List Char} (h : ∀ c ∈ blanks, IsBlank c) : Spacing blanks
  | line {blanks stop spaces : List Char} (h : ∀ c ∈ blanks, IsBlank c)
    (hstop : stop = ['\n'] ∨ stop = ['\r', '\n']) (hspaces : Spacing spaces) :
    Spacing (blanks ++ (stop ++ spaces))

theorem recordEnd_of_stop {stop : List Char} (h : stop = ['\n'] ∨ stop = ['\r', '\n'])
    (text : List Char) : RecordEnd (stop ++ text) text := by
  rcases h with rfl | rfl
  · exact .newline text
  · exact .returned text

theorem Spacing.fieldEnd {modes : Modes} {spaces : List Char} (h : Spacing spaces)
    (hne : spaces ≠ []) (text : List Char) : FieldEnd modes (spaces ++ text) := by
  have hblank {c : Char} (blanks : List Char) (hc : IsBlank c) : FieldEnd modes (c :: blanks) :=
    .inr ⟨c, rfl, hc.isSeparator _⟩
  cases h with
  | @blanks blanks h =>
    obtain ⟨c, blanks, rfl⟩ := List.exists_cons_of_ne_nil hne
    exact hblank _ (h c List.mem_cons_self)
  | @line blanks stop spaces h hstop _ =>
    cases blanks with
    | nil =>
      rw [List.nil_append, List.append_assoc]
      exact .inl ⟨_, recordEnd_of_stop hstop _⟩
    | cons c blanks => exact hblank _ (h c List.mem_cons_self)

/-- One value separator; it is late if its comma is on a later record than the value before it. -/
inductive Separator (modes : Modes) : List Char → Bool → Prop
  | spacing {spaces : List Char} (h : Spacing spaces) (hne : spaces ≠ []) :
    Separator modes spaces false
  | comma {before after : List Char} (hbefore : Spacing before) (hafter : Spacing after) :
    Separator modes (before ++ listComma modes :: after) (decide ('\n' ∈ before))

theorem Separator.fieldEnd {modes : Modes} {separator : List Char} {late : Bool}
    (h : Separator modes separator late) (text : List Char) : FieldEnd modes (separator ++ text) := by
  cases h with
  | spacing h hne => exact h.fieldEnd hne text
  | @comma before after hbefore _ =>
    rw [List.append_assoc, List.cons_append]
    by_cases hne : before = []
    · rw [hne]
      exact .inr ⟨_, rfl, listComma_isSeparator modes⟩
    · exact hbefore.fieldEnd hne _

end Field

theorem InRecord.isSeparator_of_fieldEnd {modes : Modes} {cs tail : List Char} (h : InRecord cs tail)
    (hend : Field.FieldEnd modes (cs ++ tail)) :
    ∀ c ∈ cs.head?, Field.isSeparator c modes.decimalComma = true := by
  intro c hc
  rcases hend with ⟨after, hend⟩ | ⟨d, hd, hseparator⟩
  · rw [h.of_end hend] at hc
    cases hc
  · cases cs with
    | nil => cases hc
    | cons e cs =>
      obtain rfl := Option.some.inj hc
      obtain rfl := Option.some.inj hd
      exact hseparator

/-! ### Numerals -/

namespace Numeral

variable {text : List Char} {v : ℤ} (h : Numeral text v)
include h

theorem isDigit_or_sign {c : Char} (hc : c ∈ text) : c.isDigit = true ∨ c = '+' ∨ c = '-' := by
  cases h with
  | unsigned hds => exact .inl (hds c hc)
  | plus hds =>
    rcases List.mem_cons.mp hc with rfl | hc
    · exact .inr (.inl rfl)
    · exact .inl (hds c hc)
  | minus hds =>
    rcases List.mem_cons.mp hc with rfl | hc
    · exact .inr (.inr rfl)
    · exact .inl (hds c hc)

theorem not_separator {c : Char} (hc : c ∈ text) (decimalComma : Bool) :
    Field.isSeparator c decimalComma = false := by
  rw [Bool.eq_false_iff]
  intro hseparator
  have hmem : c ∈ [',', ';', ' ', '\t', '/', '(', ')', '\'', '"', '*', '\n'] := by
    unfold Field.isSeparator at hseparator
    split_ifs at hseparator with hcomma hsemicolon
    · rw [hcomma]
      decide
    · rw [hsemicolon]
      decide
    · exact List.mem_cons_of_mem _ (List.mem_cons_of_mem _ (List.contains_iff_mem.mp hseparator))
  have hnone : [',', ';', ' ', '\t', '/', '(', ')', '\'', '"', '*', '\n'].all
      (fun d => !(d.isDigit || d == '+' || d == '-')) = true := by decide
  have hc' := List.all_eq_true.mp hnone c hmem
  rcases h.isDigit_or_sign hc with hdigit | rfl | rfl
  · simp [hdigit] at hc'
  · cases hc'
  · cases hc'

theorem plain {c : Char} (hc : c ∈ text) : Plain c := by
  rcases h.isDigit_or_sign hc with hdigit | rfl | rfl
  · exact ⟨Field.ne_of_isDigit hdigit (by decide), Field.ne_of_isDigit hdigit (by decide)⟩
  · exact ⟨by decide, by decide⟩
  · exact ⟨by decide, by decide⟩

theorem exists_cons : ∃ c cs, text = c :: cs := by
  cases h with
  | unsigned _ hne => exact List.exists_cons_of_ne_nil hne
  | plus => exact ⟨_, _, rfl⟩
  | minus => exact ⟨_, _, rfl⟩

end Numeral

/-! ### Values and their separators -/

namespace Field

variable {modes : Modes} {values : List ℤ} {lates : List Bool} {text trail : List Char}

/-- Values that follow a value, each behind its separator, and what the text has behind the last. -/
inductive Behind (modes : Modes) : List ℤ → List Bool → List Char → List Char → Prop
  | done {trail : List Char} (h : FieldEnd modes trail) : Behind modes [] [] trail trail
  | next {separator numeral text trail : List Char} {late : Bool} {v : ℤ} {values : List ℤ}
    {lates : List Bool} (hseparator : Separator modes separator late) (hnumeral : Numeral numeral v)
    (h : Behind modes values lates text trail) :
    Behind modes (v :: values) (late :: lates) (separator ++ (numeral ++ text)) trail

/-- A text of values, with one separator between each two of them. -/
inductive ListText (modes : Modes) : List ℤ → List Bool → List Char → List Char → Prop
  | mk {lead numeral text trail : List Char} {v : ℤ} {values : List ℤ} {lates : List Bool}
    (hlead : Spacing lead) (hnumeral : Numeral numeral v)
    (h : Behind modes values lates text trail) :
    ListText modes (v :: values) lates (lead ++ (numeral ++ text)) trail

/-- The values as they are read, each with its separator: a late one makes a value of its own. -/
def shifted : List ℤ → List Bool → List ℤ
  | v :: values, late :: lates =>
    if late then 0 :: v :: shifted values lates else v :: shifted values lates
  | _, _ => []

theorem Behind.fieldEnd (h : Behind modes values lates text trail) : FieldEnd modes text := by
  cases h with
  | done h => exact h
  | next hseparator _ _ => exact hseparator.fieldEnd _

theorem Behind.length_eq (h : Behind modes values lates text trail) : lates.length = values.length := by
  induction h with
  | done => rfl
  | next _ _ _ ih => exact congrArg (· + 1) ih

theorem ListText.length_eq (h : ListText modes values lates text trail) :
    lates.length + 1 = values.length := by
  cases h with
  | mk _ _ h => exact congrArg (· + 1) h.length_eq

theorem length_le_shifted (h : lates.length = values.length) :
    values.length ≤ (shifted values lates).length := by
  induction values generalizing lates with
  | nil => exact Nat.zero_le _
  | cons v values ih =>
    obtain ⟨late, lates, rfl⟩ := List.exists_cons_of_length_eq_add_one h
    have hrest := ih (Nat.succ.inj h)
    rw [shifted]
    split_ifs
    · exact (Nat.succ_le_succ hrest).trans (Nat.le_succ _)
    · exact Nat.succ_le_succ hrest

theorem eq_zero_or_mem_of_mem_shifted {w : ℤ} (h : w ∈ shifted values lates) : w = 0 ∨ w ∈ values := by
  induction values generalizing lates with
  | nil =>
    cases lates <;> cases h
  | cons v values ih =>
    cases lates with
    | nil => cases h
    | cons late lates =>
      rw [shifted] at h
      have hrest (hw : w ∈ v :: shifted values lates) : w = 0 ∨ w ∈ v :: values := by
        rcases List.mem_cons.mp hw with rfl | hw
        · exact .inr List.mem_cons_self
        · exact (ih hw).imp_right (List.mem_cons_of_mem _)
      split_ifs at h
      · rcases List.mem_cons.mp h with rfl | h
        · exact .inl rfl
        · exact hrest h
      · exact hrest h

/-- Without a late separator the values are read as they are. -/
theorem shifted_of_not_late (h : lates.length = values.length) (hlates : ∀ late ∈ lates, late = false) :
    shifted values lates = values := by
  induction values generalizing lates with
  | nil => rfl
  | cons v values ih =>
    obtain ⟨late, lates, rfl⟩ := List.exists_cons_of_length_eq_add_one h
    obtain ⟨rfl, hnone⟩ := List.forall_mem_cons.mp hlates
    rw [shifted, if_neg Bool.false_ne_true, ih (Nat.succ.inj h) hnone]

/-! ### Fields as the items of a READ meet them -/

/-- A field, what follows it, and the value of the item that takes it. -/
inductive TakesField (modes : Modes) : List Char → List Char → ℤ → Prop
  | numeral {field text : List Char} {v : ℤ} (h : Numeral field v) (hend : FieldEnd modes text) :
    TakesField modes field text v
  /-- Nothing stands before a comma. -/
  | empty (text : List Char) : TakesField modes [] (listComma modes :: text) 0

namespace TakesField

variable {field : List Char} {v : ℤ} (h : TakesField modes field text v)
include h

theorem not_separator {c : Char} (hc : c ∈ field) : isSeparator c modes.decimalComma = false := by
  cases h with
  | numeral h _ => exact h.not_separator hc _
  | empty => cases hc

theorem plain {c : Char} (hc : c ∈ field) : Plain c := by
  cases h with
  | numeral h _ => exact h.plain hc
  | empty => cases hc

theorem fieldEnd : FieldEnd modes text := by
  cases h with
  | numeral _ hend => exact hend
  | empty => exact .inr ⟨_, rfl, listComma_isSeparator modes⟩

theorem exists_cons : ∃ c cs, field ++ text = c :: cs ∧ Plain c ∧ ¬ IsBlank c := by
  cases h with
  | numeral h _ =>
    obtain ⟨c, cs, rfl⟩ := h.exists_cons
    exact ⟨c, cs ++ text, rfl, h.plain List.mem_cons_self,
      isBlank_of_isSeparator (h.not_separator List.mem_cons_self modes.decimalComma)⟩
  | empty text => exact ⟨_, text, rfl, listComma_plain modes, listComma_not_blank modes⟩

theorem onList_eq (blankZero : Bool) :
    ∃ n : ScannedInteger, (integerRecognizer 10 blankZero).onList .leading field = (.ok n, []) ∧
      n.pattern = BitVec.ofInt 128 v := by
  cases h with
  | numeral h _ => exact onList_numeral h blankZero
  | empty => exact ⟨_, rfl, rfl⟩

end TakesField

/-- What is passed on the way from a value to the next field: spaces, and a comma only on the record of
the value. -/
inductive Passed (modes : Modes) : List Char → List Char → Prop
  | spacing {spaces text : List Char} (h : Spacing spaces)
    (hcomma : text.head? = some (listComma modes) → '\n' ∈ spaces) : Passed modes spaces text
  | comma {blanks spaces text : List Char} (hblanks : ∀ c ∈ blanks, IsBlank c) (h : Spacing spaces) :
    Passed modes (blanks ++ listComma modes :: spaces) text

/-- Fields behind a value, with the values of the items that take them, and what is left then. -/
inductive Fields (modes : Modes) : List ℤ → List Char → List Char → Prop
  | done (text : List Char) : Fields modes [] text text
  | next {passed field text trail : List Char} {v : ℤ} {values : List ℤ}
    (hpassed : Passed modes passed (field ++ text)) (hfield : TakesField modes field text v)
    (h : Fields modes values text trail) :
    Fields modes (v :: values) (passed ++ (field ++ text)) trail

theorem Fields.take (h : Fields modes values text trail) (n : ℕ) :
    ∃ left, Fields modes (values.take n) text left := by
  induction h generalizing n with
  | done text => exact ⟨text, by rw [List.take_nil]; exact .done text⟩
  | @next passed field text trail v values hpassed hfield _ ih =>
    cases n with
    | zero => exact ⟨_, .done _⟩
    | succ n =>
      obtain ⟨left, hleft⟩ := ih n
      exact ⟨left, .next hpassed hfield hleft⟩

theorem newline_notMem_blanks {blanks : List Char} (h : ∀ c ∈ blanks, IsBlank c) : '\n' ∉ blanks :=
  fun hmem => (h _ hmem).plain.1 rfl

/-- A separator that is late is met twice: before a comma that nothing stands before, and behind it. -/
theorem Behind.fields (h : Behind modes values lates text trail) :
    Fields modes (shifted values lates) text trail := by
  induction h with
  | @done trail h => exact .done trail
  | @next separator numeral text trail late v values lates hseparator hnumeral hbehind ih =>
    have hvalue : TakesField modes numeral text v := .numeral hnumeral hbehind.fieldEnd
    cases hseparator with
    | spacing hspaces hne =>
      refine .next (.spacing hspaces fun hhead => ?_) hvalue ih
      obtain ⟨c, cs, rfl⟩ := hnumeral.exists_cons
      obtain rfl := Option.some.inj hhead
      have hnot := hnumeral.not_separator List.mem_cons_self modes.decimalComma
      rw [listComma_isSeparator] at hnot
      cases hnot
    | @comma before after hbefore hafter =>
      have hnone : ∀ c ∈ ([] : List Char), IsBlank c := nofun
      cases hbefore with
      | blanks hblanks =>
        rw [decide_eq_false (newline_notMem_blanks hblanks)]
        exact .next (.comma hblanks hafter) hvalue ih
      | @line blanks stop spaces hblanks hstop hspaces =>
        have hmem : '\n' ∈ blanks ++ (stop ++ spaces) := by
          rcases hstop with rfl | rfl <;> simp
        rw [decide_eq_true hmem, List.append_assoc _ (_ :: _)]
        have hnext : Fields modes (v :: shifted values lates)
            (listComma modes :: after ++ (numeral ++ text)) trail :=
          .next (.comma hnone hafter) hvalue ih
        have hempty : TakesField modes [] (listComma modes :: after ++ (numeral ++ text)) 0 :=
          .empty (after ++ (numeral ++ text))
        have hfields := Fields.next (.spacing (.line hblanks hstop hspaces) fun _ => hmem) hempty hnext
        exact hfields

end Field

end DataTransfer
