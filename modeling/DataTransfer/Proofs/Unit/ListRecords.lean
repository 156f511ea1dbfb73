import DataTransfer.Proofs.Unit.ListWriting

/-!
List-directed READs of a file with one record for each list of values: each takes its list from one
record, and behind the last record there is the end of the file.
-/

namespace DataTransfer.Session

open Bytes (chars)

variable {s : Session} {device : Channel} {before rest after : Bytes} {edit : DataEdit}
variable {values : List ℤ}

/-! ### Reads of records -/

/-- A READ of nothing takes a record all the same. -/
theorem Between.empty_read_completes {α : Type} (a : α) (h : Between device before rest s)
    {line : Bytes} (hline : FirstLine rest line after) (source : SourceLine) (r : Receivers)
    (hsize : (before ++ rest).length < FileSystem.offsetLimit) :
    Completes (statement (.listDirected .input) source r (pure a)) s fun out t =>
      out = (a, .ok) ∧ ∃ before', before' ++ after = before ++ rest ∧
        Between device before' after t := by
  refine statement_completes (B := fun t => t = s.beginning (.listDirected .input) source r)
    (begin_of_clean (fun _ => rfl) h.shows h.located_eq source r) ?_
  rintro _ rfl
  have hstart := (h.beginning (.listDirected .input) source r).onLine (.line hline) rfl
  refine (hstart.finish_completes rfl hsize nofun).mono ?_ fun _ _ => id
  rintro status t ⟨rfl, ht⟩
  exact ⟨rfl, ht⟩

theorem Between.list_record_completes
    (h : Between device before (listLine values ++ [newline] ++ rest) s)
    (hedit : edit.kind = .listDirected) (hvalues : ∀ v ∈ values, -2 ^ 127 ≤ v ∧ v < 2 ^ 127)
    (source : SourceLine) (r : Receivers)
    (hsize : (before ++ (listLine values ++ [newline] ++ rest)).length < FileSystem.offsetLimit) :
    Completes (statement (.listDirected .input) source r
      ((List.replicate values.length edit).mapM (inputInteger · 16))) s fun out t =>
        out = (values.map some, .ok) ∧
        ∃ before', before' ++ rest = before ++ (listLine values ++ [newline] ++ rest) ∧
          Between device before' rest t := by
  cases values with
  | nil =>
    exact h.empty_read_completes _ (.terminated List.not_mem_nil rest) source r hsize
  | cons v values =>
    have hend : RecordEnd ('\n' :: chars rest) (chars rest) := .newline _
    have hblank : ∀ c ∈ [' '], Field.IsBlank c := List.forall_mem_singleton.mpr (.inl rfl)
    have htext : chars (listLine (v :: values) ++ [newline] ++ rest) =
        [' '] ++ ((toString v).toList ++ (chars (listLine values) ++ '\n' :: chars rest)) := by
      rw [listLine_cons, ← Bytes.chars_ofText_toString v]
      simp only [Bytes.chars_append, List.append_assoc]
      rfl
    have hbehind := behind_listLine edit.modes values (.inl ⟨_, hend⟩)
    have hfields := hbehind.fields
    rw [Field.shifted_of_not_late hbehind.length_eq (by simp)] at hfields
    refine (h.list_read_completes .k16 hedit (.blanks hblank)
      (.numeral (numeral_toString v) hbehind.fieldEnd) hfields htext source r hsize).mono ?_
      fun _ _ => id
    rintro _ t ⟨rfl, before', after, hcontent, hafter, ht⟩
    obtain rfl : after = rest := Bytes.chars_injective (hafter _ hend)
    refine ⟨?_, before', hcontent, ht⟩
    congr 1
    refine List.map_congr_left fun w hw => ?_
    rw [Field.narrow_ofInt (hvalues w hw).1 (hvalues w hw).2]

theorem Between.list_records_complete {lists : List (List ℤ)}
    (h : Between device before (terminated (lists.map listLine)) s)
    (hedit : edit.kind = .listDirected)
    (hvalues : ∀ values ∈ lists, ∀ v ∈ values, -2 ^ 127 ≤ v ∧ v < 2 ^ 127)
    (source : SourceLine) (r : Receivers)
    (hsize : (before ++ terminated (lists.map listLine)).length < FileSystem.offsetLimit) :
    Completes (lists.mapM fun values => statement (.listDirected .input) source r
      ((List.replicate values.length edit).mapM (inputInteger · 16))) s fun outs t =>
        outs = lists.map (fun values => (values.map some, .ok)) ∧
        Between device (before ++ terminated (lists.map listLine)) [] t := by
  induction lists generalizing s before with
  | nil =>
    have hnil : terminated ([].map listLine) = [] := rfl
    rw [hnil] at h ⊢
    rw [List.append_nil]
    exact ⟨rfl, h⟩
  | cons values lists ih =>
    obtain ⟨hfirst, hvalues⟩ := List.forall_mem_cons.mp hvalues
    have hsplit : terminated ((values :: lists).map listLine) =
        listLine values ++ [newline] ++ terminated (lists.map listLine) := rfl
    rw [hsplit] at h hsize ⊢
    rw [List.mapM_cons]
    apply Ends.bind (h.list_record_completes hedit hfirst source r hsize)
    rintro _ t ⟨rfl, before', hcontent, ht⟩
    rw [← hcontent] at hsize ⊢
    apply Ends.bind (ih ht hvalues hsize)
    rintro _ u ⟨rfl, hu⟩
    exact ⟨rfl, hu⟩

/-! ### Reads behind the last record -/

structure PastEnd (device : Channel) (content : Bytes) (s : Session) : Prop where
  onLine : OnLine device content [] [] none s
  statement_eq : ∃ modes, s.unit.statement = .listDirected .input modes
  admits : s.handler.declared.admits .endOfFile = true
  status_eq : s.handler.status = .ok ∨ s.handler.status = .endOfFile

namespace PastEnd

variable {content : Bytes}

theorem looking_status (h : PastEnd device content s) :
    (s.handler.looking none).status = .endOfFile := by
  unfold Handler.looking Handler.record
  rcases h.status_eq with hstatus | hstatus <;> simp [hstatus, Iostat.rank]

theorem nextChar_completes (h : PastEnd device content s)
    (hsize : content.length < FileSystem.offsetLimit) :
    Completes nextChar s fun ch t => ch = none ∧ PastEnd device content t ∧
      t.handler.status = .endOfFile := by
  have hfits : (content ++ []).length < FileSystem.offsetLimit := by rwa [List.append_nil]
  refine (nextChar_of_peek (h.onLine.peek_succeeds hfits fun _ => h.admits)).mono ?_ fun _ _ => id
  rintro _ t ⟨rfl, ht, hlooked⟩
  have hstatus : t.handler.status = .endOfFile := by rw [hlooked.handler_eq, h.looking_status]
  refine ⟨rfl, ⟨ht, ?_, ?_, .inr hstatus⟩, hstatus⟩
  · rw [hlooked.statement_eq]
    exact h.statement_eq
  · rw [hlooked.handler_eq, Handler.looking_declared]
    exact h.admits

theorem beginListItem_completes (h : PastEnd device content s) (hitems : s.items = 0)
    (hsize : content.length < FileSystem.offsetLimit) (modes : Modes) :
    Completes (beginListItem modes) s fun _ t => PastEnd device content t ∧
      t.handler.status = .endOfFile := by
  refine (ends_get _).mpr ?_
  rw [if_neg (by omega)]
  refine (ends_get _).mpr ?_
  have hskip : Completes (Field.skipBlanks : Act Session Unit) s
      fun _ t => PastEnd device content t := by
    refine (ends_get _).mpr ?_
    apply Ends.bind (h.nextChar_completes hsize)
    rintro _ t ⟨rfl, ht, -⟩
    exact ht
  apply Ends.bind hskip
  intro _ t ht
  apply Ends.bind (ht.nextChar_completes hsize)
  rintro _ u ⟨rfl, hu, hstatus⟩
  refine (ends_get _).mpr ?_
  rw [if_neg (by simp [hstatus])]
  exact ⟨hu, hstatus⟩

end PastEnd

theorem Between.end_read_completes {α : Type} {act : Attempt Session α}
    (h : Between device before [] s) (source : SourceLine) {r : Receivers}
    (hadmits : r.admits .endOfFile = true) (hsize : before.length < FileSystem.offsetLimit) :
    Completes (statement (.listDirected .input) source r (inputItem edit act)) s fun out t =>
      out = (none, .endOfFile) ∧ Between device before [] t := by
  have hfits : (before ++ []).length < FileSystem.offsetLimit := by rwa [List.append_nil]
  refine statement_completes (B := fun t => t = s.beginning (.listDirected .input) source r)
    (begin_of_clean (fun _ => rfl) h.shows h.located_eq source r) ?_
  rintro _ rfl
  have hstart : PastEnd device before (s.beginning (.listDirected .input) source r) :=
    ⟨(h.beginning (.listDirected .input) source r).onLine .atEnd rfl, ⟨_, rfl⟩, hadmits, .inl rfl⟩
  refine (ends_get _).mpr ?_
  refine Ends.bind (hstart.beginListItem_completes rfl hsize edit.modes) ?_
  rintro _ t ⟨ht, hstatus⟩
  refine (ends_get _).mpr ?_
  rw [if_pos (by simp [hstatus])]
  obtain ⟨modes, hstatement⟩ := ht.statement_eq
  refine (ht.onLine.finish_completes (by rw [hstatement]; rfl) hfits fun _ => ht.admits).mono ?_
    fun _ _ => id
  rintro _ u ⟨rfl, before', hcontent, hu⟩
  obtain rfl : before' = before := by simpa using hcontent
  exact ⟨by rw [ht.looking_status], hu⟩

end DataTransfer.Session
