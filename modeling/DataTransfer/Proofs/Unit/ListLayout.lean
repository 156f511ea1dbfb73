import Mathlib
import DataTransfer.Proofs.Unit.ListReading

/-!
The layout of the separators in a list-directed file, and what it makes of the values that are read.
-/

namespace DataTransfer.Session

open Bytes (chars)
open DataTransfer.Field (ListText shifted)

variable {s t : Session} {device : Channel} {before rest : Bytes} {edit : DataEdit}
variable {values : List ℤ} {lates : List Bool} {trail : List Char}

theorem Between.list_text_completes (h : Between device before rest s)
    (hedit : edit.kind = .listDirected) (htext : ListText edit.modes values lates (chars rest) trail)
    (hvalues : ∀ v ∈ values, -2 ^ 127 ≤ v ∧ v < 2 ^ 127) (source : SourceLine) (r : Receivers)
    (hsize : (before ++ rest).length < FileSystem.offsetLimit) :
    Completes (statement (.listDirected .input) source r
      ((List.replicate values.length edit).mapM (inputInteger · 16))) s fun out _ =>
        out = (((shifted values (false :: lates)).take values.length).map some, .ok) := by
  generalize hrest : chars rest = text at htext
  obtain @⟨lead, numeral, text, _, v, values, _, hlead, hnumeral, hbehind⟩ := htext
  obtain ⟨left, hfields⟩ := hbehind.fields.take values.length
  have hlength : ((shifted values lates).take values.length).length = values.length := by
    rw [List.length_take, Nat.min_eq_left (Field.length_le_shifted hbehind.length_eq)]
  have hread := h.list_read_completes .k16 hedit hlead (.numeral hnumeral hbehind.fieldEnd) hfields
    hrest source r hsize
  rw [List.length_cons, hlength] at hread
  refine hread.mono ?_ fun _ _ => id
  rintro _ _ ⟨rfl, -⟩
  refine congrArg (·, Iostat.ok) (List.map_congr_left fun w hw => congrArg some ?_)
  -- The zero of an empty field fits into an item as the values do.
  have hmem : w = 0 ∨ w ∈ v :: values := by
    rcases List.mem_cons.mp hw with rfl | hw
    · exact .inr List.mem_cons_self
    · exact (Field.eq_zero_or_mem_of_mem_shifted (List.mem_of_mem_take hw)).imp_right
        (List.mem_cons_of_mem _)
  rcases hmem with rfl | hmem
  · rfl
  · exact Field.narrow_ofInt (hvalues w hmem).1 (hvalues w hmem).2

/-- A list-directed READ of a file with as many items as the file has values. Blanks, tabs, ends of
records and commas may separate the values in any arrangement but one: a comma on a later record than
the value before it is not passed, and makes an item of its own, which is 0, while the values behind it
move on by one. Either way the READ succeeds. -/
theorem list_read_shifts {status : OpenStatus} {position : Position} {path : Option String}
    {source : SourceLine} {w : Receivers} {iostat : Iostat} {n : ℕ} {writable : Bool}
    (hchunk : 0 < s.unit.readChunk) (hfresh : s.unit.reaffirms status path = false)
    (hopen : statement .connect source w (openUnit status position path {}) s =
      .ok (true, iostat) t)
    (hfile : t.unit.attachment.backing = some (.file (.node n) writable))
    (hstart : t.unit.offset = 0)
    (hsize : (t.system.files.contentAt n).length < FileSystem.offsetLimit)
    (hedit : edit.kind = .listDirected)
    (htext : ListText edit.modes values lates (chars (t.system.files.contentAt n)) trail)
    (hvalues : ∀ v ∈ values, -2 ^ 127 ≤ v ∧ v < 2 ^ 127) (source' : SourceLine) (r : Receivers) :
    Completes (statement (.listDirected .input) source' r
      ((List.replicate values.length edit).mapM (inputInteger · 16))) t fun out _ =>
        out = (((shifted values (false :: lates)).take values.length).map some, .ok) ∧
        ((∀ late ∈ lates, late = false) → out = (values.map some, .ok)) := by
  have hbetween := between_of_open hchunk hfresh hopen hfile hstart
  refine (hbetween.list_text_completes hedit htext hvalues source' r hsize).mono ?_ fun _ _ => id
  rintro _ _ rfl
  refine ⟨rfl, fun hlates => ?_⟩
  have hshifted : shifted values (false :: lates) = values :=
    Field.shifted_of_not_late htext.length_eq (List.forall_mem_cons.mpr ⟨rfl, hlates⟩)
  rw [hshifted, List.take_length]

theorem list_open_old (content : Bytes) : ∃ t,
    statement .connect {} {} (openUnit .old .asIs (some "a") {})
      { system := { files := { nodes := [{ content }], names := [(["a"], 0)] } }
        unit := .new 10 1 } = .ok (true, .ok) t ∧
    t.unit.attachment.backing = some (.file (.node 0) true) ∧ t.unit.offset = 0 ∧
      t.system.files.contentAt 0 = content := by
  have hopen : ({ nodes := [{ content }], names := [(["a"], 0)] } : FileSystem).open_ "a"
      (Channel.request .old) = .ok (.node 0, { nodes := [{ content }], names := [(["a"], 0)] }) := by
    cbv
  obtain ⟨_, t, hrun, rfl, hsystem, hunit⟩ := (open_completes
    (s := { system := { files := _ }, unit := .new 10 1 }) {} {} {} rfl (by decide) hopen).exists_run
  refine ⟨t, hrun, ?_, ?_, ?_⟩
  · rw [hunit]
    rfl
  · rw [hunit]
    rfl
  · rw [hsystem]
    rfl

/-- `12, -7` and, on the second line behind a tab, `255`. -/
theorem list_read_shifts_lines :
    Completes (do
        discard (statement .connect {} {} (openUnit .old .asIs (some "a") {}))
        statement (.listDirected .input) {} {}
          ((List.replicate 3 ({} : DataEdit)).mapM (inputInteger · 16)))
      { system := { files := {
          nodes := [{ content := [32, 49, 50, 44, 32, 45, 55, 10, 9, 50, 53, 53, 10] }]
          names := [(["a"], 0)] } }
        unit := .new 10 1 } fun out _ => out = ([some 12, some (-7), some 255], .ok) := by
  obtain ⟨t, hrun, hfile, hstart, hcontent⟩ :=
    list_open_old [32, 49, 50, 44, 32, 45, 55, 10, 9, 50, 53, 53, 10]
  have hchars : chars (t.system.files.contentAt 0) = [' '] ++ (['1', '2'] ++ (([] ++ ',' :: [' ']) ++
      (['-', '7'] ++ (([] ++ (['\n'] ++ ['\t'])) ++ (['2', '5', '5'] ++ ['\n']))))) := by
    rw [hcontent]
    decide
  have htext : ListText {} [12, -7, 255] [false, false] (chars (t.system.files.contentAt 0))
      ['\n'] := by
    rw [hchars]
    have hnone : ∀ c ∈ [], Field.IsBlank c := List.forall_mem_nil _
    have hspace : ∀ c ∈ [' '], Field.IsBlank c := List.forall_mem_singleton.mpr (.inl rfl)
    have htab : ∀ c ∈ ['\t'], Field.IsBlank c := List.forall_mem_singleton.mpr (.inr rfl)
    have hlast : Field.Behind {} [] [] ['\n'] ['\n'] := .done (.inl ⟨_, .newline []⟩)
    have hline : Field.Separator {} ([] ++ (['\n'] ++ ['\t'])) false :=
      .spacing (.line hnone (.inl rfl) (.blanks htab)) (by decide)
    have hcomma : Field.Separator {} ([] ++ ',' :: [' ']) false := .comma (.blanks hnone) (.blanks hspace)
    exact .mk (.blanks hspace) (.unsigned (by decide) (by decide))
      (.next hcomma (.minus (by decide) (by decide))
        (.next hline (.unsigned (by decide) (by decide)) hlast))
  have hedit : ({} : DataEdit).kind = .listDirected := rfl
  apply Ends.bind (Completes.of_run hrun).discard
  rintro _ _ ⟨_, -, rfl⟩
  refine (list_read_shifts (by decide) rfl hrun hfile hstart (by rw [hcontent]; decide) hedit htext
    (by decide) {} {}).mono ?_ fun _ _ => id
  rintro _ _ ⟨-, hout⟩
  exact hout (by decide)

/-- `1` and, on the second line, `,2`: a list of two values by its separators, and read as another. -/
theorem list_read_shifts_comma :
    ListText {} [1, 2] [true] (chars [49, 10, 44, 50, 10]) ['\n'] ∧
    Completes (do
        discard (statement .connect {} {} (openUnit .old .asIs (some "a") {}))
        statement (.listDirected .input) {} {}
          ((List.replicate 2 ({} : DataEdit)).mapM (inputInteger · 16)))
      { system := { files := {
          nodes := [{ content := [49, 10, 44, 50, 10] }]
          names := [(["a"], 0)] } }
        unit := .new 10 1 } fun out _ =>
      out = ([some 1, some 0], .ok) ∧ out ≠ ([some 1, some 2], .ok) := by
  have htext : ListText {} [1, 2] [true] (chars [49, 10, 44, 50, 10]) ['\n'] := by
    have hchars : chars [49, 10, 44, 50, 10] =
        [] ++ (['1'] ++ ((([] ++ (['\n'] ++ [])) ++ ',' :: []) ++ (['2'] ++ ['\n']))) := by decide
    rw [hchars]
    have hnone : ∀ c ∈ [], Field.IsBlank c := List.forall_mem_nil _
    have hcomma : Field.Separator {} (([] ++ (['\n'] ++ [])) ++ ',' :: []) true :=
      .comma (.line hnone (.inl rfl) (.blanks hnone)) (.blanks hnone)
    exact .mk (.blanks hnone) (.unsigned (by decide) (by decide))
      (.next hcomma (.unsigned (by decide) (by decide)) (.done (.inl ⟨_, .newline []⟩)))
  refine ⟨htext, ?_⟩
  obtain ⟨t, hrun, hfile, hstart, hcontent⟩ := list_open_old [49, 10, 44, 50, 10]
  rw [← hcontent] at htext
  have hedit : ({} : DataEdit).kind = .listDirected := rfl
  have hbetween := between_of_open (by decide) rfl hrun hfile hstart
  apply Ends.bind (Completes.of_run hrun).discard
  rintro _ _ ⟨_, -, rfl⟩
  refine (hbetween.list_text_completes hedit htext (by decide) {} {} ?_).mono ?_ fun _ _ => id
  · rw [hcontent]
    decide
  rintro _ _ rfl
  decide

end DataTransfer.Session
