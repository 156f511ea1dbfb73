import DataTransfer.Proofs.Unit.LineWriting
import DataTransfer.Proofs.Unit.ListReading

/-!
List-directed WRITEs of INTEGER values behind the last line of a file, and the text that their lines
are for a list-directed READ.
-/

namespace DataTransfer

/-! ### Texts as bytes -/

namespace Bytes

theorem loop_toList (bs : ByteArray) (i : ℕ) (front : List UInt8) :
    ByteArray.toList.loop bs i front = front.reverse ++ bs.data.toList.drop i := by
  fun_induction ByteArray.toList.loop bs i front with
  | case1 i front hlt ih =>
    have hi : i < bs.data.toList.length := by simpa using hlt
    rw [ih, List.reverse_cons, List.append_assoc, List.drop_eq_getElem_cons hi]
    congr 2
    simp [ByteArray.get!, getElem!_pos, hlt]
  | case2 i front hge =>
    have hi : bs.data.toList.length ≤ i := by simpa using hge
    rw [List.drop_of_length_le hi, List.append_nil]

theorem ofText_eq (text : String) : ofText text = text.toList.flatMap String.utf8EncodeChar := by
  have hbytes : text.toByteArray.data.toList = text.toList.flatMap String.utf8EncodeChar := by
    rw [← String.utf8Encode_toList, List.utf8Encode, List.toList_data_toByteArray]
  exact (loop_toList text.toByteArray 0 []).trans hbytes

theorem chars_ofText {text : String} (h : ∀ c ∈ text.toList, c.toNat < 128) :
    chars (ofText text) = text.toList := by
  rw [ofText_eq]
  exact map_flatMap_utf8 h

theorem chars_ofText_toString (v : ℤ) : chars (ofText (toString v)) = (toString v).toList := by
  refine chars_ofText fun c hc => ?_
  rcases (numeral_toString v).isDigit_or_sign hc with hdigit | rfl | rfl
  · have hnine := Digits.value_le_nine hdigit
    have hzero : '0'.toNat = 48 := rfl
    omega
  · decide
  · decide

end Bytes

namespace Session

variable {s : Session} {system : System} {n : ℕ} {hn : n < system.files.nodes.length}
variable {path : String} {content written : Bytes} {values : List ℤ}

/-! ### The line of a WRITE -/

def listLine (values : List ℤ) : Bytes :=
  (values.map fun v => blank :: Bytes.ofText (toString v)).flatten

theorem listLine_cons (v : ℤ) (values : List ℤ) :
    listLine (v :: values) = blank :: Bytes.ofText (toString v) ++ listLine values := rfl

theorem Putting.outputText_completes (h : Putting hn path s content written) (text : String)
    (hlist : s.unit.statement.isListDirected = true)
    (hfixed : s.unit.connection.fixedRecordLength = none)
    (hsize : s.unit.dataOffset + (written ++ blank :: Bytes.ofText text).length <
      FileSystem.offsetLimit) :
    Completes (outputText text) s fun ok t => ok = true ∧
      (∃ items w, t = { s with items }.afterOutput w (written ++ blank :: Bytes.ofText text).length) ∧
        Putting hn path t content (written ++ blank :: Bytes.ofText text) := by
  have hsplit : written ++ blank :: Bytes.ofText text = written ++ [blank] ++ Bytes.ofText text := by
    simp
  have hnone : ∀ count length, s.unit.connection.fixedRecordLength = some length → count ≤ length := by
    intro _ _ hsome
    rw [hfixed] at hsome
    cases hsome
  rw [hsplit] at hsize ⊢
  refine (ends_get _).mpr ?_
  rw [if_neg (by rw [h.inError_eq]; exact Bool.false_ne_true), if_pos hlist]
  refine Ends.bind (h.emit_completes [blank] (fun _ => hnone _ _) ?_) ?_
  · rw [List.length_append] at hsize
    omega
  rintro _ _ ⟨rfl, ⟨w, rfl⟩, ht⟩
  rw [if_neg (by simp)]
  refine (ends_modify_bind _ _).mpr ?_
  have hitems : Putting hn path
      { s.afterOutput w (written ++ [blank]).length with items := s.items + 1 } content
        (written ++ [blank]) := { ht with }
  refine (hitems.emit_completes (Bytes.ofText text) (fun _ => hnone _ _) hsize).mono ?_ fun _ _ => id
  rintro _ _ ⟨rfl, ⟨w', rfl⟩, hu⟩
  exact ⟨rfl, ⟨s.items + 1, w', rfl⟩, hu⟩

theorem Putting.outputs_complete (values : List ℤ) (h : Putting hn path s content written)
    (hlist : s.unit.statement.isListDirected = true)
    (hfixed : s.unit.connection.fixedRecordLength = none)
    (hsize : s.unit.dataOffset + (written ++ listLine values).length < FileSystem.offsetLimit) :
    Completes (values.mapM outputInteger) s fun oks t => oks = values.map (fun _ => true) ∧
      (∃ items w, t = { s with items }.afterOutput w (written ++ listLine values).length) ∧
        Putting hn path t content (written ++ listLine values) := by
  induction values generalizing s written with
  | nil =>
    have hnil : written ++ listLine [] = written := List.append_nil written
    rw [hnil]
    exact ⟨rfl, ⟨s.items, s.channel, h.afterOutput_eq.symm⟩, h⟩
  | cons v values ih =>
    rw [listLine_cons, ← List.append_assoc] at hsize ⊢
    rw [List.mapM_cons]
    refine Ends.bind (h.outputText_completes (toString v) hlist hfixed ?_) ?_
    · rw [List.length_append] at hsize
      omega
    rintro _ _ ⟨rfl, ⟨items, w, rfl⟩, ht⟩
    apply Ends.bind (ih ht hlist hfixed hsize)
    rintro _ _ ⟨rfl, ⟨items', w', rfl⟩, hu⟩
    exact ⟨rfl, ⟨items', w', rfl⟩, hu⟩

theorem AtFileEnd.list_write_completes (source : SourceLine) (r : Receivers) (values : List ℤ)
    (h : AtFileEnd hn path s content)
    (hsize : (content ++ (listLine values ++ [newline])).length < FileSystem.offsetLimit) :
    Completes (statement (.listDirected .output) source r (values.mapM outputInteger)) s
      fun out t => out = (values.map (fun _ => true), .ok) ∧
        AtFileEnd hn path t (content ++ (listLine values ++ [newline])) := by
  refine h.appends_line (fun _ => rfl) ?_ hsize source r
  intro t ht hform hstatement hoffset
  have hfits : t.unit.dataOffset + ([] ++ listLine values).length < FileSystem.offsetLimit := by
    rw [hoffset, List.nil_append, ← List.length_append]
    rw [← List.append_assoc, List.length_append, List.length_singleton] at hsize
    omega
  refine (ht.putting.outputs_complete values (by rw [hstatement]; rfl) hform.fixedRecordLength
    hfits).mono ?_ fun _ _ => id
  rintro _ _ ⟨rfl, ⟨items, w, rfl⟩, hput⟩
  have hheld : w.Holds (system.device hn path) (content.put t.unit.dataOffset (listLine values)) :=
    hput.holds
  rw [hoffset, Bytes.put_length] at hheld
  exact ⟨rfl, items, w, rfl, hheld⟩

/-! ### Its text -/

theorem behind_listLine (modes : Modes) (values : List ℤ) {trail : List Char}
    (h : Field.FieldEnd modes trail) :
    Field.Behind modes values (values.map fun _ => false) (Bytes.chars (listLine values) ++ trail)
      trail := by
  induction values with
  | nil => exact .done h
  | cons v values ih =>
    have hspace : ∀ c ∈ [' '], Field.IsBlank c := List.forall_mem_singleton.mpr (.inl rfl)
    have hblank : Field.Separator modes [' '] false := .spacing (.blanks hspace) (by decide)
    have htext : Bytes.chars (listLine (v :: values)) ++ trail =
        [' '] ++ ((toString v).toList ++ (Bytes.chars (listLine values) ++ trail)) := by
      rw [listLine_cons, Bytes.chars_append, List.append_assoc, ← Bytes.chars_ofText_toString v]
      rfl
    rw [htext]
    exact .next hblank (numeral_toString v) ih

end Session

end DataTransfer
