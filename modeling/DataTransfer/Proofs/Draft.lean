import DataTransfer.Proofs.Bytes
import DataTransfer.Proofs.RecordCall

/-!
Output records in the making. A draft is the text that stands in a record so far, and a cursor that
moves on its own: what is emitted is laid over the text at the cursor, and a gap before it is blank.
Records follow one another, as long as there is room for them.
-/

namespace DataTransfer

structure Draft where
  text : Bytes := []
  cursor : ℕ := 0

namespace Draft

def padded (d : Draft) : Bytes := d.text ++ .fill (d.cursor - d.text.length) Session.blank

/-- The data at the cursor, which moves behind it. -/
def overlaid (d : Draft) (data : Bytes) : Draft where
  text := d.padded.take d.cursor ++ data ++ d.padded.drop (d.cursor + data.length)
  cursor := d.cursor + data.length

def moved (limit : Option ℕ) (d : Draft) (column : ℕ) : Draft :=
  { d with cursor := limit.elim column (min column) }

def target (d : Draft) : Placement → ℕ
  | .emit data => d.cursor + data.length
  | .move m => m.column d.cursor

/-- A record of limited length refuses what does not fit, and targets behind its end. -/
def accepts (limit : Option ℕ) (d : Draft) (p : Placement) : Bool :=
  limit.all fun length =>
    match p with
    | .emit _ => max d.text.length (d.target p) ≤ length
    | .move _ => d.target p ≤ length

/-- Data that is refused changes nothing; a move that is refused ends at the end of the record. -/
def step (limit : Option ℕ) (d : Draft) (p : Placement) : Draft :=
  match p with
  | .emit data => if d.accepts limit p then d.overlaid data else d
  | .move _ => d.moved limit (d.target p)

/-- The text as it is stored: blank up to a fixed length, or with a newline. -/
def record (limit : Option ℕ) (d : Draft) : Bytes :=
  match limit with
  | some length => d.text ++ .fill (length - d.text.length) Session.blank
  | none => d.text ++ [Session.newline]

def Within (limit : Option ℕ) (d : Draft) : Prop :=
  ∀ length, limit = some length → d.text.length ≤ length ∧ d.cursor ≤ length

variable {limit : Option ℕ} {d : Draft} {p : Placement}

theorem length_padded (d : Draft) : d.padded.length = max d.text.length d.cursor := by
  rw [padded, List.length_append, Bytes.length_fill]
  omega

theorem length_overlaid (d : Draft) (data : Bytes) :
    (d.overlaid data).text.length = max d.text.length (d.cursor + data.length) := by
  simp only [overlaid, List.length_append, List.length_take, List.length_drop, length_padded]
  omega

theorem put_overlaid (bs : Bytes) (start : ℕ) (d : Draft) (data : Bytes) :
    (bs.put start d.padded).put (start + d.cursor) data = bs.put start (d.overlaid data).text :=
  Bytes.put_put_within bs start (d.length_padded ▸ le_max_right _ _)

theorem overlaid_start (k : ℕ) (data : Bytes) :
    ({ cursor := k } : Draft).overlaid data =
      { text := .fill k Session.blank ++ data, cursor := k + data.length } := by
  have hpadded : ({ cursor := k } : Draft).padded = .fill k Session.blank := rfl
  have hlength := Bytes.length_fill k Session.blank
  rw [overlaid, hpadded, List.take_of_length_le hlength.le,
    List.drop_eq_nil_of_le (hlength.trans_le (Nat.le_add_right _ _)), List.append_nil]

theorem put_padded (bs : Bytes) (start : ℕ) (d : Draft) :
    (bs.put start d.text).put (start + d.text.length)
      (.fill (d.cursor - d.text.length) Session.blank) = bs.put start d.padded :=
  Bytes.put_append _ _ _ _

theorem step_text_le (limit : Option ℕ) (d : Draft) (p : Placement) :
    d.text.length ≤ (d.step limit p).text.length := by
  unfold step
  split
  · split_ifs
    · exact d.length_overlaid _ ▸ le_max_left _ _
    · exact le_rfl
  · exact le_rfl

theorem record_length_le {limit : Option ℕ} {d e : Draft} (h : d.text.length ≤ e.text.length) :
    (d.record limit).length ≤ (e.record limit).length := by
  cases limit <;> simp only [record, List.length_append, Bytes.length_fill, List.length_singleton] <;>
    omega

theorem text_length_le_record (limit : Option ℕ) (d : Draft) :
    d.text.length ≤ (d.record limit).length := by
  cases limit <;> exact (List.prefix_append _ _).length_le

theorem within_start (limit : Option ℕ) : ({} : Draft).Within limit :=
  fun _ _ => ⟨Nat.zero_le _, Nat.zero_le _⟩

theorem Within.moved (h : d.Within limit) (column : ℕ) : (d.moved limit column).Within limit := by
  rintro length rfl
  exact ⟨(h length rfl).1, min_le_right _ _⟩

theorem Within.step (h : d.Within limit) (p : Placement) : (d.step limit p).Within limit := by
  unfold Draft.step
  split
  · next data =>
    split_ifs with haccepts
    · rintro length rfl
      have hroom : max d.text.length (d.cursor + data.length) ≤ length := by
        simpa [accepts, target] using haccepts
      exact ⟨(d.length_overlaid data).trans_le hroom, (le_max_right _ _).trans hroom⟩
    · exact h
  · exact h.moved _

theorem Within.record_length (h : d.Within limit) :
    (d.record limit).length = limit.getD (d.text.length + 1) := by
  cases limit with
  | none => exact List.length_append
  | some length =>
    have hle := (h length rfl).1
    simp only [record, List.length_append, Bytes.length_fill, Option.getD_some]
    omega

end Draft

/-- The records that are finished, and the draft of the current one. -/
structure Pages where
  finished : List Bytes := []
  draft : Draft := {}

namespace Pages

def hasRoom (room : Option ℕ) (g : Pages) : Bool := room.all (g.finished.length < ·)

/-- Behind the last record nothing is emitted and nothing finished; the cursor moves all the same. -/
def accepts (limit room : Option ℕ) (g : Pages) : OutputStep → Bool
  | .emit data => g.hasRoom room && g.draft.accepts limit (.emit data)
  | .move m => g.draft.accepts limit (.move m)
  | .advance => g.hasRoom room

def step (limit room : Option ℕ) (g : Pages) : OutputStep → Pages
  | .emit data => if g.hasRoom room then { g with draft := g.draft.step limit (.emit data) } else g
  | .move m => { g with draft := g.draft.step limit (.move m) }
  | .advance => if g.hasRoom room then { finished := g.finished ++ [g.draft.record limit] } else g

def accepted (limit room : Option ℕ) : Pages → List OutputStep → List Bool
  | _, [] => []
  | g, p :: ps => g.accepts limit room p :: accepted limit room (g.step limit room p) ps

/-- Whether nothing has been refused, after each of the steps. -/
def unrefused : List Bool → List Bool
  | [] => []
  | ok :: oks => ok :: (unrefused oks).map (ok && ·)

def lay (limit room : Option ℕ) (g : Pages) (ps : List OutputStep) : Pages :=
  ps.foldl (step limit room) g

/-- The records as they are stored, the draft among them. -/
def stored (limit room : Option ℕ) (g : Pages) : Bytes :=
  g.finished.flatten ++ if g.hasRoom room then g.draft.record limit else []

def records (limit room : Option ℕ) (ps : List OutputStep) : Bytes :=
  (lay limit room {} ps).stored limit room

theorem step_emit_none (limit : Option ℕ) (g : Pages) (data : Bytes) :
    g.step limit none (.emit data) = { g with draft := g.draft.step limit (.emit data) } := rfl

theorem accepts_emit_none (limit : Option ℕ) (g : Pages) (data : Bytes) :
    g.accepts limit none (.emit data) = g.draft.accepts limit (.emit data) := rfl

theorem stored_none (limit : Option ℕ) (g : Pages) :
    g.stored limit none = g.finished.flatten ++ g.draft.record limit := rfl

theorem stored_length_le_step (limit : Option ℕ) (g : Pages) (p : OutputStep) :
    (g.stored limit none).length ≤ ((g.step limit none p).stored limit none).length := by
  have hdraft (p : Placement) : (g.stored limit none).length ≤
      (({ g with draft := g.draft.step limit p } : Pages).stored limit none).length := by
    rw [stored_none, stored_none, List.length_append, List.length_append]
    exact Nat.add_le_add_left (Draft.record_length_le (g.draft.step_text_le limit p)) _
  cases p with
  | emit data => exact hdraft (.emit data)
  | move m => exact hdraft (.move m)
  | advance =>
    change _ ≤ ((g.finished ++ [g.draft.record limit]).flatten ++ _).length
    rw [stored_none, List.flatten_append, List.flatten_singleton]
    exact (List.prefix_append _ _).length_le

theorem stored_length_le_lay (limit : Option ℕ) (g : Pages) (ps : List OutputStep) :
    (g.stored limit none).length ≤ ((g.lay limit none ps).stored limit none).length := by
  induction ps generalizing g with
  | nil => exact le_rfl
  | cons p ps ih => exact (g.stored_length_le_step limit p).trans (ih _)

end Pages

end DataTransfer
