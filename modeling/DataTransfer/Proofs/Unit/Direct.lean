import Mathlib
import DataTransfer.Proofs.Unit.DirectTransfer

/-!
Unformatted direct access: a unit as a map from numbers to records. WRITEs and READs of records in any
order answer what the history of them tells.
-/

namespace DataTransfer

/-- What a statement is answered after these statements. A READ meets the end of the file at what is
past the end, or has been when a READ found so; else it is on the record that was written last. -/
def DirectOp.Answers (length : ℕ) (history : List DirectOp) :
    DirectOp → (Bool × List (Bool × Option Bytes)) × Iostat → Prop
  | .write _ chunks, out => out = ((true, chunks.map fun _ => (true, none)), .ok)
  | .read record counts, out =>
    (Ended history record ∨ PastEnd history record →
      out = ((true, counts.map fun _ => (false, none)), .endOfFile)) ∧
    (¬ (Ended history record ∨ PastEnd history record) →
      out = ((true, (receives (recordBytes history record length) false 0 counts).1),
        (receives (recordBytes history record length) false 0 counts).2))

namespace Session

section

variable {s : Session} {system : System} {n : ℕ} {hn : n < system.files.nodes.length}
variable {path : String} {content : Bytes} {length : ℕ} {endRecord : Option ℕ}

def Tracks (hn : n < system.files.nodes.length) (path : String) (s : Session) (length : ℕ)
    (history : List DirectOp) : Prop :=
  ∃ count content endRecord, AtDirect hn path s length content endRecord ∧
    StandsFor history length count content endRecord ∧ content.length < FileSystem.offsetLimit

variable {history : List DirectOp} {r : Receivers}

theorem Tracks.read (h : Tracks hn path s length history) (source : SourceLine)
    (hr : r.receivesError = true) (hlength : 0 < length) {record : ℕ} {counts : List ℕ}
    (hsuits : (DirectOp.read record counts).Suits length) :
    Completes ((DirectOp.read record counts).perform source r) s fun out t =>
      (DirectOp.read record counts).Answers length history out ∧
        Tracks hn path t length (history ++ [.read record counts]) := by
  obtain ⟨count, content, endRecord, hat, hstands, hsize⟩ := h
  obtain ⟨hrecord, haccepted⟩ := hsuits
  have hstop := sub_one_mul_add hrecord length
  -- The unit sees the end for one of two reasons, which are the two of the history.
  by_cases hmissed : endRecord.any (· ≤ record) = true ∨ count < record
  · have habsent : Absent length content endRecord record := by
      refine ⟨hmissed.imp_right fun hlt => ?_, by omega, hsize⟩
      rw [hstands.length_eq]
      exact Nat.mul_le_mul_right _ (by omega)
    have hend : Ended history record ∨ PastEnd history record := by
      rwa [← hstands.ended_iff, hstands.pastEnd_iff record hrecord]
    refine (hat.read_missed source hr hrecord habsent counts).mono ?_ fun _ _ => id
    rintro _ t ⟨rfl, ht⟩
    exact ⟨⟨fun _ => rfl, fun h => absurd hend h⟩, count, content, _, ht,
      hstands.read_missed counts hrecord hmissed, hsize⟩
  · obtain ⟨hended, hcount⟩ := not_or.mp hmissed
    have hpresent : Present length content endRecord record := by
      refine ⟨hlength, hrecord, ?_, hsize, Bool.eq_false_iff.mpr hended⟩
      rw [hstands.length_eq]
      exact Nat.mul_le_mul_right _ (by omega)
    have hend : ¬ (Ended history record ∨ PastEnd history record) := by
      rwa [← hstands.ended_iff, hstands.pastEnd_iff record hrecord]
    refine (hat.read_found source hr hpresent counts).mono ?_ fun _ _ => id
    rintro _ t ⟨rfl, ht⟩
    rw [hstands.slice_eq record hrecord (by omega)]
    exact ⟨⟨fun h => absurd h hend, fun _ => rfl⟩, count, content, _, ht,
      hstands.read_found counts hrecord (by omega), hsize⟩

theorem Tracks.write (h : Tracks hn path s length history) (source : SourceLine) (r : Receivers)
    (hlength : 0 < length) {record : ℕ} {chunks : List Bytes}
    (hsuits : (DirectOp.write record chunks).Suits length) :
    Completes ((DirectOp.write record chunks).perform source r) s fun out t =>
      (DirectOp.write record chunks).Answers length history out ∧
        Tracks hn path t length (history ++ [.write record chunks]) := by
  obtain ⟨count, content, endRecord, hat, hstands, hsize⟩ := h
  refine (hat.write_completes source r hsuits).mono ?_ fun _ _ => id
  rintro _ t ⟨rfl, ht⟩
  obtain ⟨hrecord, haccepted, hchunks⟩ := hsuits
  refine ⟨rfl, _, _, _, ht, hstands.write hlength hrecord hchunks, ?_⟩
  have hstop := sub_one_mul_add hrecord length
  rw [Bytes.length_put, hchunks, if_neg hlength.ne']
  omega

/-- Statements on a unit of direct access answer what the history before each of them tells. -/
theorem Tracks.run (h : Tracks hn path s length history) (source : SourceLine)
    (hr : r.receivesError = true) (hlength : 0 < length) (ops : List DirectOp)
    (hops : ∀ op ∈ ops, op.Suits length) :
    Completes (ops.mapM (DirectOp.perform source r)) s fun outs t => outs.length = ops.length ∧
      (∀ (k : ℕ) (op : DirectOp) out, ops[k]? = some op → outs[k]? = some out →
        op.Answers length (history ++ ops.take k) out) ∧
      Tracks hn path t length (history ++ ops) := by
  rw [← List.append_nil history] at h
  -- Before each statement the unit tracks the statements that have been made by then.
  refine (Ends.mapM (I := fun k t => Tracks hn path t length (history ++ ops.take k))
    (P := fun k op out => op.Answers length (history ++ ops.take k) out) ?_ h).mono ?_ fun _ _ => id
  · intro k op hop t ht
    have hsuits := hops op (List.mem_of_getElem? hop)
    rw [List.take_add_one, hop, Option.toList_some, ← List.append_assoc]
    cases op with
    | write record chunks => exact ht.write source r hlength hsuits
    | read record counts => exact ht.read source hr hlength hsuits
  · rintro outs t ⟨hcount, houts, ht⟩
    rw [List.take_length] at ht
    exact ⟨hcount, houts, ht⟩

end

theorem tracks_of_open {s t : Session} {status : OpenStatus} {position : Position}
    {path : Option String} {length : ℕ} {source : SourceLine} {w : Receivers} {iostat : Iostat}
    {n : ℕ} (hstatus : status ≠ .scratch) (hfresh : s.unit.reaffirms status path = false)
    (hopen : statement .connect source w (openUnit status position path
      { access := .direct, formatted := false, recordLength := some length }) s =
        .ok (true, iostat) t)
    (hfile : t.unit.attachment.backing = some (.file (.node n) true))
    (hempty : t.system.files.contentAt n = []) :
    ∃ (hn : n < t.system.files.nodes.length) (name : String), Tracks hn name t length [] := by
  obtain ⟨hopened, -, hn, hholds⟩ := opened_on_file hstatus hfresh hopen hfile
  rw [hempty] at hholds
  refine ⟨hn, _, 0, [], none, ⟨hholds, ?_, ?_⟩, StandsFor.empty length, by decide⟩
  all_goals rw [hopened.unit_eq]
  · exact ⟨rfl, rfl, rfl, rfl, rfl⟩
  · rfl

/-- A unit of direct access to a new file is a map from record numbers to records, with one flaw: a
number at which a READ has met the end of the file stays the end, for all READs of it or of a higher
number, even when a WRITE has put a record there. Each WRITE succeeds, each READ answers as the
history before it tells, and a READ of a record that has been written gets the bytes of the last WRITE
back if and only if no READ has met the end of the file there, or before it. -/
theorem direct_statements {s t : Session} {status : OpenStatus} {position : Position}
    {path : Option String} {length : ℕ} {source : SourceLine} {w r : Receivers} {iostat : Iostat}
    {n : ℕ} (hlength : 0 < length) (hstatus : status ≠ .scratch)
    (hfresh : s.unit.reaffirms status path = false)
    (hopen : statement .connect source w (openUnit status position path
      { access := .direct, formatted := false, recordLength := some length }) s =
        .ok (true, iostat) t)
    (hfile : t.unit.attachment.backing = some (.file (.node n) true))
    (hempty : t.system.files.contentAt n = []) (hr : r.receivesError = true) (ops : List DirectOp)
    (hops : ∀ op ∈ ops, op.Suits length) :
    Completes (ops.mapM (DirectOp.perform source r)) t fun outs _ => outs.length = ops.length ∧
      ∀ (k : ℕ) (op : DirectOp) out, ops[k]? = some op → outs[k]? = some out →
        op.Answers length (ops.take k) out ∧
        ∀ record counts data, op = .read record counts → counts.sum = length →
          lastWritten (ops.take k) record = some data →
          ((∃ pieces : List Bytes, pieces.flatten = data ∧
              out = ((true, pieces.map fun piece => (true, some piece)), .ok)) ↔
            ¬ Ended (ops.take k) record) := by
  obtain ⟨hn, name, htracks⟩ := tracks_of_open hstatus hfresh hopen hfile hempty
  refine (htracks.run source hr hlength ops hops).mono ?_ fun _ _ => id
  rintro outs u ⟨hcount, houts, -⟩
  refine ⟨hcount, ?_⟩
  intro k op out hop hout
  have hanswer := houts k op out hop hout
  rw [List.nil_append] at hanswer
  refine ⟨hanswer, ?_⟩
  rintro record counts data rfl hsum hlast
  obtain ⟨hend, hfound⟩ := hanswer
  -- Of the two reasons for END only the hidden record is left where one was written.
  have hpast : ¬ PastEnd (ops.take k) record := by
    intro hpast
    rw [hpast record le_rfl] at hlast
    cases hlast
  constructor
  · rintro ⟨pieces, -, rfl⟩ hended
    cases congrArg Prod.snd (hend (.inl hended))
  · intro hended
    obtain ⟨chunks, hmem, hchunks⟩ := exists_of_lastWritten hlast
    have hdata : data.length = length := by
      rw [← hchunks]
      exact (hops _ (List.mem_of_mem_take hmem)).2.2
    obtain ⟨pieces, hpieces, hflat⟩ := receives_split data 0 counts (by omega)
    have hout := hfound (not_or.mpr ⟨hended, hpast⟩)
    rw [recordBytes, hlast, Option.getD_some, hpieces] at hout
    exact ⟨pieces, by rw [hflat, List.drop_zero], hout⟩

theorem direct_open_new : ∃ t, statement .connect {} {} (openUnit .new .asIs (some "d")
      { access := .direct, formatted := false, recordLength := some 2 })
      { system := {}, unit := .new 10 256 } = .ok (true, .ok) t ∧
      t.unit.attachment.backing = some (.file (.node 0) true) ∧
      t.system.files.contentAt 0 = [] := by
  refine ⟨{ system := { files := { nodes := [{}], names := [(["d"], 0)] } }
            unit := { number := 10, readChunk := 256, attachment := .ofFile "d" 0
                      connection := { access := .direct, formatted := false, fixedLength := true
                                      recordLength := some 2 } } }, by cbv, rfl, rfl⟩

/-- Records that are written in one order and read in another come back. -/
theorem direct_statements_two_records :
    Completes (do
        discard (statement .connect {} {} (openUnit .new .asIs (some "d")
          { access := .direct, formatted := false, recordLength := some 2 }))
        [.write 2 [[99, 100]], .write 1 [[97], [98]], .read 1 [1, 1]].mapM
          (DirectOp.perform {} { iostat := true }))
      { system := {}, unit := .new 10 256 } fun outs _ =>
      outs = [((true, [(true, none)]), .ok), ((true, [(true, none), (true, none)]), .ok),
        ((true, [(true, some [97]), (true, some [98])]), .ok)] := by
  obtain ⟨t, hrun, hfile, hempty⟩ := direct_open_new
  apply Ends.bind (Completes.of_run hrun).discard
  rintro _ _ ⟨_, -, rfl⟩
  refine (direct_statements (by decide) (by decide) rfl hrun hfile hempty rfl
    [.write 2 [[99, 100]], .write 1 [[97], [98]], .read 1 [1, 1]] (by decide)).mono ?_ fun _ _ => id
  rintro outs u ⟨hcount, houts⟩
  obtain ⟨a, b, c, rfl⟩ := List.length_eq_three.mp hcount
  obtain rfl := (houts 0 _ a rfl rfl).1
  obtain rfl := (houts 1 _ b rfl rfl).1
  have hfound : ¬ (Ended [.write 2 [[99, 100]], .write 1 [[97], [98]]] 1 ∨
      PastEnd [.write 2 [[99, 100]], .write 1 [[97], [98]]] 1) := by
    rintro (⟨_ | _ | k, i, counts, hread, -⟩ | hpast)
    · cases hread
    · cases hread
    · cases hread
    · cases hpast 1 le_rfl
  obtain rfl := (houts 2 _ c rfl rfl).1.2 hfound
  rfl

/-- A READ that has met the end of the file at a record hides what is written there afterwards. -/
theorem direct_read_hidden :
    Completes (do
        discard (statement .connect {} {} (openUnit .new .asIs (some "d")
          { access := .direct, formatted := false, recordLength := some 2 }))
        [.read 1 [2], .write 1 [[97, 98]], .read 1 [2]].mapM
          (DirectOp.perform {} { iostat := true }))
      { system := {}, unit := .new 10 256 } fun outs _ =>
      lastWritten [.read 1 [2], .write 1 [[97, 98]]] 1 = some [97, 98] ∧
        outs[2]? = some ((true, [(false, none)]), .endOfFile) := by
  obtain ⟨t, hrun, hfile, hempty⟩ := direct_open_new
  obtain ⟨hn, name, htracks⟩ := tracks_of_open (by decide) rfl hrun hfile hempty
  apply Ends.bind (Completes.of_run hrun).discard
  rintro _ _ ⟨_, -, rfl⟩
  refine (htracks.run {} rfl (by decide) [.read 1 [2], .write 1 [[97, 98]], .read 1 [2]]
    (by decide)).mono ?_ fun _ _ => id
  rintro outs u ⟨hcount, houts, -⟩
  obtain ⟨a, b, c, rfl⟩ := List.length_eq_three.mp hcount
  have hended : Ended [.read 1 [2], .write 1 [[97, 98]]] 1 := ⟨0, 1, [2], rfl, le_rfl, fun _ _ => rfl⟩
  exact ⟨rfl, congrArg some ((houts 2 _ c rfl rfl).1 (.inl hended))⟩

end Session

end DataTransfer
