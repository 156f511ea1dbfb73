import DataTransfer.Proofs.Bytes
import DataTransfer.Storage.FileSystem

/-!
What statements of direct access have made of a file, told by the history of them: the record that
was last written under each number, and which numbers the unit takes for the end of the file. The
second depends on READs as well: a number at which a READ has found nothing stays the end of the file,
even when its record is written afterwards.
-/

namespace DataTransfer

/-- A statement of direct access: a WRITE that puts a record in pieces, or a READ that receives one
in pieces. -/
inductive DirectOp where
  | write (record : ℕ) (chunks : List Bytes)
  | read (record : ℕ) (counts : List ℕ)

def DirectOp.written? (record : ℕ) : DirectOp → Option Bytes
  | .write i chunks => if i = record then some chunks.flatten else none
  | .read _ _ => none

section

variable (history : List DirectOp) (record : ℕ)

def lastWritten : Option Bytes := (history.filterMap (·.written? record)).getLast?

def PastEnd : Prop := ∀ i ≥ record, lastWritten history i = none

/-- A READ of this number, or of a lower one, has found that it was past the end. -/
def Ended : Prop :=
  ∃ (k i : ℕ) (counts : List ℕ),
    history[k]? = some (.read i counts) ∧ i ≤ record ∧ PastEnd (history.take k) i

/-- A record that was passed over is blank. -/
def recordBytes (length : ℕ) : Bytes := (lastWritten history record).getD (Bytes.fill length 0)

end

section

variable {history : List DirectOp} {record i : ℕ} {chunks : List Bytes} {counts : List ℕ}

theorem lastWritten_append_write : lastWritten (history ++ [.write i chunks]) record =
    if i = record then some chunks.flatten else lastWritten history record := by
  unfold lastWritten
  rw [List.filterMap_append]
  by_cases h : i = record <;> simp [DirectOp.written?, h]

@[simp] theorem lastWritten_append_read : lastWritten (history ++ [.read i counts]) record =
    lastWritten history record := by
  simp [lastWritten, List.filterMap_append, DirectOp.written?]

theorem exists_of_lastWritten {data : Bytes} (h : lastWritten history record = some data) :
    ∃ chunks, .write record chunks ∈ history ∧ chunks.flatten = data := by
  obtain ⟨op, hop, hdata⟩ := List.mem_filterMap.mp (List.mem_of_getLast? h)
  cases op with
  | write i chunks =>
    rw [DirectOp.written?] at hdata
    split_ifs at hdata with hi
    subst hi
    exact ⟨chunks, hop, Option.some.inj hdata⟩
  | read i counts => cases hdata

theorem pastEnd_append_write :
    PastEnd (history ++ [.write i chunks]) record ↔ PastEnd history record ∧ i < record := by
  constructor
  · intro h
    refine ⟨fun j hj => ?_, ?_⟩
    · have hnone := h j hj
      rw [lastWritten_append_write] at hnone
      split_ifs at hnone
      exact hnone
    · by_contra hle
      have hnone := h i (not_lt.mp hle)
      rw [lastWritten_append_write, if_pos rfl] at hnone
      cases hnone
  · rintro ⟨h, hlt⟩ j hj
    rw [lastWritten_append_write, if_neg (by omega)]
    exact h j hj

theorem pastEnd_append_read :
    PastEnd (history ++ [.read i counts]) record ↔ PastEnd history record := by
  simp [PastEnd]

theorem ended_append (op : DirectOp) : Ended (history ++ [op]) record ↔ Ended history record ∨
    ∃ i counts, op = .read i counts ∧ i ≤ record ∧ PastEnd history i := by
  constructor
  · rintro ⟨k, i, counts, hop, hi, hpast⟩
    rcases Nat.lt_or_ge k history.length with hk | hk
    · rw [List.getElem?_append_left hk] at hop
      rw [List.take_append_of_le_length hk.le] at hpast
      exact .inl ⟨k, i, counts, hop, hi, hpast⟩
    · have hlast : k = history.length := by
        have hlt := (List.getElem?_eq_some_iff.mp hop).1
        rw [List.length_append, List.length_singleton] at hlt
        omega
      subst hlast
      rw [List.getElem?_concat_length] at hop
      rw [List.take_left] at hpast
      exact .inr ⟨i, counts, Option.some.inj hop, hi, hpast⟩
  · rintro (⟨k, i, counts, hop, hi, hpast⟩ | ⟨i, counts, rfl, hi, hpast⟩)
    · have hk := (List.getElem?_eq_some_iff.mp hop).1
      refine ⟨k, i, counts, ?_, hi, ?_⟩
      · rw [List.getElem?_append_left hk, hop]
      · rw [List.take_append_of_le_length hk.le]
        exact hpast
    · refine ⟨history.length, i, counts, List.getElem?_concat_length, hi, ?_⟩
      rw [List.take_left]
      exact hpast

end

/-! ### The file -/

theorem sub_one_mul_add {record : ℕ} (h : 0 < record) (length : ℕ) :
    (record - 1) * length + length = record * length := by
  rw [← Nat.succ_mul, Nat.succ_eq_add_one, Nat.sub_add_cancel h]

theorem records_disjoint {length i j : ℕ} (hi : 0 < i) (hj : 0 < j) (hne : j ≠ i) :
    (j - 1) * length + length ≤ (i - 1) * length ∨
      (i - 1) * length + length ≤ (j - 1) * length := by
  rw [sub_one_mul_add hi, sub_one_mul_add hj]
  rcases Nat.lt_or_gt_of_ne hne with hlt | hgt
  · exact .inl (Nat.mul_le_mul_right _ (by omega))
  · exact .inr (Nat.mul_le_mul_right _ (by omega))

/-- The number that a unit takes for the end of its file when a READ has missed its record. -/
def endAfterMiss (endRecord : Option ℕ) (record : ℕ) : Option ℕ :=
  if endRecord.any (· ≤ record) then endRecord else some record

theorem endAfterMiss_any (endRecord : Option ℕ) (record : ℕ) :
    (endAfterMiss endRecord record).any (· ≤ record) = true := by
  unfold endAfterMiss
  split_ifs with h
  · exact h
  · simp

/-- A file of `count` records, and the number that the unit takes for its end, after a history. -/
structure StandsFor (history : List DirectOp) (length count : ℕ) (content : Bytes)
    (endRecord : Option ℕ) : Prop where
  length_eq : content.length = count * length
  pastEnd_iff : ∀ record > 0, PastEnd history record ↔ count < record
  slice_eq : ∀ record > 0, record ≤ count →
    content.slice ((record - 1) * length) length = recordBytes history record length
  ended_iff : ∀ record, endRecord.any (· ≤ record) = true ↔ Ended history record

namespace StandsFor

variable {history : List DirectOp} {length count record : ℕ} {content : Bytes}
variable {endRecord : Option ℕ}

theorem empty (length : ℕ) : StandsFor [] length 0 [] none where
  length_eq := by simp
  pastEnd_iff record h := ⟨fun _ => h, fun _ _ _ => rfl⟩
  slice_eq record h hle := by omega
  ended_iff record := by simp [Ended]

variable (h : StandsFor history length count content endRecord)
include h

theorem write {chunks : List Bytes} (hpos : 0 < length) (hrecord : 0 < record)
    (hchunks : chunks.flatten.length = length) :
    StandsFor (history ++ [.write record chunks]) length (max count record)
      (content.put ((record - 1) * length) chunks.flatten) endRecord where
  length_eq := by
    rw [Bytes.length_put, hchunks, if_neg hpos.ne', sub_one_mul_add hrecord, h.length_eq,
      Nat.mul_max_mul_right]
  pastEnd_iff i hi := by
    rw [pastEnd_append_write, h.pastEnd_iff i hi]
    omega
  slice_eq i hi hle := by
    have hstop := sub_one_mul_add hi length
    -- The record itself, one in the gap that the WRITE leaves, or one that it does not touch.
    by_cases hsame : i = record
    · subst hsame
      rw [recordBytes, lastWritten_append_write, if_pos rfl, Option.getD_some]
      conv_lhs => rw [← hchunks]
      exact Bytes.slice_put_self _ _ _
    have hdisjoint : (i - 1) * length + length ≤ (record - 1) * length ∨
        (record - 1) * length + length ≤ (i - 1) * length := records_disjoint hrecord hi hsame
    rw [recordBytes, lastWritten_append_write, if_neg (Ne.symm hsame)]
    rcases Nat.lt_or_ge count i with hgap | hin
    · have hnone : lastWritten history i = none := (h.pastEnd_iff i hi).mpr hgap i le_rfl
      rw [hnone, Option.getD_none]
      refine Bytes.slice_put_gap ?_ ?_ ?_
      · rw [h.length_eq]
        exact Nat.mul_le_mul_right _ (by omega)
      · rw [hstop]
        exact Nat.mul_le_mul_right _ (by omega)
      · rw [← List.length_pos_iff, hchunks]
        exact hpos
    · refine (Bytes.slice_put_of_disjoint ?_ ?_).trans (h.slice_eq i hi hin)
      · rw [hstop, h.length_eq]
        exact Nat.mul_le_mul_right _ hin
      · rw [hchunks]
        exact hdisjoint
  ended_iff i := by
    rw [ended_append, h.ended_iff]
    simp

theorem read {counts : List ℕ} {endRecord' : Option ℕ}
    (hended : ∀ i, endRecord'.any (· ≤ i) = true ↔ Ended (history ++ [.read record counts]) i) :
    StandsFor (history ++ [.read record counts]) length count content endRecord' where
  length_eq := h.length_eq
  pastEnd_iff i hi := by rw [pastEnd_append_read, h.pastEnd_iff i hi]
  slice_eq i hi hle := by rw [h.slice_eq i hi hle, recordBytes, recordBytes, lastWritten_append_read]
  ended_iff := hended

/-- A READ that finds its record leaves the end where it is. -/
theorem read_found (counts : List ℕ) (hrecord : 0 < record) (hcount : record ≤ count) :
    StandsFor (history ++ [.read record counts]) length count content endRecord := by
  refine h.read fun i => ?_
  have hin : ¬ PastEnd history record := by
    rw [h.pastEnd_iff record hrecord]
    omega
  rw [ended_append, h.ended_iff]
  simp [hin]

theorem read_missed (counts : List ℕ) (hrecord : 0 < record)
    (hmiss : endRecord.any (· ≤ record) = true ∨ count < record) :
    StandsFor (history ++ [.read record counts]) length count content
      (endAfterMiss endRecord record) := by
  unfold endAfterMiss
  refine h.read fun i => ?_
  have hread : (∃ j counts', DirectOp.read record counts = .read j counts' ∧ j ≤ i ∧
      PastEnd history j) ↔ record ≤ i ∧ PastEnd history record := by simp
  rw [ended_append, hread, ← h.ended_iff]
  by_cases hend : endRecord.any (· ≤ record) = true
  · rw [if_pos hend]
    obtain ⟨last, rfl, hlast⟩ := (Option.any_eq_true _ _).mp hend
    simp only [Option.any_some, decide_eq_true_eq] at hlast ⊢
    refine ⟨.inl, ?_⟩
    rintro (hi | ⟨hi, -⟩)
    · exact hi
    · exact hlast.trans hi
  · have hpast : PastEnd history record :=
      (h.pastEnd_iff record hrecord).mpr (hmiss.resolve_left hend)
    rw [if_neg hend]
    simp only [Option.any_some, decide_eq_true_eq]
    refine ⟨fun hi => .inr ⟨hi, hpast⟩, ?_⟩
    -- An older end behind this record is given up for it.
    rintro (hi | ⟨hi, -⟩)
    · obtain ⟨last, rfl, hlast⟩ := (Option.any_eq_true _ _).mp hi
      simp only [Option.any_some, decide_eq_true_eq] at hlast hend
      omega
    · exact hi

end StandsFor

end DataTransfer
