import Mathlib.Algebra.Ring.Nat
import DataTransfer.Proofs.Bytes
import DataTransfer.Unit.Record

/-!
Where the records of a form stand in a file. A record has its payload in one place and its framing,
which is a terminator, two markers or blank fill, in others; all of them are between the start of the
record and the start of the next. For one form the two overlap: unformatted direct access without a
record length frames its records by markers, but leaves no room for the first one.
-/

namespace DataTransfer

namespace Bytes

def Has (bs : Bytes) (start : ℕ) (data : Bytes) : Prop := bs.slice start data.length = data

variable {bs data : Bytes} {start : ℕ}

theorem has_put (bs : Bytes) (start : ℕ) (data : Bytes) : (bs.put start data).Has start data :=
  slice_put_self bs start data

theorem Has.length_le (h : bs.Has start data) (hne : data ≠ []) : start + data.length ≤ bs.length := by
  have hlength := congrArg List.length h
  have hpos := List.length_pos_iff.mpr hne
  rw [length_slice] at hlength
  omega

theorem Has.put (h : bs.Has start data) {other : ℕ} {piece : Bytes}
    (hout : start + data.length ≤ other ∨ other + piece.length ≤ start) :
    (bs.put other piece).Has start data := by
  rcases eq_or_ne data [] with rfl | hne
  · rfl
  · exact (slice_put_of_disjoint (h.length_le hne) hout).trans h

def puts (bs : Bytes) (offset : ℕ) (pieces : List (ℕ × Bytes)) : Bytes :=
  pieces.foldl (fun bs piece => bs.put (offset + piece.1) piece.2) bs

theorem Has.puts (h : bs.Has start data) {offset : ℕ} {pieces : List (ℕ × Bytes)}
    (hout : ∀ piece ∈ pieces, start + data.length ≤ offset + piece.1 ∨
      offset + piece.1 + piece.2.length ≤ start) : (bs.puts offset pieces).Has start data := by
  induction pieces generalizing bs with
  | nil => exact h
  | cons piece pieces ih =>
    exact ih (h.put (hout piece List.mem_cons_self)) fun x hx => hout x (List.mem_cons_of_mem _ hx)

theorem has_puts (bs : Bytes) (offset : ℕ) {pieces : List (ℕ × Bytes)}
    (h : pieces.Pairwise fun a b => a.1 + a.2.length ≤ b.1) :
    ∀ piece ∈ pieces, (bs.puts offset pieces).Has (offset + piece.1) piece.2 := by
  induction pieces generalizing bs with
  | nil => exact fun _ hpiece => absurd hpiece List.not_mem_nil
  | cons first pieces ih =>
    rw [List.pairwise_cons] at h
    intro piece hpiece
    rcases List.mem_cons.mp hpiece with rfl | hpiece
    · refine (has_put bs _ _).puts fun other hother => .inl ?_
      have hbehind := h.1 other hother
      omega
    · exact ih _ h.2 piece hpiece

theorem length_puts_le {bs : Bytes} {offset bound : ℕ} {pieces : List (ℕ × Bytes)}
    (hbs : bs.length ≤ bound) (h : ∀ piece ∈ pieces, offset + piece.1 + piece.2.length ≤ bound) :
    (bs.puts offset pieces).length ≤ bound := by
  induction pieces generalizing bs with
  | nil => exact hbs
  | cons piece pieces ih =>
    refine ih ?_ fun x hx => h x (List.mem_cons_of_mem _ hx)
    have hpiece := h piece List.mem_cons_self
    rw [length_put]
    split_ifs <;> omega

end Bytes

namespace Form

/-- Where the payload of a record is, from the start of the record. -/
def dataStart (f : Form) : ℕ :=
  if ExternalUnit.hasMarkers (({} : Connection).withForm f) then ExternalUnit.markerBytes else 0

def stride (f : Form) (count : ℕ) : ℕ :=
  match f.recordLength with
  | some length => length
  | none =>
    if f.formatted then count + 1
    else if f.access = .stream then count
    else 2 * ExternalUnit.markerBytes + count

/-- What is put around the payload when a record is completed, piece by piece. -/
def framing (f : Form) (count : ℕ) : List (ℕ × Bytes) :=
  match f.recordLength with
  | some length => if f.formatted then [(count, .fill (length - count) Session.blank)] else []
  | none =>
    if f.formatted then [(count, [Session.newline])]
    else if f.access = .stream then []
    else
      let marker := Bytes.littleEndian ExternalUnit.markerBytes count
      [(0, marker), (ExternalUnit.markerBytes + count, marker)]

def store (f : Form) (content : Bytes) (offset : ℕ) (payload : Bytes) : Bytes :=
  (content.put (offset + f.dataStart) payload).puts offset (f.framing payload.length)

def storeAll (f : Form) (content : Bytes) (offset : ℕ) : List Bytes → Bytes
  | [] => content
  | payload :: payloads =>
    f.storeAll (f.store content offset payload) (offset + f.stride payload.length) payloads

def extent (f : Form) (payloads : List Bytes) : ℕ :=
  (payloads.map fun payload => f.stride payload.length).sum

def start (f : Form) (payloads : List Bytes) (k : ℕ) : ℕ := f.extent (payloads.take k)

/-- Markers are put around records, but no room is left for the first one of them. -/
def overlaps (f : Form) : Bool :=
  decide (f.access = .direct) && !f.formatted && f.recordLength.isNone

/-- What there is of a payload when its record is complete. -/
def standing (f : Form) (payload : Bytes) : Bytes :=
  if f.overlaps then
    (Bytes.littleEndian ExternalUnit.markerBytes payload.length ++
      payload.drop ExternalUnit.markerBytes).take payload.length
  else payload

/-- The payload is not empty, its length has a marker, and a record of fixed length has room for it. -/
structure Fits (f : Form) (payload : Bytes) : Prop where
  pos : 0 < payload.length
  lt : payload.length < 2 ^ 32
  le : ∀ length, f.recordLength = some length → payload.length ≤ length

structure Stands (f : Form) (content : Bytes) (start : ℕ) (payload : Bytes) : Prop where
  standing : content.Has (start + f.dataStart) (f.standing payload)
  framing : ∀ piece ∈ f.framing payload.length, content.Has (start + piece.1) piece.2

variable {f : Form} {content payload : Bytes} {count : ℕ}

@[simp] theorem length_standing (f : Form) (payload : Bytes) :
    (f.standing payload).length = payload.length := by
  unfold standing
  split_ifs
  · simp [ExternalUnit.markerBytes]
    omega
  · rfl

theorem dataStart_eq (f : Form) :
    f.dataStart = if f.formatted = false ∧ f.recordLength = none ∧ f.access = .sequential then 4
      else 0 := by
  obtain ⟨access, formatted, recordLength⟩ := f
  cases formatted <;> cases recordLength <;> cases access <;> rfl

theorem dataStart_add_le (h : ∀ length, f.recordLength = some length → count ≤ length) :
    f.dataStart + count ≤ f.stride count := by
  obtain ⟨access, formatted, recordLength⟩ := f
  rw [dataStart_eq]
  cases recordLength with
  | some length =>
    have hle := h length rfl
    simpa [stride] using hle
  | none => cases formatted <;> cases access <;> simp [stride, ExternalUnit.markerBytes]

theorem mem_framing {piece : ℕ × Bytes} (hpiece : piece ∈ f.framing count) :
    (∃ length, f.recordLength = some length ∧ f.formatted = true ∧
      piece = (count, .fill (length - count) Session.blank)) ∨
    (f.recordLength = none ∧ f.formatted = true ∧ piece = (count, [Session.newline])) ∨
    (f.recordLength = none ∧ f.formatted = false ∧ f.access ≠ .stream ∧
      (piece = (0, .littleEndian 4 count) ∨ piece = (4 + count, .littleEndian 4 count))) := by
  obtain ⟨access, formatted, recordLength⟩ := f
  cases recordLength with
  | some length =>
    cases formatted with
    | true => exact .inl ⟨length, rfl, rfl, List.mem_singleton.mp hpiece⟩
    | false => cases hpiece
  | none =>
    cases formatted with
    | true => exact .inr (.inl ⟨rfl, rfl, List.mem_singleton.mp hpiece⟩)
    | false =>
      refine .inr (.inr ⟨rfl, rfl, ?_⟩)
      cases access with
      | stream => cases hpiece
      | sequential | direct => exact ⟨nofun, by simpa [framing, ExternalUnit.markerBytes] using hpiece⟩

theorem framing_le (h : ∀ length, f.recordLength = some length → count ≤ length)
    {piece : ℕ × Bytes} (hpiece : piece ∈ f.framing count) :
    piece.1 + piece.2.length ≤ f.stride count := by
  rcases mem_framing hpiece with ⟨length, hfixed, -, rfl⟩ | ⟨hnone, hformatted, rfl⟩ |
    ⟨hnone, hformatted, haccess, rfl | rfl⟩
  · have hle := h length hfixed
    simp only [stride, hfixed, Bytes.length_fill]
    omega
  · simp [stride, hnone, hformatted]
  · simp [stride, hnone, hformatted, haccess, ExternalUnit.markerBytes]
    omega
  · simp [stride, hnone, hformatted, haccess, ExternalUnit.markerBytes]
    omega

/-- Framing is outside of the payload, except for the header of a record without room for it. -/
theorem framing_outside (hf : f.overlaps = false) {piece : ℕ × Bytes}
    (hpiece : piece ∈ f.framing count) :
    piece.1 + piece.2.length ≤ f.dataStart ∨ f.dataStart + count ≤ piece.1 := by
  rcases mem_framing hpiece with ⟨length, hfixed, hformatted, rfl⟩ | ⟨hnone, hformatted, rfl⟩ |
    ⟨hnone, hformatted, haccess, rfl | rfl⟩
  · right
    simp [dataStart_eq, hformatted]
  · right
    simp [dataStart_eq, hformatted]
  all_goals
    have hsequential : f.access = .sequential := by
      cases hcases : f.access with
      | sequential => rfl
      | direct => simp [overlaps, hcases, hformatted, hnone] at hf
      | stream => exact absurd hcases haccess
    simp [dataStart_eq, hformatted, hnone, hsequential]

theorem standing_eq_self (hf : f.overlaps = false) (payload : Bytes) :
    f.standing payload = payload := by
  simp [standing, hf]

/-! ### One more record -/

theorem Stands.store {start offset : ℕ} {other : Bytes} (h : f.Stands content start payload)
    (hfits : f.Fits payload) (hoffset : start + f.stride payload.length ≤ offset) :
    f.Stands (f.store content offset other) start payload := by
  -- All pieces of the new record are behind those of this one.
  have hkept {at_ : ℕ} {data : Bytes} (hdata : content.Has at_ data)
      (hend : at_ + data.length ≤ offset) : (f.store content offset other).Has at_ data :=
    (hdata.put (.inl (by omega))).puts fun _ _ => .inl (by omega)
  refine ⟨hkept h.standing ?_, fun piece hpiece => hkept (h.framing piece hpiece) ?_⟩
  · have hle := dataStart_add_le hfits.le
    rw [length_standing]
    omega
  · have hle := framing_le hfits.le hpiece
    omega

theorem has_overlapped (content payload : Bytes) (offset : ℕ) (marker : Bytes)
    (hmarker : marker.length = 4) :
    (((content.put offset payload).put offset marker).put (offset + (4 + payload.length)) marker).Has
      offset ((marker ++ payload.drop 4).take payload.length) := by
  refine Bytes.ext_byte ?_ fun i => ?_
  · simp only [Bytes.length_slice, Bytes.length_put, List.length_take, List.length_append,
      List.length_drop, hmarker]
    split_ifs <;> omega
  · simp only [Bytes.byte_slice, Bytes.byte_put, Bytes.byte_take, Bytes.byte_append, Bytes.byte_drop,
      List.length_take, List.length_append, List.length_drop, hmarker]
    split_ifs <;> first | rfl | omega | (congr 1; omega)

theorem framing_pairwise (f : Form) (count : ℕ) :
    (f.framing count).Pairwise fun a b => a.1 + a.2.length ≤ b.1 := by
  obtain ⟨access, formatted, recordLength⟩ := f
  cases recordLength <;> cases formatted <;> cases access <;> simp [framing]

theorem stands_store (f : Form) (content : Bytes) (offset : ℕ) (payload : Bytes) :
    f.Stands (f.store content offset payload) offset payload := by
  refine ⟨?_, Bytes.has_puts _ _ (f.framing_pairwise _)⟩
  by_cases hf : f.overlaps = true
  · obtain ⟨access, formatted, recordLength⟩ := f
    simp only [overlaps, Bool.and_eq_true, decide_eq_true_eq, Bool.not_eq_true',
      Option.isNone_iff_eq_none] at hf
    obtain ⟨⟨rfl, rfl⟩, rfl⟩ := hf
    exact has_overlapped content payload offset _ (Bytes.length_littleEndian _ _)
  · rw [Bool.not_eq_true] at hf
    rw [standing_eq_self hf]
    refine (Bytes.has_put _ _ _).puts fun piece hpiece => ?_
    have hout := framing_outside hf hpiece
    omega

/-! ### All records -/

theorem Stands.storeAll {start offset : ℕ} (h : f.Stands content start payload)
    (hfits : f.Fits payload) (hoffset : start + f.stride payload.length ≤ offset)
    (payloads : List Bytes) : f.Stands (f.storeAll content offset payloads) start payload := by
  induction payloads generalizing content offset with
  | nil => exact h
  | cons other payloads ih => exact ih (h.store hfits hoffset) (hoffset.trans (Nat.le_add_right _ _))

theorem start_cons_succ (f : Form) (first : Bytes) (payloads : List Bytes) (k : ℕ) :
    f.start (first :: payloads) (k + 1) = f.stride first.length + f.start payloads k := rfl

/-- After all records have been put, each of them stands at its start. -/
theorem stands_storeAll (content : Bytes) (offset : ℕ) {payloads : List Bytes}
    (hfits : ∀ payload ∈ payloads, f.Fits payload) (k : ℕ) {payload : Bytes}
    (hk : payloads[k]? = some payload) :
    f.Stands (f.storeAll content offset payloads) (offset + f.start payloads k) payload := by
  induction payloads generalizing content offset k with
  | nil => cases hk
  | cons first payloads ih =>
    cases k with
    | zero =>
      obtain rfl := Option.some.inj hk
      exact (f.stands_store content offset first).storeAll (hfits _ List.mem_cons_self) le_rfl payloads
    | succ k =>
      rw [start_cons_succ, ← Nat.add_assoc]
      exact ih _ _ (fun x hx => hfits x (List.mem_cons_of_mem _ hx)) k hk

/-- A record starts where the one before ends, at the earliest. -/
theorem start_add_stride_le {payloads : List Bytes} {j k : ℕ} (hjk : j < k)
    (hj : payloads[j]? = some payload) :
    f.start payloads j + f.stride payload.length ≤ f.start payloads k := by
  have hsucc : f.start payloads (j + 1) = f.start payloads j + f.stride payload.length := by
    simp [start, extent, List.take_add_one, hj]
  obtain ⟨d, rfl⟩ := Nat.exists_eq_add_of_le (Nat.succ_le_of_lt hjk)
  have hsplit : payloads.take (j.succ + d) = payloads.take (j + 1) ++ (payloads.drop (j + 1)).take d :=
    List.take_add
  rw [← hsucc, start, start, hsplit, extent, extent, List.map_append, List.sum_append]
  exact Nat.le_add_right _ _

/-- No framing is within a payload: not within its own, and not within those of other records. -/
def Apart (f : Form) (payloads : List Bytes) : Prop :=
  ∀ (j k : ℕ) (other payload : Bytes), payloads[j]? = some other → payloads[k]? = some payload →
    ∀ piece ∈ f.framing other.length,
      f.start payloads j + piece.1 + piece.2.length ≤ f.start payloads k + f.dataStart ∨
        f.start payloads k + f.dataStart + payload.length ≤ f.start payloads j + piece.1

theorem apart_of_fits (hf : f.overlaps = false) {payloads : List Bytes}
    (hfits : ∀ payload ∈ payloads, f.Fits payload) : f.Apart payloads := by
  intro j k other payload hj hk piece hpiece
  have hotherFits := hfits other (List.mem_of_getElem? hj)
  have hpayloadFits := hfits payload (List.mem_of_getElem? hk)
  rcases Nat.lt_trichotomy j k with hlt | rfl | hlt
  · have hle := framing_le hotherFits.le hpiece
    have hstart := start_add_stride_le (f := f) hlt hj
    omega
  · cases hj.symm.trans hk
    have hout := framing_outside hf hpiece
    omega
  · have hle := dataStart_add_le hpayloadFits.le
    have hstart := start_add_stride_le (f := f) hlt hk
    omega

theorem length_storeAll_le {payloads : List Bytes} {offset bound : ℕ}
    (hfits : ∀ payload ∈ payloads, f.Fits payload) (hcontent : content.length ≤ bound)
    (hend : offset + f.extent payloads ≤ bound) :
    (f.storeAll content offset payloads).length ≤ bound := by
  induction payloads generalizing content offset with
  | nil => exact hcontent
  | cons first payloads ih =>
    have hextent : f.extent (first :: payloads) = f.stride first.length + f.extent payloads := rfl
    have hfirst := hfits first List.mem_cons_self
    refine ih (fun x hx => hfits x (List.mem_cons_of_mem _ hx)) ?_ (by omega)
    refine Bytes.length_puts_le ?_ fun piece hpiece => ?_
    · have hle := dataStart_add_le hfirst.le
      rw [Bytes.length_put]
      split_ifs <;> omega
    · have hle := framing_le hfirst.le hpiece
      omega

end Form

end DataTransfer
