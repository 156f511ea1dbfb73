import Mathlib.Algebra.Group.Nat.Defs
import Mathlib.Order.MinMax
import DataTransfer.Bytes

/-!
Byte strings as flat arrays: a length, and a byte at every position that reads as zero behind the
end. Two byte strings that agree in both are the same, so a law of slices and overlays is a law of
positions.
-/

namespace DataTransfer.Bytes

def byte (bs : Bytes) (i : ℕ) : UInt8 := bs[i]?.getD 0

theorem byte_of_length_le {bs : Bytes} {i : ℕ} (h : bs.length ≤ i) : bs.byte i = 0 := by
  rw [byte, List.getElem?_eq_none h]
  rfl

theorem ext_byte {a b : Bytes} (hlen : a.length = b.length)
    (h : ∀ i, a.byte i = b.byte i) : a = b := by
  refine List.ext_getElem hlen fun i ha hb => ?_
  simpa [byte, ha, hb] using h i

theorem byte_append (a b : Bytes) (i : ℕ) :
    byte (a ++ b) i = if i < a.length then a.byte i else b.byte (i - a.length) := by
  unfold byte
  split_ifs with h
  · rw [List.getElem?_append_left h]
  · rw [List.getElem?_append_right (not_lt.mp h)]

theorem byte_take (bs : Bytes) (n i : ℕ) :
    byte (bs.take n) i = if i < n then bs.byte i else 0 := by
  split_ifs with h
  · rw [byte, List.getElem?_take_of_lt h, byte]
  · exact byte_of_length_le ((bs.length_take_le n).trans (not_lt.mp h))

theorem byte_drop (bs : Bytes) (n i : ℕ) : byte (bs.drop n) i = bs.byte (n + i) := by
  rw [byte, List.getElem?_drop, byte]

theorem byte_fill_zero (count i : ℕ) : (fill count 0).byte i = 0 := by
  rcases Nat.lt_or_ge i count with h | h
  · simp [byte, fill, h]
  · exact byte_of_length_le (by simpa [fill] using h)

@[simp] theorem length_fill (count : ℕ) (b : UInt8) : (fill count b).length = count :=
  List.length_replicate

@[simp] theorem reaches_eq (bs : Bytes) (n : ℕ) : bs.reaches n = decide (n ≤ bs.length) := by
  rw [Bool.eq_iff_iff, reaches_iff, decide_eq_true_eq]

/-! ### Slices -/

@[simp] theorem length_slice (bs : Bytes) (start count : ℕ) :
    (bs.slice start count).length = min count (bs.length - start) := by
  rw [slice, List.length_take, List.length_drop]

theorem byte_slice (bs : Bytes) (start count i : ℕ) :
    (bs.slice start count).byte i = if i < count then bs.byte (start + i) else 0 := by
  rw [slice, byte_take, byte_drop]

@[simp] theorem slice_zero (bs : Bytes) (start : ℕ) : bs.slice start 0 = [] := rfl

theorem slice_min (bs : Bytes) (start count : ℕ) :
    bs.slice start (min count (bs.length - start)) = bs.slice start count := by
  rw [slice, slice, ← List.length_drop]
  exact List.take_eq_take_min.symm

theorem slice_length_slice (bs : Bytes) (start count : ℕ) :
    bs.slice start (bs.slice start count).length = bs.slice start count := by
  rw [length_slice, slice_min]

theorem slice_add (bs : Bytes) (start m n : ℕ) :
    bs.slice start (m + n) = bs.slice start m ++ bs.slice (start + m) n := by
  rw [slice, List.take_add, List.drop_drop, slice, slice]

theorem slice_slice (bs : Bytes) (start count a n : ℕ) :
    (bs.slice start count).slice a n = bs.slice (start + a) (min n (count - a)) := by
  rw [slice, slice, slice, List.drop_take, List.take_take, List.drop_drop]

theorem slice_append_left (a b : Bytes) {start count : ℕ} (h : start + count ≤ a.length) :
    slice (a ++ b) start count = a.slice start count := by
  rw [slice, slice, List.drop_append_of_le_length (by omega),
    List.take_append_of_le_length (by rw [List.length_drop]; omega)]

theorem slice_append_right (a b : Bytes) (start count : ℕ) :
    slice (a ++ b) (a.length + start) count = b.slice start count := by
  rw [slice, slice, List.drop_append, List.drop_of_length_le (Nat.le_add_right _ _),
    List.nil_append, Nat.add_sub_cancel_left]

@[simp] theorem slice_length (bs : Bytes) : bs.slice 0 bs.length = bs := by
  rw [slice, List.drop_zero, List.take_length]

theorem drop_slice (bs : Bytes) (start count a : ℕ) :
    (bs.slice start count).drop a = bs.slice (start + a) (count - a) := by
  rw [slice, slice, List.drop_take, List.drop_drop]

/-! ### Overlays -/

theorem length_extend (bs : Bytes) (n : ℕ) : (bs.extend n).length = max bs.length n := by
  rw [extend, reaches_eq]
  split_ifs with h
  · exact (max_eq_left (of_decide_eq_true h)).symm
  · rw [decide_eq_true_eq] at h
    rw [List.length_append, length_fill]
    omega

theorem byte_extend (bs : Bytes) (n i : ℕ) : (bs.extend n).byte i = bs.byte i := by
  unfold extend
  split_ifs
  · rfl
  · rw [byte_append, byte_fill_zero]
    split_ifs with h
    · rfl
    · exact (byte_of_length_le (not_lt.mp h)).symm

theorem length_overlay (bs : Bytes) (start : ℕ) (data : Bytes) :
    (bs.overlay start data).length = max bs.length (start + data.length) := by
  simp only [overlay, List.length_append, List.length_take, List.length_drop, length_extend]
  omega

theorem byte_overlay (bs : Bytes) (start : ℕ) (data : Bytes) (i : ℕ) :
    (bs.overlay start data).byte i =
      if start ≤ i ∧ i < start + data.length then data.byte (i - start) else bs.byte i := by
  have hlen := length_extend bs start
  simp only [overlay, byte_append, byte_take, byte_drop, byte_extend, List.length_append,
    List.length_take, hlen]
  split_ifs <;> first | rfl | omega | (congr 1; omega)

/-- `data` written at `start`, as a file takes it: to write nothing changes nothing, not even the
length. -/
def put (bs : Bytes) (start : ℕ) (data : Bytes) : Bytes :=
  if data = [] then bs else bs.overlay start data

@[simp] theorem put_nil (bs : Bytes) (start : ℕ) : bs.put start [] = bs := rfl

theorem length_put (bs : Bytes) (start : ℕ) (data : Bytes) :
    (bs.put start data).length =
      if data.length = 0 then bs.length else max bs.length (start + data.length) := by
  simp only [put, List.length_eq_zero_iff]
  split_ifs
  · rfl
  · exact length_overlay bs start data

theorem byte_put (bs : Bytes) (start : ℕ) (data : Bytes) (i : ℕ) :
    (bs.put start data).byte i =
      if start ≤ i ∧ i < start + data.length then data.byte (i - start) else bs.byte i := by
  rcases eq_or_ne data [] with rfl | h
  · rw [put_nil, if_neg (by simp)]
  · rw [put, if_neg h, byte_overlay]

theorem put_append (bs : Bytes) (start : ℕ) (a b : Bytes) :
    (bs.put start a).put (start + a.length) b = bs.put start (a ++ b) := by
  refine ext_byte ?_ fun i => ?_
  · simp only [length_put, List.length_append]
    split_ifs <;> omega
  · simp only [byte_put, byte_append, List.length_append]
    split_ifs <;> first | rfl | omega | (congr 1; omega)

theorem put_length (bs data : Bytes) : bs.put bs.length data = bs ++ data := by
  refine ext_byte ?_ fun i => ?_
  · rw [length_put, List.length_append]
    split_ifs <;> omega
  · rw [byte_put, byte_append]
    by_cases hi : i < bs.length
    · rw [if_neg (by omega), if_pos hi]
    · rw [if_neg hi, byte_of_length_le (not_lt.mp hi)]
      split_ifs
      · rfl
      · exact (byte_of_length_le (by omega)).symm

theorem slice_put_self (bs : Bytes) (start : ℕ) (data : Bytes) :
    (bs.put start data).slice start data.length = data := by
  refine ext_byte ?_ fun i => ?_
  · rw [length_slice, length_put]
    split_ifs <;> omega
  · rw [byte_slice, byte_put, Nat.add_sub_cancel_left]
    by_cases hi : i < data.length
    · rw [if_pos hi, if_pos (by omega)]
    · rw [if_neg hi, byte_of_length_le (not_lt.mp hi)]

theorem slice_put_of_disjoint {bs : Bytes} {start a n : ℕ} {data : Bytes} (hin : a + n ≤ bs.length)
    (hout : a + n ≤ start ∨ start + data.length ≤ a) :
    (bs.put start data).slice a n = bs.slice a n := by
  refine ext_byte ?_ fun i => ?_
  · rw [length_slice, length_slice, length_put]
    split_ifs <;> omega
  · rw [byte_slice, byte_slice, byte_put]
    split_ifs <;> first | rfl | omega

theorem slice_put_gap {bs : Bytes} {start a n : ℕ} {data : Bytes} (hbehind : bs.length ≤ a)
    (hbefore : a + n ≤ start) (hne : data ≠ []) : (bs.put start data).slice a n = fill n 0 := by
  have hpos := List.length_pos_iff.mpr hne
  refine ext_byte ?_ fun i => ?_
  · rw [length_slice, length_put, length_fill, if_neg hpos.ne']
    omega
  · rw [byte_slice, byte_put, byte_fill_zero]
    split_ifs
    · omega
    · exact byte_of_length_le (by omega)
    · rfl

theorem put_slice_of_eq_outside {c d : Bytes} {start count : ℕ} (hle : d.length ≤ c.length)
    (hgrow : d.length < c.length → c.length = start + count ∧ 0 < count)
    (hout : ∀ i, i < start ∨ start + count ≤ i → c.byte i = d.byte i) :
    d.put start (c.slice start count) = c := by
  refine ext_byte ?_ fun i => ?_
  · simp only [length_put, length_slice]
    split_ifs <;> omega
  · rw [byte_put, byte_slice, length_slice]
    by_cases hi : i < start ∨ start + count ≤ i
    · rw [if_neg (by omega), hout i hi]
    · by_cases hc : i < c.length
      · rw [if_pos (by omega), if_pos (by omega), Nat.add_sub_cancel' (by omega)]
      · rw [if_neg (by omega), byte_of_length_le (by omega), byte_of_length_le (by omega)]

theorem overlay_slice (bs : Bytes) {start count : ℕ} (pos : ℕ) (data : Bytes) (hpos : pos ≤ count)
    (hcount : start + count ≤ max start bs.length) :
    (bs.slice start count).overlay pos data =
      (bs.put (start + pos) data).slice start (max count (pos + data.length)) := by
  refine ext_byte ?_ fun i => ?_
  · simp only [length_overlay, length_slice, length_put]
    split_ifs <;> omega
  · simp only [byte_overlay, byte_slice, byte_put]
    split_ifs <;> first | rfl | omega | (congr 1; omega)

theorem put_put (bs : Bytes) (start : ℕ) {part data : Bytes} (h : part.length ≤ data.length) :
    (bs.put start part).put start data = bs.put start data := by
  refine ext_byte ?_ fun i => ?_
  · simp only [length_put]
    split_ifs <;> omega
  · simp only [byte_put]
    split_ifs <;> first | rfl | omega

theorem overlay_eq_put {bs : Bytes} {start : ℕ} (h : start ≤ bs.length) (data : Bytes) :
    bs.overlay start data = bs.put start data := by
  refine ext_byte ?_ fun i => ?_
  · rw [length_overlay, length_put]
    split_ifs <;> omega
  · rw [byte_overlay, byte_put]

theorem put_zero {bs data : Bytes} (h : data.length ≤ bs.length) :
    bs.put 0 data = data ++ bs.drop data.length := by
  refine ext_byte ?_ fun i => ?_
  · rw [length_put, List.length_append, List.length_drop]
    split_ifs <;> omega
  · rw [byte_put, byte_append, byte_drop]
    split_ifs <;> first | rfl | omega | (congr 1; omega)

theorem put_put_within (bs : Bytes) (start : ℕ) {k : ℕ} {a b : Bytes} (h : k ≤ a.length) :
    (bs.put start a).put (start + k) b =
      bs.put start (a.take k ++ b ++ a.drop (k + b.length)) := by
  refine ext_byte ?_ fun i => ?_
  · simp only [length_put, List.length_append, List.length_take, List.length_drop]
    split_ifs <;> omega
  · simp only [byte_put, byte_append, byte_take, byte_drop, List.length_append, List.length_take,
      List.length_drop]
    split_ifs <;> first | rfl | omega | (congr 1; omega)

theorem littleEndian_mod (count value : ℕ) :
    littleEndian count (value % 256 ^ count) = littleEndian count value := by
  induction count generalizing value with
  | zero => rfl
  | succ n ih =>
    have hbyte : UInt8.ofNat (value % 256 ^ (n + 1)) = UInt8.ofNat value := by
      apply UInt8.toNat_inj.mp
      rw [UInt8.toNat_ofNat', UInt8.toNat_ofNat']
      exact Nat.mod_mod_of_dvd value (Nat.dvd_mul_left 256 (256 ^ n))
    rw [littleEndian, littleEndian, hbyte, Nat.pow_succ', Nat.mod_mul_right_div_self, ih]

/-! ### Bytes as characters -/

theorem toNat_ofNat_toNat (b : UInt8) : (Char.ofNat b.toNat).toNat = b.toNat := by
  have hb := b.toNat_lt
  have hvalid : b.toNat.isValidChar := .inl (by omega)
  rw [Char.ofNat, dif_pos hvalid]
  rfl

theorem ofNat_toNat_injective : Function.Injective fun b : UInt8 => Char.ofNat b.toNat := by
  intro a b h
  have hnat := congrArg Char.toNat h
  simp only [toNat_ofNat_toNat] at hnat
  exact UInt8.toNat_inj.mp hnat

theorem map_flatMap_utf8 {cs : List Char} (h : ∀ c ∈ cs, c.toNat < 128) :
    (cs.flatMap String.utf8EncodeChar).map (fun b => Char.ofNat b.toNat) = cs := by
  induction cs with
  | nil => rfl
  | cons c cs ih =>
    obtain ⟨hc, hcs⟩ := List.forall_mem_cons.mp h
    have hencode : String.utf8EncodeChar c = [UInt8.ofNat c.toNat] := if_pos (Nat.le_of_lt_succ hc)
    rw [List.flatMap_cons, hencode, List.map_append, ih hcs, List.map_singleton,
      UInt8.toNat_ofNat_of_lt' (hc.trans (by decide)), Char.ofNat_toNat]
    rfl

end DataTransfer.Bytes
