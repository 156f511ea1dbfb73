import Mathlib
import DataTransfer.Field.Real
import DataTransfer.Proofs.Field.DigitString

/-!
Fields of bit-pattern digits. The pattern of such a field goes into an INTEGER item by way of the value
that its low bits have in two's complement, and into a REAL item as it is; in items of one size both ways
leave the same bytes.
-/

namespace DataTransfer

/-! ### Stored bytes -/

theorem Precision.totalBits_eq_storageBytes (p : Precision) : p.totalBits = 8 * p.storageBytes := by
  cases p <;> rfl

/-- The stored bytes are the low ones of the pattern, and those above the format's width do not count. -/
theorem BinaryFloat.store_ofBits (p : Precision) (pattern : ℕ) :
    (BinaryFloat.ofBits p pattern).store = Bytes.littleEndian p.storageBytes pattern := by
  have hpow : 2 ^ p.totalBits = 256 ^ p.storageBytes := by
    rw [p.totalBits_eq_storageBytes, pow_mul]
    norm_num
  rw [store, ofBits, BitVec.toNat_ofNat, hpow, Bytes.littleEndian_mod]

theorem IntegerKind.store_narrow (k : IntegerKind) (pattern : BitVec 128) :
    k.store (k.narrow pattern) = Bytes.littleEndian k.bytes pattern.toNat := by
  have hpow : (2 : ℤ) ^ (8 * k.bytes) = ((256 ^ k.bytes : ℕ) : ℤ) := by
    push_cast
    rw [pow_mul]
    norm_num
  have hnarrow : k.narrow pattern = (pattern.toNat : ℤ).bmod (2 ^ (8 * k.bytes)) := by
    rw [← k.narrow_eq_bmod, BitVec.ofInt_natCast, BitVec.ofNat_toNat, BitVec.setWidth_eq]
  rw [hnarrow, k.store_bmod, hpow, ← Int.natCast_emod, Int.toNat_natCast, Bytes.littleEndian_mod]

namespace Field

variable {σ α β γ : Type}

/-- Two items that were edited from the same field: both ended the program or came to a fault, which is
the same one for both, or both came to values that are related; and everything else was left alike. -/
def SameField (Rel : α → β → Prop) (r : EStateM.Result Crash σ (Except Fault α))
    (r' : EStateM.Result Crash σ (Except Fault β)) : Prop :=
  match r, r' with
  | .ok (.ok a) s, .ok (.ok b) t => s = t ∧ Rel a b
  | .ok (.error f) s, .ok (.error g) t => s = t ∧ f = g
  | .error c s, .error d t => s = t ∧ c = d
  | _, _ => False

theorem SameField.of_ok {Rel : α → β → Prop} {r : EStateM.Result Crash σ (Except Fault α)}
    {r' : EStateM.Result Crash σ (Except Fault β)} (h : SameField Rel r r') {a : α} {t : σ}
    (hr : r = .ok (.ok a) t) : ∃ b, r' = .ok (.ok b) t ∧ Rel a b := by
  subst hr
  match r', h with
  | .ok (.ok b) _, ⟨rfl, hab⟩ => exact ⟨b, rfl, hab⟩

theorem sameField_of_scan {Rel : α → β → Prop} (scan : Attempt σ γ) (f : γ → α) (g : γ → β)
    (h : ∀ n, Rel (f n) (g n)) (s : σ) :
    SameField Rel ((do return f (← scan) : Attempt σ α) s) ((do return g (← scan) : Attempt σ β) s) := by
  change SameField Rel (EStateM.bind scan _ s) (EStateM.bind scan _ s)
  unfold EStateM.bind
  cases scan s with
  | error c t => exact ⟨rfl, rfl⟩
  | ok result t =>
    cases result with
    | error fault => exact ⟨rfl, rfl⟩
    | ok n => exact ⟨rfl, h n⟩

variable [FieldSource σ] {edit : DataEdit} {p : Precision} {k : IntegerKind}

theorem integerBase?_of_isBitPattern (h : edit.kind.isBitPattern = true) :
    ∃ base, edit.kind.integerBase? = some base := by
  cases hkind : edit.kind <;> rw [hkind] at h
  case b => exact ⟨2, rfl⟩
  case o => exact ⟨8, rfl⟩
  case z => exact ⟨16, rfl⟩
  all_goals cases h

/-- A field of bit-pattern digits, of whatever source and however long, ends alike for an INTEGER item
and for a REAL item of as many bytes, and where they come to values the stored bytes are the same. The
REAL value is never rounded. -/
theorem bit_pattern_items_alike (hkind : edit.kind.isBitPattern = true)
    (hbytes : p.storageBytes = k.bytes) (s : σ) :
    SameField (fun (v : ℤ) (c : Conversion p) => c.value.store = k.store v ∧ c.flags = {})
      (editInteger edit k.bytes s) (editReal p edit s) := by
  obtain ⟨base, hbase⟩ := integerBase?_of_isBitPattern hkind
  have hinteger : (editInteger edit k.bytes : Attempt σ ℤ) =
      do return k.narrow (← scanInteger edit base).pattern := by
    simp only [editInteger, IntegerKind.ofBytes?_bytes, hbase]
  have hreal : (editReal p edit : Attempt σ (Conversion p)) =
      do return { value := .ofBits p (← scanInteger edit base).pattern.toNat } := by
    simp only [editReal, hkind, hbase, Option.getD_some, if_true]
  rw [hinteger, hreal]
  refine sameField_of_scan (scanInteger edit base) (fun n => k.narrow n.pattern)
    (fun n => ({ value := .ofBits p n.pattern.toNat } : Conversion p)) (fun n => ⟨?_, rfl⟩) s
  rw [BinaryFloat.store_ofBits, IntegerKind.store_narrow, hbytes]

/-- More digits than the items hold, and a sign: both get the two low bytes of the negated pattern. -/
theorem bit_pattern_items_alike_oversized :
    let edit : DataEdit := { kind := .z, width := some 7 }
    let line := Line.ofString "-1 8001"
    edit.kind.isBitPattern = true ∧ Precision.half.storageBytes = IntegerKind.k2.bytes ∧
      editInteger edit IntegerKind.k2.bytes line = .ok (.ok 32767) (line.moveBy 7) ∧
      ∃ c : Conversion .half, editReal .half edit line = .ok (.ok c) (line.moveBy 7) ∧
        c.value.store = IntegerKind.k2.store 32767 ∧ c.flags = {} := by
  have hinteger : editInteger { kind := .z, width := some 7 } IntegerKind.k2.bytes
      (Line.ofString "-1 8001") = .ok (.ok 32767) ((Line.ofString "-1 8001").moveBy 7) := by cbv
  exact ⟨rfl, rfl, hinteger, (bit_pattern_items_alike rfl rfl _).of_ok hinteger⟩

end Field

end DataTransfer
