import DataTransfer.Proofs.Numeric.Encoding

/-!
The quantum at which a ratio is divided. The bit lengths of numerator and denominator leave two
candidates, one correction settles between them, and the quotient is a canonical significand. The
search itself is a loop without a bound; that it ends, and after how many rounds, is a result about it.
-/

namespace DataTransfer.Conversion

/-! ### Quotient and remainder as a rational -/

section Scaled

variable (numerator : ℕ) {denominator : ℕ} (q : ℤ)

theorem scaled_divisor_pos (hd : 0 < denominator) : 0 < (scaled numerator denominator q).divisor := by
  simp only [scaled]
  split_ifs <;> positivity

theorem scaled_remainder_lt (hd : 0 < denominator) :
    (scaled numerator denominator q).remainder < (scaled numerator denominator q).divisor :=
  Nat.mod_lt _ (scaled_divisor_pos numerator q hd)

theorem scaled_exact (hd : 0 < denominator) :
    (numerator / denominator : ℚ) =
      ((scaled numerator denominator q).quotient + (scaled numerator denominator q).remainder /
        (scaled numerator denominator q).divisor) * 2 ^ q := by
  have hpos := scaled_divisor_pos numerator q hd
  set n := if 0 ≤ q then numerator else numerator * 2 ^ (-q).toNat with hn
  have hdiv : ((scaled numerator denominator q).quotient : ℚ) +
      (scaled numerator denominator q).remainder / (scaled numerator denominator q).divisor =
        n / (scaled numerator denominator q).divisor := by
    have h := Nat.div_add_mod n (scaled numerator denominator q).divisor
    rw [eq_div_iff (by positivity), add_mul, div_mul_cancel₀ _ (by positivity), mul_comm]
    exact_mod_cast h
  rw [hdiv]
  simp only [hn, scaled]
  split_ifs with h
  · obtain ⟨k, rfl⟩ : ∃ k : ℕ, q = k := ⟨q.toNat, by omega⟩
    push_cast
    rw [Int.toNat_natCast, zpow_natCast]
    field_simp
  · obtain ⟨k, rfl⟩ : ∃ k : ℕ, q = -k := ⟨(-q).toNat, by omega⟩
    push_cast
    rw [neg_neg, Int.toNat_natCast, zpow_neg, zpow_natCast]
    field_simp

theorem scaled_bounds (hd : 0 < denominator) :
    ((scaled numerator denominator q).quotient : ℚ) * 2 ^ q ≤ numerator / denominator ∧
      (numerator / denominator : ℚ) < ((scaled numerator denominator q).quotient + 1) * 2 ^ q := by
  have hpos := scaled_divisor_pos numerator q hd
  have hlt := scaled_remainder_lt numerator q hd
  rw [scaled_exact numerator q hd]
  constructor
  · gcongr
    exact le_add_of_nonneg_right (by positivity)
  · gcongr
    rw [div_lt_one (by positivity)]
    exact_mod_cast hlt

theorem scaled_lt_iff (hd : 0 < denominator) (k : ℕ) :
    (scaled numerator denominator q).quotient < k ↔
      (numerator / denominator : ℚ) < k * 2 ^ q := by
  obtain ⟨hlo, hhi⟩ := scaled_bounds numerator q hd
  constructor
  · intro h
    refine hhi.trans_le ?_
    gcongr
    exact_mod_cast h
  · intro h
    have := hlo.trans_lt h
    rw [mul_lt_mul_iff_of_pos_right (by positivity)] at this
    exact_mod_cast this

theorem scaled_antitone (hd : 0 < denominator) {q r : ℤ} (h : q ≤ r) :
    (scaled numerator denominator r).quotient ≤ (scaled numerator denominator q).quotient := by
  rw [← Nat.not_lt, scaled_lt_iff _ _ hd, not_lt]
  calc ((scaled numerator denominator r).quotient : ℚ) * 2 ^ q
      ≤ (scaled numerator denominator r).quotient * 2 ^ r := by
        gcongr
        norm_num
    _ ≤ numerator / denominator := (scaled_bounds numerator r hd).1

end Scaled

/-! ### The estimate and its correction -/

theorem bitLength_bounds {n : ℕ} (hn : 0 < n) :
    (2 : ℚ) ^ ((bitLength n : ℤ) - 1) ≤ n ∧ (n : ℚ) < 2 ^ (bitLength n : ℤ) := by
  have hlen : bitLength n = n.log2 + 1 := if_neg hn.ne'
  have hlo := Nat.log2_self_le hn.ne'
  have hhi := Nat.lt_log2_self (n := n)
  rw [hlen]
  push_cast
  rw [add_sub_cancel_right, zpow_natCast]
  exact ⟨by exact_mod_cast hlo, by exact_mod_cast hhi⟩

theorem ratio_bounds {n d : ℕ} (hn : 0 < n) (hd : 0 < d) :
    (2 : ℚ) ^ ((bitLength n : ℤ) - bitLength d - 1) < n / d ∧
      (n / d : ℚ) < 2 ^ ((bitLength n : ℤ) - bitLength d + 1) := by
  obtain ⟨hnlo, hnhi⟩ := bitLength_bounds hn
  obtain ⟨hdlo, hdhi⟩ := bitLength_bounds hd
  have hd' : (0 : ℚ) < d := by exact_mod_cast hd
  constructor
  · rw [lt_div_iff₀ hd']
    calc (2 : ℚ) ^ ((bitLength n : ℤ) - bitLength d - 1) * d
        < 2 ^ ((bitLength n : ℤ) - bitLength d - 1) * 2 ^ (bitLength d : ℤ) := by gcongr
      _ = 2 ^ ((bitLength n : ℤ) - 1) := by rw [← zpow_add₀ (by norm_num)]; congr 1; ring
      _ ≤ n := hnlo
  · rw [div_lt_iff₀ hd']
    calc (n : ℚ) < 2 ^ (bitLength n : ℤ) := hnhi
      _ = 2 ^ ((bitLength n : ℤ) - bitLength d + 1) * 2 ^ ((bitLength d : ℤ) - 1) := by
        rw [← zpow_add₀ (by norm_num)]; congr 1; ring
      _ ≤ 2 ^ ((bitLength n : ℤ) - bitLength d + 1) * d := by gcongr

section Settle

variable {numerator denominator bits : ℕ}

/-- The quotient at the estimate has `bits` bits, or one more. -/
theorem estimate_bounds (hn : 0 < numerator) (hd : 0 < denominator) (hb : 0 < bits) :
    2 ^ (bits - 1) ≤
        (scaled numerator denominator (estimate numerator denominator bits)).quotient ∧
      (scaled numerator denominator (estimate numerator denominator bits)).quotient <
        2 ^ (bits + 1) := by
  obtain ⟨hlo, hhi⟩ := ratio_bounds hn hd
  have hcast : ((bits - 1 : ℕ) : ℤ) = bits - 1 := by omega
  constructor
  · rw [← Nat.not_lt, scaled_lt_iff _ _ hd, not_lt]
    refine le_of_eq_of_le ?_ hlo.le
    push_cast
    rw [← zpow_natCast, ← zpow_add₀ (by norm_num), estimate, hcast]
    congr 1
    ring
  · rw [scaled_lt_iff _ _ hd]
    refine hhi.trans_eq ?_
    push_cast
    rw [← zpow_natCast, ← zpow_add₀ (by norm_num), estimate]
    congr 1
    push_cast
    ring

theorem scaled_succ (numerator : ℕ) (q : ℤ) (hd : 0 < denominator) :
    (scaled numerator denominator (q + 1)).quotient =
      (scaled numerator denominator q).quotient / 2 := by
  have hstep (k : ℕ) : (k : ℚ) * 2 ^ (q + 1) = ((2 * k : ℕ) : ℚ) * 2 ^ q := by
    rw [zpow_add_one₀ (by norm_num)]
    push_cast
    ring
  have h (k : ℕ) : (scaled numerator denominator (q + 1)).quotient < k ↔
      (scaled numerator denominator q).quotient < 2 * k := by
    rw [scaled_lt_iff _ _ hd, scaled_lt_iff _ _ hd, hstep]
  have h1 := h ((scaled numerator denominator q).quotient / 2)
  have h2 := h ((scaled numerator denominator q).quotient / 2 + 1)
  omega

inductive Move where
  | up | down
  deriving DecidableEq

/-- The rounds of the correction from a quantum on, as many as there are, and the quantum at which
nothing is left to correct. -/
inductive Corrects (numerator denominator bits : ℕ) (least : ℤ) : ℤ → List Move → ℤ → Prop
  | stop {q : ℤ} (hlarge : ¬ 2 ^ bits ≤ (scaled numerator denominator q).quotient)
    (hsmall : ¬ ((scaled numerator denominator q).quotient < 2 ^ (bits - 1) ∧ least < q)) :
    Corrects numerator denominator bits least q [] q
  | up {q r : ℤ} {moves : List Move}
    (hlarge : 2 ^ bits ≤ (scaled numerator denominator q).quotient)
    (rest : Corrects numerator denominator bits least (q + 1) moves r) :
    Corrects numerator denominator bits least q (.up :: moves) r
  | down {q r : ℤ} {moves : List Move}
    (hlarge : ¬ 2 ^ bits ≤ (scaled numerator denominator q).quotient)
    (hsmall : (scaled numerator denominator q).quotient < 2 ^ (bits - 1) ∧ least < q)
    (rest : Corrects numerator denominator bits least (q - 1) moves r) :
    Corrects numerator denominator bits least q (.down :: moves) r

namespace Corrects

variable {least q r r' : ℤ} {moves moves' : List Move}

theorem unique (h : Corrects numerator denominator bits least q moves r)
    (h' : Corrects numerator denominator bits least q moves' r') : moves' = moves ∧ r' = r := by
  induction h generalizing moves' with
  | stop hlarge hsmall =>
    cases h' with
    | stop => exact ⟨rfl, rfl⟩
    | up hlarge' => exact absurd hlarge' hlarge
    | down _ hsmall' => exact absurd hsmall' hsmall
  | up hlarge _ ih =>
    cases h' with
    | stop hlarge' => exact absurd hlarge hlarge'
    | up _ rest =>
      obtain ⟨rfl, rfl⟩ := ih rest
      exact ⟨rfl, rfl⟩
    | down hlarge' => exact absurd hlarge hlarge'
  | down hlarge hsmall _ ih =>
    cases h' with
    | stop _ hsmall' => exact absurd hsmall hsmall'
    | up hlarge' => exact absurd hlarge' hlarge
    | down _ _ rest =>
      obtain ⟨rfl, rfl⟩ := ih rest
      exact ⟨rfl, rfl⟩

/-- Fuel for as many rounds as there are is enough, and more changes nothing. -/
theorem settle_eq (h : Corrects numerator denominator bits least q moves r) {fuel : ℕ}
    (hfuel : moves.length ≤ fuel) : settle numerator denominator bits least fuel q = r := by
  induction h generalizing fuel with
  | stop hlarge hsmall =>
    cases fuel with
    | zero => rfl
    | succ fuel => rw [settle, if_neg hlarge, if_neg hsmall]
  | up hlarge _ ih =>
    cases fuel with
    | zero => cases hfuel
    | succ fuel =>
      rw [settle, if_pos hlarge]
      exact ih (Nat.le_of_succ_le_succ hfuel)
  | down hlarge hsmall _ ih =>
    cases fuel with
    | zero => cases hfuel
    | succ fuel =>
      rw [settle, if_neg hlarge, if_pos hsmall]
      exact ih (Nat.le_of_succ_le_succ hfuel)

end Corrects

/-- Correcting the estimate takes at most one round, upward, and ends at the quantum that leaves a
quotient of exactly `bits` bits. -/
theorem corrects_estimate (hn : 0 < numerator) (hd : 0 < denominator) (hb : 0 < bits) (least : ℤ) :
    ∃ moves q, (moves = [] ∨ moves = [.up]) ∧
      Corrects numerator denominator bits least (estimate numerator denominator bits) moves q ∧
      2 ^ (bits - 1) ≤ (scaled numerator denominator q).quotient ∧
      (scaled numerator denominator q).quotient < 2 ^ bits := by
  obtain ⟨hlo, hhi⟩ := estimate_bounds hn hd hb
  have htwo : 2 ^ bits = 2 * 2 ^ (bits - 1) := by rw [← pow_succ', Nat.sub_add_cancel hb]
  have hsucc := scaled_succ numerator (estimate numerator denominator bits) hd
  rw [pow_succ] at hhi
  rcases Nat.lt_or_ge (scaled numerator denominator (estimate numerator denominator bits)).quotient
    (2 ^ bits) with hlt | hge
  · exact ⟨[], _, .inl rfl, .stop (by omega) (by omega), hlo, hlt⟩
  · -- The quotient has one bit too many, and halving it leaves `bits` of them.
    exact ⟨[.up], _, .inr rfl, .up hge (.stop (by omega) (by omega)), by omega, by omega⟩

end Settle

theorem Corrects.quantum_eq {p : Precision} {numerator denominator : ℕ} {moves : List Move} {r : ℤ}
    (h : Corrects numerator denominator p.significandBits p.minQuantum
      (estimate numerator denominator p.significandBits) moves r)
    (hmoves : moves = [] ∨ moves = [.up]) :
    quantum p numerator denominator = max p.minQuantum r := by
  have hfuel : moves.length ≤ 2 := by
    rcases hmoves with rfl | rfl <;> simp
  rw [quantum, h.settle_eq hfuel]

theorem canonical_quantum (p : Precision) {numerator denominator : ℕ} (hn : 0 < numerator)
    (hd : 0 < denominator) :
    p.Canonical (scaled numerator denominator (quantum p numerator denominator)).quotient
      (quantum p numerator denominator) := by
  have hbits := Nat.zero_lt_of_lt p.one_lt_significandBits
  obtain ⟨moves, q, hmoves, hrun, hlo, hhi⟩ := corrects_estimate hn hd hbits p.minQuantum
  rw [hrun.quantum_eq hmoves]
  rcases le_or_gt p.minQuantum q with hq | hq
  · rw [max_eq_right hq]
    exact ⟨hhi, hq, fun _ => hlo⟩
  · rw [max_eq_left hq.le]
    have hclamped := scaled_antitone numerator hd hq.le
    exact ⟨hclamped.trans_lt hhi, le_rfl, fun h => absurd rfl h⟩

/-- The search for a quantum settles at once, for any width and any least quantum. The quotient at the
estimate has `bits` bits or one more; the correction is one run of at most one round, upward, so that
any fuel for that round gives the quantum at which it ends. At the larger of it and the least one the
quotient has at most `bits` bits, and exactly so many where the least one is not larger. -/
theorem correction_settles {numerator denominator bits : ℕ} (hn : 0 < numerator)
    (hd : 0 < denominator) (hb : 0 < bits) (least : ℤ) :
    let start := estimate numerator denominator bits
    (2 ^ (bits - 1) ≤ (scaled numerator denominator start).quotient ∧
      (scaled numerator denominator start).quotient < 2 ^ (bits + 1)) ∧
    ∃ moves settled, (moves = [] ∨ moves = [.up]) ∧
      (∀ moves' q, Corrects numerator denominator bits least start moves' q ↔
        moves' = moves ∧ q = settled) ∧
      (∀ fuel, moves.length ≤ fuel →
        settle numerator denominator bits least fuel start = settled) ∧
      (∀ p : Precision, p.significandBits = bits → p.minQuantum = least →
        quantum p numerator denominator = max least settled) ∧
      (scaled numerator denominator (max least settled)).quotient < 2 ^ bits ∧
      (least ≤ settled →
        2 ^ (bits - 1) ≤ (scaled numerator denominator (max least settled)).quotient) := by
  intro start
  obtain ⟨moves, settled, hmoves, hrun, hlo, hhi⟩ := corrects_estimate hn hd hb least
  refine ⟨estimate_bounds hn hd hb, moves, settled, hmoves, ?_, ?_, ?_, ?_, ?_⟩
  · intro moves' q
    refine ⟨hrun.unique, ?_⟩
    rintro ⟨rfl, rfl⟩
    exact hrun
  · exact fun fuel hfuel => hrun.settle_eq hfuel
  · rintro p rfl rfl
    exact hrun.quantum_eq hmoves
  · exact (scaled_antitone numerator hd (le_max_right least settled)).trans_lt hhi
  · intro hle
    rwa [max_eq_right hle]

/-- A quotient of one bit too many, and a least quantum beyond the one that leaves a full quotient:
`7 / 2` in two bits. -/
theorem correction_settles_clamped :
    0 < 7 ∧ 0 < 2 ∧ estimate 7 2 2 = -1 ∧ (scaled 7 2 (-1)).quotient = 7 ∧
      (∀ moves q, Corrects 7 2 2 1 (-1) moves q ↔ moves = [.up] ∧ q = 0) ∧
      (scaled 7 2 (max 1 0)).quotient = 1 ∧ (scaled 7 2 (max 1 0)).quotient < 2 ^ 2 := by
  have hseven : 0 < 7 := by decide
  have htwo : 0 < 2 := by decide
  have hestimate : estimate 7 2 2 = -1 := by decide
  obtain ⟨-, moves, settled, -, hrun, -, -, hclamped, -⟩ := correction_settles hseven htwo htwo 1
  rw [hestimate] at hrun
  have hup : Corrects 7 2 2 1 (-1) [.up] 0 := .up (by decide) (.stop (by decide) (by decide))
  obtain ⟨rfl, rfl⟩ := (hrun _ _).mp hup
  exact ⟨hseven, htwo, hestimate, by decide, hrun, by decide, hclamped⟩

end DataTransfer.Conversion
