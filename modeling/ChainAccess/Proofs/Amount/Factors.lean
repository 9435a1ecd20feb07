import ChainAccess.Proofs.Amount.Scaling
import Mathlib.Algebra.Order.Floor.Semifield
import Mathlib.Data.Rat.Floor
import Mathlib.Tactic.Common
-- Factors as the numbers that they write, whatever their places. An amount times a
-- factor above zero is the product as a fraction, rounded down, so that larger amounts
-- and larger factors give no less. A raised limit is this product or the limit of the
-- block: where the product leaves the width of an amount, the block is below it.

namespace ChainAccess

/-! ## Factors as numbers -/

namespace Decimal

variable {d e : Decimal} {n m : Nat}

/-- The number that a decimal writes. Places at its end do not change it. -/
def value (d : Decimal) : ℚ :=
  (if d.negative then -(d.mantissa : ℚ) else d.mantissa) / ((10 ^ d.scale : Nat) : ℚ)

theorem cast_places_pos (d : Decimal) : (0 : ℚ) < ((10 ^ d.scale : Nat) : ℚ) := by
  have hpos : 0 < 10 ^ d.scale := Nat.pow_pos (by decide)
  exact Nat.cast_pos.mpr hpos

theorem value_of_positive (h : d.isPositive = true) :
    d.value = (d.mantissa : ℚ) / ((10 ^ d.scale : Nat) : ℚ) := by
  have hsign : d.negative = false := by
    unfold isPositive at h
    cases hn : d.negative with
    | false => rfl
    | true => simp [hn] at h
  unfold value
  rw [hsign, if_neg Bool.false_ne_true]

theorem isPositive_iff : d.isPositive = true ↔ 0 < d.value := by
  constructor
  · intro h
    have hmantissa : 0 < d.mantissa := by
      unfold isPositive isZero at h
      by_contra hno
      simp [Nat.eq_zero_of_not_pos hno] at h
    rw [value_of_positive h]
    exact div_pos (Nat.cast_pos.mpr hmantissa) d.cast_places_pos
  · intro h
    have hnumerator : 0 < (if d.negative then -(d.mantissa : ℚ) else d.mantissa) := by
      by_contra hno
      exact absurd h (not_lt.mpr (div_nonpos_of_nonpos_of_nonneg (not_lt.mp hno)
        (le_of_lt d.cast_places_pos)))
    unfold isPositive isZero
    cases hsign : d.negative with
    | true =>
      rw [hsign, if_pos rfl, neg_pos] at hnumerator
      exact absurd hnumerator (not_lt.mpr (Nat.cast_nonneg _))
    | false =>
      rw [hsign, if_neg Bool.false_ne_true, Nat.cast_pos] at hnumerator
      simp [Nat.ne_of_gt hnumerator]

theorem isPositive_eq_false_iff : d.isPositive = false ↔ d.value ≤ 0 := by
  rw [← not_lt, ← isPositive_iff, Bool.not_eq_true]

/-- The product with a factor above zero is that of the numbers, rounded down. -/
theorem times_eq_floor (h : 0 < d.value) (n : Nat) : d.times n = ⌊(n : ℚ) * d.value⌋₊ := by
  have hproduct : (n : ℚ) * d.value =
      ((n * d.mantissa : Nat) : ℚ) / ((10 ^ d.scale : Nat) : ℚ) := by
    rw [value_of_positive (isPositive_iff.mpr h), mul_div_assoc', Nat.cast_mul]
  unfold times
  rw [hproduct, Nat.floor_div_eq_div]

theorem times_le_times (h : 0 < d.value) (hnm : n ≤ m) (hde : d.value ≤ e.value) :
    d.times n ≤ e.times m := by
  rw [times_eq_floor h, times_eq_floor (lt_of_lt_of_le h hde)]
  apply Nat.floor_mono
  exact mul_le_mul (Nat.cast_le.mpr hnm) hde (le_of_lt h) (Nat.cast_nonneg m)

/-- A factor of one or more makes no amount smaller. -/
theorem le_times (h : 1 ≤ d.value) (n : Nat) : n ≤ d.times n := by
  rw [times_eq_floor (lt_of_lt_of_le one_pos h)]
  apply Nat.le_floor
  exact le_mul_of_one_le_right (Nat.cast_nonneg n) h

end Decimal

namespace Gas

variable {f : Decimal} {limit block : UInt64}

/-! ## Raised limits -/

theorem raise_of_not_positive (h : limit = 0 ∨ f.isPositive = false) :
    raise limit f block = limit := by
  unfold raise
  rcases h with hzero | hfactor
  · simp [hzero]
  · simp [hfactor]

theorem toNat_min (a b : UInt64) : (min a b).toNat = min a.toNat b.toNat := by
  by_cases h : a ≤ b
  · have hle : a.toNat ≤ b.toNat := UInt64.le_iff_toNat_le.mp h
    show (if a ≤ b then a else b).toNat = _
    rw [if_pos h]
    omega
  · have hle : ¬ a.toNat ≤ b.toNat := fun hno => h (UInt64.le_iff_toNat_le.mpr hno)
    show (if a ≤ b then a else b).toNat = _
    rw [if_neg h]
    omega

/-- Where the product is cut to the width of an amount the block is below it. -/
theorem toNat_raise (hlimit : limit ≠ 0) (hf : f.isPositive = true) :
    (raise limit f block).toNat = min (f.times limit.toNat) block.toNat := by
  have hblock : block.toNat < UInt64.size := block.toNat_lt
  have hraise : raise limit f block = min (scale limit f) block := by
    simp [raise, hlimit, hf]
  rw [hraise, toNat_min, toNat_scale hf]
  omega

/-- No word is wide enough for an amount of gas times a factor to be cut to it. -/
theorem toNat_scale_word (hf : f.isPositive = true) (gas : UInt64) :
    ((Word.ofUInt64 gas).scale f).toNat = f.times gas.toNat := by
  have hgas := gas.toNat_lt
  have hproduct : gas.toNat * f.mantissa < 2 ^ 64 * Decimal.bound :=
    Nat.mul_lt_mul'' hgas f.mantissa_lt
  have hle : f.times gas.toNat ≤ gas.toNat * f.mantissa := Nat.div_le_self _ _
  have hroom : 2 ^ 64 * Decimal.bound ≤ Word.size - 1 := by decide
  rw [Word.toNat_scale hf, Word.toNat_ofUInt64]
  omega

/-! ## The law -/

/-- A limit is raised to the product with the factor, rounded down, or to the limit of
the block; it stays as it is when it is zero or the factor is not above zero. On the way
no product is cut to a word. So it never exceeds the block, a larger limit, factor or
block gives no less, and a factor of one or more lowers nothing below the block. -/
theorem a_limit_is_raised_exactly (limit block : UInt64) (f : Decimal) :
    (raise limit f block).toNat =
      (if limit = 0 ∨ f.value ≤ 0 then limit.toNat
      else min ⌊(limit.toNat : ℚ) * f.value⌋₊ block.toNat) ∧
    (0 < f.value →
      ((Word.ofUInt64 limit).scale f).toNat = ⌊(limit.toNat : ℚ) * f.value⌋₊) ∧
    (limit ≠ 0 → 0 < f.value →
      raise limit f block ≤ block ∧
      (1 ≤ f.value → min limit block ≤ raise limit f block) ∧
      ∀ (limit' block' : UInt64) (f' : Decimal), limit ≤ limit' → f.value ≤ f'.value →
        block ≤ block' → raise limit f block ≤ raise limit' f' block') := by
  refine ⟨?_, ?_, ?_⟩
  · by_cases hstays : limit = 0 ∨ f.value ≤ 0
    · rw [if_pos hstays]
      rw [← Decimal.isPositive_eq_false_iff] at hstays
      rw [raise_of_not_positive hstays]
    · rw [if_neg hstays]
      rw [not_or, not_le] at hstays
      obtain ⟨hlimit, hf⟩ := hstays
      rw [toNat_raise hlimit (Decimal.isPositive_iff.mpr hf), Decimal.times_eq_floor hf]
  · intro hf
    rw [toNat_scale_word (Decimal.isPositive_iff.mpr hf), Decimal.times_eq_floor hf]
  · intro hlimit hf
    have hpositive := Decimal.isPositive_iff.mpr hf
    refine ⟨raise_le hpositive limit block, ?_, ?_⟩
    · intro hone
      have hle := Decimal.le_times hone limit.toNat
      rw [UInt64.le_iff_toNat_le, toNat_min, toNat_raise hlimit hpositive]
      omega
    · intro limit' block' f' hlimits hfactors hblocks
      have hlimit' : limit' ≠ 0 := by
        rintro rfl
        exact hlimit (UInt64.le_zero_iff.mp hlimits)
      have hpositive' := Decimal.isPositive_iff.mpr (lt_of_lt_of_le hf hfactors)
      rw [UInt64.le_iff_toNat_le] at hlimits hblocks ⊢
      have hproducts := Decimal.times_le_times hf hlimits hfactors
      rw [toNat_raise hlimit hpositive, toNat_raise hlimit' hpositive']
      omega

/-- One and a half to the hundredth. -/
def threeHalves : Decimal := ⟨false, 150, 2, by decide, by decide⟩

/-- One and a half with a place more. -/
def threeHalvesLong : Decimal := ⟨false, 1500, 3, by decide, by decide⟩

/-- The places of a factor do not matter: the limits with either do not exceed each
other. -/
theorem a_limit_is_raised_by_half :
    (100001 : UInt64) ≠ 0 ∧ 0 < threeHalves.value ∧
    threeHalves.value = threeHalvesLong.value ∧
    raise 100001 threeHalves 30000000 = 150001 ∧
    raise 100001 threeHalves 30000000 ≤ raise 100001 threeHalvesLong 30000000 ∧
    raise 100001 threeHalvesLong 30000000 ≤ raise 100001 threeHalves 30000000 := by
  have hlimit : (100001 : UInt64) ≠ 0 := by decide
  have hshort : threeHalves.value = 3 / 2 := by norm_num [Decimal.value, threeHalves]
  have hlong : threeHalvesLong.value = 3 / 2 := by norm_num [Decimal.value, threeHalvesLong]
  have hf : 0 < threeHalves.value := by
    rw [hshort]
    norm_num
  have heq : threeHalves.value = threeHalvesLong.value := hshort.trans hlong.symm
  have hvalue : raise 100001 threeHalves 30000000 = 150001 := by rfl
  obtain ⟨-, -, hup⟩ := a_limit_is_raised_exactly 100001 30000000 threeHalves
  obtain ⟨-, -, hdown⟩ := a_limit_is_raised_exactly 100001 30000000 threeHalvesLong
  refine ⟨hlimit, hf, heq, hvalue, ?_, ?_⟩
  · exact (hup hlimit hf).2.2 _ _ _ (UInt64.le_refl _) (le_of_eq heq) (UInt64.le_refl _)
  · exact (hdown hlimit (heq ▸ hf)).2.2 _ _ _ (UInt64.le_refl _) (ge_of_eq heq) (UInt64.le_refl _)

end Gas

end ChainAccess
