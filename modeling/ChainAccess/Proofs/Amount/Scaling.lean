import ChainAccess.Amount.Scaling
import Mathlib.Algebra.Group.Nat.Defs
import Mathlib.Tactic.Common
-- What saturating amounts come to. A sum or a product is the exact one or the
-- largest amount, and so is an amount times a factor: the quotient and the
-- remainder that are scaled apart make up the whole product without its fraction,
-- and nothing on the way is cut unless the product is.

namespace ChainAccess

/-- The product of a number and a factor above zero, without its fraction. -/
def Decimal.times (f : Decimal) (n : Nat) : Nat := n * f.mantissa / 10 ^ f.scale

/-- The digits of a factor as a word. -/
def Decimal.digitsWord (f : Decimal) : Word := BitVec.ofNat 256 f.mantissa

/-- The power of ten below the digits of a factor, as a word. -/
def Decimal.placesWord (f : Decimal) : Word := BitVec.ofNat 256 (Nat.pow 10 f.scale)

theorem Decimal.isZero_or_negative (f : Decimal) : (f.isZero || f.negative) = !f.isPositive := by
  unfold isPositive
  cases f.isZero <;> cases f.negative <;> rfl

/-! ## Words -/

namespace Word

theorem toNat_addSat (a b : Word) : (a.addSat b).toNat = min (a.toNat + b.toNat) (size - 1) := by
  unfold addSat
  by_cases hfits : a.toNat + b.toNat < size
  · rw [if_pos hfits, BitVec.toNat_add, Nat.mod_eq_of_lt hfits]
    omega
  · rw [if_neg hfits]
    have hmax : max.toNat = size - 1 := BitVec.toNat_allOnes
    omega

theorem toNat_mulSat (a b : Word) : (a.mulSat b).toNat = min (a.toNat * b.toNat) (size - 1) := by
  unfold mulSat
  by_cases hfits : a.toNat * b.toNat < size
  · rw [if_pos hfits, BitVec.toNat_mul, Nat.mod_eq_of_lt hfits]
    omega
  · rw [if_neg hfits]
    have hmax : max.toNat = size - 1 := BitVec.toNat_allOnes
    omega

theorem toNat_toUInt64Sat (a : Word) : a.toUInt64Sat.toNat = min a.toNat (UInt64.size - 1) := by
  unfold toUInt64Sat
  by_cases hfits : a.toNat < UInt64.size
  · rw [if_pos hfits, UInt64.toNat_ofNat_of_lt' hfits]
    omega
  · rw [if_neg hfits, UInt64.toNat_ofNat_of_lt' (by decide)]
    omega

theorem toNat_ofUInt64 (n : UInt64) : (ofUInt64 n).toNat = n.toNat := by
  have hlt := n.toNat_lt
  unfold ofUInt64
  rw [BitVec.toNat_ofNat]
  omega

/-- Quotient and remainder, scaled apart, make up the whole. -/
theorem scaled_apart (n m : Nat) {d : Nat} (hd : 0 < d) :
    n / d * m + n % d * m / d = n * m / d := by
  have hsplit : n * m = n % d * m + d * (n / d * m) := by
    conv_lhs => rw [← Nat.mod_add_div n d]
    rw [Nat.add_mul, Nat.mul_assoc]
  rw [hsplit, Nat.add_mul_div_left _ _ hd, Nat.add_comm]

/-! The parts of a factor as words: neither is cut, and the remainder of an amount
leaves room for the product with the digits. -/

theorem toNat_digitsWord (f : Decimal) : f.digitsWord.toNat = f.mantissa := by
  unfold Decimal.digitsWord
  rw [BitVec.toNat_ofNat]
  exact Nat.mod_eq_of_lt (Nat.lt_trans f.mantissa_lt (by decide))

theorem places_le (f : Decimal) : 10 ^ f.scale ≤ 10 ^ 28 :=
  Nat.pow_le_pow_right (by decide) f.scale_le

theorem places_pos (f : Decimal) : 0 < 10 ^ f.scale := Nat.pow_pos (by decide)

theorem toNat_placesWord (f : Decimal) : f.placesWord.toNat = 10 ^ f.scale := by
  unfold Decimal.placesWord
  rw [BitVec.toNat_ofNat, Nat.pow_eq]
  exact Nat.mod_eq_of_lt (Nat.lt_of_le_of_lt (places_le f) (by decide))

theorem remainder_fits (value : Word) (f : Decimal) :
    (value % f.placesWord).toNat * f.digitsWord.toNat < size := by
  rw [BitVec.toNat_umod, toNat_digitsWord, toNat_placesWord]
  have hr : value.toNat % 10 ^ f.scale < 10 ^ 28 :=
    Nat.lt_of_lt_of_le (Nat.mod_lt _ (places_pos f)) (places_le f)
  exact Nat.lt_of_lt_of_le (Nat.mul_lt_mul'' hr f.mantissa_lt) (by decide)

theorem toNat_scaled_parts (value : Word) (f : Decimal) :
    (value / f.placesWord).toNat * f.digitsWord.toNat +
      (value % f.placesWord * f.digitsWord / f.placesWord).toNat = f.times value.toNat := by
  rw [BitVec.toNat_udiv, BitVec.toNat_udiv, BitVec.toNat_mul,
    Nat.mod_eq_of_lt (remainder_fits value f), BitVec.toNat_umod, toNat_digitsWord,
    toNat_placesWord, scaled_apart _ _ (places_pos f), Decimal.times]

theorem scale_of_positive {f : Decimal} (hf : f.isPositive = true) (value : Word) :
    value.scale f = ((value / f.placesWord).mulSat f.digitsWord).addSat
      (value % f.placesWord * f.digitsWord / f.placesWord) := by
  unfold scale
  rw [f.isZero_or_negative, hf, Bool.not_true, if_neg Bool.false_ne_true]
  rfl

theorem toNat_scale {f : Decimal} (hf : f.isPositive = true) (value : Word) :
    (value.scale f).toNat = min (f.times value.toNat) (size - 1) := by
  rw [scale_of_positive hf, toNat_addSat, toNat_mulSat, ← toNat_scaled_parts]
  omega

end Word

/-! ## Gas -/

namespace Gas

theorem toNat_addSat (a b : UInt64) :
    (addSat a b).toNat = min (a.toNat + b.toNat) (UInt64.size - 1) :=
  UInt64.toNat_ofNat_of_lt' (Nat.lt_of_le_of_lt (Nat.min_le_right _ _) (by decide))

theorem toNat_mulSat (a b : UInt64) :
    (mulSat a b).toNat = min (a.toNat * b.toNat) (UInt64.size - 1) :=
  UInt64.toNat_ofNat_of_lt' (Nat.lt_of_le_of_lt (Nat.min_le_right _ _) (by decide))

/-- Gas times a factor is the exact product without its fraction, or the largest
amount. -/
theorem toNat_scale {f : Decimal} (hf : f.isPositive = true) (gas : UInt64) :
    (scale gas f).toNat = min (f.times gas.toNat) (UInt64.size - 1) := by
  have hsize : UInt64.size ≤ Word.size := by decide
  unfold scale
  rw [Word.toNat_toUInt64Sat, Word.toNat_scale hf, Word.toNat_ofUInt64]
  omega

/-- A factor above zero raises no limit above that of the block. -/
theorem raise_le {f : Decimal} (hf : f.isPositive = true) (limit blockLimit : UInt64) :
    raise limit f blockLimit ≤ blockLimit := by
  by_cases hzero : limit = 0
  · simp [raise, hzero]
  · have hmin : raise limit f blockLimit = min (scale limit f) blockLimit := by
      simp [raise, hzero, hf]
    rw [hmin]
    show (if scale limit f ≤ blockLimit then scale limit f else blockLimit) ≤ blockLimit
    split
    · assumption
    · exact UInt64.le_refl _

/-- Saturating twice is saturating once. -/
theorem toNat_addSat_mulSat (gas count each : UInt64) :
    (addSat gas (mulSat count each)).toNat =
      min (gas.toNat + count.toNat * each.toNat) (UInt64.size - 1) := by
  rw [toNat_addSat, toNat_mulSat]
  omega

end Gas

end ChainAccess
