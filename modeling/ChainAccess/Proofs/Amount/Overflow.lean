import ChainAccess.Proofs.Amount.Scaling
import Mathlib.Tactic.Common
-- Scaling an amount one operation at a time. Here every operation refuses what it
-- cannot hold, where the machine would go round or stop. Only the two operations that
-- make up the whole can refuse, and they do just when the whole product is too large:
-- the amount is cut when the product is, and never before.

namespace ChainAccess.Word

/-! ## Operations that refuse -/

/-- The number as a word, when it fits. -/
def ofNat? (n : Nat) : Option Word := if n < size then some (BitVec.ofNat 256 n) else none

/-- The sum, when it fits. -/
def add? (a b : Word) : Option Word := if a.toNat + b.toNat < size then some (a + b) else none

/-- The product, when it fits. -/
def mul? (a b : Word) : Option Word := if a.toNat * b.toNat < size then some (a * b) else none

/-- The quotient, when there is one. -/
def div? (a b : Word) : Option Word := if b = 0 then none else some (a / b)

/-- The remainder, when there is one. -/
def mod? (a b : Word) : Option Word := if b = 0 then none else some (a % b)

/-- The power of ten, when it fits 128 bits. -/
def tenTo? (n : Nat) : Option Word := if 10 ^ n < 2 ^ 128 then ofNat? (10 ^ n) else none

/-- `scale` one operation at a time, with `times` and `plus` for the two that make up
the whole from the scaled quotient and the scaled remainder. -/
def scaleBy? (times plus : Word → Word → Option Word) (value : Word) (f : Decimal) :
    Option Word :=
  if f.isZero || f.negative then some 0
  else do
    let mantissa ← ofNat? f.mantissa
    let divisor ← tenTo? f.scale
    let quotient ← value.div? divisor
    let remainder ← value.mod? divisor
    let product ← remainder.mul? mantissa
    let rest ← product.div? divisor
    let whole ← times quotient mantissa
    plus whole rest

/-! ## What is never refused -/

variable {times plus : Word → Word → Option Word} {value : Word} {f : Decimal}

theorem ofNat?_mantissa (f : Decimal) : ofNat? f.mantissa = some f.digitsWord :=
  if_pos (Nat.lt_trans f.mantissa_lt (by decide))

theorem tenTo?_scale (f : Decimal) : tenTo? f.scale = some f.placesWord := by
  have hle := places_le f
  unfold tenTo? ofNat? Decimal.placesWord
  rw [if_pos (Nat.lt_of_le_of_lt hle (by decide)), if_pos (Nat.lt_of_le_of_lt hle (by decide)),
    Nat.pow_eq]

theorem placesWord_ne_zero (f : Decimal) : f.placesWord ≠ 0 := by
  intro hzero
  have hplaces := toNat_placesWord f
  rw [hzero] at hplaces
  exact Nat.ne_of_lt (places_pos f) hplaces

/-- The operations before the two last ones hold what they come to. -/
theorem scaleBy?_of_positive (hf : f.isPositive = true) :
    scaleBy? times plus value f = (times (value / f.placesWord) f.digitsWord).bind fun whole =>
      plus whole (value % f.placesWord * f.digitsWord / f.placesWord) := by
  unfold scaleBy?
  rw [f.isZero_or_negative, hf, Bool.not_true, if_neg Bool.false_ne_true, ofNat?_mantissa,
    tenTo?_scale]
  simp only [div?, mod?, mul?, if_neg (placesWord_ne_zero f), if_pos (remainder_fits value f),
    Option.bind_eq_bind, Option.bind_some]

theorem scaleBy?_of_not_positive (hf : f.isPositive = false) :
    scaleBy? times plus value f = some 0 := by
  unfold scaleBy?
  rw [f.isZero_or_negative, hf, Bool.not_false, if_pos rfl]

theorem scale_of_not_positive (hf : f.isPositive = false) (value : Word) : value.scale f = 0 := by
  unfold scale
  rw [f.isZero_or_negative, hf, Bool.not_false, if_pos rfl]

/-! ## What is refused -/

theorem mulSat_of_fits {a b : Word} (h : a.toNat * b.toNat < size) : a.mulSat b = a * b := if_pos h

theorem addSat_of_fits {a b : Word} (h : a.toNat + b.toNat < size) : a.addSat b = a + b := if_pos h

/-- The two last operations hold what they come to just when the whole product fits. -/
theorem bind_mul?_add? (a b c : Word) :
    ((a.mul? b).bind fun whole => whole.add? c) =
      if a.toNat * b.toNat + c.toNat < size then some ((a.mulSat b).addSat c) else none := by
  by_cases hmul : a.toNat * b.toNat < size
  · have hwhole : (a * b).toNat = a.toNat * b.toNat := by
      rw [BitVec.toNat_mul, Nat.mod_eq_of_lt hmul]
    rw [mul?, if_pos hmul, Option.bind_some, add?, hwhole, mulSat_of_fits hmul]
    by_cases hadd : a.toNat * b.toNat + c.toNat < size
    · rw [if_pos hadd, if_pos hadd, addSat_of_fits (by rwa [hwhole])]
    · rw [if_neg hadd, if_neg hadd]
  · have hadd : ¬ a.toNat * b.toNat + c.toNat < size := by omega
    rw [mul?, if_neg hmul, Option.bind_none, if_neg hadd]

/-! ## The law -/

/-- An amount times a factor above zero is the exact product without its fraction, or the
largest word; times any other factor it is zero. No operation on the way goes beyond its
width or divides by zero, and when the two last ones refuse what does not fit instead of
cutting it, they refuse just the products that are no word. -/
theorem an_amount_is_scaled_exactly (value : Word) (f : Decimal) :
    (value.scale f).toNat =
      (if f.isPositive then min (value.toNat * f.mantissa / 10 ^ f.scale) (size - 1) else 0) ∧
    scaleBy? (fun a b => some (a.mulSat b)) (fun a b => some (a.addSat b)) value f =
      some (value.scale f) ∧
    scaleBy? mul? add? value f =
      if f.isPositive ∧ size ≤ value.toNat * f.mantissa / 10 ^ f.scale then none
      else some (value.scale f) := by
  cases hf : f.isPositive with
  | false =>
    rw [scaleBy?_of_not_positive hf, scaleBy?_of_not_positive hf, scale_of_not_positive hf]
    simp
  | true =>
    refine ⟨?_, ?_, ?_⟩
    · rw [toNat_scale hf, if_pos rfl, Decimal.times]
    · rw [scaleBy?_of_positive hf, scale_of_positive hf]
      rfl
    · rw [scaleBy?_of_positive hf, bind_mul?_add?, toNat_scaled_parts, ← scale_of_positive hf,
        Decimal.times]
      by_cases hfits : value.toNat * f.mantissa / 10 ^ f.scale < size
      · rw [if_pos hfits, if_neg fun h => Nat.not_le_of_lt hfits h.2]
      · rw [if_neg hfits, if_pos ⟨rfl, Nat.le_of_not_lt hfits⟩]

end ChainAccess.Word
