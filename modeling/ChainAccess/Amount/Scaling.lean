import ChainAccess.Amount.Word
import ChainAccess.Amount.Decimal
-- Amounts times a decimal factor. Quotient and remainder by the power of ten
-- are scaled apart, so that nothing on the way leaves 256 bits unless the
-- result does; fractions are dropped.

namespace ChainAccess

/-- The wei of one gwei. -/
def weiPerGwei : Word := 1000000000

/-- An amount of gwei in wei. -/
def gweiToWei (gwei : UInt64) : Word := Word.ofUInt64 gwei * weiPerGwei

/-- `value` times the factor, without its fraction; zero for a factor that is
zero or below, the largest word for a product that does not fit. -/
def Word.scale (value : Word) (factor : Decimal) : Word :=
  if factor.isZero || factor.negative then 0
  else
    let mantissa : Word := BitVec.ofNat 256 factor.mantissa
    let divisor : Word := BitVec.ofNat 256 (Nat.pow 10 factor.scale)
    let quotient := value / divisor
    let remainder := value % divisor
    (quotient.mulSat mantissa).addSat (remainder * mantissa / divisor)

namespace Gas

/-- An amount of gas times the factor, without its fraction, at most the
largest amount. -/
def scale (gas : UInt64) (factor : Decimal) : UInt64 :=
  ((Word.ofUInt64 gas).scale factor).toUInt64Sat

/-- A gas limit times the factor, at most the limit of the block; a zero limit
or a factor that is not above zero leaves it as it is. -/
def raise (limit : UInt64) (factor : Decimal) (blockLimit : UInt64) : UInt64 :=
  if limit = 0 || !factor.isPositive then limit
  else min (scale limit factor) blockLimit

end Gas

end ChainAccess
