-- Words of 256 bits, the amounts of a chain: wei, gas prices and the cells of
-- call data. Operations that could leave the 256 bits stop at the largest
-- word.

namespace ChainAccess

/-- A word of 256 bits. -/
abbrev Word := BitVec 256

namespace Word

/-- How many words there are. -/
abbrev size : Nat := 0x10000000000000000000000000000000000000000000000000000000000000000

/-- The largest word. -/
def max : Word := BitVec.allOnes 256

/-- The sum, or the largest word when it does not fit. -/
def addSat (a b : Word) : Word :=
  if a.toNat + b.toNat < size then a + b else max

/-- The product, or the largest word when it does not fit. -/
def mulSat (a b : Word) : Word :=
  if a.toNat * b.toNat < size then a * b else max

/-- The word as 64 bits, or the largest number of 64 bits. -/
def toUInt64Sat (a : Word) : UInt64 :=
  if a.toNat < UInt64.size then UInt64.ofNat a.toNat else UInt64.ofNat (UInt64.size - 1)

/-- The word as a number below `2^128`, or the largest such number. -/
def toNat128Sat (a : Word) : Nat := min a.toNat (Nat.pow 2 128 - 1)

/-- A number of 64 bits as a word. -/
def ofUInt64 (n : UInt64) : Word := BitVec.ofNat 256 n.toNat

end Word

/-! ## Gas -/

namespace Gas

/-- The sum of two amounts of gas, or the largest amount. -/
def addSat (a b : UInt64) : UInt64 :=
  UInt64.ofNat (min (a.toNat + b.toNat) (UInt64.size - 1))

/-- The product of two amounts, or the largest amount. -/
def mulSat (a b : UInt64) : UInt64 :=
  UInt64.ofNat (min (a.toNat * b.toNat) (UInt64.size - 1))

end Gas

end ChainAccess
