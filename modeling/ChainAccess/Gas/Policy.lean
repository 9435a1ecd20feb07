import ChainAccess.Amount.Decimal
-- The gas settings of a network: how the price and the limit of a
-- transaction are derived from what a node says.

namespace ChainAccess.Gas

/-- The gas settings of a network. -/
structure Policy where
  /-- The factor on the gas price. -/
  priceFactor : Decimal
  /-- The lowest price in gwei, before the factor; zero for none. -/
  floorGwei : UInt64
  /-- The factor on the gas limit. -/
  limitFactor : Decimal
  /-- The limit to use when none can be estimated. -/
  limitOverride : Option UInt64
  /-- The gas that a reveal needs for each assigned value. -/
  gasPerAssignment : UInt64
  deriving DecidableEq, Repr

namespace Policy

/-- Prices and limits as they are estimated. -/
def default : Policy := ⟨.one, 0, .one, none, 10000⟩

/-- The fields of the settings; a name that is none of them is refused. -/
def shape : Json.Shape :=
  ⟨[Json.defaultedField "gas_multiplier" Decimal.read,
    Json.defaultedField "gas_price_gwei" Json.readUInt64,
    Json.defaultedField "gas_limit_multiplier" Decimal.read,
    Json.defaultedField "gas_limit_override" (Json.readOption Json.readUInt64),
    Json.defaultedField "reveal_gas_per_assignment" Json.readUInt64], true⟩

/-- Reads the settings. -/
def read : Json.Read Policy := fun v => do
  let r ← shape.read v
  return {
    priceFactor := ← r.getD "gas_multiplier" Decimal.read default.priceFactor
    floorGwei := ← r.getD "gas_price_gwei" Json.readUInt64 default.floorGwei
    limitFactor := ← r.getD "gas_limit_multiplier" Decimal.read default.limitFactor
    limitOverride := ← r.get? "gas_limit_override" Json.readUInt64
    gasPerAssignment :=
      ← r.getD "reveal_gas_per_assignment" Json.readUInt64 default.gasPerAssignment }

/-- The settings in JSON. -/
def toJson (p : Policy) : Json :=
  .obj [("gas_multiplier", p.priceFactor.toJson), ("gas_price_gwei", .ofUInt64 p.floorGwei),
    ("gas_limit_multiplier", p.limitFactor.toJson),
    ("gas_limit_override", .ofOption .ofUInt64 p.limitOverride),
    ("reveal_gas_per_assignment", .ofUInt64 p.gasPerAssignment)]

end Policy

end ChainAccess.Gas
