import OpenAlice.Trading.Brokers.Types

/-!
# Positions as the adapters build them

`position-math.ts` and `buildPosition` (`brokers/contract-builder.ts`): what a position is worth, with
its multiplier, and what an account is worth with its positions.

A multiplier is the number that its text is; there is none for the empty text.
-/

namespace OpenAlice.Trading.Brokers

variable (round : Decimal → Decimal)

def multiplierToDecimal (m : Option Decimal) : Decimal :=
  match m with
  | none => 1
  | some d => if d = 0 then 1 else d

/-- `side === 'long' ? 1 : -1` -/
def sideSign : Side → Decimal
  | .long => 1
  | .short => -1

def derivePositionMath (quantity marketPrice avgCost : Decimal) (multiplier : Option Decimal)
    (side : Side) : Decimal × Decimal :=
  let mult := multiplierToDecimal multiplier
  (round (round (quantity * marketPrice) * mult),
    round (round (round (quantity * round (marketPrice - avgCost)) * mult) * sideSign side))

/-- A position as `buildPosition` makes it. -/
structure BuiltPosition extends BrokerPosition where
  currency : String := ""
  avgCost : Decimal
  marketPrice : Decimal
  marketValue : Decimal
  unrealizedPnL : Decimal
  realizedPnL : Decimal
  multiplier : Decimal
  avgCostSource : Option AvgCostSource := none

structure BuildPositionInput where
  contract : BrokerContract
  currency : String
  side : Side
  quantity : Decimal
  avgCost : Decimal
  marketPrice : Decimal
  realizedPnL : Decimal
  multiplier : Option Decimal := none
  marketValue : Option Decimal := none
  unrealizedPnL : Option Decimal := none
  avgCostSource : Option AvgCostSource := none

def BuildPositionInput.unit (input : BuildPositionInput) : Decimal :=
  input.multiplier.getD (input.contract.multiplier.getD 1)

/-- An option that counts for one share: the multiplier was lost on the way. -/
def BuildPositionInput.undecoded (input : BuildPositionInput) : Prop :=
  (input.contract.secType = "OPT" ∨ input.contract.secType = "FOP") ∧ input.unit = 1

instance (input : BuildPositionInput) : Decidable input.undecoded :=
  inferInstanceAs (Decidable (_ ∧ _))

def buildPosition (input : BuildPositionInput) : Except String BuiltPosition :=
  if input.undecoded then
    .error ("buildPosition: " ++ input.contract.secType ++ " " ++ input.contract.symbol ++
      " has multiplier='1' — upstream broker decode is missing the contract multiplier. " ++
      "Position values would be off by ~100x.")
  else
    let derived := derivePositionMath round input.quantity input.marketPrice input.avgCost
      (some input.unit) input.side
    .ok {
      contract := input.contract
      side := input.side
      quantity := input.quantity
      currency := input.currency
      avgCost := input.avgCost
      marketPrice := input.marketPrice
      marketValue := input.marketValue.getD derived.1
      unrealizedPnL := input.unrealizedPnL.getD derived.2
      realizedPnL := input.realizedPnL
      multiplier := input.unit
      avgCostSource := input.avgCostSource }

def aggregateAccountFromPositions (cash : Decimal) (positions : List (Side × Decimal)) :
    Decimal × Decimal :=
  let total := positions.foldl (fun total p ↦
    round (total + if p.1 = .short then -p.2 else p.2)) 0
  (round (cash + total), total)

end OpenAlice.Trading.Brokers
