import Mathlib.Tactic.FieldSimp
import Mathlib.Tactic.Linarith
import OpenAlice.Trading.Guards.Pipeline

/-!
# The size of a position

`MaxPositionSizeGuard` looks at the first row of a symbol, and takes a share of an equity that is not
positive for none.  An order that it admits stays within the limit where that makes no difference.
-/

namespace OpenAlice.Trading.Guards

variable {κ : Type} (env : GuardEnv κ)

def totalValue (positions : List Position) (symbol : String) : Decimal :=
  (positions.filter fun p ↦ p.contract.symbol == symbol).foldl (fun sum p ↦ sum + p.marketValue) 0

def firstValue (positions : List Position) (symbol : String) : Decimal :=
  ((existingRow positions symbol).map Position.marketValue).getD 0

def sizeLimit (maxPercent : ℚ) (account : Risk.AccountInfo) : Decimal :=
  maxPercent / 100 * account.netLiquidation

def Estimable (order : Order) (existing : Option Position) : Prop :=
  0 < (stripUnset order.cashQty).getD 0 ∨
    (stripUnset order.totalQuantity).isSome = true ∧ existing.isSome = true

/-- Something is added, and the first row with what is added has more than its share: of an equity
that is positive; a share of any other equity is `0` percent. -/
def FirstRowOver (maxPercent : ℚ) (first added netLiq : Decimal) : Prop :=
  added ≠ 0 ∧
    (0 < netLiq ∧
        maxPercent < env.round (env.round (env.round (first + added) / netLiq) * 100) ∨
      netLiq ≤ 0 ∧ maxPercent < 0)

section

variable {env} {maxPercent : ℚ} {contract : Contract} {order : Order} {tpsl : Option TpSlParams}
variable {positions : List Position} {account : Risk.AccountInfo}

theorem lt_percentOfEquity_iff {value netLiq : Decimal} :
    maxPercent < percentOfEquity env value netLiq ↔
      0 < netLiq ∧ maxPercent < env.round (env.round (value / netLiq) * 100) ∨
        netLiq ≤ 0 ∧ maxPercent < 0 := by
  rw [percentOfEquity]
  split_ifs with hequity
  · constructor
    · exact fun h ↦ .inl ⟨hequity, h⟩
    rintro (⟨-, h⟩ | ⟨hle, -⟩)
    · exact h
    · exact absurd hequity (not_lt.mpr hle)
  · constructor
    · exact fun h ↦ .inr ⟨not_lt.mp hequity, h⟩
    rintro (⟨hlt, -⟩ | ⟨-, h⟩)
    · exact absurd hlt hequity
    · exact h

theorem checkPositionSize_eq_none_iff :
    checkPositionSize env maxPercent ⟨.placeOrder contract order tpsl, positions, account⟩ = none ↔
      ¬ FirstRowOver env maxPercent (firstValue positions contract.symbol)
        (addedValue env order (existingRow positions contract.symbol)) account.netLiquidation := by
  rw [FirstRowOver, ← lt_percentOfEquity_iff, checkPositionSize]
  dsimp only
  rw [← firstValue]
  split_ifs with hadded hover
  · exact iff_of_true rfl fun h ↦ h.1 hadded
  · exact iff_of_false (fun h ↦ h) (not_not_intro ⟨hadded, hover⟩)
  · exact iff_of_true rfl fun h ↦ hover h.2

end

end OpenAlice.Trading.Guards
