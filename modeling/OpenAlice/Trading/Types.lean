import Mathlib.Data.Rat.Defs
import Mathlib.Algebra.Field.Rat
import Mathlib.Algebra.Order.Field.Rat

/-!
# The types of the trading ledger

The operation, result, commit and snapshot types of the trading protocol
(`packages/uta-protocol/src/types/git.ts` and `broker.ts`), with the parts of
the IBKR contract, order and order-state classes that the ledger reads.

Three representations are ours:

* a `Decimal`, and a field that holds one as text (a filled quantity, a price, a
  multiplier), is the rational number it denotes;
* an optional field is an `Option`; for a field whose readers test it for
  truthiness the empty string counts as absent, which `truthy` says where a
  reader does so;
* a timestamp is the number of milliseconds behind the ISO string.
-/

namespace OpenAlice.Trading

abbrev CommitHash := String

/-- The value of a `decimal.js` number. -/
abbrev Decimal := ℚ

abbrev Timestamp := Nat

/-- The IBKR wire sentinel for "field absent", `2 ^ 127 - 1`. -/
def unsetDecimal : Decimal := 170141183460469231731687303715884105727

/-- A string read through JavaScript truthiness: absent and empty are the same. -/
def truthy : Option String → Option String
  | some s => if s = "" then none else some s
  | none => none

@[simp] theorem truthy_none : truthy none = none := rfl

theorem truthy_eq_some {o : Option String} {s : String} :
    truthy o = some s ↔ o = some s ∧ s ≠ "" := by
  cases o with
  | none => simp
  | some t =>
    by_cases ht : t = ""
    · simp only [truthy, ht, if_true, reduceCtorEq, Option.some.injEq, false_iff]
      rintro ⟨rfl, hs⟩
      exact hs rfl
    simp only [truthy, ht, if_false, Option.some.injEq]
    constructor
    · rintro rfl
      exact ⟨rfl, ht⟩
    · exact And.left

/-! ## Contracts and orders -/

/-- The identity of an instrument: the fields of the IBKR `Contract` that the
ledger and its projections read, with Alice's own `aliceId`. -/
structure Contract where
  aliceId : Option String := none
  symbol : String := ""
  localSymbol : String := ""
  secType : String := ""
  currency : String := ""
  exchange : String := ""
  lastTradeDateOrContractMonth : String := ""
  /-- `none` stands for the wire sentinel `UNSET_DOUBLE`. -/
  strike : Option ℚ := none
  right : String := ""
  /-- `none` stands for the empty text. -/
  multiplier : Option Decimal := none
deriving DecidableEq

/-- The fields of the IBKR `Order` that cross the ledger.  A decimal field is
`none` when the property is missing, as it is on a partial order and on one
that went through `toWire`; on a fresh `Order` it holds the sentinel. -/
structure Order where
  action : Option String := none
  orderType : Option String := none
  tif : Option String := none
  totalQuantity : Option Decimal := none
  cashQty : Option Decimal := none
  lmtPrice : Option Decimal := none
  auxPrice : Option Decimal := none
  trailStopPrice : Option Decimal := none
  trailingPercent : Option Decimal := none
  filledQuantity : Option Decimal := none
deriving DecidableEq

/-- The protective prices attached to an order. -/
structure TpSlParams where
  takeProfit : Option Decimal := none
  stopLoss : Option (Decimal × Option Decimal) := none
deriving DecidableEq

/-- The broker's answer about an order: its status and what it charged.  `none`
stands for a fee that is not a finite number or the wire sentinel. -/
structure OrderState where
  status : String := ""
  commissionAndFees : Option Decimal := none
  commissionAndFeesCurrency : String := ""
deriving DecidableEq

inductive LegKind where
  | takeProfit
  | stopLoss
deriving DecidableEq

/-- A protective child order the venue created alongside the entry. -/
structure PlaceOrderLeg where
  orderId : String
  kind : LegKind
deriving DecidableEq

structure OpenOrder where
  contract : Contract
  order : Order
  orderState : OrderState
  orderId : Option String := none
  avgFillPrice : Option Decimal := none
deriving DecidableEq

/-! ## Positions and snapshots -/

/-- The two sides of a position. -/
inductive Side where
  | long
  | short
deriving DecidableEq

inductive AvgCostSource where
  | broker
  | wallet
deriving DecidableEq

/-- A holding as a broker reports it. -/
structure Position where
  contract : Contract
  side : Side := .long
  quantity : Decimal
  avgCost : Option Decimal := none
  marketPrice : Decimal := 0
  marketValue : Decimal := 0
  unrealizedPnL : Decimal := 0
  realizedPnL : Decimal := 0
  /-- Missing in commit files older than the required field. -/
  multiplier : Option Decimal := some 1
  avgCostSource : Option AvgCostSource := none
deriving DecidableEq

/-- The account snapshot stored with a commit. -/
structure GitState where
  netLiquidation : Decimal := 0
  totalCashValue : Decimal := 0
  unrealizedPnL : Decimal := 0
  realizedPnL : Decimal := 0
  positions : List Position := []
  pendingOrders : List OpenOrder := []
deriving DecidableEq

/-! ## Operations and their results -/

inductive OperationAction where
  | placeOrder
  | modifyOrder
  | closePosition
  | cancelOrder
  | syncOrders
  | observeExternalOrder
  | reconcileBalance
deriving DecidableEq

def OperationAction.toText : OperationAction → String
  | .placeOrder => "placeOrder"
  | .modifyOrder => "modifyOrder"
  | .closePosition => "closePosition"
  | .cancelOrder => "cancelOrder"
  | .syncOrders => "syncOrders"
  | .observeExternalOrder => "observeExternalOrder"
  | .reconcileBalance => "reconcileBalance"

inductive Operation where
  | placeOrder (contract : Contract) (order : Order) (tpsl : Option TpSlParams)
  | modifyOrder (orderId : String) (changes : Order)
  | closePosition (contract : Contract) (quantity : Option Decimal)
  | cancelOrder (orderId : String)
  | syncOrders
  | observeExternalOrder (contract : Contract) (order : Order)
  | reconcileBalance (aliceId : String) (quantityDelta markPrice : Decimal)
deriving DecidableEq

namespace Operation

def action : Operation → OperationAction
  | .placeOrder .. => .placeOrder
  | .modifyOrder .. => .modifyOrder
  | .closePosition .. => .closePosition
  | .cancelOrder .. => .cancelOrder
  | .syncOrders => .syncOrders
  | .observeExternalOrder .. => .observeExternalOrder
  | .reconcileBalance .. => .reconcileBalance

def contract? : Operation → Option Contract
  | .placeOrder c _ _ | .closePosition c _ | .observeExternalOrder c _ => some c
  | _ => none

/-- `getOperationSymbol`: the symbol an operation is shown under. -/
def symbol : Operation → String
  | .placeOrder c _ _ | .closePosition c _ | .observeExternalOrder c _ =>
    (truthy (some c.symbol)).getD ((truthy c.aliceId).getD "unknown")
  | .reconcileBalance aliceId _ _ => aliceId
  | .modifyOrder .. | .cancelOrder .. | .syncOrders => "unknown"

end Operation

inductive OperationStatus where
  | submitted
  | filled
  | rejected
  | cancelled
  | userRejected
deriving DecidableEq

def OperationStatus.toText : OperationStatus → String
  | .submitted => "submitted"
  | .filled => "filled"
  | .rejected => "rejected"
  | .cancelled => "cancelled"
  | .userRejected => "user-rejected"

/-- What the dispatcher hands back for an operation, read as an untyped value:
something that is not an object, or an object with these fields. -/
inductive RawReply where
  | notObject
  | object (success : Bool) (error : Option String) (orderId : Option String)
      (orderState : Option OrderState) (legs : List PlaceOrderLeg)
deriving DecidableEq

/-- The recorded result of an operation, or one row of a sync.  A missing list
of legs and an empty one are the same to every reader. -/
structure OperationResult where
  action : OperationAction
  success : Bool
  orderId : Option String := none
  status : OperationStatus
  orderState : Option OrderState := none
  filledQty : Option Decimal := none
  filledPrice : Option Decimal := none
  fee : Option Decimal := none
  feeCurrency : Option String := none
  error : Option String := none
  legs : List PlaceOrderLeg := []
  symbol : Option String := none
  raw : Option RawReply := none
deriving DecidableEq

/-- A row of a sync: what the broker says became of a pending order. -/
structure OrderStatusUpdate where
  orderId : String
  symbol : String
  previousStatus : OperationStatus := .submitted
  currentStatus : OperationStatus
  filledQty : Option Decimal := none
  filledPrice : Option Decimal := none
  fee : Option Decimal := none
  feeCurrency : Option String := none
deriving DecidableEq

/-! ## Commits -/

structure GitCommit where
  hash : CommitHash
  parentHash : Option CommitHash
  message : String
  operations : List Operation
  results : List OperationResult
  stateAfter : GitState
  timestamp : Timestamp
  round : Option Nat
deriving DecidableEq

structure GitExportState where
  commits : List GitCommit
  head : Option CommitHash

inductive HashContent where
  | operations (message : String) (operations : List Operation) (timestamp : Timestamp)
      (parentHash : Option CommitHash)
  | updates (updates : List OrderStatusUpdate) (timestamp : Timestamp)
      (parentHash : Option CommitHash)

end OpenAlice.Trading
