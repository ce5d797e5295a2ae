import OpenAlice.Data.Keyed
import OpenAlice.Data.Rounded
import OpenAlice.Trading.Brokers.PositionMath
import OpenAlice.Trading.Brokers.Staging

/-!
# The simulated exchange

`brokers/mock/MockBroker.ts`: an exchange in memory.  Market orders fill at once at the mark price;
the others wait until `setMarkPrice` reaches their trigger or `fillOrder` is called.  Beside the
adapter's own methods there are those of the control panel: deposits, withdrawals and trades that
happen outside, and the legacy helpers that set positions, orders or the account's figures.

Each of the three maps is a list of keys with values, in the order in which the keys came.  A method
that mutates gives the state it leaves, also where it throws on the way; what throws before it has
changed anything gives an error alone.

* Every operation on decimals is rounded by `R`, as `decimal.js` rounds to its precision.
* An average cost is a quotient, and not a finite number where the quantity under it is zero: then
  it is `none`.
* The registry of contracts, the log of calls and the simulated failures are left out: no order,
  fill or price reads them.  So is `fillPrice`, which nothing reads.
-/

namespace OpenAlice.Trading.Brokers

open Data

variable (R : Rounding Decimal) (js : Js) (toFixed : Decimal → String)

/-! ## What the exchange holds -/

structure InternalPosition where
  contract : BrokerContract
  side : Side
  quantity : Decimal
  /-- `none` where it is not a finite number. -/
  avgCost : Option Decimal
  avgCostSource : Option AvgCostSource := none
  marketPriceOverride : Option Decimal := none

/-- `InternalOrder`, without its id, which is its key. -/
structure InternalOrder where
  contract : BrokerContract
  order : BrokerOrder
  status : String
  filledQuantity : Option Decimal := none
  avgFillPrice : Option Decimal := none

/-- `AccountInfo`, each figure `none` where it is not a finite number. -/
structure AccountInfo where
  baseCurrency : String
  netLiquidation : Option Decimal
  totalCashValue : Option Decimal
  unrealizedPnL : Option Decimal
  realizedPnL : Option Decimal

/-- `Partial<AccountInfo>` -/
structure AccountInfoPatch where
  baseCurrency : Option String := none
  netLiquidation : Option Decimal := none
  totalCashValue : Option Decimal := none
  unrealizedPnL : Option Decimal := none
  realizedPnL : Option Decimal := none

structure PlaceOrderResult where
  success : Bool
  error : Option String := none
  orderId : Option String := none
  orderState : Option OrderState := none

def PlaceOrderResult.accepted (orderId status : String) : PlaceOrderResult where
  success := true
  orderId := some orderId
  orderState := some { status := status }

def PlaceOrderResult.refused (error : String) : PlaceOrderResult where
  success := false
  error := some error

structure MockBroker where
  id : String
  positions : List (String × InternalPosition) := []
  orders : List (String × InternalOrder) := []
  markPrices : List (String × Decimal) := []
  cash : Decimal
  nextOrderId : Nat := 1
  accountOverride : Option AccountInfo := none

def AccountInfoPatch.over (info : AccountInfoPatch) (base : AccountInfo) : AccountInfo where
  baseCurrency := info.baseCurrency.getD base.baseCurrency
  netLiquidation := info.netLiquidation.or base.netLiquidation
  totalCashValue := info.totalCashValue.or base.totalCashValue
  unrealizedPnL := info.unrealizedPnL.or base.unrealizedPnL
  realizedPnL := info.realizedPnL.or base.realizedPnL

def AccountInfo.zero : AccountInfo := ⟨"USD", some 0, some 0, some 0, some 0⟩

def multiplierOf (c : BrokerContract) : Decimal :=
  match c.multiplier with
  | none => 1
  | some d => if d = 0 then 1 else d

namespace InternalPosition

/-- `isIncreasing`: a fill adds to the position. -/
def Increasing (pos : InternalPosition) (side : String) : Prop :=
  pos.side = .long ∧ side = "BUY" ∨ pos.side = .short ∧ side = "SELL"

instance (pos : InternalPosition) (side : String) : Decidable (pos.Increasing side) :=
  inferInstanceAs (Decidable (_ ∨ _))

def increase (pos : InternalPosition) (qty price : Decimal) : InternalPosition :=
  let quantity := R.round (pos.quantity + qty)
  { pos with
    quantity := quantity
    avgCost :=
      if quantity = 0 then none
      else pos.avgCost.map fun avgCost ↦
        R.round (R.round (R.round (avgCost * pos.quantity) + R.round (price * qty)) / quantity) }

def closingSide (pos : InternalPosition) : String :=
  if pos.side = .long then "SELL" else "BUY"

end InternalPosition

namespace InternalOrder

def filled (internal : InternalOrder) (fillQty price : Decimal) : InternalOrder :=
  let prevQty := internal.filledQuantity.getD 0
  let prevAvg := internal.avgFillPrice.getD price
  let newQty := R.round (prevQty + fillQty)
  let avgFillPrice :=
    R.round (R.round (R.round (prevAvg * prevQty) + R.round (price * fillQty)) / newQty)
  let counted :=
    { internal with filledQuantity := some newQty, avgFillPrice := some avgFillPrice }
  if fillQty < internal.order.totalQuantity then
    { counted with
      order := { internal.order with
        totalQuantity := R.round (internal.order.totalQuantity - fillQty) } }
  else { counted with status := "Filled" }

def triggered (internal : InternalOrder) (price : Decimal) : Bool :=
  let order := internal.order
  let side := js.toUpperCase order.action
  match order.orderType with
  | "LMT" =>
    (field order.lmtPrice).any fun lmt ↦
      if side = "BUY" then decide (price ≤ lmt) else decide (lmt ≤ price)
  | "STP" | "STP LMT" =>
    (field order.auxPrice).any fun aux ↦
      if side = "BUY" then decide (aux ≤ price) else decide (price ≤ aux)
  | _ => false

end InternalOrder

namespace MockBroker

def fresh (id : String) (cash : Decimal) (accountInfo : Option AccountInfoPatch) : MockBroker where
  id := id
  cash := cash
  accountOverride := accountInfo.map fun info ↦ info.over .zero

def getNativeKey (contract : BrokerContract) : String :=
  if contract.localSymbol = "" then contract.symbol else contract.localSymbol

variable (s : MockBroker)

def markPriceFor (contract : BrokerContract) : Option Decimal :=
  s.markPrices.lookup (getNativeKey contract)

/-- `_positions.set` -/
def putPosition (key : String) (pos : InternalPosition) : MockBroker :=
  { s with positions := setKey s.positions key pos }

/-- `_positions.delete` -/
def dropPosition (key : String) : MockBroker :=
  { s with positions := deleteKey s.positions key }

/-- `_orders.set` -/
def putOrder (orderId : String) (order : InternalOrder) : MockBroker :=
  { s with orders := setKey s.orders orderId order }

def settle (side : String) (cost : Decimal) : MockBroker :=
  { s with cash := R.round (if side = "BUY" then s.cash - cost else s.cash + cost) }

def label : String := "MockBroker[" ++ s.id ++ "]: "

/-! ## The account -/

def priceOf (pos : InternalPosition) : Option Decimal :=
  pos.marketPriceOverride.or ((s.markPriceFor pos.contract).or pos.avgCost)

/-- `derivePositionMath` of a position: its market value, which does not depend on what it cost, and
its unrealized gain. -/
def positionMath (pos : InternalPosition) : Option Decimal × Option Decimal :=
  let derived (price avgCost : Decimal) :=
    derivePositionMath R.round pos.quantity price avgCost
      (some (pos.contract.multiplier.getD 1)) pos.side
  match s.priceOf pos with
  | none => (none, none)
  | some price =>
    (some (derived price price).1, pos.avgCost.map fun avgCost ↦ (derived price avgCost).2)

def getAccount : AccountInfo :=
  match s.accountOverride with
  | some info => info
  | none =>
    let inputs := s.positions.mapM fun entry ↦
      (s.positionMath R entry.2).1.map fun marketValue ↦ (entry.2.side, marketValue)
    let gains := s.positions.mapM fun entry ↦ (s.positionMath R entry.2).2
    { baseCurrency := "USD"
      netLiquidation := inputs.map fun inputs ↦
        (aggregateAccountFromPositions R.round s.cash inputs).1
      totalCashValue := some s.cash
      unrealizedPnL := gains.map fun gains ↦ gains.foldl (fun total pnl ↦ R.round (total + pnl)) 0
      realizedPnL := some 0 }

/-! ## A fill -/

def applyFill (contract : BrokerContract) (side : String) (qty price : Decimal) :
    Except String MockBroker :=
  let key := getNativeKey contract
  match s.positions.lookup key with
  | none =>
    if side = "SELL" then
      .error (s.label ++ "cannot SELL " ++ toFixed qty ++ " " ++ key ++ " — no existing position")
    else
      .ok (s.putPosition key
        { contract := contract, side := .long, quantity := qty, avgCost := some price })
  | some existing =>
    if existing.Increasing side then
      .ok (s.putPosition key (existing.increase R qty price))
    else
      let remaining := R.round (existing.quantity - qty)
      if remaining < 0 then
        .error (s.label ++ "cannot " ++ side ++ " " ++ toFixed qty ++ " " ++ key ++ " — only " ++
          toFixed existing.quantity ++ " held")
      else if remaining = 0 then .ok (s.dropPosition key)
      else .ok (s.putPosition key { existing with quantity := remaining })

inductive Filled (contract : BrokerContract) (side : String) (qty price : Decimal) :
    MockBroker → Prop
  | opens (h : s.positions.lookup (getNativeKey contract) = none) (hside : side ≠ "SELL") :
      Filled contract side qty price (s.putPosition (getNativeKey contract)
        { contract := contract, side := .long, quantity := qty, avgCost := some price })
  | adds {pos : InternalPosition} (h : s.positions.lookup (getNativeKey contract) = some pos)
      (hinc : pos.Increasing side) :
      Filled contract side qty price
        (s.putPosition (getNativeKey contract) (pos.increase R qty price))
  | closes {pos : InternalPosition} (h : s.positions.lookup (getNativeKey contract) = some pos)
      (hred : ¬ pos.Increasing side) (hzero : R.round (pos.quantity - qty) = 0) :
      Filled contract side qty price (s.dropPosition (getNativeKey contract))
  | reduces {pos : InternalPosition} (h : s.positions.lookup (getNativeKey contract) = some pos)
      (hred : ¬ pos.Increasing side) (hpos : 0 < R.round (pos.quantity - qty)) :
      Filled contract side qty price (s.putPosition (getNativeKey contract)
        { pos with quantity := R.round (pos.quantity - qty) })

/-- **A fill that succeeds** opens a position, adds to one, closes it or reduces it. -/
theorem applyFill_ok {contract : BrokerContract} {side : String} {qty price : Decimal}
    {t : MockBroker} (h : s.applyFill R toFixed contract side qty price = .ok t) :
    s.Filled R contract side qty price t := by
  simp only [applyFill] at h
  split at h
  · next hnone =>
      split_ifs at h with hside
      · cases h
        exact .opens hnone hside
  rename_i pos hsome
  split_ifs at h with hinc hneg hzero
  · cases h
    exact .adds hsome hinc
  · cases h
    exact .closes hsome hinc hzero
  · cases h
    exact .reduces hsome hinc (lt_of_le_of_ne (not_lt.mp hneg) (Ne.symm hzero))

theorem Filled.frame {contract : BrokerContract} {side : String} {qty price : Decimal}
    {t : MockBroker} (h : s.Filled R contract side qty price t) :
    t = { s with positions := t.positions } := by
  cases h <;> rfl

def costOf (qty price multiplier : Decimal) : Decimal :=
  R.round (R.round (qty * price) * multiplier)

/-! ## Orders -/

def cloneOrder (order : BrokerOrder) : BrokerOrder where
  action := order.action
  orderType := order.orderType
  totalQuantity := order.totalQuantity
  tif := order.tif
  lmtPrice := order.lmtPrice
  auxPrice := order.auxPrice

def nextId : String := "mock-ord-" ++ toString s.nextOrderId

/-- `_nextOrderId++` -/
def takeId : MockBroker := { s with nextOrderId := s.nextOrderId + 1 }

def sizeOf (order : BrokerOrder) : Decimal :=
  if order.totalQuantity = unsetDecimal then 0 else order.totalQuantity

def marketPrice (contract : BrokerContract) : Decimal := (s.markPriceFor contract).getD 100

def placeOrder (contract : BrokerContract) (order : BrokerOrder) : MockBroker × PlaceOrderResult :=
  let orderId := s.nextId
  let side := js.toUpperCase order.action
  let qty := sizeOf order
  if order.orderType = "MKT" then
    let price := s.marketPrice contract
    match s.takeId.applyFill R toFixed contract side qty price with
    | .error e => (s.takeId, .refused e)
    | .ok filled =>
      ((filled.settle R side (costOf R qty price (multiplierOf contract))).putOrder orderId
          { contract := contract, order := cloneOrder order, status := "Filled"
            filledQuantity := some qty, avgFillPrice := some price },
        .accepted orderId "Filled")
  else
    (s.takeId.putOrder orderId
        { contract := contract, order := cloneOrder order, status := "Submitted" },
      .accepted orderId "Submitted")

section PlaceOrder

variable {s} {contract : BrokerContract} {order : BrokerOrder} {t : MockBroker} {e : String}

theorem placeOrder_of_ok (hmkt : order.orderType = "MKT")
    (h : s.takeId.applyFill R toFixed contract (js.toUpperCase order.action) (sizeOf order)
      (s.marketPrice contract) = .ok t) :
    s.placeOrder R js toFixed contract order = ((t.settle R (js.toUpperCase order.action)
          (costOf R (sizeOf order) (s.marketPrice contract) (multiplierOf contract))).putOrder
            s.nextId
          { contract := contract, order := cloneOrder order, status := "Filled"
            filledQuantity := some (sizeOf order), avgFillPrice := some (s.marketPrice contract) },
        .accepted s.nextId "Filled") := by
  simp only [placeOrder, if_pos hmkt, h]

theorem placeOrder_of_error (hmkt : order.orderType = "MKT")
    (h : s.takeId.applyFill R toFixed contract (js.toUpperCase order.action) (sizeOf order)
      (s.marketPrice contract) = .error e) :
    s.placeOrder R js toFixed contract order = (s.takeId, .refused e) := by
  simp only [placeOrder, if_pos hmkt, h]

theorem placeOrder_waiting (hmkt : order.orderType ≠ "MKT") :
    s.placeOrder R js toFixed contract order = (s.takeId.putOrder s.nextId
          { contract := contract, order := cloneOrder order, status := "Submitted" },
        .accepted s.nextId "Submitted") := by
  simp only [placeOrder, if_neg hmkt]

end PlaceOrder

def modified (order : BrokerOrder) (changes : OrderChanges) : BrokerOrder :=
  { order with
    totalQuantity := (changed changes.totalQuantity).getD order.totalQuantity
    lmtPrice := (changed changes.lmtPrice).getD order.lmtPrice
    auxPrice := (changed changes.auxPrice).getD order.auxPrice
    trailStopPrice := (changed changes.trailStopPrice).getD order.trailStopPrice
    trailingPercent := (changed changes.trailingPercent).getD order.trailingPercent
    orderType := (truthy changes.orderType).getD order.orderType
    tif := (truthy changes.tif).getD order.tif }

def pending (orderId : String) : Option InternalOrder :=
  (s.orders.lookup orderId).filter fun internal ↦ internal.status = "Submitted"

def notPending (orderId : String) : PlaceOrderResult :=
  .refused ("Order " ++ orderId ++ " not found or not pending")

def modifyOrder (orderId : String) (changes : OrderChanges) : MockBroker × PlaceOrderResult :=
  match s.pending orderId with
  | none => (s, notPending orderId)
  | some internal =>
    (s.putOrder orderId { internal with order := modified internal.order changes },
      .accepted orderId "Submitted")

def cancelOrder (orderId : String) : MockBroker × PlaceOrderResult :=
  match s.pending orderId with
  | none => (s, notPending orderId)
  | some internal =>
    (s.putOrder orderId { internal with status := "Cancelled" }, .accepted orderId "Cancelled")

def closingOrder (pos : InternalPosition) (quantity : Option Decimal) : BrokerOrder where
  action := pos.closingSide
  orderType := "MKT"
  totalQuantity := quantity.getD pos.quantity

def closePosition (contract : BrokerContract) (quantity : Option Decimal) :
    MockBroker × PlaceOrderResult :=
  match s.positions.lookup (getNativeKey contract) with
  | none => (s, .refused ("No open position for " ++ getNativeKey contract))
  | some pos => s.placeOrder R js toFixed pos.contract (closingOrder pos quantity)

/-! ## The control panel -/

def fillPriceOf (internal : InternalOrder) (price : Option Decimal) : Decimal :=
  price.getD ((s.markPriceFor internal.contract).getD ((field internal.order.lmtPrice).getD 100))

def fillOrder (orderId : String) (price qty : Option Decimal) : Except String MockBroker :=
  match s.pending orderId with
  | none => .error (s.label ++ "fillOrder — " ++ orderId ++ " not pending")
  | some internal =>
    let fillQty := qty.getD internal.order.totalQuantity
    if fillQty ≤ 0 then .error "fillOrder: qty must be positive"
    else if internal.order.totalQuantity < fillQty then
      .error "fillOrder: qty exceeds order totalQuantity"
    else
      let price := s.fillPriceOf internal price
      let side := js.toUpperCase internal.order.action
      match s.applyFill R toFixed internal.contract side fillQty price with
      | .error e => .error e
      | .ok filled =>
        .ok ((filled.settle R side
            (costOf R fillQty price (multiplierOf internal.contract))).putOrder orderId
          (internal.filled R fillQty price))

/-- **An order that is filled** waits, for no less than what is filled, and its fill succeeds. -/
theorem fillOrder_ok {orderId : String} {price qty : Option Decimal} {u : MockBroker}
    (h : s.fillOrder R js toFixed orderId price qty = .ok u) :
    ∃ internal t, s.pending orderId = some internal ∧ 0 < qty.getD internal.order.totalQuantity ∧
      qty.getD internal.order.totalQuantity ≤ internal.order.totalQuantity ∧
      s.applyFill R toFixed internal.contract (js.toUpperCase internal.order.action)
        (qty.getD internal.order.totalQuantity) (s.fillPriceOf internal price) = .ok t ∧
      u = (t.settle R (js.toUpperCase internal.order.action)
          (costOf R (qty.getD internal.order.totalQuantity) (s.fillPriceOf internal price)
            (multiplierOf internal.contract))).putOrder orderId
        (internal.filled R (qty.getD internal.order.totalQuantity)
          (s.fillPriceOf internal price)) := by
  simp only [fillOrder] at h
  split at h
  · cases h
  rename_i internal hpending
  split_ifs at h with hpos hle
  split at h
  · cases h
  rename_i t ht
  cases h
  exact ⟨internal, t, hpending, not_le.mp hpos, not_lt.mp hle, ht, rfl⟩

theorem fillOrder_of_ok {orderId : String} {price : Decimal} {internal : InternalOrder}
    {t : MockBroker} (hpending : s.pending orderId = some internal)
    (hpos : 0 < internal.order.totalQuantity)
    (h : s.applyFill R toFixed internal.contract (js.toUpperCase internal.order.action)
      internal.order.totalQuantity price = .ok t) :
    s.fillOrder R js toFixed orderId (some price) none =
      .ok ((t.settle R (js.toUpperCase internal.order.action)
          (costOf R internal.order.totalQuantity price
            (multiplierOf internal.contract))).putOrder orderId
        (internal.filled R internal.order.totalQuantity price)) := by
  simp only [fillOrder, hpending, Option.getD_none, fillPriceOf, Option.getD_some,
    if_neg (not_le.mpr hpos), if_neg (lt_irrefl internal.order.totalQuantity), h]

/-- An order that `_matchPendingOrders` fills: it waits, it is for the key, and it is triggered. -/
def Touched (nativeKey : String) (price : Decimal) (internal : InternalOrder) : Prop :=
  internal.status = "Submitted" ∧ getNativeKey internal.contract = nativeKey ∧
    internal.triggered js price = true

instance (nativeKey : String) (price : Decimal) (internal : InternalOrder) :
    Decidable (Touched js nativeKey price internal) :=
  inferInstanceAs (Decidable (_ ∧ _))

/-- The loop of `_matchPendingOrders` over the ids of the orders: what has been filled, or the error
that ends it, with the state that is left. -/
def matchOrders (nativeKey : String) (price : Decimal) :
    List String → MockBroker → List String → MockBroker × Except String (List String)
  | [], s, filled => (s, .ok filled)
  | orderId :: ids, s, filled =>
    match (s.orders.lookup orderId).filter fun o ↦ Touched js nativeKey price o with
    | none => matchOrders nativeKey price ids s filled
    | some _ =>
      match s.fillOrder R js toFixed orderId (some price) none with
      | .error e => (s, .error e)
      | .ok t => matchOrders nativeKey price ids t (filled ++ [orderId])

theorem matchOrders_invariant {I : MockBroker → Prop} {nativeKey : String} {price : Decimal}
    (hfill : ∀ s orderId u, I s → s.fillOrder R js toFixed orderId (some price) none = .ok u → I u)
    (ids : List String) {s : MockBroker} {filled : List String} (hs : I s) :
    I (matchOrders R js toFixed nativeKey price ids s filled).1 := by
  induction ids generalizing s filled with
  | nil => exact hs
  | cons orderId ids ih =>
    rw [matchOrders]
    split
    · exact ih hs
    · cases hu : s.fillOrder R js toFixed orderId (some price) none with
      | error e => exact hs
      | ok u => exact ih (hfill s orderId u hs hu)

/-- `_markPrices.set` -/
def putMark (nativeKey : String) (price : Decimal) : MockBroker :=
  { s with markPrices := setKey s.markPrices nativeKey price }

/-- `setMarkPrice`, with `_matchPendingOrders` -/
def setMarkPrice (nativeKey : String) (price : Decimal) :
    MockBroker × Except String (List String) :=
  matchOrders R js toFixed nativeKey price (s.orders.map Prod.fst) (s.putMark nativeKey price) []

/-- The price that `tickPrice` moves to. -/
def ticked (current deltaPercent : Decimal) : Decimal :=
  R.round (R.round (current * R.round (100 + deltaPercent)) / 100)

def tickPrice (nativeKey : String) (deltaPercent : Decimal) :
    MockBroker × Except String (List String) :=
  match s.markPrices.lookup nativeKey with
  | none =>
    (s, .error (s.label ++ "tickPrice — no markPrice for " ++ nativeKey ++
      "; call setMarkPrice first"))
  | some current => s.setMarkPrice R js toFixed nativeKey (ticked R current deltaPercent)

def cancelPendingOrder (orderId : String) : Except String MockBroker :=
  match s.orders.lookup orderId with
  | none => .error (s.label ++ "order " ++ orderId ++ " not found")
  | some internal => .ok (s.putOrder orderId { internal with status := "Cancelled" })

/-- `text || otherwise` -/
def orElseText (text otherwise : String) : String := if text = "" then otherwise else text

/-- `_buildContract`, where an empty field of the partial contract is an absent one. -/
def contractOf (nativeKey : String) (part : BrokerContract) : Except String BrokerContract :=
  buildContract
    { symbol := orElseText part.symbol nativeKey
      secType := orElseText part.secType "CRYPTO"
      exchange := orElseText part.exchange "MOCK"
      currency := orElseText part.currency "USD"
      lastTradeDateOrContractMonth := part.lastTradeDateOrContractMonth
      strike := part.strike
      right := if part.right ∈ ["C", "P", "CALL", "PUT"] then part.right else ""
      multiplier := part.multiplier }
    (some (orElseText part.localSymbol nativeKey))

def tagWallet (key : String) : MockBroker :=
  { s with
    positions := changeKey s.positions key fun pos ↦ { pos with avgCostSource := some .wallet } }

def externalDeposit (nativeKey : String) (qty : Decimal) (part : BrokerContract) :
    Except String MockBroker :=
  if qty ≤ 0 then .error "externalDeposit: quantity must be positive"
  else
    match s.positions.lookup nativeKey with
    | some existing =>
      .ok (s.putPosition nativeKey
        { existing with
          quantity := R.round (existing.quantity + qty), avgCostSource := some .wallet })
    | none =>
      (contractOf nativeKey part).map fun contract ↦
        s.putPosition nativeKey
          { contract := contract, side := .long, quantity := qty
            avgCost := some ((s.markPrices.lookup nativeKey).getD 0)
            avgCostSource := some .wallet }

def externalWithdraw (nativeKey : String) (qty : Decimal) : Except String MockBroker :=
  match s.positions.lookup nativeKey with
  | none => .error (s.label ++ "no position at " ++ nativeKey)
  | some existing =>
    let quantity := R.round (existing.quantity - qty)
    if quantity ≤ 0 then .ok (s.dropPosition nativeKey)
    else
      .ok (s.putPosition nativeKey
        { existing with quantity := quantity, avgCostSource := some .wallet })

def multiplierAt (nativeKey : String) : Decimal :=
  ((s.positions.lookup nativeKey).map fun pos ↦ multiplierOf pos.contract).getD 1

/-- What `externalTrade` does to the positions. -/
def tradePosition (nativeKey : String) (side : OrderAction) (qty price : Decimal)
    (part : BrokerContract) : Except String MockBroker :=
  match s.positions.lookup nativeKey with
  | none =>
    (contractOf nativeKey part).map fun contract ↦
      s.putPosition nativeKey
        { contract := contract, side := if side = .BUY then .long else .short, quantity := qty
          avgCost := some price, avgCostSource := some .wallet }
  | some existing =>
    (s.applyFill R toFixed existing.contract side.toText qty price).map fun t ↦
      t.tagWallet nativeKey

def externalTrade (nativeKey : String) (side : OrderAction) (qty price : Decimal)
    (part : BrokerContract) : Except String MockBroker :=
  if qty ≤ 0 then .error "externalTrade: quantity must be positive"
  else
    (s.tradePosition R toFixed nativeKey side qty price part).map fun t ↦
      t.settle R side.toText (costOf R qty price (t.multiplierAt nativeKey))

theorem externalTrade_ok {nativeKey : String} {side : OrderAction} {qty price : Decimal}
    {part : BrokerContract} {u : MockBroker}
    (h : s.externalTrade R toFixed nativeKey side qty price part = .ok u) :
    ∃ t, 0 < qty ∧ s.tradePosition R toFixed nativeKey side qty price part = .ok t ∧
      u = t.settle R side.toText (costOf R qty price (t.multiplierAt nativeKey)) := by
  rw [externalTrade] at h
  split_ifs at h with hpos
  cases ht : s.tradePosition R toFixed nativeKey side qty price part with
  | error e =>
    rw [ht] at h
    cases h
  | ok t =>
    rw [ht] at h
    cases h
    exact ⟨t, not_le.mp hpos, rfl, rfl⟩

/-! ## Legacy helpers -/

def setPositions (positions : List BuiltPosition) : MockBroker :=
  { s with
    positions := positions.foldl (fun entries p ↦
      setKey entries
        (orElseText (getNativeKey p.contract) (orElseText (p.contract.aliceId.getD "") "unknown"))
        { contract := p.contract, side := p.side, quantity := p.quantity, avgCost := some p.avgCost
          avgCostSource := p.avgCostSource, marketPriceOverride := some p.marketPrice }) [] }

/-- An order as `setOrders` is given it; its id is zero where it has none. -/
structure InjectedOrder where
  orderId : Int
  contract : BrokerContract
  order : BrokerOrder
  status : String

/-- An order of `setOrders`. -/
def inject (o : InjectedOrder) : MockBroker :=
  let internal : InternalOrder := { contract := o.contract, order := o.order, status := o.status }
  if o.orderId = 0 then s.takeId.putOrder ("injected-" ++ toString s.nextOrderId) internal
  else s.putOrder (toString o.orderId) internal

def setOrders (orders : List InjectedOrder) : MockBroker :=
  orders.foldl inject { s with orders := [] }

def setAccountInfo (info : AccountInfoPatch) : MockBroker :=
  let base := info.over (s.accountOverride.getD .zero)
  { s with
    accountOverride := some { base with baseCurrency := orElseText base.baseCurrency "USD" } }

/-! ## Calls -/

inductive Call where
  | placeOrder (contract : BrokerContract) (order : BrokerOrder)
  | modifyOrder (orderId : String) (changes : OrderChanges)
  | cancelOrder (orderId : String)
  | closePosition (contract : BrokerContract) (quantity : Option Decimal)
  | setMarkPrice (nativeKey : String) (price : Decimal)
  | tickPrice (nativeKey : String) (deltaPercent : Decimal)
  | fillOrder (orderId : String) (price qty : Option Decimal)
  | cancelPendingOrder (orderId : String)
  | externalDeposit (nativeKey : String) (qty : Decimal) (contract : BrokerContract)
  | externalWithdraw (nativeKey : String) (qty : Decimal)
  | externalTrade (nativeKey : String) (side : OrderAction) (qty price : Decimal)
      (contract : BrokerContract)
  | setPositions (positions : List BuiltPosition)
  | setOrders (orders : List InjectedOrder)
  | setAccountInfo (info : AccountInfoPatch)

/-- The state where a method throws before it has changed anything. -/
def unlessThrown (outcome : Except String MockBroker) : MockBroker :=
  outcome.toOption.getD s

theorem unlessThrown_of {I : MockBroker → Prop} {outcome : Except String MockBroker} (hs : I s)
    (h : ∀ t, outcome = .ok t → I t) : I (s.unlessThrown outcome) := by
  cases outcome with
  | error e => exact hs
  | ok t => exact h t rfl

def step : Call → MockBroker
  | .placeOrder contract order => (s.placeOrder R js toFixed contract order).1
  | .modifyOrder orderId changes => (s.modifyOrder orderId changes).1
  | .cancelOrder orderId => (s.cancelOrder orderId).1
  | .closePosition contract quantity => (s.closePosition R js toFixed contract quantity).1
  | .setMarkPrice nativeKey price => (s.setMarkPrice R js toFixed nativeKey price).1
  | .tickPrice nativeKey deltaPercent => (s.tickPrice R js toFixed nativeKey deltaPercent).1
  | .fillOrder orderId price qty => s.unlessThrown (s.fillOrder R js toFixed orderId price qty)
  | .cancelPendingOrder orderId => s.unlessThrown (s.cancelPendingOrder orderId)
  | .externalDeposit nativeKey qty contract =>
    s.unlessThrown (s.externalDeposit R nativeKey qty contract)
  | .externalWithdraw nativeKey qty => s.unlessThrown (s.externalWithdraw R nativeKey qty)
  | .externalTrade nativeKey side qty price contract =>
    s.unlessThrown (s.externalTrade R toFixed nativeKey side qty price contract)
  | .setPositions positions => s.setPositions positions
  | .setOrders orders => s.setOrders orders
  | .setAccountInfo info => s.setAccountInfo info

end MockBroker

end OpenAlice.Trading.Brokers
