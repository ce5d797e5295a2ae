import OpenAlice.Trading.Brokers.Types
import Mathlib.Data.List.Nodup

/-!
# The CCXT adapter

`brokers/ccxt/CcxtBroker.ts` and `ccxt-contracts.ts`: any exchange that ccxt speaks
to, with instruments under ccxt's unified symbol, which is the native key and the
key of the table of markets.

Three things the adapter reads are given to it here: the exchange's table of
markets, the answers of its reads (`fetchTicker`, `fetchOrder`, `fetchPositions`)
and the spot holdings of the wallets.  A read that throws is a refusal.
-/

namespace OpenAlice.Trading.Brokers.Ccxt

variable (js : Js)

/-! ## Markets -/

inductive OptionType where
  | call
  | put

/-- `CcxtMarket`, with the fields of derivative markets that `marketToContract` reads.  A
missing `base` or `quote` is the empty text. -/
structure CcxtMarket where
  symbol : String
  base : String
  quote : String
  type : String
  active : Option Bool := none
  expiry : Option Nat := none
  contractSize : Option Decimal := none
  strike : Option ℚ := none
  optionType : Option OptionType := none

structure Exchange where
  exchangeName : String
  /-- `Object.values(markets)`, in the table's order. -/
  markets : List CcxtMarket
  keyed : (markets.map (·.symbol)).Nodup
  /-- No unified symbol is empty. -/
  named : ∀ m ∈ markets, m.symbol ≠ ""
  fetchTicker : String → Except String (Option Decimal)
  /-- Whether the exchange has an override `placeOrderWithTpSl`. -/
  attachOverride : Bool := false

/-- `markets[symbol]` -/
def Exchange.market (e : Exchange) (symbol : String) : Option CcxtMarket :=
  e.markets.find? fun m ↦ m.symbol = symbol

def Exchange.last (e : Exchange) (symbol : String) : Option Decimal :=
  match e.fetchTicker symbol with
  | .ok last => last
  | .error _ => none

def sampleExchange : Exchange where
  exchangeName := "okx"
  markets := [{ symbol := "BTC/USDT", base := "BTC", quote := "USDT", type := "spot" }]
  keyed := by decide
  named := by decide
  fetchTicker _ := .ok none

variable (e : Exchange)

/-! ## Contracts -/

def ccxtTypeToSecType (type : String) : String :=
  match type with
  | "spot" => "CRYPTO"
  | "swap" => "CRYPTO_PERP"
  | "future" => "FUT"
  | "option" => "OPT"
  | _ => "CRYPTO"

/-- The UTC date of a time as `YYYYMMDD`. -/
def utcDate (ms : Nat) : String :=
  -- days since 1 March of the year 0, in eras of 400 years
  let z := ms / 86400000 + 719468
  let era := z / 146097
  let doe := z % 146097
  let yoe := (doe - doe / 1460 + doe / 36524 - doe / 146096) / 365
  let doy := doe - (365 * yoe + yoe / 4 - yoe / 100)
  let mp := (5 * doy + 2) / 153
  let day := doy - (153 * mp + 2) / 5 + 1
  let month := if mp < 10 then mp + 3 else mp - 9
  let year := yoe + era * 400 + if month ≤ 2 then 1 else 0
  let padStart2 (n : Nat) : String := if n < 10 then "0" ++ toString n else toString n
  toString year ++ padStart2 month ++ padStart2 day

def marketToContract (market : CcxtMarket) (exchangeName : String) :
    Except String BrokerContract :=
  let secType := ccxtTypeToSecType market.type
  let dated := secType = "FUT" ∨ secType = "OPT"
  buildContract
    { symbol := market.base
      secType := secType
      exchange := exchangeName
      currency := market.quote
      lastTradeDateOrContractMonth :=
        match market.expiry with
        | some ms => if dated ∧ ms ≠ 0 then utcDate ms else ""
        | none => ""
      multiplier := if dated then some (market.contractSize.getD 1) else none
      strike := if secType = "OPT" then market.strike else none
      right :=
        match market.optionType with
        | some .call => if secType = "OPT" then "C" else ""
        | some .put => if secType = "OPT" then "P" else ""
        | none => "" }
    (some market.symbol)

def resolveContractSync (query : BrokerContract) (markets : List CcxtMarket) : List String :=
  if query.symbol = "" then []
  else
    (markets.filter fun m ↦
      m.active ≠ some false ∧ m.base ≠ "" ∧ m.quote ≠ "" ∧
        js.toUpperCase m.base = js.toUpperCase query.symbol ∧
        (query.secType ≠ "" → ccxtTypeToSecType m.type = query.secType) ∧
        (if query.currency ≠ "" then
          js.toUpperCase m.quote = js.toUpperCase query.currency
        else js.toUpperCase m.quote ∈ ["USDT", "USD", "USDC"])).map (·.symbol)

/-- The local symbol, the symbol as a table key, or the only market of
that base. -/
def contractToCcxt (contract : BrokerContract) : Option String :=
  if contract.localSymbol ≠ "" ∧ (e.market contract.localSymbol).isSome then
    some contract.localSymbol
  else if contract.symbol ≠ "" ∧ (e.market contract.symbol).isSome then some contract.symbol
  else
    match resolveContractSync js contract e.markets with
    | [symbol] => some symbol
    | _ => none

def resolveNativeKey (nativeKey : String) : Except String BrokerContract :=
  match e.market nativeKey with
  | some market => marketToContract market e.exchangeName
  | none =>
    .ok { localSymbol := nativeKey
          symbol := ((splitFirst '/' nativeKey).map (·.1)).getD nativeKey }

def getNativeKey (contract : BrokerContract) : String :=
  if contract.localSymbol ≠ "" then contract.localSymbol else contract.symbol

/-! ## Requests -/

def ibkrOrderTypeToCcxt (orderType : String) : String :=
  match orderType with
  | "MKT" => "market"
  | "LMT" => "limit"
  | _ => js.toLowerCase orderType

/-- The parameters of a new order beside its positional arguments. -/
structure Params where
  triggerPrice : Option Decimal := none
  takeProfit : Option Decimal := none
  stopLoss : Option (Decimal × Option Decimal) := none
  reduceOnly : Bool := false

/-- The arguments the order call is made with: `createOrder`, or the exchange's override
of it. -/
structure NewOrder where
  symbol : String
  type : String
  side : String
  amount : Decimal
  price : Option Decimal
  params : Params

/-- The arguments of `editOrder`. -/
structure EditOrder where
  orderId : String
  symbol : String
  type : String
  side : Option String
  amount : Option Decimal
  price : Option Decimal
  stopPrice : Option Decimal
  trailStopPrice : Option Decimal
  trailingPercent : Option Decimal
  timeInForce : Option String

/-! ## Placing an order -/

def referencePrice (order : BrokerOrder) (last : Option Decimal) : Option Decimal :=
  match field order.lmtPrice with
  | some p => some p
  | none => last

def orderSize (symbol : String) (order : BrokerOrder) : Except String Decimal :=
  match field order.totalQuantity with
  | some q => .ok q
  | none =>
    match field order.cashQty with
    | none => .error "Either totalQuantity or cashQty must be provided"
    | some cash =>
      if cash ≤ 0 then .error "Either totalQuantity or cashQty must be provided"
      else do
        let last ← e.fetchTicker symbol
        match referencePrice order last with
        | none => .error "Cannot determine price for notional conversion"
        | some price =>
          if price = 0 then .error "Cannot determine price for notional conversion"
          else .ok (cash / price)

def orderTypeAndTrigger (order : BrokerOrder) : Except String (String × Option Decimal) :=
  if order.orderType = "STP" ∨ order.orderType = "STP LMT" then
    match field order.auxPrice with
    | none => .error (order.orderType ++ " requires auxPrice (the stop trigger price).")
    | some aux => .ok (if order.orderType = "STP" then "market" else "limit", some aux)
  else if order.orderType = "TRAIL" ∨ order.orderType = "TRAIL LIMIT" then
    .error (order.orderType ++ " is not verified to reach " ++ e.exchangeName ++ " through ccxt — " ++
      "refusing rather than risking a silently mis-typed order. Use STP / STP LMT, or manage " ++
      "the trail manually.")
  else .ok (ibkrOrderTypeToCcxt js order.orderType, none)

/-- The gate on attached exits: refused unless the exchange has a verified override. -/
def assertAttachable (tpsl : Option TpSlParams) : Except String Unit :=
  if ((tpsl.bind (·.takeProfit)).isSome || (tpsl.bind (·.stopLoss)).isSome) &&
      !e.attachOverride then
    .error ("Attached TP/SL is not verified to reach " ++ e.exchangeName ++ " through ccxt — " ++
      "refusing rather than risking a silently unprotected position. Place the entry first, then " ++
      "a separate stop/take-profit order, or use a venue with verified attach support.")
  else .ok ()

/-- `placeOrder`; `reduceOnly` is what `closePosition` puts in its extra parameters. -/
def placeOrder (contract : BrokerContract) (order : BrokerOrder) (tpsl : Option TpSlParams)
    (reduceOnly : Bool) : Except String NewOrder :=
  match contractToCcxt js e contract with
  | none => .error "Cannot resolve contract to CCXT symbol"
  | some symbol => do
      let size ← orderSize e symbol order
      assertAttachable e tpsl
      let (type, trigger) ← orderTypeAndTrigger js e order
      return {
        symbol := symbol
        type := type
        side := js.toLowerCase order.action
        amount := js.toNumber size
        price := if type = "limit" then (field order.lmtPrice).map js.toNumber else none
        params := {
          triggerPrice := trigger.map js.toNumber
          takeProfit := (tpsl.bind (·.takeProfit)).map js.toNumber
          stopLoss := (tpsl.bind (·.stopLoss)).map fun l ↦
            (js.toNumber l.1, l.2.map js.toNumber)
          reduceOnly := reduceOnly } }

/-! ## Modifying an order -/

structure CcxtOrder where
  id : String
  symbol : String
  side : Option String := none
  type : Option String := none
  amount : Option Decimal := none
  price : Option Decimal := none
  filled : Option Decimal := none
  average : Option Decimal := none
  status : Option String := none
  takeProfitPrice : Option Decimal := none
  stopLossPrice : Option Decimal := none
deriving DecidableEq

/-- `modifyOrder`, given the cache of the orders' symbols and the fetch of an order. -/
def modifyOrder (orderSymbolCache : String → Option String)
    (fetchOrder : String → String → Except String CcxtOrder) (orderId : String)
    (changes : OrderChanges) : Except String EditOrder :=
  match orderSymbolCache orderId with
  | none => .error ("Unknown order " ++ orderId ++ " — cannot resolve symbol for edit")
  | some symbol => do
      let original ← fetchOrder orderId symbol
      return {
        orderId := orderId
        symbol := symbol
        type :=
          match truthy changes.orderType with
          | some t => ibkrOrderTypeToCcxt js t
          | none => original.type.getD "market"
        side := original.side
        amount :=
          match changed changes.totalQuantity with
          | some q => some (js.toNumber q)
          | none => original.amount
        price :=
          match changed changes.lmtPrice with
          | some p => some (js.toNumber p)
          | none => original.price
        stopPrice := (changed changes.auxPrice).map js.toNumber
        trailStopPrice := (changed changes.trailStopPrice).map js.toNumber
        trailingPercent := (changed changes.trailingPercent).map js.toNumber
        timeInForce := (truthy changes.tif).map js.toLowerCase }

/-! ## Positions and fills -/

structure CcxtRawPosition where
  symbol : String
  side : String
  contracts : Option Decimal := none
  contractSize : Option Decimal := none

/-- The quantity `getPositions` reports of a raw position, in base units. -/
def CcxtRawPosition.quantity (p : CcxtRawPosition) : Decimal :=
  |p.contracts.getD 0| * p.contractSize.getD 1

/-- `getPositions` on one raw position: nothing for an unlisted market or a flat position. -/
def reportPosition (p : CcxtRawPosition) : Except String (Option BrokerPosition) :=
  match e.market p.symbol with
  | none => .ok none
  | some market =>
    if p.quantity = 0 then .ok none
    else do
      let contract ← marketToContract market e.exchangeName
      return some
        { contract := contract
          side := if p.side = "long" then .long else .short
          quantity := p.quantity }

def getPositions (raw : List CcxtRawPosition) (spotHoldings : List BrokerPosition) :
    Except String (List BrokerPosition) := do
  let reported ← raw.mapM (reportPosition e)
  return reported.reduceOption ++ spotHoldings

def mapOrderStatus (status : Option String) : String :=
  match status with
  | some "closed" => "Filled"
  | some "open" => "Submitted"
  | some "canceled" | some "cancelled" => "Cancelled"
  | some "expired" | some "rejected" => "Inactive"
  | _ => "Submitted"

structure ReportedOrder where
  contract : BrokerContract
  order : BrokerOrder
  status : String
  orderId : Option String
  avgFillPrice : Option Decimal
  tpsl : Option TpSlParams

def convertCcxtOrder (o : CcxtOrder) : Except String (Option ReportedOrder) :=
  match e.market o.symbol with
  | none => .ok none
  | some market => do
      let contract ← marketToContract market e.exchangeName
      return some
        { contract := contract
          order :=
            { action := js.toUpperCase (o.side.getD "buy")
              totalQuantity := o.amount.getD 0
              orderType := js.toUpperCase (o.type.getD "market")
              lmtPrice := o.price.getD unsetDecimal
              filledQuantity := o.filled.getD unsetDecimal }
          status := mapOrderStatus o.status
          orderId := truthy (some o.id)
          avgFillPrice := o.average
          tpsl :=
            if o.takeProfitPrice.isSome || o.stopLossPrice.isSome then
              some { takeProfit := o.takeProfitPrice, stopLoss := o.stopLossPrice.map (·, none) }
            else none }

def getOrder (orderSymbolCache : String → Option String)
    (fetchOrder : String → String → Except String CcxtOrder) (orderId : String)
    (symbolHint : Option String) : Option ReportedOrder :=
  match (orderSymbolCache orderId).or symbolHint with
  | none => none
  | some symbol =>
    if symbol = "" then none
    else
      match fetchOrder orderId symbol with
      | .error _ => none
      | .ok order =>
        match convertCcxtOrder js e order with
        | .error _ => none
        | .ok reported => reported

/-! ## Closing a position -/

/-- The position `closePosition` takes for a contract's: the first with the same wire
symbol, or with the same symbol and security type. -/
def positionFor (positions : List BrokerPosition) (contract : BrokerContract) :
    Option BrokerPosition :=
  positions.find? fun p ↦
    ((contractToCcxt js e contract).isSome ∧
      contractToCcxt js e p.contract = contractToCcxt js e contract) ∨
    (js.toUpperCase contract.symbol ≠ "" ∧
      p.contract.symbol = js.toUpperCase contract.symbol ∧
      p.contract.secType = contract.secType)

def closePosition (positions : List BrokerPosition) (contract : BrokerContract)
    (quantity : Option Decimal) : Except String NewOrder :=
  match positionFor js e positions contract with
  | none =>
    .error ("No open position for " ++
      (contractToCcxt js e contract).getD (js.toUpperCase contract.symbol))
  | some pos =>
    placeOrder js e pos.contract
      { action := pos.closingAction
        orderType := "MKT"
        totalQuantity := quantity.getD pos.quantity }
      none
      -- a reduce-only order is a notion of derivatives
      (pos.contract.secType = "CRYPTO_PERP" ∨ pos.contract.secType = "FUT")

def broker : Adapter NewOrder where
  getNativeKey := getNativeKey
  resolveNativeKey := resolveNativeKey e
  placeOrder contract order tpsl := placeOrder js e contract order tpsl false
  closePosition := closePosition js e

/-! ## What leaves for the venue -/

variable {js e}

variable {symbol : String}

theorem market_eq_some {m : CcxtMarket} (h : e.market symbol = some m) :
    m ∈ e.markets ∧ m.symbol = symbol :=
  ⟨List.mem_of_find?_eq_some h, of_decide_eq_true (List.find?_some h :)⟩

theorem market_of_mem {m : CcxtMarket} (h : m ∈ e.markets) : e.market m.symbol = some m := by
  cases hf : e.market m.symbol with
  | none =>
    have hno := List.find?_eq_none.mp hf m h
    simp at hno
  | some found =>
    obtain ⟨hmem, hsymbol⟩ := market_eq_some hf
    rw [List.inj_on_of_nodup_map e.keyed hmem h hsymbol]

variable {c : BrokerContract}

theorem marketToContract_ok {m : CcxtMarket} {exchangeName : String}
    (h : marketToContract m exchangeName = .ok c) :
    c.symbol = m.base ∧ c.symbol ≠ "" ∧ c.localSymbol = m.symbol := by
  obtain ⟨rfl, hne⟩ := buildContract_ok h
  exact ⟨rfl, hne, rfl⟩

theorem contractToCcxt_listed
    (h : contractToCcxt js e c = some symbol) : ∃ m ∈ e.markets, m.symbol = symbol := by
  rw [contractToCcxt] at h
  split at h
  · next hlocal =>
      cases h
      obtain ⟨m, hm⟩ := Option.isSome_iff_exists.mp hlocal.2
      exact ⟨m, market_eq_some hm⟩
  split at h
  · next hsymbol =>
      cases h
      obtain ⟨m, hm⟩ := Option.isSome_iff_exists.mp hsymbol.2
      exact ⟨m, market_eq_some hm⟩
  split at h
  · next only honly =>
      cases h
      have hmem : symbol ∈ resolveContractSync js c e.markets := by
        rw [honly]
        exact List.mem_singleton_self _
      rw [resolveContractSync] at hmem
      split at hmem
      · exact nomatch hmem
      · obtain ⟨m, hm, rfl⟩ := List.mem_map.mp hmem
        exact ⟨m, (List.mem_filter.mp hm).1, rfl⟩
  · exact nomatch h

theorem contractToCcxt_symbol (hlocal : e.market c.localSymbol = none)
    (h : contractToCcxt js e c = some symbol) : c.symbol ≠ "" := by
  intro hempty
  rw [contractToCcxt, hlocal, hempty] at h
  simp [resolveContractSync, hempty] at h

theorem orderSize_ok {o : BrokerOrder} {size : Decimal} (h : orderSize e symbol o = .ok size) :
    field o.totalQuantity = some size ∨
      ∃ cash price, field o.totalQuantity = none ∧ field o.cashQty = some cash ∧
        referencePrice o (e.last symbol) = some price ∧ price ≠ 0 ∧ size = cash / price := by
  unfold orderSize at h
  split at h
  · next q hq =>
      cases h
      exact .inl hq
  rename_i hq
  split at h
  · exact nomatch h
  rename_i cash hcash
  split at h
  · exact nomatch h
  obtain ⟨last, hlast, h⟩ := Data.bind_ok h
  split at h
  · exact nomatch h
  rename_i price hprice
  split at h
  · exact nomatch h
  rename_i hzero
  cases h
  refine .inr ⟨cash, price, hq, hcash, ?_, hzero, rfl⟩
  rw [Exchange.last, hlast]
  exact hprice

theorem placeOrder_ok {o : BrokerOrder} {t : Option TpSlParams}
    {reduceOnly : Bool} {r : NewOrder} (h : placeOrder js e c o t reduceOnly = .ok r) :
    ∃ size type trigger, contractToCcxt js e c = some r.symbol ∧
      orderSize e r.symbol o = .ok size ∧ assertAttachable e t = .ok () ∧
      orderTypeAndTrigger js e o = .ok (type, trigger) ∧ r.type = type ∧
      r.side = js.toLowerCase o.action ∧ r.amount = js.toNumber size ∧
      r.price = (if type = "limit" then (field o.lmtPrice).map js.toNumber else none) ∧
      r.params =
        { triggerPrice := trigger.map js.toNumber
          takeProfit := (t.bind (·.takeProfit)).map js.toNumber
          stopLoss := (t.bind (·.stopLoss)).map fun l ↦ (js.toNumber l.1, l.2.map js.toNumber)
          reduceOnly := reduceOnly } := by
  rw [placeOrder] at h
  split at h
  · exact nomatch h
  rename_i symbol hs
  obtain ⟨size, hsize, h⟩ := Data.bind_ok h
  obtain ⟨⟨⟩, hattach, h⟩ := Data.bind_ok h
  obtain ⟨⟨type, trigger⟩, htype, h⟩ := Data.bind_ok h
  cases h
  exact ⟨size, type, trigger, hs, hsize, hattach, htype, rfl, rfl, rfl, rfl, rfl⟩

theorem modifyOrder_ok {orderSymbolCache : String → Option String}
    {fetchOrder : String → String → Except String CcxtOrder} {orderId : String}
    {changes : OrderChanges} {r : EditOrder}
    (h : modifyOrder js orderSymbolCache fetchOrder orderId changes = .ok r) :
    (∀ v, changed changes.totalQuantity = some v → r.amount = some (js.toNumber v)) ∧
      (∀ v, changed changes.lmtPrice = some v → r.price = some (js.toNumber v)) ∧
      (∀ w, truthy changes.orderType = some w → r.type = ibkrOrderTypeToCcxt js w) ∧
      r.stopPrice = (changed changes.auxPrice).map js.toNumber ∧
      r.trailStopPrice = (changed changes.trailStopPrice).map js.toNumber ∧
      r.trailingPercent = (changed changes.trailingPercent).map js.toNumber ∧
      r.timeInForce = (truthy changes.tif).map js.toLowerCase := by
  rw [modifyOrder] at h
  split at h
  · exact nomatch h
  obtain ⟨original, -, h⟩ := Data.bind_ok h
  cases h
  refine ⟨?_, ?_, ?_, rfl, rfl, rfl, rfl⟩
  · intro v hv
    simp only [hv]
  · intro v hv
    simp only [hv]
  · intro w hw
    simp only [hw]

theorem closePosition_ok {ps : List BrokerPosition} {q : Option Decimal}
    {r : NewOrder} (h : closePosition js e ps c q = .ok r) :
    ∃ pos, positionFor js e ps c = some pos ∧ placeOrder js e pos.contract
        { action := pos.closingAction
          orderType := "MKT"
          totalQuantity := q.getD pos.quantity }
        none (pos.contract.secType = "CRYPTO_PERP" ∨ pos.contract.secType = "FUT") = .ok r := by
  rw [closePosition] at h
  split at h
  · exact nomatch h
  · next pos hpos => exact ⟨pos, hpos, h⟩

end OpenAlice.Trading.Brokers.Ccxt
