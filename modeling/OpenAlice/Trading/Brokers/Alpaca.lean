import OpenAlice.Trading.Brokers.Types

/-!
# The Alpaca adapter

`brokers/alpaca/AlpacaBroker.ts` and `alpaca-contracts.ts`: US stocks under their
ticker, which is also the native key.
-/

namespace OpenAlice.Trading.Brokers.Alpaca

variable (js : Js)

/-! ## Contracts -/

def makeContract (ticker : String) : Except String BrokerContract :=
  buildContract
    { symbol := ticker, secType := "STK", exchange := "SMART", currency := "USD" } none

def resolveSymbol (contract : BrokerContract) : Option String :=
  if contract.symbol = "" then none
  else if contract.secType ≠ "" ∧ contract.secType ≠ "STK" then none
  else some (js.toUpperCase contract.symbol)

/-! ## Requests -/

def ibkrOrderTypeToAlpaca (orderType : String) : String :=
  match orderType with
  | "MKT" => "market"
  | "LMT" => "limit"
  | "STP" => "stop"
  | "STP LMT" => "stop_limit"
  | "TRAIL" => "trailing_stop"
  | _ => js.toLowerCase orderType

def ibkrTifToAlpaca (tif : String) : String :=
  match tif with
  | "DAY" => "day"
  | "GTC" => "gtc"
  | "IOC" => "ioc"
  | "FOK" => "fok"
  | "OPG" => "opg"
  | _ => (truthy (some (js.toLowerCase tif))).getD "day"

inductive OrderClass where
  | bracket
  | oto

/-- The body of `createOrder`. -/
structure NewOrder where
  symbol : String
  side : String
  type : String
  timeInForce : String
  qty : Option Decimal
  notional : Option Decimal
  limitPrice : Option Decimal
  trailPrice : Option Decimal
  stopPrice : Option Decimal
  trailPercent : Option Decimal
  extendedHours : Bool
  orderClass : Option OrderClass
  takeProfit : Option Decimal
  stopLoss : Option (Decimal × Option Decimal)

/-- The body of `replaceOrder`. -/
structure Patch where
  qty : Option Decimal
  limitPrice : Option Decimal
  stopPrice : Option Decimal
  trail : Option Decimal
  timeInForce : Option String

/-- The calls of the client that send an order out. -/
inductive Request where
  | createOrder (order : NewOrder)
  | replaceOrder (orderId : String) (patch : Patch)
  | closePosition (symbol : String)

/-! ## Trading operations -/

/-- The order class of the exit legs: two legs are a bracket, one leg is an `oto`. -/
def orderClass (tpsl : Option TpSlParams) : Option OrderClass :=
  match tpsl.bind (·.takeProfit), tpsl.bind (·.stopLoss) with
  | some _, some _ => some .bracket
  | some _, none | none, some _ => some .oto
  | none, none => none

/-- The body `placeOrder` builds for a resolved symbol. -/
def newOrder (symbol : String) (order : BrokerOrder) (tpsl : Option TpSlParams) : NewOrder where
  symbol := symbol
  side := js.toLowerCase order.action
  type := ibkrOrderTypeToAlpaca js order.orderType
  timeInForce := ibkrTifToAlpaca js order.tif
  qty := field order.totalQuantity
  -- the notional is read only when there is no quantity
  notional := if field order.totalQuantity = none then field order.cashQty else none
  limitPrice := field order.lmtPrice
  trailPrice := if order.orderType = "TRAIL" then field order.auxPrice else none
  stopPrice := if order.orderType = "TRAIL" then none else field order.auxPrice
  trailPercent := field order.trailingPercent
  extendedHours := order.outsideRth
  orderClass := orderClass tpsl
  takeProfit := (tpsl.bind (·.takeProfit)).map js.toNumber
  stopLoss := (tpsl.bind (·.stopLoss)).map fun l ↦ (js.toNumber l.1, l.2.map js.toNumber)

def placeOrder (contract : BrokerContract) (order : BrokerOrder) (tpsl : Option TpSlParams) :
    Except String Request :=
  match resolveSymbol js contract with
  | none => .error "Cannot resolve contract to Alpaca symbol"
  | some symbol => .ok (.createOrder (newOrder js symbol order tpsl))

def modifyOrder (orderId : String) (changes : OrderChanges) : Except String Request :=
  .ok (.replaceOrder orderId
    { qty := changed changes.totalQuantity
      limitPrice := changed changes.lmtPrice
      stopPrice := changed changes.auxPrice
      trail := changed changes.trailingPercent
      timeInForce := (truthy changes.tif).map (ibkrTifToAlpaca js) })

/-- A partial close is a reverse market order, a full one Alpaca's own. -/
def closePosition (positions : List BrokerPosition) (contract : BrokerContract)
    (quantity : Option Decimal) : Except String Request :=
  match resolveSymbol js contract with
  | none => .error "Cannot resolve contract to Alpaca symbol"
  | some symbol =>
    match quantity with
    | none => .ok (.closePosition symbol)
    | some q =>
      match positions.find? fun p ↦ p.contract.symbol = symbol with
      | none => .error ("No position for " ++ symbol)
      | some pos =>
        placeOrder js contract
          { action := pos.closingAction, orderType := "MKT", totalQuantity := q, tif := "DAY" }
          none

def broker : Adapter Request where
  getNativeKey contract := contract.symbol
  resolveNativeKey nativeKey := makeContract nativeKey
  placeOrder := placeOrder js
  closePosition := closePosition js

/-! ## What leaves for the venue -/

def Request.symbol : Request → Option String
  | .createOrder order => some order.symbol
  | .closePosition symbol => some symbol
  | .replaceOrder .. => none

variable {c : BrokerContract}

theorem resolveSymbol_eq_some {s : String}
    (h : resolveSymbol js c = some s) : c.symbol ≠ "" ∧ s = js.toUpperCase c.symbol := by
  rw [resolveSymbol] at h
  split at h
  · exact nomatch h
  rename_i hs
  split at h
  · exact nomatch h
  · cases h
    exact ⟨hs, rfl⟩

variable {js}

theorem placeOrder_ok {o : BrokerOrder} {t : Option TpSlParams} {r : Request}
    (h : placeOrder js c o t = .ok r) :
    ∃ symbol, resolveSymbol js c = some symbol ∧ r = .createOrder (newOrder js symbol o t) := by
  rw [placeOrder] at h
  split at h
  · exact nomatch h
  rename_i symbol hs
  cases h
  exact ⟨symbol, hs, rfl⟩

theorem placeOrder_symbol {o : BrokerOrder} {t : Option TpSlParams}
    {r : Request} (h : placeOrder js c o t = .ok r) :
    ∃ symbol, resolveSymbol js c = some symbol ∧ r.symbol = some symbol := by
  obtain ⟨symbol, hs, rfl⟩ := placeOrder_ok h
  exact ⟨symbol, hs, rfl⟩

theorem closePosition_symbol {ps : List BrokerPosition} {q : Option Decimal}
    {r : Request} (h : closePosition js ps c q = .ok r) :
    ∃ symbol, resolveSymbol js c = some symbol ∧ r.symbol = some symbol := by
  rw [closePosition] at h
  split at h
  · exact nomatch h
  rename_i symbol hs
  cases q with
  | none =>
    cases h
    exact ⟨symbol, hs, rfl⟩
  | some q =>
    dsimp only at h
    split at h
    · exact nomatch h
    · exact placeOrder_symbol h

end OpenAlice.Trading.Brokers.Alpaca
