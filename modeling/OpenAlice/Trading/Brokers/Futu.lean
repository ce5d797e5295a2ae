import OpenAlice.Trading.Brokers.Types

/-!
# The Futu adapter

`brokers/futu/FutuBroker.ts` and `futu-contracts.ts`: stocks under a prefixed key
such as `HK.00700`.  A request goes out under the header of the connection, which
names the market the account trades in; beside it only the bare code is sent.
-/

namespace OpenAlice.Trading.Brokers.Futu

variable (js : Js)

/-! ## Contracts -/

def prefixTable (pre : String) : Option (String × String) :=
  match pre with
  | "HK" => some ("SEHK", "HKD")
  | "US" => some ("SMART", "USD")
  | "SH" => some ("SSE", "CNH")
  | "SZ" => some ("SZSE", "CNH")
  | "SG" => some ("SGX", "SGD")
  | "JP" => some ("TSEJ", "JPY")
  | _ => none

def parseFutuKey (key : String) : String × String :=
  match splitFirst '.' key with
  | none => ("US", js.toUpperCase key)
  | some (pre, code) =>
    if (prefixTable (js.toUpperCase pre)).isSome then (js.toUpperCase pre, code)
    else ("US", js.toUpperCase key)

def makeContract (futuKey : String) : Except String BrokerContract :=
  let (pre, code) := parseFutuKey js futuKey
  let info := (prefixTable pre).getD ("SMART", "USD")
  buildContract { symbol := code, secType := "STK", exchange := info.1, currency := info.2 }
    (some (pre ++ "." ++ code))

def inferPrefixFromCurrency (currency : String) : String :=
  match js.toUpperCase currency with
  | "HKD" => "HK"
  | "CNY" | "CNH" => "SH"
  | "SGD" => "SG"
  | "JPY" => "JP"
  | _ => "US"

/-- The local symbol, the key in the `aliceId`, or the symbol with the
prefix its currency suggests. -/
def resolveFutuKey (contract : BrokerContract) : Option String :=
  if includes contract.localSymbol '.' ∧
      (prefixTable (parseFutuKey js contract.localSymbol).1).isSome then
    some contract.localSymbol
  else
    match (contract.aliceId.bind parseAliceId).map (·.2) with
    | some native =>
      if includes native '.' then some native else fromCurrency contract
    | none => fromCurrency contract
where
  fromCurrency (contract : BrokerContract) : Option String :=
    if contract.symbol = "" then none
    else some (inferPrefixFromCurrency js contract.currency ++ "." ++ contract.symbol)

/-! ## Requests -/

/-- `FutuTrdMarket`: the markets an account trades in. -/
inductive TrdMarket where
  | HK
  | US
  | CN
  | SG
  | JP

/-- `FutuOrderType`, of which only these are sent. -/
inductive FutuOrderType where
  | Normal
  | Market
  | Stop
  | StopLimit

def futuSideByAction (action : String) : Option OrderAction :=
  match action with
  | "BUY" => some .BUY
  | "SELL" => some .SELL
  | _ => none

def futuOrderTypeByIbkr (orderType : String) : Option FutuOrderType :=
  match orderType with
  | "MKT" => some .Market
  | "LMT" => some .Normal
  | "STP" => some .Stop
  | "STP LMT" => some .StopLimit
  | _ => none

def FutuOrderType.needsPrice : FutuOrderType → Bool
  | .Normal | .StopLimit => true
  | .Market | .Stop => false

def FutuOrderType.needsAux : FutuOrderType → Bool
  | .Stop | .StopLimit => true
  | .Market | .Normal => false

/-- What `placeOrder` hands to the gateway.  The gateway has a field `timeInForce` too, which
the adapter never sets. -/
structure PlaceOrderParams where
  trdMarket : TrdMarket
  trdSide : OrderAction
  orderType : FutuOrderType
  code : String
  qty : Decimal
  price : Option Decimal
  auxPrice : Option Decimal

/-- What `modifyOrder` hands to the gateway. -/
structure ModifyOrderParams where
  orderID : String
  qty : Option Decimal
  price : Option Decimal
  auxPrice : Option Decimal

/-! ## Trading operations -/

/-- `placeOrder` under the header of the connection. -/
def placeOrder (trdMarket : TrdMarket) (contract : BrokerContract) (order : BrokerOrder)
    (tpsl : Option TpSlParams) : Except String PlaceOrderParams :=
  if (tpsl.bind (·.takeProfit)).isSome || (tpsl.bind (·.stopLoss)).isSome then
    .error ("Futu adapter does not support bracket take-profit/stop-loss legs yet — place the " ++
      "protective order as a separate order.")
  else
    match resolveFutuKey js contract with
    | none => .error "Cannot resolve contract to a Futu market/code key"
    | some key =>
      match futuSideByAction order.action with
      | none =>
        .error ("Unsupported order action for Futu: " ++
          (truthy (some order.action)).getD "(empty)")
      | some trdSide =>
        match futuOrderTypeByIbkr order.orderType with
        | none =>
          .error ("Unsupported order type for Futu: " ++
            (truthy (some order.orderType)).getD "(empty)" ++
            " (supported: MKT, LMT, STP, STP LMT)")
        | some orderType =>
          if order.totalQuantity = unsetDecimal ∨ order.totalQuantity ≤ 0 then
            .error "Invalid or missing order quantity"
          else if orderType.needsPrice ∧ order.lmtPrice = unsetDecimal then
            .error "Limit price is required for this order type"
          else if orderType.needsAux ∧ order.auxPrice = unsetDecimal then
            .error "Trigger (aux) price is required for this order type"
          else
            .ok
              { trdMarket := trdMarket
                trdSide := trdSide
                orderType := orderType
                code := (parseFutuKey js key).2
                qty := js.toNumber order.totalQuantity
                price :=
                  if orderType.needsPrice then some (js.toNumber order.lmtPrice) else none
                auxPrice :=
                  if orderType.needsAux then some (js.toNumber order.auxPrice) else none }

def modifyOrder (orderId : String) (changes : OrderChanges) : Except String ModifyOrderParams :=
  let qty := (changed changes.totalQuantity).map js.toNumber
  let price := (changed changes.lmtPrice).map js.toNumber
  let auxPrice := (changed changes.auxPrice).map js.toNumber
  if qty = none ∧ price = none ∧ auxPrice = none then
    .error "No modifiable fields provided (only qty/lmtPrice/auxPrice are supported)"
  else .ok { orderID := orderId, qty := qty, price := price, auxPrice := auxPrice }

def getNativeKey (contract : BrokerContract) : String :=
  (resolveFutuKey js contract).getD contract.symbol

/-- The quantity `closePosition` sells back: what is asked for, and no more than is held. -/
def closeQuantity (quantity : Option Decimal) (pos : BrokerPosition) : Decimal :=
  match quantity with
  | some q => if q > 0 then min q pos.quantity else pos.quantity
  | none => pos.quantity

def closePosition (trdMarket : TrdMarket) (positions : List BrokerPosition)
    (contract : BrokerContract) (quantity : Option Decimal) : Except String PlaceOrderParams :=
  match resolveFutuKey js contract with
  | none => .error "Cannot resolve contract to a Futu market/code key"
  | some key =>
    match positions.find? fun p ↦ getNativeKey js p.contract = key with
    | none => .error ("No open position for " ++ key)
    | some pos =>
      if closeQuantity quantity pos ≤ 0 then .error "Nothing to close"
      else
        placeOrder js trdMarket contract
          { action := pos.closingAction
            orderType := "MKT"
            totalQuantity := closeQuantity quantity pos }
          none

def broker (trdMarket : TrdMarket) : Adapter PlaceOrderParams where
  getNativeKey := getNativeKey js
  resolveNativeKey := makeContract js
  placeOrder := placeOrder js trdMarket
  closePosition := closePosition js trdMarket

/-! ## What leaves for the venue -/

variable {js}

theorem placeOrder_ok {m : TrdMarket} {c : BrokerContract} {o : BrokerOrder}
    {t : Option TpSlParams} {r : PlaceOrderParams} (h : placeOrder js m c o t = .ok r) :
    t.bind (·.takeProfit) = none ∧ t.bind (·.stopLoss) = none ∧ r.trdMarket = m ∧
      (∃ key, resolveFutuKey js c = some key ∧ r.code = (parseFutuKey js key).2) ∧
      futuSideByAction o.action = some r.trdSide ∧
      futuOrderTypeByIbkr o.orderType = some r.orderType ∧ o.totalQuantity ≠ unsetDecimal ∧
      r.qty = js.toNumber o.totalQuantity ∧
      (r.orderType.needsPrice → o.lmtPrice ≠ unsetDecimal) ∧
      r.price = (if r.orderType.needsPrice then some (js.toNumber o.lmtPrice) else none) ∧
      (r.orderType.needsAux → o.auxPrice ≠ unsetDecimal) ∧
      r.auxPrice = (if r.orderType.needsAux then some (js.toNumber o.auxPrice) else none) := by
  rw [placeOrder] at h
  split at h
  · exact nomatch h
  rename_i hlegs
  rw [Bool.or_eq_true, not_or, Bool.not_eq_true, Option.isSome_eq_false_iff,
    Option.isNone_iff_eq_none, Bool.not_eq_true, Option.isSome_eq_false_iff,
    Option.isNone_iff_eq_none] at hlegs
  split at h
  · exact nomatch h
  rename_i key hkey
  split at h
  · exact nomatch h
  rename_i side hside
  split at h
  · exact nomatch h
  rename_i type htype
  split at h
  · exact nomatch h
  rename_i hq
  split at h
  · exact nomatch h
  rename_i hp
  split at h
  · exact nomatch h
  rename_i ha
  cases h
  exact ⟨hlegs.1, hlegs.2, rfl, ⟨key, hkey, rfl⟩, hside, htype,
    fun hu ↦ hq (.inl hu), rfl, fun hn hu ↦ hp ⟨hn, hu⟩, rfl,
    fun hn hu ↦ ha ⟨hn, hu⟩, rfl⟩

theorem modifyOrder_ok {orderId : String} {changes : OrderChanges} {r : ModifyOrderParams}
    (h : modifyOrder js orderId changes = .ok r) :
    r.qty = (changed changes.totalQuantity).map js.toNumber ∧
      r.price = (changed changes.lmtPrice).map js.toNumber ∧
      r.auxPrice = (changed changes.auxPrice).map js.toNumber := by
  simp only [modifyOrder] at h
  split at h
  · exact nomatch h
  · cases h
    exact ⟨rfl, rfl, rfl⟩

theorem closePosition_ok {m : TrdMarket} {ps : List BrokerPosition} {c : BrokerContract}
    {q : Option Decimal} {r : PlaceOrderParams} (h : closePosition js m ps c q = .ok r) :
    ∃ order, placeOrder js m c order none = .ok r := by
  rw [closePosition] at h
  split at h
  · exact nomatch h
  split at h
  · exact nomatch h
  split at h
  · exact nomatch h
  · exact ⟨_, h⟩

end OpenAlice.Trading.Brokers.Futu
