import OpenAlice.Trading.Brokers.Types

/-!
# The Longbridge adapter

`brokers/longbridge/LongbridgeBroker.ts` and `longbridge-contracts.ts`: stocks under
a suffixed symbol such as `700.HK`, which is the native key.  The decimals of a
request go out as they are.
-/

namespace OpenAlice.Trading.Brokers.Longbridge

variable (js : Js)

/-! ## Contracts -/

def suffixTable (suffix : String) : Option (String × String) :=
  match suffix with
  | "HK" => some ("SEHK", "HKD")
  | "US" => some ("SMART", "USD")
  | "SH" => some ("SSE", "CNY")
  | "SZ" => some ("SZSE", "CNY")
  | "SG" => some ("SGX", "SGD")
  | _ => none

/-- The ticker and the suffix of a symbol, a bare ticker being a US one. -/
def parseLbSymbol (lbSymbol : String) : String × String :=
  match splitLast '.' lbSymbol with
  | none => (js.toUpperCase lbSymbol, "US")
  | some (ticker, suffix) => (ticker, js.toUpperCase suffix)

def makeContract (lbSymbol : String) : Except String BrokerContract :=
  let (ticker, suffix) := parseLbSymbol js lbSymbol
  let info := (suffixTable suffix).getD ("SMART", "USD")
  buildContract { symbol := ticker, secType := "STK", exchange := info.1, currency := info.2 }
    (some lbSymbol)

def inferSuffixFromCurrency (currency : String) : String :=
  match js.toUpperCase currency with
  | "HKD" => "HK"
  | "CNY" | "CNH" => "SH"
  | "SGD" => "SG"
  | _ => "US"

/-- The local symbol, the key in the `aliceId`, or the symbol with the
suffix its currency suggests. -/
def resolveSymbol (contract : BrokerContract) : Option String :=
  if includes contract.localSymbol '.' then some contract.localSymbol
  else
    match (contract.aliceId.bind parseAliceId).map (·.2) with
    | some native =>
      if includes native '.' then some native else fromCurrency contract
    | none => fromCurrency contract
where
  fromCurrency (contract : BrokerContract) : Option String :=
    if contract.symbol = "" then none
    else some (contract.symbol ++ "." ++ inferSuffixFromCurrency js contract.currency)

/-! ## Requests -/

inductive LbOrderType where
  | ELO
  | MO
  | LO
  | MIT
  | LIT
  | TSMPCT
  | TSLPPCT

inductive TimeInForceType where
  | Day
  | GoodTilCanceled
  | GoodTilDate

def ibkrOrderTypeToLb (ibkrType marketSuffix : String) : Option LbOrderType :=
  match ibkrType with
  | "MKT" => some (if marketSuffix = "HK" then .ELO else .MO)
  | "LMT" => some .LO
  | "STP" => some .MIT
  | "STP LMT" => some .LIT
  | "TRAIL" => some .TSMPCT
  | "TRAIL LIMIT" => some .TSLPPCT
  | _ => none

def ibkrTifToLb (tif : String) : Option TimeInForceType :=
  match tif with
  | "DAY" | "" => some .Day
  | "GTC" => some .GoodTilCanceled
  | "GTD" => some .GoodTilDate
  | "IOC" | "FOK" | "OPG" => none
  | _ => some .Day

/-- The options of `submitOrder`. -/
structure SubmitOrderOptions where
  symbol : String
  orderType : LbOrderType
  side : OrderAction
  timeInForce : TimeInForceType
  submittedQuantity : Decimal
  submittedPrice : Option Decimal
  triggerPrice : Option Decimal
  trailingPercent : Option Decimal

/-- The options of `replaceOrder`. -/
structure ReplaceOrderOptions where
  orderId : String
  quantity : Decimal
  price : Option Decimal
  triggerPrice : Option Decimal

/-! ## Trading operations -/

/-- `placeOrder`; the protective prices are not read. -/
def placeOrder (contract : BrokerContract) (order : BrokerOrder) (_tpsl : Option TpSlParams) :
    Except String SubmitOrderOptions :=
  match resolveSymbol js contract with
  | none => .error "Cannot resolve contract to Longbridge symbol"
  | some symbol =>
    match ibkrOrderTypeToLb order.orderType (parseLbSymbol js symbol).2 with
    | none => .error ("Order type \"" ++ order.orderType ++ "\" is not supported by Longbridge")
    | some lbType =>
      match ibkrTifToLb order.tif with
      | none =>
        .error ("Time-in-force \"" ++ order.tif ++
          "\" is not supported by Longbridge (only DAY/GTC/GTD)")
      | some lbTif =>
        if order.totalQuantity = unsetDecimal ∨ order.totalQuantity ≤ 0 then
          .error "totalQuantity must be > 0 for Longbridge orders"
        else
          .ok
            { symbol := symbol
              orderType := lbType
              side := if order.action = "BUY" then .BUY else .SELL
              timeInForce := lbTif
              submittedQuantity := order.totalQuantity
              submittedPrice := field order.lmtPrice
              triggerPrice := field order.auxPrice
              trailingPercent := field order.trailingPercent }

def modifyOrder (orderId : String) (changes : OrderChanges) : Except String ReplaceOrderOptions :=
  match changed changes.totalQuantity with
  | none => .error "modifyOrder requires totalQuantity for Longbridge"
  | some quantity =>
    .ok
      { orderId := orderId
        quantity := quantity
        price := changed changes.lmtPrice
        triggerPrice := changed changes.auxPrice }

def closePosition (positions : List BrokerPosition) (contract : BrokerContract)
    (quantity : Option Decimal) : Except String SubmitOrderOptions :=
  match resolveSymbol js contract with
  | none => .error "Cannot resolve contract to Longbridge symbol"
  | some symbol =>
    match positions.find? fun p ↦ resolveSymbol js p.contract = some symbol with
    | none => .error ("No position for " ++ symbol)
    | some pos =>
      placeOrder js contract
        { action := pos.closingAction
          orderType := "MKT"
          totalQuantity := quantity.getD pos.quantity
          tif := "DAY" }
        none

def broker : Adapter SubmitOrderOptions where
  getNativeKey contract := (resolveSymbol js contract).getD contract.symbol
  resolveNativeKey := makeContract js
  placeOrder := placeOrder js
  closePosition := closePosition js

/-! ## What leaves for the venue -/

variable {js}

theorem placeOrder_ok {c : BrokerContract} {o : BrokerOrder} {t : Option TpSlParams}
    {r : SubmitOrderOptions} (h : placeOrder js c o t = .ok r) :
    resolveSymbol js c = some r.symbol ∧
      ibkrOrderTypeToLb o.orderType (parseLbSymbol js r.symbol).2 = some r.orderType ∧
      ibkrTifToLb o.tif = some r.timeInForce ∧ o.totalQuantity ≠ unsetDecimal ∧
      r.side = (if o.action = "BUY" then .BUY else .SELL) ∧
      r.submittedQuantity = o.totalQuantity ∧ r.submittedPrice = field o.lmtPrice ∧
      r.triggerPrice = field o.auxPrice ∧ r.trailingPercent = field o.trailingPercent := by
  rw [placeOrder] at h
  split at h
  · exact nomatch h
  rename_i symbol hs
  split at h
  · exact nomatch h
  rename_i lbType htype
  split at h
  · exact nomatch h
  rename_i lbTif htif
  split at h
  · exact nomatch h
  rename_i hq
  cases h
  exact ⟨hs, htype, htif, fun hu ↦ hq (.inl hu), rfl, rfl, rfl, rfl, rfl⟩

theorem closePosition_symbol {ps : List BrokerPosition} {c : BrokerContract} {q : Option Decimal}
    {r : SubmitOrderOptions} (h : closePosition js ps c q = .ok r) :
    resolveSymbol js c = some r.symbol := by
  rw [closePosition] at h
  split at h
  · exact nomatch h
  split at h
  · exact nomatch h
  · exact (placeOrder_ok h).1

theorem modifyOrder_ok {orderId : String} {changes : OrderChanges} {r : ReplaceOrderOptions}
    (h : modifyOrder orderId changes = .ok r) :
    changed changes.totalQuantity = some r.quantity ∧ r.price = changed changes.lmtPrice ∧
      r.triggerPrice = changed changes.auxPrice := by
  rw [modifyOrder] at h
  split at h
  · exact nomatch h
  rename_i quantity hq
  cases h
  exact ⟨hq, rfl, rfl⟩

end OpenAlice.Trading.Brokers.Longbridge
