import OpenAlice.Trading.Brokers.Staging

/-!
# Staging for a wallet

The staging methods of `services/uta/src/domain/trading/UnifiedTradingAccount.ts` up to `git.add`,
with the order in which they do things: the sub-account that an operation was resolved to is put
aside before the numbers of the order are read, and reading them may throw.

The texts of the numbers are read by `decimal.js`, which is a parameter.  The protective prices are
staged as texts, and stand here as the numbers they denote.
-/

namespace OpenAlice.Trading.SubAccounts

open Brokers

/-- What `decimal.js` makes of a text. -/
structure Decimals where
  /-- `new Decimal(text)`, where it does not throw.  What is not finite stands as some number. -/
  parse : String → Option Decimal
  isFinite : String → Bool

/-- `StagePlaceOrderParams`, with the texts of its numbers; `parentId` and `ocaGroup` are not read
here. -/
structure PlaceOrderParams where
  aliceId : String
  symbol : Option String := none
  subAccountId : Option String := none
  action : OrderAction
  orderType : String
  totalQuantity : Option String := none
  cashQty : Option String := none
  lmtPrice : Option String := none
  auxPrice : Option String := none
  trailStopPrice : Option String := none
  trailingPercent : Option String := none
  tif : Option String := none
  takeProfit : Option Decimal := none
  stopLoss : Option (Decimal × Option Decimal) := none

/-- `StageModifyOrderParams`, without `goodTillDate`. -/
structure ModifyOrderParams where
  orderId : String
  totalQuantity : Option String := none
  lmtPrice : Option String := none
  auxPrice : Option String := none
  trailStopPrice : Option String := none
  trailingPercent : Option String := none
  orderType : Option String := none
  tif : Option String := none

/-- `StageClosePositionParams`, with the text of its quantity. -/
structure ClosePositionParams where
  aliceId : String
  symbol : Option String := none
  subAccountId : Option String := none
  qty : Option String := none

def present (text : Option String) : Option Decimal :=
  if text.any (· ≠ "") then some 0 else none

/-- The parameters as `_validatePlaceOrderParams` looks at them: which fields are there. -/
def PlaceOrderParams.presence (p : PlaceOrderParams) : StagePlaceOrderParams where
  aliceId := p.aliceId
  action := p.action
  orderType := p.orderType
  totalQuantity := present p.totalQuantity
  cashQty := present p.cashQty
  lmtPrice := present p.lmtPrice
  auxPrice := present p.auxPrice
  trailingPercent := present p.trailingPercent

variable {Request : Type} (dec : Decimals) (acct : Account) (broker : Adapter Request)

/-- `new Decimal(String(value))` of a field that is there. -/
def decimalField (text : Option String) : Except String (Option Decimal) :=
  match text with
  | none => .ok none
  | some text =>
    match dec.parse text with
    | some d => .ok (some d)
    | none => .error ("[DecimalError] Invalid argument: " ++ text)

/-- The order that `stagePlaceOrder` builds. -/
def orderOf (p : PlaceOrderParams) : Except String Order := do
  let totalQuantity ← decimalField dec p.totalQuantity
  let cashQty ← decimalField dec p.cashQty
  let lmtPrice ← decimalField dec p.lmtPrice
  let auxPrice ← decimalField dec p.auxPrice
  let trailStopPrice ← decimalField dec p.trailStopPrice
  let trailingPercent ← decimalField dec p.trailingPercent
  return {
    action := some p.action.toText
    orderType := some p.orderType
    tif := some (p.tif.getD "DAY")
    totalQuantity := some (totalQuantity.getD unsetDecimal)
    cashQty := some (cashQty.getD unsetDecimal)
    lmtPrice := some (lmtPrice.getD unsetDecimal)
    auxPrice := some (auxPrice.getD unsetDecimal)
    trailStopPrice := some (trailStopPrice.getD unsetDecimal)
    trailingPercent := some (trailingPercent.getD unsetDecimal)
    filledQuantity := some unsetDecimal }

/-- What a staging method puts aside, and the operation that it hands to `git.add`, unless it
throws before. -/
abbrev Prepared := Option String × Except String Operation

/-- The sub-account that the first half of a staging method resolved, with what it found. -/
def Prepared.after {α : Type} (resolved : Except String (α × Option String))
    (build : α → Except String Operation) : Prepared :=
  match resolved with
  | .error e => (none, .error e)
  | .ok (found, subAccountId) => (subAccountId, build found)

def stagePlaceOrder (p : PlaceOrderParams) : Prepared :=
  Prepared.after
    (do
      acct.assertCanCreateProposal
      Account.validatePlaceOrderParams p.presence
      let contract ← acct.contractFromAliceId broker p.aliceId
      let contract := Account.overrideSymbol contract p.symbol
      return (contract, ← acct.resolveWriteSubAccount contract p.subAccountId))
    fun contract ↦ do
      let order ← orderOf dec p
      let tpsl : Option TpSlParams :=
        if p.takeProfit.isSome || p.stopLoss.isSome then
          some { takeProfit := p.takeProfit, stopLoss := p.stopLoss }
        else none
      return .placeOrder contract.toContract order tpsl

def stageModifyOrder (p : ModifyOrderParams) : Prepared :=
  (none, do
    acct.assertCanCreateProposal
    let totalQuantity ← decimalField dec p.totalQuantity
    let lmtPrice ← decimalField dec p.lmtPrice
    let auxPrice ← decimalField dec p.auxPrice
    let trailStopPrice ← decimalField dec p.trailStopPrice
    let trailingPercent ← decimalField dec p.trailingPercent
    return .modifyOrder p.orderId
      { totalQuantity, lmtPrice, auxPrice, trailStopPrice, trailingPercent
        orderType := p.orderType, tif := p.tif })

/-- The quantity of `stageClosePosition`. -/
def closeQuantity (qty : Option String) : Except String (Option Decimal) :=
  match qty with
  | none => .ok none
  | some text =>
    match dec.parse text with
    | some q =>
      if !dec.isFinite text || q ≤ 0 then
        .error "closePosition: qty must be a positive finite number."
      else .ok (some q)
    | none => .error "closePosition: qty must be a positive finite number."

def stageClosePosition (p : ClosePositionParams) : Prepared :=
  Prepared.after
    (do
      acct.assertCanCreateProposal
      let contract ← acct.contractFromAliceId broker p.aliceId
      let contract := Account.overrideSymbol contract p.symbol
      let quantity ← closeQuantity dec p.qty
      return ((contract, quantity), ← acct.resolveWriteSubAccount contract p.subAccountId))
    fun (contract, quantity) ↦ .ok (.closePosition contract.toContract quantity)

def stageCancelOrder (orderId : String) : Prepared :=
  (none, do
    acct.assertCanCreateProposal
    return .cancelOrder orderId)

inductive StageCall where
  | placeOrder (params : PlaceOrderParams)
  | modifyOrder (params : ModifyOrderParams)
  | closePosition (params : ClosePositionParams)
  | cancelOrder (orderId : String)

def StageCall.prepare : StageCall → Prepared
  | .placeOrder params => stagePlaceOrder dec acct broker params
  | .modifyOrder params => stageModifyOrder dec acct params
  | .closePosition params => stageClosePosition dec acct broker params
  | .cancelOrder orderId => stageCancelOrder acct orderId

end OpenAlice.Trading.SubAccounts
